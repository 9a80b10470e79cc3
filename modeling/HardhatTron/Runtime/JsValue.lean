import HardhatTron.Lib.Number
import Mathlib.Data.List.Sort
import Mathlib.Data.List.Lex
/-!
# JavaScript values as call arguments

The plain data an argument list holds: primitives, arrays and objects with
their own fields. Strings are lists of code points. A number is kept as the
text `String(n)` prints for it, which is all the bridge looks at.

No function here observes the order in which an object's fields were created,
so a value is `canonical` when every object lists its fields in the order
`Object.keys(v).sort()` gives.
-/
namespace HardhatTron

open Lib

abbrev JsString := List Char

/-! ## Values -/

def isNumeral : JsString → Bool
  | [] => false
  | c :: cs => "0123456789-IN".toList.contains c && cs.all "0123456789-+.eInfityNa".toList.contains

/-- A number, as `String(n)`. -/
structure Numeral where
  text : JsString
  numeral : isNumeral text = true
  deriving DecidableEq

inductive JsValue where
  | undefined
  | null
  | bool (b : Bool)
  | num (n : Numeral)
  | bigint (i : Int)
  | str (s : JsString)
  | typedSymbol
  | arr (vs : List JsValue)
  | obj (fields : List (JsString × JsValue))

abbrev Fields := List (JsString × JsValue)

/-- `name in v` -/
def hasField (fs : Fields) (name : String) : Bool := (fs.lookup name.toList).isSome

/-- `v[name]`, when it is a string. -/
def stringField (fs : Fields) (name : String) : Option JsString :=
  match fs.lookup name.toList with
  | some (.str s) => some s
  | _ => none

/-- `v[name]` -/
def JsValue.get (name : String) : JsValue → JsValue
  | .obj fs => (fs.lookup name.toList).getD .undefined
  | _ => .undefined

/-- `v == null` -/
def JsValue.isNullish : JsValue → Bool
  | .undefined => true
  | .null => true
  | _ => false

/-- `Boolean(v)` -/
def JsValue.truthy : JsValue → Bool
  | .undefined => false
  | .null => false
  | .bool b => b
  | .num n => n.text ≠ ['0'] && n.text ≠ "NaN".toList
  | .bigint i => i ≠ 0
  | .str s => s ≠ []
  | _ => true

/-! ## Field order -/

/-- The UTF-16 code units of a code point. -/
def utf16 (c : Char) : List Nat :=
  if c.toNat < 0x10000 then [c.toNat]
  else [0xD800 + (c.toNat - 0x10000) / 0x400, 0xDC00 + (c.toNat - 0x10000) % 0x400]

/-- The order of `keys.sort()`: by UTF-16 code units. -/
def nameLE (a b : JsString) : Prop := a.flatMap utf16 ≤ b.flatMap utf16

def nameLT (a b : JsString) : Prop := a.flatMap utf16 < b.flatMap utf16

instance : DecidableRel nameLE := fun a b => inferInstanceAs (Decidable (a.flatMap utf16 ≤ b.flatMap utf16))

instance : DecidableRel nameLT := fun a b => inferInstanceAs (Decidable (a.flatMap utf16 < b.flatMap utf16))

/-- Fields in the order of their names. -/
def sortFields {α : Type} (fs : List (JsString × α)) : List (JsString × α) :=
  fs.insertionSort fun f g => nameLE f.1 g.1

mutual
/-- Every object lists its fields in order of names, each name once. -/
def JsValue.canonical : JsValue → Bool
  | .arr vs => canonicalAll vs
  | .obj fs => decide ((fs.map Prod.fst).Pairwise nameLT) && canonicalFields fs
  | _ => true

def JsValue.canonicalAll : List JsValue → Bool
  | [] => true
  | v :: vs => v.canonical && canonicalAll vs

def JsValue.canonicalFields : List (JsString × JsValue) → Bool
  | [] => true
  | (_, v) :: fs => v.canonical && canonicalFields fs
end

theorem JsValue.canonicalAll_iff (vs : List JsValue) : canonicalAll vs = true ↔ ∀ v ∈ vs, v.canonical = true := by
  induction vs with
  | nil => simp [canonicalAll]
  | cons v vs ih => simp [canonicalAll, ih]

theorem JsValue.canonicalFields_iff (fs : Fields) :
    canonicalFields fs = true ↔ ∀ f ∈ fs, f.2.canonical = true := by
  induction fs with
  | nil => simp [canonicalFields]
  | cons f fs ih => obtain ⟨k, v⟩ := f; simp [canonicalFields, ih]

theorem JsValue.canonical_arr {vs : List JsValue} :
    (JsValue.arr vs).canonical = true ↔ ∀ v ∈ vs, v.canonical = true := by
  rw [canonical, canonicalAll_iff]

theorem JsValue.canonical_obj {fs : Fields} : (JsValue.obj fs).canonical = true ↔
    (fs.map Prod.fst).Pairwise nameLT ∧ ∀ f ∈ fs, f.2.canonical = true := by
  rw [canonical, Bool.and_eq_true, canonicalFields_iff, decide_eq_true_eq]

theorem sortFields_eq_self {α : Type} {fs : List (JsString × α)} (h : (fs.map Prod.fst).Pairwise nameLT) :
    sortFields fs = fs := by
  apply List.Pairwise.insertionSort_eq
  exact (List.pairwise_map.1 h).imp fun {a b} hab => le_of_lt hab

/-! ## Conversions -/

/-- A bigint in base 10. -/
def decimal (i : Int) : JsString :=
  if i < 0 then '-' :: Nat.toDigits 10 i.natAbs else Nat.toDigits 10 i.natAbs

/-- The digits of a base, at least one. -/
def digitsOf (base : Nat) (l : JsString) : Option Nat :=
  if l ≠ [] ∧ l.all (fun c => isHexDigit c && decide (hexValue c < base)) then
    some (l.foldl (fun n c => base * n + hexValue c) 0)
  else none

/-- The integer a numeral denotes, if it denotes one. `String(n)` writes
integers from `10 ^ 21` on with an exponent. -/
def integerOfNumeral (t : JsString) : Option Int :=
  let (negative, body) := match t with
    | '-' :: body => (true, body)
    | _ => (false, t)
  let magnitude : Option Nat := match body.splitOn 'e' with
    | [m] => digitsOf 10 m
    | [m, '+' :: x] =>
      match m.splitOn '.', digitsOf 10 x with
      | [ip], some n => (digitsOf 10 ip).map fun d => toDouble (d * 10 ^ n)
      | [ip, fp], some n =>
        if fp.length ≤ n then (digitsOf 10 (ip ++ fp)).map fun d => toDouble (d * 10 ^ (n - fp.length)) else none
      | _, _ => none
    | _ => none
  magnitude.map fun d => if negative then -(d : Int) else d

/-- The integer a trimmed string literal denotes. -/
def integerOfText (t : JsString) : Option Int :=
  match t with
  | [] => some 0
  | '0' :: 'x' :: ds => (digitsOf 16 ds).map Int.ofNat
  | '0' :: 'X' :: ds => (digitsOf 16 ds).map Int.ofNat
  | '0' :: 'o' :: ds => (digitsOf 8 ds).map Int.ofNat
  | '0' :: 'O' :: ds => (digitsOf 8 ds).map Int.ofNat
  | '0' :: 'b' :: ds => (digitsOf 2 ds).map Int.ofNat
  | '0' :: 'B' :: ds => (digitsOf 2 ds).map Int.ofNat
  | '-' :: ds => (digitsOf 10 ds).map fun d => -(d : Int)
  | '+' :: ds => (digitsOf 10 ds).map Int.ofNat
  | ds => (digitsOf 10 ds).map Int.ofNat

/-- `String(v)` of an array, where it can be an integer: with two elements it has a comma. -/
def singleText : JsValue → Option JsString
  | .undefined => some []
  | .null => some []
  | .num n => some n.text
  | .bigint i => some (decimal i)
  | .str s => some s
  | .arr [] => some []
  | .arr [v] => singleText v
  | _ => none

def trim (s : JsString) : JsString :=
  ((s.dropWhile Char.isWhitespace).reverse.dropWhile Char.isWhitespace).reverse

/-- `BigInt(v)`, or that it throws. -/
def toBigInt : JsValue → Option Int
  | .bigint i => some i
  | .bool b => some (if b then 1 else 0)
  | .num n => integerOfNumeral n.text
  | .str s => integerOfText (trim s)
  | .arr vs => (singleText (.arr vs)).bind fun s => integerOfText (trim s)
  | _ => none

theorem decimal_injective : Function.Injective decimal := by
  have hdigits : ∀ {m n : Nat}, Nat.toDigits 10 m = Nat.toDigits 10 n → m = n := by
    intro m n h
    rw [← Nat.ofDigitChars_ten_toDigits (n := m), h, Nat.ofDigitChars_ten_toDigits]
  have hminus : ∀ {n : Nat} {u : List Char}, Nat.toDigits 10 n ≠ '-' :: u := by
    intro n u h
    have hd := Nat.isDigit_of_mem_toDigits (b := 10) (n := n) (by omega) (by omega) (h ▸ List.mem_cons_self)
    exact absurd hd (by decide)
  intro i j h
  unfold decimal at h
  split at h <;> split at h
  · have := hdigits (List.cons.inj h).2
    omega
  · exact absurd h.symm hminus
  · exact absurd h hminus
  · have := hdigits h
    omega

end HardhatTron

import Mathlib.Data.Nat.Log
import Mathlib.Tactic.IntervalCases
/-!
# Integers as 64-bit words, hexadecimal numerals and doubles

`toHexString` writes a numeral in base 16 and `parseHex` reads one back.
`toDouble n` is the IEEE double nearest to the natural number `n`, ties to the
even significand; it is exact up to `2 ^ 53`, and `2 ^ 53 + 1` is the first
number it moves.
-/
namespace Lib

/-! ## Hexadecimal -/

def hexValue (c : Char) : Nat :=
  if '0' ≤ c ∧ c ≤ '9' then c.toNat - '0'.toNat
  else if 'a' ≤ c ∧ c ≤ 'f' then c.toNat - 'a'.toNat + 10
  else if 'A' ≤ c ∧ c ≤ 'F' then c.toNat - 'A'.toNat + 10
  else 0

def parseHex (l : List Char) : Nat := l.foldl (fun n c => 16 * n + hexValue c) 0

def toHexString (n : Nat) : List Char := Nat.toDigits 16 n

theorem hexValue_digitChar {d : Nat} (h : d < 16) : hexValue d.digitChar = d := by
  interval_cases d <;> rfl

theorem parseHex_append (l : List Char) (c : Char) : parseHex (l ++ [c]) = 16 * parseHex l + hexValue c := by
  simp [parseHex]

theorem parseHex_toHexString (n : Nat) : parseHex (toHexString n) = n := by
  induction n using Nat.strong_induction_on with
  | _ n ih =>
    unfold toHexString
    rw [Nat.toDigits_eq_if (by omega)]
    split
    · rename_i h
      simp [parseHex, hexValue_digitChar h]
    · have hlt : n % 16 < 16 := Nat.mod_lt _ (by omega)
      rw [parseHex_append, hexValue_digitChar hlt]
      have := ih (n / 16) (by omega)
      rw [toHexString] at this
      rw [this]
      omega

def isHexDigit (c : Char) : Bool := '0' ≤ c ∧ c ≤ '9' ∨ 'a' ≤ c ∧ c ≤ 'f' ∨ 'A' ≤ c ∧ c ≤ 'F'

theorem isHexDigit_digitChar {d : Nat} (h : d < 16) : isHexDigit d.digitChar = true := by
  interval_cases d <;> rfl

theorem toLower_toLower (c : Char) : c.toLower.toLower = c.toLower := by
  unfold Char.toLower
  split
  · rw [dif_neg]
    grind [UInt32.toNat_add, Char.toNat_val]
  · rfl

theorem isHexDigit_toLower {c : Char} (h : isHexDigit c = true) : isHexDigit c.toLower = true := by
  simp only [isHexDigit, decide_eq_true_eq, Char.le_def] at *
  unfold Char.toLower
  split <;> grind [UInt32.toNat_add, Char.toNat_val]

theorem isHexDigit_of_mem {n : Nat} : ∀ c ∈ toHexString n, isHexDigit c = true := by
  induction n using Nat.strong_induction_on with
  | _ n ih =>
    unfold toHexString
    rw [Nat.toDigits_eq_if (by omega)]
    split
    · rename_i h
      simp [isHexDigit_digitChar h]
    · intro c hc
      rcases List.mem_append.1 hc with hc | hc
      · exact ih (n / 16) (by omega) c hc
      · rw [List.mem_singleton] at hc
        subst hc
        exact isHexDigit_digitChar (Nat.mod_lt _ (by omega))

theorem toHexString_injective : Function.Injective toHexString :=
  Function.LeftInverse.injective parseHex_toHexString

/-! ## Doubles -/

/-- `n / 2 ^ e` rounded to an integer, ties to even, and scaled back. -/
def roundShift (n e : Nat) : Nat :=
  let q := n / 2 ^ e
  let r := n % 2 ^ e
  (if 2 ^ e < 2 * r ∨ (2 * r = 2 ^ e ∧ q % 2 = 1) then q + 1 else q) * 2 ^ e

/-- The double nearest to `n`: 53 significant bits. -/
def toDouble (n : Nat) : Nat := if n < 2 ^ 53 then n else roundShift n (Nat.log2 n - 52)

theorem toDouble_of_lt {n : Nat} (h : n < 2 ^ 53) : toDouble n = n := by
  rw [toDouble, if_pos h]

theorem toDouble_two_pow_53 : toDouble (2 ^ 53) = 2 ^ 53 := by decide +kernel

theorem toDouble_two_pow_53_succ : toDouble (2 ^ 53 + 1) = 2 ^ 53 := by decide +kernel

theorem toDouble_of_le {n : Nat} (h : n ≤ 2 ^ 53) : toDouble n = n := by
  rcases Nat.lt_or_eq_of_le h with h | rfl
  · exact toDouble_of_lt h
  · exact toDouble_two_pow_53

/-- The integers a double holds: those with at most 53 significant bits. -/
theorem toDouble_eq_self_iff (n : Nat) : toDouble n = n ↔ 2 ^ (Nat.log2 n - 52) ∣ n := by
  by_cases h : n < 2 ^ 53
  · rw [toDouble_of_lt h]
    have hlog : Nat.log2 n - 52 = 0 := by
      by_cases h0 : n = 0
      · subst h0; decide
      · have := (Nat.log2_lt h0).2 h
        omega
    simp [hlog]
  · rw [toDouble, if_neg h]
    constructor
    · intro heq
      rw [roundShift] at heq
      exact ⟨_, by rw [mul_comm]; exact heq.symm⟩
    · intro hd
      have hpos : 0 < 2 ^ (Nat.log2 n - 52) := Nat.pow_pos (by decide)
      have hr : n % 2 ^ (Nat.log2 n - 52) = 0 := Nat.mod_eq_zero_of_dvd hd
      rw [roundShift, hr, if_neg (by omega)]
      exact Nat.div_mul_cancel hd

/-- JavaScript's `Number(s)` on a hexadecimal literal; `none` is `NaN`. -/
def numberOfHex (s : String) : Option Nat :=
  match s.toList with
  | '0' :: 'x' :: d :: ds => if (d :: ds).all isHexDigit then some (toDouble (parseHex (d :: ds))) else none
  | _ => none

theorem numberOfHex_toHexString (n : Nat) :
    numberOfHex (String.ofList ('0' :: 'x' :: toHexString n)) = some (toDouble n) := by
  obtain ⟨d, ds, hd⟩ : ∃ d ds, toHexString n = d :: ds := List.exists_cons_of_ne_nil Nat.toDigits_ne_nil
  have hall : (d :: ds).all isHexDigit = true := by
    rw [List.all_eq_true, ← hd]
    exact isHexDigit_of_mem
  rw [numberOfHex, String.toList_ofList, hd]
  simp only [hall, if_true]
  rw [← hd, parseHex_toHexString]

/-- `a > b` on numbers, false when one of them is `NaN`. -/
def numberGt : Option Nat → Option Nat → Bool
  | some a, some b => decide (b < a)
  | _, _ => false

/-- `a <= b` on numbers, false when one of them is `NaN`. -/
def numberLe : Option Nat → Option Nat → Bool
  | some a, some b => decide (a ≤ b)
  | _, _ => false

end Lib

import HardhatTron.Runtime.Prebuild
import Mathlib.Data.List.TakeWhile
/-!
# When a cache key names one deployment

`stringify` writes tagged leaves between brackets and commas and escapes
nothing, and it names an object with a string `target` or `address` by that
address alone. So a key says which call it belongs to while

- no ending of a string reads on like an argument list (`plain`),
- field names have no `=`, comma or closing bracket,
- no two objects share the address they are named by,
- the artifact's name does not contain `|[`.

`CallSafe` states this of a call; `prebuildCacheKey_inj` is the result.
-/
namespace HardhatTron

open Lib

/-! ## What may follow an element -/

def stops : List Char := [',', ']', '}']

def isAtom (w : JsString) : Bool :=
  ["true", "false", "null", "undefined", "Symbol(_ethers_typed)"].any (·.toList = w) || isNumeral w

/-- `u` begins like the text of a value. -/
def beginsValue (u : JsString) : Bool :=
  ["S:", "BI:", "T:", "A:", "[", "\x7b"].any (·.toList.isPrefixOf u) || isAtom (u.takeWhile (· ∉ stops))

/-- `u` begins like a struct's field: a name, `=` and a value. -/
def beginsField (u : JsString) : Bool :=
  match u.dropWhile (· ∉ '=' :: stops) with
  | '=' :: v => beginsValue v
  | _ => false

/-- `u` reads like what follows an element: closing brackets, then the end or a
comma and the next element. -/
def follows : JsString → Bool
  | [] => true
  | ',' :: u => beginsValue u || beginsField u
  | ']' :: u => follows u
  | '}' :: u => follows u
  | _ => false

/-- No ending of the string reads on like that: `"1, 2"` is plain, `"1,2"` and `"a]"` are not. -/
def plain : JsString → Bool
  | [] => true
  | c :: s => !follows (c :: s) && plain s

example : plain "1, 2".toList = true ∧ plain "1,2".toList = false ∧ plain "a]".toList = false := by decide

theorem free_of_all {s : JsString} (h : s.all (· ∉ stops) = true) : ∀ c ∈ s, c ∉ stops :=
  fun c hc => of_decide_eq_true (List.all_eq_true.1 h c hc)

theorem follows_of_not_stop {c : Char} (hc : c ∉ stops) (u : JsString) : follows (c :: u) = false := by
  simp only [stops, List.mem_cons, List.not_mem_nil, or_false, not_or] at hc
  unfold follows
  split <;> simp_all

theorem plain_append {p s : JsString} (hp : ∀ c ∈ p, c ∉ stops) (hs : plain s = true) : plain (p ++ s) = true := by
  induction p with
  | nil => exact hs
  | cons c p ih =>
    rw [List.cons_append, plain, follows_of_not_stop (hp c (by simp)), ih fun d hd => hp d (by simp [hd])]
    rfl

theorem plain_of_free {s : JsString} (hs : ∀ c ∈ s, c ∉ stops) : plain s = true := by
  rw [← List.append_nil s]
  exact plain_append hs rfl

/-- Nothing is left or a stop stands first. -/
def EndsElement (r : JsString) : Prop := ∀ c ∈ r.head?, c ∈ stops

theorem ends_of_follows {r : JsString} (h : follows r = true) : EndsElement r := by
  cases r with
  | nil => intro c hc; cases hc
  | cons d r =>
    intro c hc
    obtain rfl : d = c := Option.some.inj hc
    by_contra hs
    rw [follows_of_not_stop hs] at h
    cases h

theorem isPrefixOf_append {t : JsString} (ht : ∀ c ∈ t, c ∉ stops) {r : JsString} (hr : EndsElement r) (u : JsString) :
    t.isPrefixOf (u ++ r) = t.isPrefixOf u := by
  induction t generalizing u with
  | nil => simp
  | cons c t ih =>
    cases u with
    | nil =>
      cases r with
      | nil => rfl
      | cons d r =>
        have hcd : (c == d) = false := beq_false_of_ne fun h => ht c (by simp) (h ▸ hr d rfl)
        simp only [List.nil_append, List.isPrefixOf, hcd, Bool.false_and]
    | cons d u =>
      simp only [List.cons_append, List.isPrefixOf]
      rw [ih (fun x hx => ht x (by simp [hx])) u]

theorem takeWhile_append {p : Char → Bool} {r : JsString} (hr : r.takeWhile p = []) (u : JsString) :
    (u ++ r).takeWhile p = u.takeWhile p := by
  rw [List.takeWhile_append, hr]
  split
  · rename_i h
    rw [List.append_nil, (List.takeWhile_prefix p).eq_of_length h]
  · rfl

theorem beginsValue_append {r : JsString} (hr : EndsElement r) (u : JsString) : beginsValue (u ++ r) = beginsValue u := by
  have hr' : r.takeWhile (· ∉ stops) = [] := by
    cases r with
    | nil => rfl
    | cons c r => simp [hr c rfl]
  unfold beginsValue
  rw [takeWhile_append hr']
  congr 1
  simp only [List.any_cons, List.any_nil]
  rw [isPrefixOf_append (free_of_all rfl) hr, isPrefixOf_append (free_of_all rfl) hr, isPrefixOf_append (free_of_all rfl) hr,
    isPrefixOf_append (free_of_all rfl) hr, isPrefixOf_append (free_of_all rfl) hr, isPrefixOf_append (free_of_all rfl) hr]

theorem beginsField_append {r : JsString} (hr : EndsElement r) (u : JsString) : beginsField (u ++ r) = beginsField u := by
  unfold beginsField
  rw [List.dropWhile_append]
  cases hu : u.dropWhile (· ∉ '=' :: stops) with
  | nil =>
    cases r with
    | nil => simp
    | cons c r =>
      have hc : c ∈ stops := hr c rfl
      have hne : c ≠ '=' := by rintro rfl; exact absurd hc (by decide)
      have hd : (c :: r).dropWhile (· ∉ '=' :: stops) = c :: r := by simp [hc]
      simp only [List.isEmpty_nil, if_true]
      rw [hd]
      split
      · rename_i h; exact absurd (List.cons.inj h).1 hne
      · rfl
  | cons d v =>
    simp only [List.isEmpty_cons, Bool.false_eq_true, if_false, List.cons_append]
    by_cases hd : d = '='
    · subst hd; exact beginsValue_append hr v
    · split
      · rename_i h; exact absurd (List.cons.inj h).1 hd
      · split
        · rename_i h; exact absurd (List.cons.inj h).1 hd
        · rfl

/-- What follows does not change how an ending reads. -/
theorem follows_append {r : JsString} (hr : follows r = true) (u : JsString) (hu : u ≠ []) :
    follows (u ++ r) = follows u := by
  induction u with
  | nil => exact absurd rfl hu
  | cons c u ih =>
    have hrest : follows (u ++ r) = follows u := by
      cases u with
      | nil => simpa [follows] using hr
      | cons d u => exact ih (by simp)
    rw [List.cons_append]
    by_cases hc : c ∈ stops
    · simp only [stops, List.mem_cons, List.not_mem_nil, or_false] at hc
      rcases hc with rfl | rfl | rfl
      · simp only [follows, beginsValue_append (ends_of_follows hr), beginsField_append (ends_of_follows hr)]
      · simpa only [follows] using hrest
      · simpa only [follows] using hrest
    · rw [follows_of_not_stop hc, follows_of_not_stop hc]

theorem closed_of_plain {s : JsString} (hs : plain s = true) : Closed (follows · = true) s := by
  intro p u he hu r hr
  induction p generalizing s with
  | nil =>
    obtain ⟨c, v, rfl⟩ := List.exists_cons_of_ne_nil hu
    rw [List.nil_append] at he
    subst he
    rw [plain, Bool.and_eq_true, Bool.not_eq_true'] at hs
    show ¬follows (c :: v ++ r) = true
    rw [follows_append hr _ hu, hs.1]
    exact Bool.false_ne_true
  | cons c p ih =>
    subst he
    rw [List.cons_append, plain, Bool.and_eq_true] at hs
    exact ih hs.2 rfl

/-! ## Safe values -/

/-- The object that goes by an address, for each tag. -/
abbrev Owners := Char → JsString → Fields

inductive KeySafe (codec : AddressCodec) (owners : Owners) : JsValue → Prop
  | undefined : KeySafe codec owners .undefined
  | null : KeySafe codec owners .null
  | bool (b : Bool) : KeySafe codec owners (.bool b)
  | num (n : Numeral) : KeySafe codec owners (.num n)
  | bigint (i : Int) : KeySafe codec owners (.bigint i)
  | typedSymbol : KeySafe codec owners .typedSymbol
  | str {s} (hs : plain s = true) : KeySafe codec owners (.str s)
  | arr {vs} (items : ∀ v ∈ vs, KeySafe codec owners v) : KeySafe codec owners (.arr vs)
  | named {fs tag a} (hn : namedBy fs = some (tag, a)) (ha : plain a = true)
      (owner : ∀ b, toTronBase58Text codec a = some b → owners tag b = fs) : KeySafe codec owners (.obj fs)
  | struct {fs} (hn : namedBy fs = none) (names : ∀ f ∈ fs, ∀ c ∈ f.1, c ∉ '=' :: stops)
      (fields : ∀ f ∈ fs, KeySafe codec owners f.2) : KeySafe codec owners (.obj fs)

/-! ## The shape of a text -/

variable {codec : AddressCodec} {owners : Owners}

theorem stringifyAll_printed {vs : List JsValue} {ss : List JsString} (h : stringifyAll codec vs = some ss) :
    List.Forall₂ (fun v s => stringify codec v = some s) vs ss := by
  induction vs generalizing ss with
  | nil =>
    obtain rfl : [] = ss := by simpa [stringifyAll] using h
    exact .nil
  | cons v vs ih =>
    obtain ⟨s, hs, h⟩ := Option.bind_eq_some_iff.1 h
    obtain ⟨ss', hss, rfl⟩ := Option.map_eq_some_iff.1 h
    exact .cons hs (ih hss)

/-- The text of one field. -/
def FieldText (codec : AddressCodec) (f : JsString × JsValue) (item : JsString) : Prop :=
  ∃ s, stringify codec f.2 = some s ∧ item = f.1 ++ '=' :: s

theorem stringifyFields_names {fs : Fields} {ts : List (JsString × JsString)}
    (h : stringifyFields codec fs = some ts) : ts.map Prod.fst = fs.map Prod.fst := by
  induction fs generalizing ts with
  | nil =>
    obtain rfl : [] = ts := by simpa [stringifyFields] using h
    rfl
  | cons f fs ih =>
    obtain ⟨s, -, h⟩ := Option.bind_eq_some_iff.1 h
    obtain ⟨ts', hts, rfl⟩ := Option.map_eq_some_iff.1 h
    simp [ih hts]

theorem stringifyFields_printed {fs : Fields} {ts : List (JsString × JsString)}
    (h : stringifyFields codec fs = some ts) :
    List.Forall₂ (FieldText codec) fs (ts.map fun f => f.1 ++ '=' :: f.2) := by
  induction fs generalizing ts with
  | nil =>
    obtain rfl : [] = ts := by simpa [stringifyFields] using h
    exact .nil
  | cons f fs ih =>
    obtain ⟨s, hs, h⟩ := Option.bind_eq_some_iff.1 h
    obtain ⟨ts', hts, rfl⟩ := Option.map_eq_some_iff.1 h
    exact .cons ⟨s, hs, rfl⟩ (ih hts)

theorem stringify_arr {vs : List JsValue} {s : JsString} (h : stringify codec (.arr vs) = some s) :
    ∃ ss, List.Forall₂ (fun v s => stringify codec v = some s) vs ss ∧ s = bracketed '[' ',' ']' ss := by
  rw [stringify] at h
  obtain ⟨ss, hss, rfl⟩ := Option.map_eq_some_iff.1 h
  exact ⟨ss, stringifyAll_printed hss, rfl⟩

/-- A canonical struct is printed in its own order: the sort moves nothing. -/
theorem stringify_struct {fs : Fields} {s : JsString} (hn : namedBy fs = none)
    (hc : (JsValue.obj fs).canonical = true) (h : stringify codec (.obj fs) = some s) :
    ∃ items, List.Forall₂ (FieldText codec) fs items ∧ s = bracketed '{' ',' '}' items := by
  rw [stringify, hn] at h
  obtain ⟨ts, hts, rfl⟩ := Option.map_eq_some_iff.1 h
  rw [sortFields_eq_self (by rw [stringifyFields_names hts]; exact (JsValue.canonical_obj.1 hc).1)]
  exact ⟨_, stringifyFields_printed hts, rfl⟩

theorem stringify_named {fs : Fields} {tag : Char} {a s : JsString} (hn : namedBy fs = some (tag, a))
    (h : stringify codec (.obj fs) = some s) : ∃ b, toTronBase58Text codec a = some b ∧ s = tag :: ':' :: b := by
  rw [stringify, hn] at h
  obtain ⟨b, hb, rfl⟩ := Option.map_eq_some_iff.1 h
  exact ⟨b, hb, rfl⟩

theorem namedBy_tag {fs : Fields} {tag : Char} {a : JsString} (h : namedBy fs = some (tag, a)) :
    tag = 'T' ∨ tag = 'A' := by
  unfold namedBy at h
  split at h
  · exact .inl (congrArg Prod.fst (Option.some.inj h)).symm
  · exact .inr (congrArg Prod.fst (Option.some.inj h)).symm
  · cases h

/-- What a text's first characters say about the value. -/
inductive Kind where
  | undefined | null | true | false | num | bigint | typedSymbol | str | arr | named (tag : Char) | struct
  deriving DecidableEq

def JsValue.kind : JsValue → Kind
  | .undefined => .undefined
  | .null => .null
  | .bool b => if b then .true else .false
  | .num _ => .num
  | .bigint _ => .bigint
  | .typedSymbol => .typedSymbol
  | .str _ => .str
  | .arr _ => .arr
  | .obj fs =>
    match namedBy fs with
    | some (tag, _) => .named tag
    | none => .struct

def kindOf : JsString → Kind
  | 'u' :: _ => .undefined
  | 'n' :: _ => .null
  | 't' :: _ => .true
  | 'f' :: _ => .false
  | 'B' :: _ => .bigint
  | 'S' :: 'y' :: _ => .typedSymbol
  | 'S' :: _ => .str
  | '[' :: _ => .arr
  | 'T' :: _ => .named 'T'
  | 'A' :: _ => .named 'A'
  | '{' :: _ => .struct
  | _ => .num

theorem Numeral.head (n : Numeral) : ∃ c cs, n.text = c :: cs ∧ c ∈ "0123456789-IN".toList := by
  have h := n.numeral
  cases ht : n.text with
  | nil => rw [ht] at h; cases h
  | cons c cs =>
    rw [ht, isNumeral, Bool.and_eq_true] at h
    exact ⟨c, cs, rfl, List.contains_iff_mem.1 h.1⟩

theorem Numeral.mem (n : Numeral) : ∀ c ∈ n.text, c ∈ "0123456789-+.eInfityNa".toList := by
  have h := n.numeral
  have hsub : "0123456789-IN".toList.all "0123456789-+.eInfityNa".toList.contains = true := rfl
  intro d hd
  cases ht : n.text with
  | nil => rw [ht] at hd; cases hd
  | cons c cs =>
    rw [ht, isNumeral, Bool.and_eq_true, List.all_eq_true] at h
    rw [ht] at hd
    rcases List.mem_cons.1 hd with rfl | hd
    · exact List.contains_iff_mem.1 (List.all_eq_true.1 hsub _ (List.contains_iff_mem.1 h.1))
    · exact List.contains_iff_mem.1 (h.2 d hd)

theorem kindOf_stringify {v : JsValue} {s : JsString} (h : stringify codec v = some s) : kindOf s = v.kind := by
  cases v with
  | num n =>
    rw [stringify, Option.some.injEq] at h
    subst h
    obtain ⟨c, cs, hcs, hc⟩ := n.head
    rw [hcs]
    simp only [String.reduceToList, List.mem_cons, List.not_mem_nil, or_false] at hc
    rcases hc with rfl | rfl | rfl | rfl | rfl | rfl | rfl | rfl | rfl | rfl | rfl | rfl | rfl <;> rfl
  | bool b => cases b <;> (rw [stringify, Option.some.injEq] at h; subst h; rfl)
  | arr vs =>
    obtain ⟨ss, -, rfl⟩ := stringify_arr h
    rfl
  | obj fs =>
    rw [JsValue.kind]
    cases hn : namedBy fs with
    | none =>
      rw [stringify, hn] at h
      obtain ⟨ts, -, rfl⟩ := Option.map_eq_some_iff.1 h
      rfl
    | some p =>
      obtain ⟨tag, a⟩ := p
      obtain ⟨b, -, rfl⟩ := stringify_named hn h
      rcases namedBy_tag hn with rfl | rfl <;> rfl
  | _ => rw [stringify, Option.some.injEq] at h; subst h; rfl

/-- The values of a kind. -/
def Kind.Is : Kind → JsValue → Prop
  | .undefined, v => v = .undefined
  | .null, v => v = .null
  | .true, v => v = .bool Bool.true
  | .false, v => v = .bool Bool.false
  | .num, v => ∃ n, v = .num n
  | .bigint, v => ∃ i, v = .bigint i
  | .typedSymbol, v => v = .typedSymbol
  | .str, v => ∃ s, v = .str s
  | .arr, v => ∃ vs, v = .arr vs
  | .named tag, v => ∃ fs a, v = .obj fs ∧ namedBy fs = some (tag, a)
  | .struct, v => ∃ fs, v = .obj fs ∧ namedBy fs = none

theorem JsValue.kind_is (v : JsValue) : v.kind.Is v := by
  cases v with
  | bool b => cases b <;> rfl
  | obj fs =>
    rw [JsValue.kind]
    cases hn : namedBy fs with
    | none => exact ⟨fs, rfl, hn⟩
    | some p => exact ⟨fs, p.2, rfl, hn⟩
  | num n => exact ⟨n, rfl⟩
  | bigint i => exact ⟨i, rfl⟩
  | str s => exact ⟨s, rfl⟩
  | arr vs => exact ⟨vs, rfl⟩
  | _ => rfl

/-- A text begins, and with no stop. -/
theorem stringify_head {v : JsValue} {s : JsString} (h : stringify codec v = some s) :
    ∃ c u, s = c :: u ∧ c ∉ stops := by
  have hk := kindOf_stringify h
  by_cases hnum : v.kind = .num
  · obtain ⟨n, rfl⟩ : Kind.num.Is v := hnum ▸ v.kind_is
    rw [stringify, Option.some.injEq] at h
    obtain ⟨c, cs, hcs, hc⟩ := n.head
    have hfree : ∀ c ∈ "0123456789-IN".toList, c ∉ stops := free_of_all rfl
    exact ⟨c, cs, h ▸ hcs, hfree c hc⟩
  · rw [← hk] at hnum
    cases s with
    | nil => exact absurd rfl hnum
    | cons c u =>
      refine ⟨c, u, rfl, fun hc => hnum ?_⟩
      simp only [stops, List.mem_cons, List.not_mem_nil, or_false] at hc
      rcases hc with rfl | rfl | rfl <;> rfl

/-! ## Leaves -/

def Kind.isLeaf : Kind → Bool
  | .arr => Bool.false
  | .struct => Bool.false
  | _ => Bool.true

theorem toTronBase58Text_plain {a b : JsString} (ha : plain a = true) (h : toTronBase58Text codec a = some b) :
    plain b = true := by
  have halphabet : ∀ c ∈ base58Alphabet, c ∉ stops := free_of_all rfl
  unfold toTronBase58Text at h
  split at h
  · exact Option.some.inj h ▸ ha
  · split at h
    · exact plain_of_free fun c hc => halphabet c (codec.base58 h c hc)
    · exact Option.some.inj h ▸ ha

theorem decimal_free (i : Int) : ∀ c ∈ decimal i, c ∉ stops := by
  have hdigit : ∀ c ∈ Nat.toDigits 10 i.natAbs, c ∉ stops := by
    intro c hc hs
    have hd := Nat.isDigit_of_mem_toDigits (by omega) (by omega) hc
    simp only [stops, List.mem_cons, List.not_mem_nil, or_false] at hs
    rcases hs with rfl | rfl | rfl <;> exact absurd hd (by decide)
  unfold decimal
  split
  · intro c hc
    rcases List.mem_cons.1 hc with rfl | hc
    · decide
    · exact hdigit c hc
  · exact hdigit

theorem Numeral.free (n : Numeral) : ∀ c ∈ n.text, c ∉ stops := by
  have hfree : ∀ c ∈ "0123456789-+.eInfityNa".toList, c ∉ stops := free_of_all rfl
  exact fun c hc => hfree c (n.mem c hc)

theorem leaf_plain {v : JsValue} (hv : KeySafe codec owners v) (hl : v.kind.isLeaf = true) {s : JsString}
    (h : stringify codec v = some s) : plain s = true := by
  cases hv with
  | arr => cases hl
  | @struct fs hn => rw [JsValue.kind, hn] at hl; cases hl
  | num n =>
    rw [stringify, Option.some.injEq] at h
    exact h ▸ plain_of_free n.free
  | bigint i =>
    rw [stringify, Option.some.injEq] at h
    exact h ▸ plain_append (free_of_all rfl) (plain_of_free (decimal_free i))
  | str hs =>
    rw [stringify, Option.some.injEq] at h
    exact h ▸ plain_append (free_of_all rfl) hs
  | @named fs tag a hn ha =>
    obtain ⟨b, hb, rfl⟩ := stringify_named hn h
    have htag : ∀ c ∈ [tag, ':'], c ∉ stops := by rcases namedBy_tag hn with rfl | rfl <;> exact free_of_all rfl
    exact plain_append htag (toTronBase58Text_plain ha hb)
  | bool b => cases b <;> (rw [stringify, Option.some.injEq] at h; subst h; decide)
  | _ => rw [stringify, Option.some.injEq] at h; subst h; decide

theorem leaf_unambiguous {v w : JsValue} (hv : KeySafe codec owners v) (hw : KeySafe codec owners w)
    (hlv : v.kind.isLeaf = true) (hlw : w.kind.isLeaf = true) {s t : JsString} (h : stringify codec v = some s)
    (h' : stringify codec w = some t) : Unambiguous (follows · = true) s t :=
  unambiguous_of_closed (closed_of_plain (leaf_plain hv hlv h)) (closed_of_plain (leaf_plain hw hlw h'))

theorem KeySafe.of_named {fs : Fields} {tag : Char} {a : JsString} (hv : KeySafe codec owners (.obj fs))
    (hn : namedBy fs = some (tag, a)) : ∀ b, toTronBase58Text codec a = some b → owners tag b = fs := by
  cases hv with
  | named hn' _ owner =>
    obtain ⟨rfl, rfl⟩ := Prod.mk.inj (Option.some.inj (hn.symm.trans hn'))
    exact owner
  | struct hn' => rw [hn] at hn'; cases hn'

theorem leaf_inj {v w : JsValue} (hv : KeySafe codec owners v) (hw : KeySafe codec owners w)
    (hl : v.kind.isLeaf = true) (hk : v.kind = w.kind) {s : JsString} (h : stringify codec v = some s)
    (h' : stringify codec w = some s) : v = w := by
  have hvi := v.kind_is
  have hwi := w.kind_is
  rw [← hk] at hwi
  have hss := h.trans h'.symm
  cases hkind : v.kind with rw [hkind] at hvi hwi hl
  | arr => cases hl
  | struct => cases hl
  | num =>
    obtain ⟨⟨m, rfl⟩, ⟨n, rfl⟩⟩ := And.intro hvi hwi
    obtain ⟨t, ht⟩ := m
    obtain ⟨u, hu⟩ := n
    obtain rfl : t = u := Option.some.inj hss
    rfl
  | bigint =>
    obtain ⟨⟨i, rfl⟩, ⟨j, rfl⟩⟩ := And.intro hvi hwi
    rw [decimal_injective (List.append_cancel_left (Option.some.inj hss))]
  | str =>
    obtain ⟨⟨t, rfl⟩, ⟨u, rfl⟩⟩ := And.intro hvi hwi
    rw [List.append_cancel_left (Option.some.inj hss)]
  | named tag =>
    obtain ⟨⟨fs, a, rfl, hn⟩, ⟨gs, a', rfl, hn'⟩⟩ := And.intro hvi hwi
    obtain ⟨b, hb, rfl⟩ := stringify_named hn h
    obtain ⟨b', hb', he⟩ := stringify_named hn' h'
    obtain rfl : b = b' := (List.cons.inj (List.cons.inj he).2).2
    rw [← hv.of_named hn b hb, ← hw.of_named hn' b hb']
  | _ => exact hvi.trans hwi.symm

/-! ## Items of a list -/

theorem beginsValue_stringify {v : JsValue} {s : JsString} (h : stringify codec v = some s) : beginsValue s = true := by
  cases v with
  | num n =>
    rw [stringify, Option.some.injEq] at h
    subst h
    have htake : n.text.takeWhile (· ∉ stops) = n.text :=
      List.takeWhile_eq_self_iff.2 fun c hc => decide_eq_true (n.free c hc)
    rw [beginsValue, htake, isAtom, n.numeral, Bool.or_true, Bool.or_true]
  | obj fs =>
    cases hn : namedBy fs with
    | none =>
      rw [stringify, hn] at h
      obtain ⟨ts, -, rfl⟩ := Option.map_eq_some_iff.1 h
      rfl
    | some p =>
      obtain ⟨tag, a⟩ := p
      obtain ⟨b, -, rfl⟩ := stringify_named hn h
      rcases namedBy_tag hn with rfl | rfl <;> simp [beginsValue, List.isPrefixOf]
  | arr vs =>
    obtain ⟨ss, -, rfl⟩ := stringify_arr h
    rfl
  | bool b => cases b <;> (rw [stringify, Option.some.injEq] at h; subst h; decide)
  | bigint i => rw [stringify, Option.some.injEq] at h; subst h; rfl
  | str t => rw [stringify, Option.some.injEq] at h; subst h; rfl
  | _ => rw [stringify, Option.some.injEq] at h; subst h; decide

theorem follows_close {close : Char} (hc : close = ']' ∨ close = '}') (r : JsString) (hr : follows r = true) :
    follows (close :: r) = true := by
  rcases hc with rfl | rfl <;> exact hr

theorem stringify_item {close : Char} (hclose : close ∈ stops) {v : JsValue} {s : JsString}
    (h : stringify codec v = some s) : Item (follows · = true) ',' close s where
  opens := by
    obtain ⟨c, u, hs, hc⟩ := stringify_head h
    exact ⟨c, u, hs, fun hcc => hc (hcc ▸ hclose)⟩
  follows r hr := by
    rw [follows, beginsValue_append (ends_of_follows hr), beginsValue_stringify h]
    rfl

theorem beginsField_of_value {k s : JsString} (hk : ∀ c ∈ k, c ∉ '=' :: stops) (hs : beginsValue s = true) :
    beginsField (k ++ '=' :: s) = true := by
  have hdrop : k.dropWhile (· ∉ '=' :: stops) = [] :=
    List.dropWhile_eq_nil_iff.2 fun c hc => decide_eq_true (hk c hc)
  rw [beginsField, List.dropWhile_append, hdrop]
  simpa using hs

theorem fieldText_item {f : JsString × JsValue} {item : JsString} (hf : ∀ c ∈ f.1, c ∉ '=' :: stops)
    (h : FieldText codec f item) : Item (follows · = true) ',' '}' item where
  opens := by
    obtain ⟨s, -, rfl⟩ := h
    obtain ⟨k, v⟩ := f
    cases k with
    | nil => exact ⟨'=', s, rfl, by decide⟩
    | cons c k =>
      refine ⟨c, k ++ '=' :: s, rfl, ?_⟩
      rintro rfl
      exact hf '}' (by simp) (by decide)
  follows r hr := by
    obtain ⟨s, hs, rfl⟩ := h
    rw [follows, beginsField_append (ends_of_follows hr), beginsField_of_value hf (beginsValue_stringify hs),
      Bool.or_true]

/-! ## Every value -/

/-- A bracket begins texts of one kind only. -/
theorem head_of_list {v : JsValue} (hl : v.kind.isLeaf = false) {s : JsString} (h : stringify codec v = some s) :
    ∃ c u, s = c :: u ∧ ∀ u', kindOf (c :: u') = v.kind := by
  cases v with
  | arr vs =>
    obtain ⟨ss, -, rfl⟩ := stringify_arr h
    exact ⟨'[', _, rfl, fun _ => rfl⟩
  | obj fs =>
    rw [JsValue.kind] at hl ⊢
    cases hn : namedBy fs with
    | some p => rw [hn] at hl; cases hl
    | none =>
      rw [stringify, hn] at h
      obtain ⟨ts, -, rfl⟩ := Option.map_eq_some_iff.1 h
      exact ⟨'{', _, rfl, fun _ => rfl⟩
  | bool b => cases b <;> cases hl
  | _ => cases hl

theorem unambiguous_of_kind_ne {v w : JsValue} (hv : KeySafe codec owners v) (hw : KeySafe codec owners w)
    (hk : v.kind ≠ w.kind) {s t : JsString} (h : stringify codec v = some s) (h' : stringify codec w = some t) :
    Unambiguous (follows · = true) s t := by
  obtain ⟨c, u, hs, -⟩ := stringify_head h
  obtain ⟨d, u', ht, -⟩ := stringify_head h'
  cases hlv : v.kind.isLeaf with
  | false =>
    obtain ⟨c', x, hs', hc⟩ := head_of_list hlv h
    subst hs' ht
    apply unambiguous_of_head_ne
    rintro rfl
    exact hk ((hc u').symm.trans (kindOf_stringify h'))
  | true =>
    cases hlw : w.kind.isLeaf with
    | false =>
      obtain ⟨d', x, ht', hd⟩ := head_of_list hlw h'
      subst ht' hs
      apply unambiguous_of_head_ne
      rintro rfl
      exact hk ((kindOf_stringify h).symm.trans (hd u))
    | true => exact leaf_unambiguous hv hw hlv hlw h h'

/-- Values whose texts are told apart, and equal only when the values are. -/
def ToldApart (codec : AddressCodec) (v w : JsValue) : Prop :=
  ∀ s t, stringify codec v = some s → stringify codec w = some t →
    Unambiguous (follows · = true) s t ∧ (s = t → v = w)

theorem toldApart_arr {vs ws : List JsValue} (ih : ∀ v ∈ vs, ∀ w ∈ ws, ToldApart codec v w) :
    ToldApart codec (.arr vs) (.arr ws) := by
  intro s t hs ht
  obtain ⟨ss, hss, rfl⟩ := stringify_arr hs
  obtain ⟨ts, hts, rfl⟩ := stringify_arr ht
  have hun : ∀ s ∈ ss, ∀ t ∈ ts, Unambiguous (follows · = true) s t := by
    intro s hs t ht
    obtain ⟨v, hv, hvs⟩ := exists_of_printed hss hs
    obtain ⟨w, hw, hwt⟩ := exists_of_printed hts ht
    exact (ih v hv w hw s t hvs hwt).1
  have hitem : ∀ {us xs}, List.Forall₂ (fun v s => stringify codec v = some s) us xs →
      ∀ x ∈ xs, Item (follows · = true) ',' ']' x := by
    intro us xs hp x hx
    obtain ⟨v, -, hv⟩ := exists_of_printed hp hx
    exact stringify_item (by decide) hv
  refine ⟨.bracketed '[' (follows_close (.inl rfl)) (by decide) hun (hitem hss) (hitem hts), fun e => ?_⟩
  obtain rfl := bracketed_inj (F := (follows · = true)) rfl (follows_close (.inl rfl)) (by decide) hun (hitem hss) (hitem hts) e
  rw [printed_inj (fun v hv w hw s hs ht => (ih v hv w hw s s hs ht).2 rfl) hss hts]

theorem toldApart_struct {fs gs : Fields} (hn : namedBy fs = none) (hn' : namedBy gs = none)
    (hc : (JsValue.obj fs).canonical = true) (hc' : (JsValue.obj gs).canonical = true)
    (names : ∀ f ∈ fs, ∀ c ∈ f.1, c ∉ '=' :: stops) (names' : ∀ f ∈ gs, ∀ c ∈ f.1, c ∉ '=' :: stops)
    (ih : ∀ f ∈ fs, ∀ g ∈ gs, ToldApart codec f.2 g.2) : ToldApart codec (.obj fs) (.obj gs) := by
  intro s t hs ht
  obtain ⟨ss, hss, rfl⟩ := stringify_struct hn hc hs
  obtain ⟨ts, hts, rfl⟩ := stringify_struct hn' hc' ht
  have hmark : ∀ {hs : Fields}, (∀ f ∈ hs, ∀ c ∈ f.1, c ∉ '=' :: stops) → ∀ f ∈ hs, '=' ∉ f.1 :=
    fun hnames f hf hm => hnames f hf '=' hm (by simp)
  have hun : ∀ s ∈ ss, ∀ t ∈ ts, Unambiguous (follows · = true) s t := by
    intro s hs t ht
    obtain ⟨f, hf, x, hx, rfl⟩ := exists_of_printed hss hs
    obtain ⟨g, hg, y, hy, rfl⟩ := exists_of_printed hts ht
    exact .field (hmark names f hf) (hmark names' g hg) (ih f hf g hg x y hx hy).1
  have hitem : ∀ {hs xs}, (∀ f ∈ hs, ∀ c ∈ f.1, c ∉ '=' :: stops) → List.Forall₂ (FieldText codec) hs xs →
      ∀ x ∈ xs, Item (follows · = true) ',' '}' x := by
    intro hs xs hnames hp x hx
    obtain ⟨f, hf, hfx⟩ := exists_of_printed hp hx
    exact fieldText_item (hnames f hf) hfx
  refine ⟨.bracketed '{' (follows_close (.inr rfl)) (by decide) hun (hitem names hss) (hitem names' hts), fun e => ?_⟩
  obtain rfl := bracketed_inj (F := (follows · = true)) rfl (follows_close (.inr rfl)) (by decide) hun (hitem names hss) (hitem names' hts) e
  have hinj : ∀ f ∈ fs, ∀ g ∈ gs, ∀ s, FieldText codec f s → FieldText codec g s → f = g := by
    rintro ⟨k, v⟩ hf ⟨k', w⟩ hg _ ⟨x, hx, rfl⟩ ⟨y, hy, e⟩
    obtain ⟨hkk, hxy⟩ := append_mark_inj (hmark names _ hf) (hmark names' _ hg) e
    exact Prod.ext hkk ((ih _ hf _ hg x y hx hy).2 hxy)
  rw [printed_inj hinj hss hts]

theorem toldApart_of_kind_ne {v w : JsValue} (hv : KeySafe codec owners v) (hw : KeySafe codec owners w)
    (hk : v.kind ≠ w.kind) : ToldApart codec v w := by
  intro s t hs ht
  refine ⟨unambiguous_of_kind_ne hv hw hk hs ht, ?_⟩
  rintro rfl
  exact absurd ((kindOf_stringify hs).symm.trans (kindOf_stringify ht)) hk

theorem toldApart_leaf {v w : JsValue} (hv : KeySafe codec owners v) (hw : KeySafe codec owners w)
    (hl : v.kind.isLeaf = true) : ToldApart codec v w := by
  by_cases hk : v.kind = w.kind
  · intro s t hs ht
    refine ⟨leaf_unambiguous hv hw hl (hk ▸ hl) hs ht, ?_⟩
    rintro rfl
    exact leaf_inj hv hw hl hk hs ht
  · exact toldApart_of_kind_ne hv hw hk

theorem KeySafe.items {vs : List JsValue} (h : KeySafe codec owners (.arr vs)) :
    ∀ v ∈ vs, KeySafe codec owners v := by
  cases h with
  | arr items => exact items

theorem KeySafe.fields {fs : Fields} (h : KeySafe codec owners (.obj fs)) (hn : namedBy fs = none) :
    (∀ f ∈ fs, ∀ c ∈ f.1, c ∉ '=' :: stops) ∧ ∀ f ∈ fs, KeySafe codec owners f.2 := by
  cases h with
  | named hn' => rw [hn] at hn'; cases hn'
  | struct _ names fields => exact ⟨names, fields⟩

/-- By induction on the first value; two lists or two structs compare item by item. -/
theorem toldApart {v : JsValue} (hv : KeySafe codec owners v) :
    ∀ {w}, KeySafe codec owners w → v.canonical = true → w.canonical = true → ToldApart codec v w := by
  induction hv with
  | @arr vs items ih =>
    intro w hw hcv hcw
    have hwi := w.kind_is
    by_cases hk : (JsValue.arr vs).kind = w.kind
    · rw [← hk] at hwi
      obtain ⟨ws, rfl⟩ := hwi
      exact toldApart_arr fun v hv w hwm => ih v hv (hw.items w hwm) (JsValue.canonical_arr.1 hcv v hv)
        (JsValue.canonical_arr.1 hcw w hwm)
    · exact toldApart_of_kind_ne (.arr items) hw hk
  | @struct fs hn names fields ih =>
    intro w hw hcv hcw
    have hkind : (JsValue.obj fs).kind = .struct := by rw [JsValue.kind, hn]
    have hwi := w.kind_is
    by_cases hk : (JsValue.obj fs).kind = w.kind
    · rw [← hk, hkind] at hwi
      obtain ⟨gs, rfl, hn'⟩ := hwi
      obtain ⟨names', fields'⟩ := hw.fields hn'
      exact toldApart_struct hn hn' hcv hcw names names' fun f hf g hg =>
        ih f hf (fields' g hg) ((JsValue.canonical_obj.1 hcv).2 f hf) ((JsValue.canonical_obj.1 hcw).2 g hg)
    · exact toldApart_of_kind_ne (.struct hn names fields) hw hk
  | named hn ha owner =>
    intro w hw _ _
    exact toldApart_leaf (.named hn ha owner) hw (by rw [JsValue.kind, hn]; rfl)
  | bool b => intro w hw _ _; exact toldApart_leaf (.bool b) hw (by cases b <;> rfl)
  | num n => intro w hw _ _; exact toldApart_leaf (.num n) hw rfl
  | bigint i => intro w hw _ _; exact toldApart_leaf (.bigint i) hw rfl
  | str hs => intro w hw _ _; exact toldApart_leaf (.str hs) hw rfl
  | undefined => intro w hw _ _; exact toldApart_leaf .undefined hw rfl
  | null => intro w hw _ _; exact toldApart_leaf .null hw rfl
  | typedSymbol => intro w hw _ _; exact toldApart_leaf .typedSymbol hw rfl

/-! ## Keys -/

/-- A call whose key is its own. -/
structure CallSafe (codec : AddressCodec) (owners : Owners) (name : JsString) (args : Args) : Prop where
  name : ¬ ['|', '['] <:+: name
  args : ∀ v ∈ args.values, KeySafe codec owners v

theorem TronAddress.no_bar (a : TronAddress) : '|' ∉ a.text := by
  have halphabet : '|' ∉ base58Alphabet := by decide
  exact fun h => halphabet (a.base58 _ h)

/-- The bar before an argument list ends the name. -/
theorem closed_of_name {n : JsString} (hn : ¬ ['|', '['] <:+: n) : Closed (['|', '['] <+: ·) n := by
  rintro p u rfl hu r ⟨r', rfl⟩ ⟨x, hx⟩
  match u, hu with
  | [c], _ =>
    obtain ⟨-, hx⟩ := List.cons.inj hx
    cases hx
  | c :: d :: u, _ =>
    obtain ⟨hc, hx⟩ := List.cons.inj hx
    obtain ⟨hd, -⟩ := List.cons.inj hx
    exact hn ⟨p, u, by simp [← hc, ← hd]⟩

theorem prebuildCacheKey_eq {d n : JsString} {vs : List JsValue} {key : JsString}
    (h : prebuildCacheKey codec d n vs = some key) :
    ∃ s, stringify codec (.arr vs) = some s ∧ ['|', '['] <+: '|' :: s ∧ key = d ++ '|' :: (n ++ '|' :: s) := by
  obtain ⟨s, hs, rfl⟩ := Option.map_eq_some_iff.1 h
  obtain ⟨ss, -, rfl⟩ := stringify_arr hs
  exact ⟨_, hs, ⟨_, rfl⟩, rfl⟩

theorem prebuildCacheKey_inj {d d' : TronAddress} {n n' : JsString} {a a' : Args} (hs : CallSafe codec owners n a)
    (hs' : CallSafe codec owners n' a') {key : JsString}
    (h : prebuildCacheKey codec d.text n a.values = some key)
    (h' : prebuildCacheKey codec d'.text n' a'.values = some key) : d = d' ∧ n = n' ∧ a = a' := by
  obtain ⟨s, hk, hbar, rfl⟩ := prebuildCacheKey_eq h
  obtain ⟨t, hk', hbar', e⟩ := prebuildCacheKey_eq h'
  obtain ⟨hd, e⟩ := append_mark_inj d.no_bar d'.no_bar e
  obtain ⟨hn, e⟩ := (unambiguous_of_closed (closed_of_name hs.name) (closed_of_name hs'.name)).rest hbar hbar' e
  have hvals : JsValue.arr a.values = .arr a'.values :=
    (toldApart (.arr hs.args) (.arr hs'.args) a.canonical a'.canonical s t hk hk').2 (List.cons.inj e).2
  obtain ⟨d, hd0⟩ := d
  obtain ⟨d', hd1⟩ := d'
  obtain ⟨vs, hc⟩ := a
  obtain ⟨vs', hc'⟩ := a'
  obtain rfl : vs = vs' := JsValue.arr.inj hvals
  obtain rfl : d = d' := hd
  exact ⟨rfl, hn, rfl⟩

end HardhatTron

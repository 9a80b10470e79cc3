import HardhatTron.Lib.Json
import HardhatTron.Runtime.JsValue
/-!
# Bodies with big integers

`JSON.stringify` throws on a `BigInt`, so `jsonStringifyWithBigInts` prints a
tagged string for each and then replaces every match of
`/"XBI_(-?\d+)_BIX"/g` by its digits. `stringify_exact`: where no string and no
key contains the tag, what comes out is the value with every `BigInt` as a bare
integer literal.
-/
namespace HardhatTron

open Lib

/-! ## Values -/

/-- A leaf that is a number or a `BigInt`. -/
inductive JsNumber where
  | number (n : NumberText)
  | bigint (i : Int)

def sentinelPrefix : CodeUnits := units "XBI_".toList

def sentinelSuffix : CodeUnits := units "_BIX".toList

/-- What the replacer returns for a leaf. -/
def replacer : JsNumber → Json NumberText
  | .number n => .num n
  | .bigint i => .str (sentinelPrefix ++ (units (decimal i) ++ sentinelSuffix))

/-! ## The rewriting of the text -/

/-- The group of a match that begins here. -/
def matchSentinel (t : CodeUnits) : Option CodeUnits :=
  let opening := unitOf '"' :: sentinelPrefix
  if opening <+: t then
    let body := t.drop opening.length
    let sign := if body.head? = some (unitOf '-') then [unitOf '-'] else []
    let digits := (body.drop sign.length).takeWhile isDigitUnit
    if digits ≠ [] ∧ sentinelSuffix ++ [unitOf '"'] <+: body.drop (sign.length + digits.length) then some (sign ++ digits)
    else none
  else none

/-- `raw.replace(…, '$1')`, with so many units left of the last match. -/
def replaceSentinels : Nat → CodeUnits → CodeUnits
  | _, [] => []
  | skip + 1, _ :: rest => replaceSentinels skip rest
  | 0, u :: rest =>
    match matchSentinel (u :: rest) with
    | some digits =>
      digits ++ replaceSentinels (sentinelPrefix.length + digits.length + sentinelSuffix.length + 1) rest
    | none => u :: replaceSentinels 0 rest

def jsonStringifyWithBigInts (v : Json JsNumber) : CodeUnits := replaceSentinels 0 (Json.print (v.bind replacer))

/-! ## Integer literals -/

/-- The integer a literal denotes, when it is the literal of one. -/
def integerOfLiteral (n : NumberText) : Option Int :=
  let digits := if n.text.head? = some (unitOf '-') then n.text.tail else n.text
  if digits.all isDigitUnit then
    let magnitude : Int := Nat.ofDigitChars 10 (digits.map fun u => Char.ofNat u.toNat) 0
    some (if n.text.head? = some (unitOf '-') then -magnitude else magnitude)
  else none

theorem unitOf_digit {c : Char} (h : c.isDigit = true) :
    isDigitUnit (unitOf c) = true ∧ Char.ofNat (unitOf c).toNat = c := by
  have hlt : c.toNat < 58 := by
    simp only [Char.isDigit, Bool.and_eq_true, decide_eq_true_eq] at h
    exact Nat.lt_of_le_of_lt (UInt32.le_iff_toNat_le.1 h.2) (by decide)
  have hall : ∀ n < 58, (Char.ofNat n).isDigit = true →
      isDigitUnit (unitOf (Char.ofNat n)) = true ∧ Char.ofNat (unitOf (Char.ofNat n)).toNat = Char.ofNat n := by decide
  have hc := hall c.toNat hlt
  rw [Char.ofNat_toNat] at hc
  exact hc h

theorem isDigit_toDigits (n : Nat) : ∀ c ∈ Nat.toDigits 10 n, c.isDigit = true :=
  fun _ hc => Nat.isDigit_of_mem_toDigits (by decide) (by decide) hc

theorem all_isDigitUnit (n : Nat) : ∀ u ∈ units (Nat.toDigits 10 n), isDigitUnit u = true := by
  intro u hu
  obtain ⟨c, hc, rfl⟩ := List.mem_map.1 hu
  exact (unitOf_digit (isDigit_toDigits n c hc)).1

/-- The units of a numeral are its characters. -/
theorem chars_units_toDigits (n : Nat) :
    (units (Nat.toDigits 10 n)).map (fun u => Char.ofNat u.toNat) = Nat.toDigits 10 n := by
  have hsame : ∀ c ∈ Nat.toDigits 10 n, Char.ofNat (unitOf c).toNat = id c :=
    fun c hc => (unitOf_digit (isDigit_toDigits n c hc)).2
  rw [units, List.map_map]
  exact (List.map_congr_left hsame).trans (List.map_id _)

/-- No leading zero. -/
theorem head?_toDigits_ne_zero {n : Nat} (h : n ≠ 0) : (Nat.toDigits 10 n).head? ≠ some '0' := by
  induction n using Nat.strong_induction_on with
  | _ n ih =>
    rw [Nat.toDigits_eq_if (by decide)]
    split
    · rename_i hlt
      interval_cases n <;> simp_all
    · have hrest := ih (n / 10) (by omega) (by omega)
      obtain ⟨c, cs, hcs⟩ := List.exists_cons_of_ne_nil (Nat.toDigits_ne_nil (b := 10) (n := n / 10))
      rw [hcs] at hrest ⊢
      exact hrest

/-- The sign of a numeral. -/
def minus (i : Int) : CodeUnits := if i < 0 then [unitOf '-'] else []

theorem units_decimal (i : Int) : units (decimal i) = minus i ++ units (Nat.toDigits 10 i.natAbs) := by
  unfold decimal minus
  split <;> rfl

/-- The digits of a numeral, one at least. -/
theorem exists_digits (n : Nat) : ∃ u us, units (Nat.toDigits 10 n) = u :: us ∧ isDigitUnit u = true ∧
    ∀ v ∈ us, isDigitUnit v = true := by
  obtain ⟨c, cs, hcs⟩ := List.exists_cons_of_ne_nil (Nat.toDigits_ne_nil (b := 10) (n := n))
  have hall := all_isDigitUnit n
  rw [hcs, units, List.map_cons, List.forall_mem_cons] at hall
  exact ⟨unitOf c, units cs, by rw [hcs]; rfl, hall.1, hall.2⟩

theorem digit_ne_minus {u : UInt16} (h : isDigitUnit u = true) : u ≠ unitOf '-' := by
  rintro rfl
  revert h
  decide

theorem head?_minus {i : Int} {n : Nat} {rest : CodeUnits} :
    (minus i ++ (units (Nat.toDigits 10 n) ++ rest)).head? = some (unitOf '-') ↔ i < 0 := by
  obtain ⟨u, us, hus, hu, -⟩ := exists_digits n
  unfold minus
  split
  · rename_i hneg
    simp [hneg]
  · rename_i hneg
    simp [hus, digit_ne_minus hu, hneg]

theorem takeWhile_digits (n : Nat) {rest : CodeUnits} (hrest : ∀ u ∈ rest.head?, isDigitUnit u = false) :
    (units (Nat.toDigits 10 n) ++ rest).takeWhile isDigitUnit = units (Nat.toDigits 10 n) ∧
      (units (Nat.toDigits 10 n) ++ rest).dropWhile isDigitUnit = rest := by
  rw [List.takeWhile_append_of_pos (all_isDigitUnit n), List.dropWhile_append_of_pos (all_isDigitUnit n)]
  cases rest with
  | nil => simp
  | cons u rest => simp [hrest u rfl]

theorem head?_decimal (i : Int) : (units (decimal i)).head? = some (unitOf '-') ↔ i < 0 := by
  have hhead := @head?_minus i i.natAbs []
  rwa [List.append_nil, ← units_decimal] at hhead

/-- Without its sign a literal is the numeral of the magnitude. -/
theorem unsigned_decimal (i : Int) :
    (if (units (decimal i)).head? = some (unitOf '-') then (units (decimal i)).tail else units (decimal i)) =
      units (Nat.toDigits 10 i.natAbs) := by
  by_cases h : i < 0
  · rw [if_pos ((head?_decimal i).2 h), units_decimal, minus, if_pos h]
    rfl
  · rw [if_neg (mt (head?_decimal i).1 h), units_decimal, minus, if_neg h]
    rfl

theorem isNumberText_decimal (i : Int) : isNumberText (units (decimal i)) = true := by
  obtain ⟨htake, hdrop⟩ := @takeWhile_digits i.natAbs [] (by simp)
  rw [List.append_nil] at htake hdrop
  have hne : units (Nat.toDigits 10 i.natAbs) ≠ [] := by
    obtain ⟨u, us, hus, -, -⟩ := exists_digits i.natAbs
    simp [hus]
  have hzero : (units (Nat.toDigits 10 i.natAbs)).head? ≠ some (unitOf '0') ∨
      (units (Nat.toDigits 10 i.natAbs)).length = 1 := by
    by_cases h : i.natAbs = 0
    · rw [h]
      exact .inr rfl
    · left
      have hhead := head?_toDigits_ne_zero h
      have hdigits := isDigit_toDigits i.natAbs
      obtain ⟨c, cs, hcs⟩ := List.exists_cons_of_ne_nil (Nat.toDigits_ne_nil (b := 10) (n := i.natAbs))
      rw [hcs] at hhead hdigits ⊢
      intro heq
      -- the unit of a digit tells the digit
      have hc := (unitOf_digit (hdigits c List.mem_cons_self)).2
      rw [Option.some.inj heq] at hc
      exact hhead (congrArg some hc.symm)
  unfold isNumberText
  simp only [unsigned_decimal, htake, hdrop]
  simp [hne, hzero, isFraction, isExponent]

theorem plain_decimal (i : Int) : (units (decimal i)).all isNumberUnit = true := by
  rw [units_decimal, List.all_append, Bool.and_eq_true]
  constructor
  · unfold minus
    split <;> decide
  · rw [List.all_eq_true]
    intro u hu
    rw [isNumberUnit, all_isDigitUnit i.natAbs u hu, Bool.true_or]

/-- The bare literal of a `BigInt`. -/
def integerLiteral (i : Int) : NumberText := ⟨units (decimal i), isNumberText_decimal i, plain_decimal i⟩

/-- It has all the digits. -/
theorem integerOfLiteral_integerLiteral (i : Int) : integerOfLiteral (integerLiteral i) = some i := by
  have hall : (units (Nat.toDigits 10 i.natAbs)).all isDigitUnit = true :=
    List.all_eq_true.2 (all_isDigitUnit i.natAbs)
  unfold integerOfLiteral integerLiteral
  simp only [unsigned_decimal, hall, if_true, chars_units_toDigits, Nat.ofDigitChars_ten_toDigits]
  simp only [head?_decimal]
  congr 1
  split <;> omega

/-! ## Matches -/

/-- A unit that is printed as it is, in whatever company. -/
def isPlainUnit (u : UInt16) : Bool := 0x20 ≤ u && u < 0x80 && u ≠ unitOf '"' && u ≠ unitOf '\\'

theorem quoteUnit_plain {u : UInt16} (hu : isPlainUnit u = true) : quoteUnit u = [u] := by
  have hall : ∀ n < 0x80, isPlainUnit (UInt16.ofNat n) = true → quoteUnit (UInt16.ofNat n) = [UInt16.ofNat n] := by
    decide
  have hlt : u.toNat < 0x80 := by
    simp only [isPlainUnit, Bool.and_eq_true, decide_eq_true_eq] at hu
    exact UInt16.lt_iff_toNat_lt.1 hu.1.1.2
  have h := hall u.toNat hlt
  rw [UInt16.ofNat_toNat] at h
  exact h hu

theorem quoteUnits_plain {s : CodeUnits} (hs : ∀ u ∈ s, isPlainUnit u = true) : quoteUnits s = s := by
  induction s using quoteUnits.induct with
  | case1 => rfl
  | case2 u => exact quoteUnit_plain (hs u List.mem_cons_self)
  | case3 u v rest hpair ih =>
    rw [quoteUnits, if_pos hpair, ih fun w hw => hs w (List.mem_cons_of_mem _ (List.mem_cons_of_mem _ hw))]
  | case4 u v rest hpair ih =>
    rw [quoteUnits, if_neg hpair, quoteUnit_plain (hs u List.mem_cons_self),
      ih fun w hw => hs w (List.mem_cons_of_mem _ hw)]
    rfl

theorem isPlainUnit_digit {u : UInt16} (hu : isDigitUnit u = true) : isPlainUnit u = true := by
  have hall : ∀ n < 58, isDigitUnit (UInt16.ofNat n) = true → isPlainUnit (UInt16.ofNat n) = true := by decide
  have hle : u.toNat ≤ 57 := by
    rw [isDigitUnit, Bool.and_eq_true, decide_eq_true_eq, decide_eq_true_eq] at hu
    exact UInt16.le_iff_toNat_le.1 hu.2
  have h := hall u.toNat (by omega)
  rw [UInt16.ofNat_toNat] at h
  exact h hu

theorem isPlainUnit_decimal (i : Int) : ∀ u ∈ units (decimal i), isPlainUnit u = true := by
  intro u hu
  rw [units_decimal] at hu
  rcases List.mem_append.1 hu with hu | hu
  · unfold minus at hu
    split at hu
    · rw [List.mem_singleton.1 hu]
      decide
    · cases hu
  · exact isPlainUnit_digit (all_isDigitUnit _ u hu)

/-- What the tag of a `BigInt` is printed as. -/
theorem quoted_sentinel (i : Int) : quoted (sentinelPrefix ++ (units (decimal i) ++ sentinelSuffix)) =
    unitOf '"' :: (sentinelPrefix ++ (units (decimal i) ++ (sentinelSuffix ++ [unitOf '"']))) := by
  have hplain : ∀ u ∈ sentinelPrefix ++ (units (decimal i) ++ sentinelSuffix), isPlainUnit u = true := by
    simp only [List.forall_mem_append]
    exact ⟨List.all_eq_true.1 (by decide), isPlainUnit_decimal i, List.all_eq_true.1 (by decide)⟩
  rw [quoted, quoteUnits_plain hplain]
  simp

theorem matchSentinel_tag (i : Int) (rest : CodeUnits) : matchSentinel
    (unitOf '"' :: (sentinelPrefix ++ (units (decimal i) ++ (sentinelSuffix ++ unitOf '"' :: rest)))) =
      some (units (decimal i)) := by
  have hopening : unitOf '"' :: sentinelPrefix <+:
      unitOf '"' :: (sentinelPrefix ++ (units (decimal i) ++ (sentinelSuffix ++ unitOf '"' :: rest))) :=
    List.prefix_append (unitOf '"' :: sentinelPrefix) _
  have hbody : (unitOf '"' :: (sentinelPrefix ++ (units (decimal i) ++ (sentinelSuffix ++ unitOf '"' :: rest)))).drop
      (unitOf '"' :: sentinelPrefix).length =
      minus i ++ (units (Nat.toDigits 10 i.natAbs) ++ (sentinelSuffix ++ unitOf '"' :: rest)) := by
    rw [units_decimal, List.append_assoc]
    exact @List.drop_left _ (unitOf '"' :: sentinelPrefix) _
  have hsign : (if (minus i ++ (units (Nat.toDigits 10 i.natAbs) ++ (sentinelSuffix ++ unitOf '"' :: rest))).head? =
      some (unitOf '-') then [unitOf '-'] else []) = minus i := by
    simp only [head?_minus]
    rfl
  have hletter : ∀ u ∈ (sentinelSuffix ++ unitOf '"' :: rest).head?, isDigitUnit u = false := by
    intro u hu
    cases hu
    decide
  obtain ⟨htake, -⟩ := takeWhile_digits i.natAbs hletter
  unfold matchSentinel
  simp only [if_pos hopening, hbody, hsign, List.drop_left, htake]
  have hne : units (Nat.toDigits 10 i.natAbs) ≠ [] := by
    obtain ⟨u, us, hus, -, -⟩ := exists_digits i.natAbs
    simp [hus]
  have hclosing : sentinelSuffix ++ [unitOf '"'] <+: (minus i ++ (units (Nat.toDigits 10 i.natAbs) ++
      (sentinelSuffix ++ unitOf '"' :: rest))).drop ((minus i).length + (units (Nat.toDigits 10 i.natAbs)).length) := by
    rw [← List.length_append, ← List.append_assoc, List.drop_left]
    exact ⟨rest, by simp⟩
  rw [if_pos ⟨hne, hclosing⟩, units_decimal]

theorem matchSentinel_none {u : UInt16} {rest : CodeUnits} (h : u ≠ unitOf '"' ∨ ¬sentinelPrefix <+: rest) :
    matchSentinel (u :: rest) = none := by
  unfold matchSentinel
  apply if_neg
  rw [List.cons_prefix_cons]
  tauto

theorem replaceSentinels_skip (skipped rest : CodeUnits) :
    replaceSentinels skipped.length (skipped ++ rest) = replaceSentinels 0 rest := by
  induction skipped with
  | nil => cases rest <;> rfl
  | cons u skipped ih => exact ih

theorem replaceSentinels_cons {u : UInt16} {rest : CodeUnits} (h : u ≠ unitOf '"' ∨ ¬sentinelPrefix <+: rest) :
    replaceSentinels 0 (u :: rest) = u :: replaceSentinels 0 rest := by
  rw [replaceSentinels, matchSentinel_none h]

theorem replaceSentinels_tag (i : Int) (rest : CodeUnits) :
    replaceSentinels 0 (quoted (sentinelPrefix ++ (units (decimal i) ++ sentinelSuffix)) ++ rest) =
      units (decimal i) ++ replaceSentinels 0 rest := by
  have htext : quoted (sentinelPrefix ++ (units (decimal i) ++ sentinelSuffix)) ++ rest =
      unitOf '"' :: (sentinelPrefix ++ (units (decimal i) ++ (sentinelSuffix ++ unitOf '"' :: rest))) := by
    simp [quoted_sentinel]
  have hskipped : sentinelPrefix ++ (units (decimal i) ++ (sentinelSuffix ++ unitOf '"' :: rest)) =
      (sentinelPrefix ++ units (decimal i) ++ sentinelSuffix ++ [unitOf '"']) ++ rest := by simp
  have hlen : sentinelPrefix.length + (units (decimal i)).length + sentinelSuffix.length + 1 =
      (sentinelPrefix ++ units (decimal i) ++ sentinelSuffix ++ [unitOf '"']).length := by
    simp only [List.length_append, List.length_cons, List.length_nil]
  rw [htext, replaceSentinels, matchSentinel_tag]
  simp only []
  rw [hskipped, hlen, replaceSentinels_skip]

/-! ## Everything else -/

/-- The tag is nowhere in the string. -/
def Untagged (s : CodeUnits) : Prop := ¬sentinelPrefix <:+: s

theorem untagged_of_not_mem {s : CodeUnits} (h : unitOf 'X' ∉ s) : Untagged s :=
  fun hs => h (hs.subset List.mem_cons_self)

theorem Untagged.tail {u : UInt16} {s : CodeUnits} (h : Untagged (u :: s)) : Untagged s :=
  fun hs => h (hs.trans (List.suffix_cons u s).isInfix)

theorem Untagged.not_begins {s : CodeUnits} (h : Untagged s) : ¬sentinelPrefix <+: s := fun hs => h hs.isInfix

/-- Units that no escape has and no quote is. -/
def IsTagUnit (u : UInt16) : Prop := u ≠ unitOf '"' ∧ u ≠ unitOf '\\'

/-- What such units begin in a printed string, they begin in the string. -/
theorem begins_of_spelledBy {tag s t : CodeUnits} (h : SpelledBy s t) (htag : ∀ u ∈ tag, IsTagUnit u) {rest : CodeUnits}
    (hfront : tag <+: t ++ unitOf '"' :: rest) : tag <+: s := by
  induction tag generalizing s t with
  | nil => exact ⟨s, rfl⟩
  | cons u tag ih =>
    rw [List.forall_mem_cons] at htag
    obtain ⟨⟨hquote, hbackslash⟩, htag⟩ := htag
    cases h with
    | nil =>
      rw [List.nil_append, List.cons_prefix_cons] at hfront
      exact absurd hfront.1 hquote
    | raw _ _ _ h =>
      rw [List.cons_append, List.cons_prefix_cons] at hfront
      rw [List.cons_prefix_cons]
      exact ⟨hfront.1, ih h htag hfront.2⟩
    | short _ _ =>
      rw [List.cons_append, List.cons_prefix_cons] at hfront
      exact absurd hfront.1 hbackslash
    | unicode _ =>
      rw [unicodeEscape, List.cons_append, List.cons_append, List.cons_prefix_cons] at hfront
      exact absurd hfront.1 hbackslash

theorem sentinelPrefix_tagUnits : ∀ u ∈ sentinelPrefix, IsTagUnit u := by
  have hall : sentinelPrefix.all (fun u => decide (u ≠ unitOf '"' ∧ u ≠ unitOf '\\')) = true := by decide
  intro u hu
  have hu := List.all_eq_true.1 hall u hu
  rwa [decide_eq_true_eq] at hu

/-- What follows a string is no tag. -/
def AfterString (rest : CodeUnits) : Prop := rest.head? ≠ some (unitOf 'X')

theorem AfterString.not_begins {rest : CodeUnits} (h : AfterString rest) : ¬sentinelPrefix <+: rest := by
  rintro ⟨t, rfl⟩
  exact h rfl

/-- Units that are no quotes are passed over. -/
theorem replaceSentinels_append {l : CodeUnits} (hl : ∀ u ∈ l, u ≠ unitOf '"') (rest : CodeUnits) :
    replaceSentinels 0 (l ++ rest) = l ++ replaceSentinels 0 rest := by
  induction l with
  | nil => rfl
  | cons u l ih =>
    rw [List.forall_mem_cons] at hl
    rw [List.cons_append, replaceSentinels_cons (.inl hl.1), ih hl.2]
    rfl

theorem replaceSentinels_word {l : CodeUnits} (hl : l.all (fun u => decide (u ≠ unitOf '"')) = true)
    (rest : CodeUnits) : replaceSentinels 0 (l ++ rest) = l ++ replaceSentinels 0 rest :=
  replaceSentinels_append (fun u hu => of_decide_eq_true (List.all_eq_true.1 hl u hu)) rest

theorem unicodeEscape_ne_quote (u : UInt16) : ∀ v ∈ unicodeEscape u, v ≠ unitOf '"' := by
  rw [unicodeEscape, List.forall_mem_cons, List.forall_mem_cons]
  refine ⟨by decide, by decide, ?_⟩
  intro v hv
  obtain ⟨c, hc, rfl⟩ := List.mem_map.1 hv
  obtain ⟨d, hd, rfl⟩ := mem_fixedHex c hc
  interval_cases d <;> decide

/-- Inside a printed string nothing matches, nor at its closing quote. -/
theorem replaceSentinels_spelledBy {s t : CodeUnits} (h : SpelledBy s t) (hs : Untagged s) {rest : CodeUnits}
    (hrest : AfterString rest) : replaceSentinels 0 (t ++ unitOf '"' :: rest) = t ++ unitOf '"' :: replaceSentinels 0 rest := by
  induction h with
  | nil => exact replaceSentinels_cons (.inr hrest.not_begins)
  | raw hquote _ _ _ ih =>
    rw [List.cons_append, replaceSentinels_cons (.inl hquote), ih hs.tail]
    rfl
  | @short u c s t hc h ih =>
    -- an escaped quote may be the unit before the rest of the string
    have hafter : ¬sentinelPrefix <+: t ++ unitOf '"' :: rest :=
      fun hfront => hs.tail.not_begins (begins_of_spelledBy h sentinelPrefix_tagUnits hfront)
    rw [List.cons_append, List.cons_append, replaceSentinels_cons (.inl (by decide)),
      replaceSentinels_cons (.inr hafter), ih hs.tail]
    rfl
  | @unicode u s t h ih =>
    rw [List.append_assoc, replaceSentinels_append (unicodeEscape_ne_quote u), ih hs.tail, List.append_assoc]

theorem replaceSentinels_quoted {s : CodeUnits} (hs : Untagged s) {rest : CodeUnits} (hrest : AfterString rest) :
    replaceSentinels 0 (quoted s ++ rest) = quoted s ++ replaceSentinels 0 rest := by
  have hspelled := spelledBy_quoteUnits s
  have hafter : ¬sentinelPrefix <+: quoteUnits s ++ unitOf '"' :: rest :=
    fun hfront => hs.not_begins (begins_of_spelledBy hspelled sentinelPrefix_tagUnits hfront)
  have htext : ∀ rest, quoted s ++ rest = unitOf '"' :: (quoteUnits s ++ unitOf '"' :: rest) := by
    intro rest
    simp [quoted]
  rw [htext, htext, replaceSentinels_cons (.inr hafter), replaceSentinels_spelledBy hspelled hs hrest]

/-! ## The whole value -/

/-- An integer as a bare literal. -/
def exactLeaf : JsNumber → Json NumberText
  | .number n => .num n
  | .bigint i => .num (integerLiteral i)

theorem afterString_printElements (vs : List (Json NumberText)) (rest : CodeUnits) :
    AfterString (Json.printElements vs ++ rest) := by
  intro h
  cases vs with
  | nil => cases h
  | cons v vs => cases h

theorem afterString_printMembers (members : List (CodeUnits × Json NumberText)) (rest : CodeUnits) :
    AfterString (Json.printMembers members ++ rest) := by
  intro h
  cases members with
  | nil => cases h
  | cons m members => cases h

/-- Rewriting what is printed for the tagged value prints the exact one. -/
def Rewrites (v : Json JsNumber) : Prop := (∀ s ∈ v.strings, Untagged s) → ∀ rest, AfterString rest →
  replaceSentinels 0 (Json.print (v.bind replacer) ++ rest) = Json.print (v.bind exactLeaf) ++ replaceSentinels 0 rest

theorem rewrites_elements {vs : List (Json JsNumber)} (hvs : ∀ v ∈ vs, Rewrites v)
    (hs : ∀ s ∈ Json.stringsAll vs, Untagged s) (rest : CodeUnits) :
    replaceSentinels 0 (Json.printElements (Json.bindAll replacer vs) ++ rest) =
      Json.printElements (Json.bindAll exactLeaf vs) ++ replaceSentinels 0 rest := by
  induction vs with
  | nil => exact replaceSentinels_cons (.inl (by decide))
  | cons v vs ih =>
    rw [List.forall_mem_cons] at hvs
    rw [Json.stringsAll, List.forall_mem_append] at hs
    rw [Json.bindAll, Json.bindAll, Json.printElements, Json.printElements, List.cons_append, List.cons_append,
      List.append_assoc, List.append_assoc, replaceSentinels_cons (.inl (by decide)),
      hvs.1 hs.1 _ (afterString_printElements _ rest), ih hvs.2 hs.2]

/-- A member and what follows it. -/
theorem rewrites_member {k : CodeUnits} {v : Json JsNumber} (hv : Rewrites v) (hk : Untagged k)
    (hs : ∀ s ∈ v.strings, Untagged s) {rest : CodeUnits} (hrest : AfterString rest) :
    replaceSentinels 0 (quoted k ++ unitOf ':' :: (Json.print (v.bind replacer) ++ rest)) =
      quoted k ++ unitOf ':' :: (Json.print (v.bind exactLeaf) ++ replaceSentinels 0 rest) := by
  have hcolon : AfterString (unitOf ':' :: (Json.print (v.bind replacer) ++ rest)) := by
    intro h
    cases h
  rw [replaceSentinels_quoted hk hcolon, replaceSentinels_cons (.inl (by decide)), hv hs rest hrest]

theorem rewrites_members {members : List (CodeUnits × Json JsNumber)} (hmembers : ∀ m ∈ members, Rewrites m.2)
    (hs : ∀ s ∈ Json.stringsMembers members, Untagged s) (rest : CodeUnits) :
    replaceSentinels 0 (Json.printMembers (Json.bindMembers replacer members) ++ rest) =
      Json.printMembers (Json.bindMembers exactLeaf members) ++ replaceSentinels 0 rest := by
  induction members with
  | nil => exact replaceSentinels_cons (.inl (by decide))
  | cons m members ih =>
    obtain ⟨k, v⟩ := m
    rw [List.forall_mem_cons] at hmembers
    rw [Json.stringsMembers, List.forall_mem_cons, List.forall_mem_append] at hs
    obtain ⟨hk, hv, hrest⟩ := hs
    have hmember := rewrites_member hmembers.1 hk hv (afterString_printMembers (Json.bindMembers replacer members) rest)
    simp only [Json.bindMembers, Json.printMembers, List.cons_append, List.append_assoc]
    rw [replaceSentinels_cons (.inl (by decide)), hmember, ih hmembers.2 hrest]

theorem rewrites (v : Json JsNumber) : Rewrites v := by
  induction v using Json.induct with
  | hnull => exact fun _ rest _ => replaceSentinels_word (by decide) rest
  | hbool b =>
    intro _ rest _
    cases b
    · exact replaceSentinels_word (by decide) rest
    · exact replaceSentinels_word (by decide) rest
  | hnum n =>
    intro _ rest _
    cases n with
    | number n =>
      have hplain : ∀ u ∈ n.text, u ≠ unitOf '"' :=
        fun u hu => (numberUnit_ne (List.all_eq_true.1 n.plain u hu)).1
      exact replaceSentinels_append hplain rest
    | bigint i => exact replaceSentinels_tag i rest
  | hstr s => exact fun hs rest hrest => replaceSentinels_quoted (hs s List.mem_cons_self) hrest
  | harr vs ih =>
    intro hs rest _
    cases vs with
    | nil => exact replaceSentinels_word (by decide) rest
    | cons v vs =>
      rw [List.forall_mem_cons] at ih
      rw [Json.strings, Json.stringsAll, List.forall_mem_append] at hs
      have hfirst := ih.1 hs.1 _ (afterString_printElements (Json.bindAll replacer vs) rest)
      simp only [Json.bind, Json.bindAll, Json.print, List.cons_append, List.append_assoc]
      rw [replaceSentinels_cons (.inl (by decide)), hfirst, rewrites_elements ih.2 hs.2]
  | hobj members ih =>
    intro hs rest _
    cases members with
    | nil => exact replaceSentinels_word (by decide) rest
    | cons m members =>
      obtain ⟨k, v⟩ := m
      rw [List.forall_mem_cons] at ih
      rw [Json.strings, Json.stringsMembers, List.forall_mem_cons, List.forall_mem_append] at hs
      obtain ⟨hk, hv, hrest⟩ := hs
      have hmember := rewrites_member ih.1 hk hv (afterString_printMembers (Json.bindMembers replacer members) rest)
      simp only [Json.bind, Json.bindMembers, Json.print, List.cons_append, List.append_assoc]
      rw [replaceSentinels_cons (.inl (by decide)), hmember, rewrites_members ih.2 hrest]

/-- Where no string and no key has the tag, the text is that of the value with every `BigInt` as its bare literal, it
is read as that value, and each literal has all the digits. -/
theorem stringify_exact (v : Json JsNumber) (hv : ∀ s ∈ v.strings, Untagged s) :
    jsonStringifyWithBigInts v = Json.print (v.bind exactLeaf) ∧
    Json.read (jsonStringifyWithBigInts v) = some (v.bind exactLeaf) ∧
    ∀ i, (integerLiteral i).text = units (decimal i) ∧ integerOfLiteral (integerLiteral i) = some i := by
  have htext : jsonStringifyWithBigInts v = Json.print (v.bind exactLeaf) := by
    have hrewrites := rewrites v hv [] (by simp [AfterString])
    rw [List.append_nil] at hrewrites
    exact hrewrites.trans (List.append_nil _)
  refine ⟨htext, ?_, fun i => ⟨rfl, integerOfLiteral_integerLiteral i⟩⟩
  rw [htext, Json.read_print]

/-- A transfer of more than a double holds, with a quote and digits in its data. -/
def transferBody : Json JsNumber :=
  .obj [(units "data".toList, .str (units "\"-12\\".toList)), (units "call_value".toList, .num (.bigint 9223372036854775807)),
    (units "refunds".toList, .arr [.num (.bigint (-5)), .bool false, .null])]

theorem transferBody_untagged : ∀ s ∈ transferBody.strings, Untagged s := by
  simp only [transferBody, Json.strings, Json.stringsAll, Json.stringsMembers, List.append_nil, List.nil_append,
    List.cons_append, List.forall_mem_cons]
  exact ⟨untagged_of_not_mem (by decide), untagged_of_not_mem (by decide), untagged_of_not_mem (by decide),
    untagged_of_not_mem (by decide), by simp⟩

theorem transferBody_exact :
    jsonStringifyWithBigInts transferBody = Json.print (transferBody.bind exactLeaf) ∧
    Json.read (jsonStringifyWithBigInts transferBody) = some (transferBody.bind exactLeaf) ∧
    ∀ i, (integerLiteral i).text = units (decimal i) ∧ integerOfLiteral (integerLiteral i) = some i :=
  stringify_exact transferBody transferBody_untagged

end HardhatTron

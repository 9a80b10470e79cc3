import HardhatTron.Lib.Json
/-!
# Members found without a parser

A program may look a number up in a JSON document by searching the text for the
name in quotes, a colon and digits. `searchMember_document`: whatever white
space the document is written with and whatever its strings escape, the search
finds the digits of the first member of that name whose value begins with one,
at any depth, provided no key has a quote in it.

A document is a `Json` whose strings are the texts between their quotes, escapes
and all.
-/
namespace Lib

/-! ## The search -/

/-- `\s` of a JavaScript regular expression. -/
def isRegexSpace (u : UInt16) : Bool :=
  (9 ≤ u && u ≤ 13) || u = 0x20 || u = 0xA0 || u = 0x1680 || (0x2000 ≤ u && u ≤ 0x200A) || u = 0x2028 ||
    u = 0x2029 || u = 0x202F || u = 0x205F || u = 0x3000 || u = 0xFEFF

/-- The digits that begin here, one at least: `(\d+)`. -/
def leadingDigits (t : CodeUnits) : Option CodeUnits :=
  let digits := t.takeWhile isDigitUnit
  if digits = [] then none else some digits

/-- `\s*:\s*(\d+)` -/
def matchNumber (t : CodeUnits) : Option CodeUnits :=
  let t := t.dropWhile isRegexSpace
  if t.head? = some (unitOf ':') then leadingDigits (t.tail.dropWhile isRegexSpace) else none

/-- `"name"\s*:\s*(\d+)` -/
def matchMember (name t : CodeUnits) : Option CodeUnits :=
  let opening := unitOf '"' :: (name ++ [unitOf '"'])
  if opening <+: t then matchNumber (t.drop opening.length) else none

/-- The group of the first match. -/
def searchMember (name : CodeUnits) : CodeUnits → Option CodeUnits
  | [] => none
  | u :: rest => (matchMember name (u :: rest)).or (searchMember name rest)

/-! ## Documents as they are written -/

/-- The white space of JSON. -/
def isSpaceUnit (u : UInt16) : Bool := u = 0x20 || u = 9 || u = 10 || u = 13

/-- The brackets, the comma and the colon. -/
def isMark (u : UInt16) : Bool := "{}[],:".toList.any fun c => u = unitOf c

/-- What numbers and the words `null`, `true` and `false` are made of. -/
def isLiteralUnit (u : UInt16) : Bool := isNumberUnit u || (unitOf 'a' ≤ u && u ≤ unitOf 'z')

/-- Text up to the closing quote, behind a backslash or not. -/
def isRawAfter : Bool → CodeUnits → Bool
  | escaped, [] => !escaped
  | true, _ :: rest => isRawAfter false rest
  | false, u :: rest => u ≠ unitOf '"' && isRawAfter (u = unitOf '\\') rest

/-- The text between the quotes of a string: a quote only after a backslash. -/
def isRaw (t : CodeUnits) : Bool := isRawAfter false t

inductive Token where
  | mark (u : UInt16)
  | string (raw : CodeUnits)
  | literal (text : CodeUnits)

def Token.text : Token → CodeUnits
  | .mark u => [u]
  | .string raw => unitOf '"' :: (raw ++ [unitOf '"'])
  | .literal text => text

/-- The tokens, with any white space before, between and after them. -/
inductive Spelled : List Token → CodeUnits → Prop
  | nil {ws : CodeUnits} (hws : ws.all isSpaceUnit = true) : Spelled [] ws
  | cons {ws : CodeUnits} (hws : ws.all isSpaceUnit = true) (k : Token) {ts : List Token} {t : CodeUnits}
      (ht : Spelled ts t) : Spelled (k :: ts) (ws ++ (k.text ++ t))

namespace Json

def separator {α : Type} : List α → List Token
  | [] => []
  | _ :: _ => [.mark (unitOf ',')]

mutual
def tokens : Json NumberText → List Token
  | .null => [.literal (units "null".toList)]
  | .bool true => [.literal (units "true".toList)]
  | .bool false => [.literal (units "false".toList)]
  | .num n => [.literal n.text]
  | .str s => [.string s]
  | .arr vs => .mark (unitOf '[') :: tokensAll vs
  | .obj members => .mark (unitOf '{') :: tokensMembers members

def tokensAll : List (Json NumberText) → List Token
  | [] => [.mark (unitOf ']')]
  | v :: vs => tokens v ++ (separator vs ++ tokensAll vs)

def tokensMembers : List (CodeUnits × Json NumberText) → List Token
  | [] => [.mark (unitOf '}')]
  | (k, v) :: members => .string k :: .mark (unitOf ':') :: (tokens v ++ (separator members ++ tokensMembers members))
end

mutual
/-- Every name of a member. -/
def keys : Json NumberText → List CodeUnits
  | .arr vs => keysAll vs
  | .obj members => keysMembers members
  | _ => []

def keysAll : List (Json NumberText) → List CodeUnits
  | [] => []
  | v :: vs => keys v ++ keysAll vs

def keysMembers : List (CodeUnits × Json NumberText) → List CodeUnits
  | [] => []
  | (k, v) :: members => k :: (keys v ++ keysMembers members)
end

/-- The digits that a number begins with. -/
def digits? : Json NumberText → Option CodeUnits
  | .num n => leadingDigits n.text
  | _ => none

mutual
/-- The digits of the first member of the name whose value begins with one. -/
def firstNumber (name : CodeUnits) : Json NumberText → Option CodeUnits
  | .arr vs => firstNumberAll name vs
  | .obj members => firstNumberMembers name members
  | _ => none

def firstNumberAll (name : CodeUnits) : List (Json NumberText) → Option CodeUnits
  | [] => none
  | v :: vs => (firstNumber name v).or (firstNumberAll name vs)

def firstNumberMembers (name : CodeUnits) : List (CodeUnits × Json NumberText) → Option CodeUnits
  | [] => none
  | (k, v) :: members =>
    (if k = name then digits? v else none).or ((firstNumber name v).or (firstNumberMembers name members))
end

end Json

/-! ## Units -/

theorem not_regexSpace {u : UInt16} (h : 0x20 < u.toNat) (h' : u.toNat < 0xA0) : isRegexSpace u = false := by
  simp only [isRegexSpace, Bool.or_eq_false_iff, Bool.and_eq_false_iff, decide_eq_false_iff_not, UInt16.le_iff_toNat_le,
    ← UInt16.toNat_inj, UInt16.reduceToNat]
  omega

theorem regexSpace_of_space {u : UInt16} (h : isSpaceUnit u = true) : isRegexSpace u = true := by
  simp only [isSpaceUnit, Bool.or_eq_true, decide_eq_true_eq] at h
  rcases h with ((rfl | rfl) | rfl) | rfl <;> decide

theorem mark_cases {u : UInt16} (h : isMark u = true) : u = unitOf '{' ∨ u = unitOf '}' ∨ u = unitOf '[' ∨
    u = unitOf ']' ∨ u = unitOf ',' ∨ u = unitOf ':' := by
  simpa [isMark] using h

theorem mark_visible {u : UInt16} (h : isMark u = true) : isRegexSpace u = false ∧ u ≠ unitOf '"' := by
  rcases mark_cases h with rfl | rfl | rfl | rfl | rfl | rfl <;> exact ⟨by decide, by decide⟩

theorem literal_range {u : UInt16} (h : isLiteralUnit u = true) : 0x2A < u.toNat ∧ u.toNat < 0x7B := by
  simp only [isLiteralUnit, isNumberUnit, isDigitUnit, Bool.or_eq_true, Bool.and_eq_true, decide_eq_true_eq,
    List.any_eq_true, UInt16.le_iff_toNat_le] at h
  rcases h with (h | ⟨c, hc, rfl⟩) | h
  · exact ⟨Nat.lt_of_lt_of_le (by decide) h.1, Nat.lt_of_le_of_lt h.2 (by decide)⟩
  · have hall : ("+-.eE".toList.all fun c => 0x2A < (unitOf c).toNat && (unitOf c).toNat < 0x7B) = true := by
      decide
    simpa only [Bool.and_eq_true, decide_eq_true_eq] using List.all_eq_true.1 hall c hc
  · exact ⟨Nat.lt_of_lt_of_le (by decide) h.1, Nat.lt_of_le_of_lt h.2 (by decide)⟩

theorem literal_visible {u : UInt16} (h : isLiteralUnit u = true) : isRegexSpace u = false := by
  obtain ⟨hlow, hhigh⟩ := literal_range h
  exact not_regexSpace (by omega) (by omega)

theorem literal_ne {u : UInt16} (h : isLiteralUnit u = true) :
    u ≠ unitOf '"' ∧ u ≠ unitOf '\\' ∧ u ≠ unitOf ':' ∧ isMark u = false := by
  refine ⟨?_, ?_, ?_, ?_⟩
  · rintro rfl
    revert h
    decide
  · rintro rfl
    revert h
    decide
  · rintro rfl
    revert h
    decide
  · by_contra hmark
    rw [Bool.not_eq_false] at hmark
    rcases mark_cases hmark with rfl | rfl | rfl | rfl | rfl | rfl <;> revert h <;> decide

theorem space_ne_quote {u : UInt16} (h : isSpaceUnit u = true) : u ≠ unitOf '"' := by
  rintro rfl
  revert h
  decide

/-! ## One string -/

section

variable {name raw t : CodeUnits}

theorem isRaw_cons {u : UInt16} (h : isRaw (u :: raw) = true) :
    u ≠ unitOf '"' ∧ isRawAfter (u = unitOf '\\') raw = true := by
  simpa [isRaw, isRawAfter] using h

theorem isRaw_tail {u : UInt16} (h : isRaw (u :: raw) = true) (hu : u ≠ unitOf '\\') : isRaw raw = true := by
  have hrest := (isRaw_cons h).2
  rwa [decide_eq_false hu] at hrest

/-- Up to a quote, the text between the quotes is all there is. -/
theorem prefix_raw_iff (hname : ∀ u ∈ name, isLiteralUnit u = true) (hraw : isRaw raw = true) :
    name ++ [unitOf '"'] <+: raw ++ unitOf '"' :: t ↔ raw = name := by
  induction name generalizing raw with
  | nil =>
    cases raw with
    | nil => simp
    | cons u raw => simpa [List.cons_prefix_cons] using (isRaw_cons hraw).1.symm
  | cons n name ih =>
    rw [List.forall_mem_cons] at hname
    obtain ⟨hquote, hbackslash, -⟩ := literal_ne hname.1
    cases raw with
    | nil =>
      rw [List.cons_append, List.nil_append, List.cons_prefix_cons]
      simp [hquote]
    | cons u raw =>
      rw [List.cons_append, List.cons_append, List.cons_prefix_cons, List.cons.injEq]
      constructor
      · rintro ⟨rfl, hrest⟩
        exact ⟨rfl, (ih hname.2 (isRaw_tail hraw hbackslash)).1 hrest⟩
      · rintro ⟨rfl, hrest⟩
        exact ⟨rfl, (ih hname.2 (isRaw_tail hraw hbackslash)).2 hrest⟩

theorem matchMember_raw (hname : ∀ u ∈ name, isLiteralUnit u = true) (hraw : isRaw raw = true) :
    matchMember name (unitOf '"' :: (raw ++ unitOf '"' :: t)) = if raw = name then matchNumber t else none := by
  unfold matchMember
  simp only [List.cons_prefix_cons, true_and, prefix_raw_iff hname hraw]
  split
  · rename_i h
    subst h
    simp
  · rfl

theorem matchMember_of_ne {u : UInt16} (h : u ≠ unitOf '"') : matchMember name (u :: t) = none := by
  simp [matchMember, List.cons_prefix_cons, h.symm]

/-- Nothing is found where no quote is. -/
theorem searchMember_skip {a : CodeUnits} (h : ∀ u ∈ a, u ≠ unitOf '"') :
    searchMember name (a ++ t) = searchMember name t := by
  induction a with
  | nil => rfl
  | cons u a ih =>
    rw [List.forall_mem_cons] at h
    rw [List.cons_append, searchMember, matchMember_of_ne h.1, ih h.2, Option.none_or]

/-- A quote that no name follows. -/
theorem searchMember_quote (hname : ∀ u ∈ name, isLiteralUnit u = true)
    (ht : ∀ u ∈ t.head?, isLiteralUnit u = false ∧ u ≠ unitOf '"') :
    searchMember name (unitOf '"' :: t) = searchMember name t := by
  have hnone : ¬ name ++ [unitOf '"'] <+: t := by
    intro h
    cases t with
    | nil => simp at h
    | cons u t =>
      obtain ⟨hliteral, hquote⟩ := ht u rfl
      cases name with
      | nil =>
        rw [List.nil_append, List.cons_prefix_cons] at h
        exact hquote h.1.symm
      | cons n name =>
        rw [List.cons_append, List.cons_prefix_cons] at h
        rw [← h.1, hname n List.mem_cons_self] at hliteral
        cases hliteral
  rw [searchMember]
  simp [matchMember, List.cons_prefix_cons, hnone]

/-- From behind its opening quote on, nothing is found in a string that no number
follows, and nothing in one without quotes. -/
theorem searchMember_raw (hname : ∀ u ∈ name, isLiteralUnit u = true) (hraw : isRaw raw = true)
    (ht : ∀ u ∈ t.head?, isLiteralUnit u = false ∧ u ≠ unitOf '"')
    (h : unitOf '"' ∉ raw ∨ matchNumber t = none) :
    searchMember name (raw ++ unitOf '"' :: t) = searchMember name t := by
  rcases h with h | h
  · rw [searchMember_skip fun u hu hq => h (hq ▸ hu), searchMember_quote hname ht]
  · have hsearch : ∀ escaped, isRawAfter escaped raw = true →
        searchMember name (raw ++ unitOf '"' :: t) = searchMember name t := by
      clear hraw
      induction raw with
      | nil => exact fun _ _ => searchMember_quote hname ht
      | cons u raw ih =>
        intro escaped hraw
        rw [List.cons_append, searchMember]
        cases escaped with
        | true =>
          -- behind a backslash, `u` may be a quote that the name follows
          by_cases hu : u = unitOf '"'
          · subst hu
            rw [matchMember_raw hname hraw, h, ite_self, Option.none_or, ih false hraw]
          · rw [matchMember_of_ne hu, Option.none_or, ih false hraw]
        | false =>
          obtain ⟨hquote, hrest⟩ := isRaw_cons hraw
          rw [matchMember_of_ne hquote, Option.none_or, ih _ hrest]
    exact hsearch false hraw

end

/-! ## Tokens -/

/-- The number behind a name, when one is there. -/
def numberBehind : List Token → Option CodeUnits
  | .mark u :: .literal text :: _ => if u = unitOf ':' then leadingDigits text else none
  | _ => none

/-- What the search finds, by tokens. -/
def memberAmong (name : CodeUnits) : List Token → Option CodeUnits
  | [] => none
  | .string raw :: ts => (if raw = name then numberBehind ts else none).or (memberAmong name ts)
  | .mark _ :: ts => memberAmong name ts
  | .literal _ :: ts => memberAmong name ts

/-- The end, or a mark. -/
inductive Ends : List Token → Prop
  | nil : Ends []
  | mark (u : UInt16) (ts : List Token) : Ends (.mark u :: ts)

/-- Marks stand between strings and literals, and names have no quotes. -/
inductive Regular : List Token → Prop
  | nil : Regular []
  | mark {u : UInt16} {ts : List Token} (hu : isMark u = true) (h : Regular ts) : Regular (.mark u :: ts)
  | string {raw : CodeUnits} {ts : List Token} (hraw : isRaw raw = true) (hends : Ends ts)
      (hname : ts.head? = some (.mark (unitOf ':')) → unitOf '"' ∉ raw) (h : Regular ts) : Regular (.string raw :: ts)
  | literal {text : CodeUnits} {ts : List Token} (htext : ∀ u ∈ text, isLiteralUnit u = true) (hne : text ≠ [])
      (hends : Ends ts) (h : Regular ts) : Regular (.literal text :: ts)

section

variable {name t ws : CodeUnits} {ts : List Token}

theorem dropWhile_spaces (hws : ws.all isSpaceUnit = true) {rest : CodeUnits}
    (hrest : ∀ u ∈ rest.head?, isRegexSpace u = false) : (ws ++ rest).dropWhile isRegexSpace = rest := by
  rw [List.dropWhile_append_of_pos fun u hu => regexSpace_of_space (List.all_eq_true.1 hws u hu)]
  cases rest with
  | nil => rfl
  | cons u rest => exact List.dropWhile_cons_of_neg (by simp [hrest u rfl])

theorem dropWhile_all_spaces (hws : ws.all isSpaceUnit = true) : ws.dropWhile isRegexSpace = [] := by
  have hnone : ∀ u ∈ ([] : CodeUnits).head?, isRegexSpace u = false := by simp
  simpa using dropWhile_spaces hws hnone

/-- Every token is seen. -/
theorem Regular.visible {k : Token} (h : Regular (k :: ts)) (rest : CodeUnits) :
    ∃ u tail, k.text ++ rest = u :: tail ∧ isRegexSpace u = false := by
  cases h with
  | mark hu _ => exact ⟨_, _, rfl, (mark_visible hu).1⟩
  | string => exact ⟨_, _, rfl, by decide⟩
  | literal htext hne =>
    rename_i text _
    obtain ⟨u, tail, rfl⟩ := List.exists_cons_of_ne_nil hne
    exact ⟨u, tail ++ rest, rfl, literal_visible (htext u List.mem_cons_self)⟩

theorem dropWhile_token {k : Token} (h : Regular (k :: ts)) (hws : ws.all isSpaceUnit = true) (rest : CodeUnits) :
    (ws ++ (k.text ++ rest)).dropWhile isRegexSpace = k.text ++ rest := by
  obtain ⟨u, tail, htext, hu⟩ := h.visible rest
  apply dropWhile_spaces hws
  rw [htext]
  rintro _ ⟨⟩
  exact hu

/-- White space, a mark or the end follows. -/
theorem Spelled.head_of_ends (ht : Spelled ts t) (hends : Ends ts) (h : Regular ts) :
    ∀ u ∈ t.head?, isLiteralUnit u = false ∧ u ≠ unitOf '"' := by
  have hspace : ∀ {u}, isSpaceUnit u = true → isLiteralUnit u = false ∧ u ≠ unitOf '"' := by
    intro u hu
    refine ⟨?_, space_ne_quote hu⟩
    by_contra hliteral
    have hvisible := literal_visible (Bool.not_eq_false _ ▸ hliteral)
    rw [regexSpace_of_space hu] at hvisible
    cases hvisible
  intro u hu
  cases ht with
  | nil hws => exact hspace (List.all_eq_true.1 hws u (List.mem_of_mem_head? hu))
  | cons hws k ht =>
    rename_i ws ts t
    cases ws with
    | cons w ws =>
      obtain rfl : w = u := Option.some.inj hu
      exact hspace (List.all_eq_true.1 hws w List.mem_cons_self)
    | nil =>
      cases hends with
      | mark m _ =>
        obtain rfl : m = u := Option.some.inj hu
        cases h with
        | mark hm _ =>
          refine ⟨?_, (mark_visible hm).2⟩
          by_contra hliteral
          have hmark := (literal_ne (Bool.not_eq_false _ ▸ hliteral)).2.2.2
          rw [hm] at hmark
          cases hmark

theorem literal_of_digit {u : UInt16} (h : isDigitUnit u = true) : isLiteralUnit u = true := by
  simp [isLiteralUnit, isNumberUnit, h]

/-- A literal's digits end with it. -/
theorem leadingDigits_append {text : CodeUnits} (ht : ∀ u ∈ t.head?, isLiteralUnit u = false) :
    leadingDigits (text ++ t) = leadingDigits text := by
  have htake : (text ++ t).takeWhile isDigitUnit = text.takeWhile isDigitUnit := by
    rw [List.takeWhile_append]
    split
    · have hnone : t.takeWhile isDigitUnit = [] := by
        cases t with
        | nil => rfl
        | cons u t =>
          apply List.takeWhile_cons_of_neg
          intro hdigit
          have hu := ht u rfl
          rw [literal_of_digit hdigit] at hu
          cases hu
      rename_i hall
      rw [hnone, List.append_nil, (List.takeWhile_prefix _).eq_of_length hall]
    · rfl
  simp only [leadingDigits, htake]

theorem leadingDigits_cons_of_neg {u : UInt16} (h : isDigitUnit u = false) : leadingDigits (u :: t) = none := by
  simp [leadingDigits, h]

/-- Behind a colon. -/
theorem Spelled.leadingDigits (ht : Spelled ts t) (h : Regular ts) :
    Lib.leadingDigits (t.dropWhile isRegexSpace) = numberBehind (.mark (unitOf ':') :: ts) := by
  cases ht with
  | nil hws =>
    rw [dropWhile_all_spaces hws]
    rfl
  | cons hws k ht =>
    rw [dropWhile_token h hws]
    cases h with
    | mark hu _ =>
      apply leadingDigits_cons_of_neg
      rcases mark_cases hu with rfl | rfl | rfl | rfl | rfl | rfl <;> decide
    | string => exact leadingDigits_cons_of_neg (by decide)
    | literal _ _ hends h =>
      rw [leadingDigits_append fun u hu => (ht.head_of_ends hends h u hu).1, numberBehind, if_pos rfl]
      rfl

/-- Behind a name. -/
theorem Spelled.matchNumber (ht : Spelled ts t) (h : Regular ts) : Lib.matchNumber t = numberBehind ts := by
  cases ht with
  | nil hws =>
    simp [Lib.matchNumber, dropWhile_all_spaces hws, numberBehind]
  | cons hws k ht =>
    rename_i ts t
    simp only [Lib.matchNumber, dropWhile_token h hws]
    cases h with
    | mark hu h =>
      rename_i u
      by_cases hcolon : u = unitOf ':'
      · subst hcolon
        exact (if_pos rfl).trans (ht.leadingDigits h)
      · rw [if_neg]
        · cases ts with
          | nil => rfl
          | cons k ts => cases k <;> simp [numberBehind, hcolon]
        · exact fun heq => hcolon (Option.some.inj heq)
    | string => exact if_neg (by simp [Token.text]; decide)
    | literal htext hne =>
      rename_i text
      obtain ⟨u, tail, rfl⟩ := List.exists_cons_of_ne_nil hne
      exact if_neg fun heq => (literal_ne (htext u List.mem_cons_self)).2.2.1 (Option.some.inj heq)

theorem numberBehind_of_head (h : ts.head? ≠ some (.mark (unitOf ':'))) : numberBehind ts = none := by
  unfold numberBehind
  split
  · rename_i u text ts
    apply if_neg
    rintro rfl
    exact h rfl
  · rfl

/-- The search goes from string to string. -/
theorem Spelled.searchMember (hname : ∀ u ∈ name, isLiteralUnit u = true) (ht : Spelled ts t) (h : Regular ts) :
    Lib.searchMember name t = memberAmong name ts := by
  induction ht with
  | nil hws =>
    rename_i ws
    rw [← List.append_nil ws, searchMember_skip fun u hu => space_ne_quote (List.all_eq_true.1 hws u hu)]
    rfl
  | cons hws k ht ih =>
    rename_i ws ts t
    rw [searchMember_skip fun u hu => space_ne_quote (List.all_eq_true.1 hws u hu)]
    cases h with
    | mark hu h =>
      rw [searchMember_skip, ih h]
      · rfl
      · simpa [Token.text] using (mark_visible hu).2
    | literal htext _ _ h =>
      rw [searchMember_skip, ih h]
      · rfl
      · exact fun u hu => (literal_ne (htext u hu)).1
    | string hraw hends hkey h =>
      rename_i raw
      have hnumber := ht.matchNumber h
      have hrest : Lib.searchMember name (raw ++ unitOf '"' :: t) = Lib.searchMember name t := by
        apply searchMember_raw hname hraw (ht.head_of_ends hends h)
        by_cases hcolon : ts.head? = some (.mark (unitOf ':'))
        · exact .inl (hkey hcolon)
        · exact .inr (hnumber.trans (numberBehind_of_head hcolon))
      have htext : (Token.string raw).text ++ t = unitOf '"' :: (raw ++ unitOf '"' :: t) := by simp [Token.text]
      rw [htext, Lib.searchMember, matchMember_raw hname hraw, hnumber, hrest, ih h]
      rfl

end

/-! ## Documents -/

namespace Json

variable {name : CodeUnits} {ts : List Token}

theorem numberBehind_value (v : Json NumberText) (ts : List Token) :
    numberBehind (.mark (unitOf ':') :: (v.tokens ++ ts)) = v.digits? := by
  cases v with
  | null => rfl
  | bool b => cases b <;> rfl
  | num n =>
    rw [tokens, List.singleton_append, numberBehind, if_pos rfl]
    rfl
  | str s => rfl
  | arr vs => rfl
  | obj members => rfl

/-- Where no colon follows, a value's tokens give its own first number. -/
def FindsFirst (name : CodeUnits) (v : Json NumberText) : Prop :=
  ∀ ts : List Token, ts.head? ≠ some (.mark (unitOf ':')) →
    memberAmong name (v.tokens ++ ts) = (v.firstNumber name).or (memberAmong name ts)

theorem separator_head {α : Type} (rest : List α) {closing : UInt16} (hclosing : closing ≠ unitOf ':')
    (ts : List Token) (h : rest = [] → ts.head? = some (.mark closing)) :
    (separator rest ++ ts).head? ≠ some (.mark (unitOf ':')) := by
  cases rest with
  | nil =>
    rw [separator, List.nil_append, h rfl]
    exact fun heq => hclosing (Token.mark.inj (Option.some.inj heq))
  | cons =>
    intro heq
    have hcomma : unitOf ',' = unitOf ':' := Token.mark.inj (Option.some.inj heq)
    revert hcomma
    decide

theorem memberAmong_separator {α : Type} (rest : List α) (ts : List Token) :
    memberAmong name (separator rest ++ ts) = memberAmong name ts := by
  cases rest <;> rfl

theorem memberAmong_tokensAll {vs : List (Json NumberText)} (hvs : ∀ v ∈ vs, FindsFirst name v) (ts : List Token) :
    memberAmong name (tokensAll vs ++ ts) = (firstNumberAll name vs).or (memberAmong name ts) := by
  induction vs with
  | nil => simp [tokensAll, memberAmong, firstNumberAll]
  | cons v vs ih =>
    rw [List.forall_mem_cons] at hvs
    have hhead : (separator vs ++ (tokensAll vs ++ ts)).head? ≠ some (.mark (unitOf ':')) := by
      apply separator_head vs (show unitOf ']' ≠ unitOf ':' by decide)
      rintro rfl
      rfl
    rw [tokensAll, List.append_assoc, List.append_assoc, hvs.1 _ hhead, memberAmong_separator, ih hvs.2, firstNumberAll,
      Option.or_assoc]

theorem memberAmong_tokensMembers {members : List (CodeUnits × Json NumberText)}
    (hmembers : ∀ m ∈ members, FindsFirst name m.2) (ts : List Token) :
    memberAmong name (tokensMembers members ++ ts) = (firstNumberMembers name members).or (memberAmong name ts) := by
  induction members with
  | nil => simp [tokensMembers, memberAmong, firstNumberMembers]
  | cons m members ih =>
    obtain ⟨k, v⟩ := m
    rw [List.forall_mem_cons] at hmembers
    have hhead : (separator members ++ (tokensMembers members ++ ts)).head? ≠ some (.mark (unitOf ':')) := by
      apply separator_head members (show unitOf '}' ≠ unitOf ':' by decide)
      rintro rfl
      rfl
    have htokens : tokensMembers ((k, v) :: members) ++ ts = .string k :: .mark (unitOf ':') ::
        (v.tokens ++ (separator members ++ (tokensMembers members ++ ts))) := by simp [tokensMembers]
    rw [htokens, memberAmong, numberBehind_value, memberAmong, hmembers.1 _ hhead, memberAmong_separator, ih hmembers.2,
      firstNumberMembers, Option.or_assoc, Option.or_assoc]

theorem findsFirst (name : CodeUnits) (v : Json NumberText) : FindsFirst name v := by
  induction v using induct with
  | hnull => exact fun _ _ => rfl
  | hbool b => cases b <;> exact fun _ _ => rfl
  | hnum n => exact fun _ _ => rfl
  | hstr s =>
    intro ts hts
    simp [tokens, memberAmong, numberBehind_of_head hts, firstNumber]
  | harr vs ih => exact fun ts _ => memberAmong_tokensAll ih ts
  | hobj members ih => exact fun ts _ => memberAmong_tokensMembers ih ts

/-! ### Regular tokens -/

/-- The strings are the texts between the quotes, and the names have none. -/
structure Written (v : Json NumberText) : Prop where
  strings : ∀ s ∈ v.strings, isRaw s = true
  keys : ∀ k ∈ v.keys, unitOf '"' ∉ k

/-- Before regular tokens that begin with a mark, a value's tokens are regular. -/
def KeepsRegular (v : Json NumberText) : Prop :=
  v.Written → ∀ ts, Ends ts → ts.head? ≠ some (.mark (unitOf ':')) → Regular ts → Regular (v.tokens ++ ts)

theorem ends_separator {α : Type} (rest : List α) {ts : List Token} (h : rest = [] → Ends ts) :
    Ends (separator rest ++ ts) := by
  cases rest with
  | nil => exact h rfl
  | cons => exact .mark _ _

theorem regular_separator {α : Type} (rest : List α) {ts : List Token} (h : Regular ts) :
    Regular (separator rest ++ ts) := by
  cases rest with
  | nil => exact h
  | cons => exact .mark (by decide) h

theorem regular_word {word : String} (h : (units word.toList).all isLiteralUnit = true)
    (hne : units word.toList ≠ []) (hends : Ends ts) (hts : Regular ts) :
    Regular ([.literal (units word.toList)] ++ ts) :=
  .literal (List.all_eq_true.1 h) hne hends hts

theorem regular_tokensAll {vs : List (Json NumberText)} (hvs : ∀ v ∈ vs, KeepsRegular v)
    (hwritten : ∀ v ∈ vs, v.Written) (hts : Regular ts) : Regular (tokensAll vs ++ ts) := by
  induction vs with
  | nil => exact .mark (by decide) hts
  | cons v vs ih =>
    rw [List.forall_mem_cons] at hvs hwritten
    rw [tokensAll, List.append_assoc, List.append_assoc]
    apply hvs.1 hwritten.1
    · apply ends_separator
      rintro rfl
      exact .mark _ _
    · apply separator_head vs (show unitOf ']' ≠ unitOf ':' by decide)
      rintro rfl
      rfl
    · exact regular_separator vs (ih hvs.2 hwritten.2)

theorem regular_tokensMembers {members : List (CodeUnits × Json NumberText)} (hvs : ∀ m ∈ members, KeepsRegular m.2)
    (hwritten : ∀ m ∈ members, m.2.Written) (hkeys : ∀ m ∈ members, isRaw m.1 = true ∧ unitOf '"' ∉ m.1)
    (hts : Regular ts) : Regular (tokensMembers members ++ ts) := by
  induction members with
  | nil => exact .mark (by decide) hts
  | cons m members ih =>
    obtain ⟨k, v⟩ := m
    rw [List.forall_mem_cons] at hvs hwritten hkeys
    rw [tokensMembers, List.cons_append, List.cons_append, List.append_assoc, List.append_assoc]
    refine .string hkeys.1.1 (.mark _ _) (fun _ => hkeys.1.2) (.mark (by decide) ?_)
    apply hvs.1 hwritten.1
    · apply ends_separator
      rintro rfl
      exact .mark _ _
    · apply separator_head members (show unitOf '}' ≠ unitOf ':' by decide)
      rintro rfl
      rfl
    · exact regular_separator members (ih hvs.2 hwritten.2 hkeys.2)

theorem written_of_arr {vs : List (Json NumberText)} (h : (Json.arr vs).Written) : ∀ v ∈ vs, v.Written := by
  have hstrings := h.strings
  have hkeys := h.keys
  simp only [strings, keys] at hstrings hkeys
  clear h
  induction vs with
  | nil => simp
  | cons v vs ih =>
    simp only [stringsAll, keysAll, List.forall_mem_append] at hstrings hkeys
    rw [List.forall_mem_cons]
    exact ⟨⟨hstrings.1, hkeys.1⟩, ih hstrings.2 hkeys.2⟩

theorem written_of_obj {members : List (CodeUnits × Json NumberText)} (h : (Json.obj members).Written) :
    ∀ m ∈ members, m.2.Written ∧ isRaw m.1 = true ∧ unitOf '"' ∉ m.1 := by
  have hstrings := h.strings
  have hkeys := h.keys
  simp only [strings, keys] at hstrings hkeys
  clear h
  induction members with
  | nil => simp
  | cons m members ih =>
    obtain ⟨k, v⟩ := m
    simp only [stringsMembers, keysMembers, List.forall_mem_cons, List.forall_mem_append] at hstrings hkeys
    rw [List.forall_mem_cons]
    exact ⟨⟨⟨hstrings.2.1, hkeys.2.1⟩, hstrings.1, hkeys.1⟩, ih hstrings.2.2 hkeys.2.2⟩

theorem literal_of_number {u : UInt16} (h : isNumberUnit u = true) : isLiteralUnit u = true := by
  simp [isLiteralUnit, h]

theorem keepsRegular (v : Json NumberText) : KeepsRegular v := by
  induction v using induct with
  | hnull => exact fun _ _ hends _ hts => regular_word (by decide) (by decide) hends hts
  | hbool b => cases b <;> exact fun _ _ hends _ hts => regular_word (by decide) (by decide) hends hts
  | hnum n =>
    intro _ ts hends _ hts
    obtain ⟨u, t, htext, -⟩ := n.exists_cons
    refine .literal (fun u hu => literal_of_number (List.all_eq_true.1 n.plain u hu)) ?_ hends hts
    rw [htext]
    exact List.cons_ne_nil _ _
  | hstr s =>
    intro h ts hends hcolon hts
    exact .string (h.strings s (by simp [strings])) hends (fun heq => (hcolon heq).elim) hts
  | harr vs ih =>
    intro h ts _ _ hts
    exact .mark (by decide) (regular_tokensAll ih (written_of_arr h) hts)
  | hobj members ih =>
    intro h ts _ _ hts
    have hmembers := written_of_obj h
    exact .mark (by decide)
      (regular_tokensMembers ih (fun m hm => (hmembers m hm).1) (fun m hm => (hmembers m hm).2) hts)

theorem Written.regular {v : Json NumberText} (h : v.Written) : Regular v.tokens := by
  have hregular := keepsRegular v h [] .nil (by simp) .nil
  rwa [List.append_nil] at hregular

end Json

/-- **Found without a parser.** -/
theorem searchMember_document {name t : CodeUnits} (hname : ∀ u ∈ name, isLiteralUnit u = true) {v : Json NumberText}
    (hv : v.Written) (ht : Spelled v.tokens t) : searchMember name t = v.firstNumber name := by
  have htokens := Json.findsFirst name v [] (by simp)
  rw [List.append_nil] at htokens
  rw [ht.searchMember hname hv.regular, htokens]
  simp [memberAmong]

end Lib

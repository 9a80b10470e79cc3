import HardhatTron.Lib.HexBytes
/-!
# JSON texts

A JSON value, the text `JSON.stringify` prints for it and a reader of such
texts: strict JSON without white space, numbers kept as their literals.
`read_print` is the round trip. Texts and strings are UTF-16 code units, so any
string of JavaScript is one here, lone surrogates included.
-/
namespace Lib

abbrev CodeUnits := List UInt16

def unitOf (c : Char) : UInt16 := UInt16.ofNat c.toNat

def units (s : List Char) : CodeUnits := s.map unitOf

/-! ## Values -/

/-- JSON, its numbers of a type. -/
inductive Json (N : Type) where
  | null
  | bool (b : Bool)
  | num (n : N)
  | str (s : CodeUnits)
  | arr (vs : List (Json N))
  | obj (members : List (CodeUnits × Json N))

def isDigitUnit (u : UInt16) : Bool := unitOf '0' ≤ u && u ≤ unitOf '9'

def isNumberUnit (u : UInt16) : Bool := isDigitUnit u || "+-.eE".toList.any fun c => u = unitOf c

/-- Nothing, or the digits of an exponent. -/
def isExponent : CodeUnits → Bool
  | [] => true
  | e :: t =>
    let digits := if t.head? = some (unitOf '+') ∨ t.head? = some (unitOf '-') then t.tail else t
    (e = unitOf 'e' || e = unitOf 'E') && digits ≠ [] && digits.all isDigitUnit

/-- Nothing, or a fraction, and what may follow. -/
def isFraction (t : CodeUnits) : Bool :=
  if t.head? = some (unitOf '.') then
    t.tail.takeWhile isDigitUnit ≠ [] && isExponent (t.tail.dropWhile isDigitUnit)
  else isExponent t

/-- The number literals of JSON. -/
def isNumberText (t : CodeUnits) : Bool :=
  let t := if t.head? = some (unitOf '-') then t.tail else t
  let whole := t.takeWhile isDigitUnit
  whole ≠ [] && (whole.head? ≠ some (unitOf '0') || whole.length = 1) && isFraction (t.dropWhile isDigitUnit)

/-- A number, as its literal. -/
structure NumberText where
  text : CodeUnits
  number : isNumberText text = true
  plain : text.all isNumberUnit = true

namespace Json

variable {N M : Type}

mutual
/-- Another value for every number. -/
def bind (f : N → Json M) : Json N → Json M
  | .null => .null
  | .bool b => .bool b
  | .num n => f n
  | .str s => .str s
  | .arr vs => .arr (bindAll f vs)
  | .obj members => .obj (bindMembers f members)

def bindAll (f : N → Json M) : List (Json N) → List (Json M)
  | [] => []
  | v :: vs => bind f v :: bindAll f vs

def bindMembers (f : N → Json M) : List (CodeUnits × Json N) → List (CodeUnits × Json M)
  | [] => []
  | (k, v) :: members => (k, bind f v) :: bindMembers f members
end

mutual
/-- Every string and every key. -/
def strings : Json N → List CodeUnits
  | .str s => [s]
  | .arr vs => stringsAll vs
  | .obj members => stringsMembers members
  | _ => []

def stringsAll : List (Json N) → List CodeUnits
  | [] => []
  | v :: vs => strings v ++ stringsAll vs

def stringsMembers : List (CodeUnits × Json N) → List CodeUnits
  | [] => []
  | (k, v) :: members => k :: (strings v ++ stringsMembers members)
end

/-- One case a constructor, with what holds of its parts. -/
theorem induct {motive : Json N → Prop} (hnull : motive .null) (hbool : ∀ b, motive (.bool b))
    (hnum : ∀ n, motive (.num n)) (hstr : ∀ s, motive (.str s))
    (harr : ∀ vs, (∀ v ∈ vs, motive v) → motive (.arr vs))
    (hobj : ∀ members, (∀ m ∈ members, motive m.2) → motive (.obj members)) (v : Json N) : motive v := by
  apply @Json.rec N motive (fun vs => ∀ v ∈ vs, motive v) (fun members => ∀ m ∈ members, motive m.2)
    (fun m => motive m.2)
  · exact hnull
  · exact hbool
  · exact hnum
  · exact hstr
  · exact harr
  · exact hobj
  · simp
  · intro v vs hv hvs
    rw [List.forall_mem_cons]
    exact ⟨hv, hvs⟩
  · simp
  · intro m members hm hmembers
    rw [List.forall_mem_cons]
    exact ⟨hm, hmembers⟩
  · exact fun _ _ hv => hv

end Json

/-! ## Strings -/

/-- The letter of a two-character escape. -/
def shortEscape (u : UInt16) : Option Char :=
  if u = unitOf '"' then some '"'
  else if u = unitOf '\\' then some '\\'
  else if u = 8 then some 'b'
  else if u = 9 then some 't'
  else if u = 10 then some 'n'
  else if u = 12 then some 'f'
  else if u = 13 then some 'r'
  else none

/-- The unit a letter stands for after a backslash. -/
def unescape (e : UInt16) : Option UInt16 :=
  if e = unitOf '"' ∨ e = unitOf '\\' ∨ e = unitOf '/' then some e
  else if e = unitOf 'b' then some 8
  else if e = unitOf 't' then some 9
  else if e = unitOf 'n' then some 10
  else if e = unitOf 'f' then some 12
  else if e = unitOf 'r' then some 13
  else none

def unicodeEscape (u : UInt16) : CodeUnits := unitOf '\\' :: unitOf 'u' :: units (fixedHex 4 u.toNat)

def isLeadSurrogate (u : UInt16) : Bool := 0xD800 ≤ u && u < 0xDC00

def isTrailSurrogate (u : UInt16) : Bool := 0xDC00 ≤ u && u < 0xE000

/-- A unit that is no half of a pair. -/
def quoteUnit (u : UInt16) : CodeUnits :=
  if isLeadSurrogate u || isTrailSurrogate u then unicodeEscape u
  else
    match shortEscape u with
    | some c => [unitOf '\\', unitOf c]
    | none => if u < 0x20 then unicodeEscape u else [u]

def quoteUnits : CodeUnits → CodeUnits
  | [] => []
  | [u] => quoteUnit u
  | u :: v :: rest =>
    if isLeadSurrogate u && isTrailSurrogate v then u :: v :: quoteUnits rest
    else quoteUnit u ++ quoteUnits (v :: rest)

/-- A string as JSON prints it. -/
def quoted (s : CodeUnits) : CodeUnits := unitOf '"' :: (quoteUnits s ++ [unitOf '"'])

/-- The unit of four hex digits. -/
def readHexUnit (ds : CodeUnits) : Option UInt16 :=
  let digits := ds.map fun u => Char.ofNat u.toNat
  if digits.length = 4 ∧ digits.all isHexDigit then some (UInt16.ofNat (parseHex digits)) else none

/-- A string up to its closing quote, and what follows it. -/
def readUnits : CodeUnits → Option (CodeUnits × CodeUnits)
  | [] => none
  | u :: rest =>
    if u = unitOf '"' then some ([], rest)
    else if u = unitOf '\\' then
      match rest with
      | [] => none
      | e :: rest =>
        if e = unitOf 'u' then
          match rest with
          | a :: b :: c :: d :: rest =>
            match readHexUnit [a, b, c, d] with
            | some v => (readUnits rest).map fun r => (v :: r.1, r.2)
            | none => none
          | _ => none
        else
          match unescape e with
          | some v => (readUnits rest).map fun r => (v :: r.1, r.2)
          | none => none
    else if u < 0x20 then none
    else (readUnits rest).map fun r => (u :: r.1, r.2)

/-- What a printed string is made of. -/
inductive SpelledBy : CodeUnits → CodeUnits → Prop
  | nil : SpelledBy [] []
  | raw {u : UInt16} {s t : CodeUnits} (hquote : u ≠ unitOf '"') (hbackslash : u ≠ unitOf '\\') (hvisible : ¬u < 0x20)
      (h : SpelledBy s t) : SpelledBy (u :: s) (u :: t)
  | short {u : UInt16} {c : Char} {s t : CodeUnits} (hc : shortEscape u = some c) (h : SpelledBy s t) :
      SpelledBy (u :: s) (unitOf '\\' :: unitOf c :: t)
  | unicode {u : UInt16} {s t : CodeUnits} (h : SpelledBy s t) : SpelledBy (u :: s) (unicodeEscape u ++ t)

theorem spelledBy_quoteUnit {s t : CodeUnits} (u : UInt16) (h : SpelledBy s t) : SpelledBy (u :: s) (quoteUnit u ++ t) := by
  unfold quoteUnit
  split
  · exact .unicode h
  · split
    · rename_i c hc
      exact .short hc h
    · rename_i hnone
      split
      · exact .unicode h
      · rename_i hvisible
        apply SpelledBy.raw _ _ hvisible h
        · rintro rfl
          cases hnone
        · rintro rfl
          cases hnone

/-- Halves of a pair are printed as they are. -/
theorem surrogate_raw {u : UInt16} (h : 0xD800 ≤ u) : u ≠ unitOf '"' ∧ u ≠ unitOf '\\' ∧ ¬u < 0x20 := by
  refine ⟨?_, ?_, ?_⟩
  · rintro rfl
    exact absurd h (by decide)
  · rintro rfl
    exact absurd h (by decide)
  · intro hlt
    have hlow : (0xD800 : Nat) ≤ u.toNat := UInt16.le_iff_toNat_le.1 h
    have hhigh : u.toNat < 0x20 := UInt16.lt_iff_toNat_lt.1 hlt
    omega

theorem spelledBy_quoteUnits (s : CodeUnits) : SpelledBy s (quoteUnits s) := by
  induction s using quoteUnits.induct with
  | case1 => exact .nil
  | case2 u =>
    have hone := spelledBy_quoteUnit u .nil
    rwa [List.append_nil] at hone
  | case3 u v rest hpair ih =>
    rw [quoteUnits, if_pos hpair]
    rw [Bool.and_eq_true] at hpair
    obtain ⟨hlead, htrail⟩ := hpair
    have hu : 0xD800 ≤ u := of_decide_eq_true (Bool.and_eq_true_iff.1 hlead).1
    have hv : 0xD800 ≤ v := by
      have hlow : (0xDC00 : Nat) ≤ v.toNat := UInt16.le_iff_toNat_le.1 (of_decide_eq_true (Bool.and_eq_true_iff.1 htrail).1)
      exact UInt16.le_iff_toNat_le.2 (Nat.le_trans (by decide) hlow)
    obtain ⟨huquote, hubackslash, huvisible⟩ := surrogate_raw hu
    obtain ⟨hvquote, hvbackslash, hvvisible⟩ := surrogate_raw hv
    exact .raw huquote hubackslash huvisible (.raw hvquote hvbackslash hvvisible ih)
  | case4 u v rest hpair ih =>
    rw [quoteUnits, if_neg hpair]
    exact spelledBy_quoteUnit u ih

theorem charOf_digitChar {d : Nat} (h : d < 16) : Char.ofNat (unitOf d.digitChar).toNat = d.digitChar := by
  interval_cases d <;> rfl

/-- Four hex digits are read as the unit they spell. -/
theorem readHexUnit_fixedHex (u : UInt16) : readHexUnit (units (fixedHex 4 u.toNat)) = some u := by
  have hdigits : (units (fixedHex 4 u.toNat)).map (fun u => Char.ofNat u.toNat) = fixedHex 4 u.toNat := by
    have hsame : ∀ c ∈ fixedHex 4 u.toNat, Char.ofNat (unitOf c).toNat = id c := by
      intro c hc
      obtain ⟨d, hd, rfl⟩ := mem_fixedHex c hc
      exact charOf_digitChar hd
    rw [units, List.map_map]
    exact (List.map_congr_left hsame).trans (List.map_id _)
  unfold readHexUnit
  simp only [hdigits]
  have hlt : u.toNat < 16 ^ 4 := u.toNat_lt
  rw [if_pos ⟨length_fixedHex 4 _, List.all_eq_true.2 (isHexDigit_fixedHex 4 _)⟩, parseHex_fixedHex,
    Nat.mod_eq_of_lt hlt, UInt16.ofNat_toNat]

theorem unescape_shortEscape {u : UInt16} {c : Char} (h : shortEscape u = some c) :
    unitOf c ≠ unitOf 'u' ∧ unescape (unitOf c) = some u := by
  unfold shortEscape at h
  split_ifs at h <;> cases h <;> subst_vars <;> decide

theorem readUnits_raw {u : UInt16} (hquote : u ≠ unitOf '"') (hbackslash : u ≠ unitOf '\\') (hvisible : ¬u < 0x20)
    (t : CodeUnits) : readUnits (u :: t) = (readUnits t).map fun r => (u :: r.1, r.2) := by
  rw [readUnits.eq_def]
  simp only [if_neg hquote, if_neg hbackslash, if_neg hvisible]

theorem readUnits_short {u : UInt16} {c : Char} (hc : shortEscape u = some c) (t : CodeUnits) :
    readUnits (unitOf '\\' :: unitOf c :: t) = (readUnits t).map fun r => (u :: r.1, r.2) := by
  obtain ⟨hu, hunescape⟩ := unescape_shortEscape hc
  rw [readUnits.eq_def]
  simp only [if_neg (show unitOf '\\' ≠ unitOf '"' by decide), if_pos, if_neg hu, hunescape]

theorem readUnits_unicode (u : UInt16) (t : CodeUnits) :
    readUnits (unicodeEscape u ++ t) = (readUnits t).map fun r => (u :: r.1, r.2) := by
  have hread := readHexUnit_fixedHex u
  obtain ⟨a, b, c, d, hdigits⟩ : ∃ a b c d, units (fixedHex 4 u.toNat) = [a, b, c, d] := ⟨_, _, _, _, rfl⟩
  rw [hdigits] at hread
  rw [unicodeEscape, hdigits, readUnits.eq_def]
  simp only [List.cons_append, List.nil_append, if_neg (show unitOf '\\' ≠ unitOf '"' by decide), if_pos, hread]

/-- A printed string is read back, up to its quote. -/
theorem SpelledBy.read {s t : CodeUnits} (h : SpelledBy s t) (rest : CodeUnits) :
    readUnits (t ++ unitOf '"' :: rest) = some (s, rest) := by
  induction h with
  | nil =>
    rw [List.nil_append, readUnits.eq_def]
    exact if_pos rfl
  | raw hquote hbackslash hvisible _ ih =>
    rw [List.cons_append, readUnits_raw hquote hbackslash hvisible, ih]
    rfl
  | short hc _ ih =>
    rw [List.cons_append, List.cons_append, readUnits_short hc, ih]
    rfl
  | unicode _ ih =>
    rw [List.append_assoc, readUnits_unicode, ih]
    rfl

/-! ## Values as texts -/

namespace Json

mutual
/-- `JSON.stringify` -/
def print : Json NumberText → CodeUnits
  | .null => units "null".toList
  | .bool true => units "true".toList
  | .bool false => units "false".toList
  | .num n => n.text
  | .str s => quoted s
  | .arr [] => units "[]".toList
  | .arr (v :: vs) => unitOf '[' :: (print v ++ printElements vs)
  | .obj [] => units "{}".toList
  | .obj ((k, v) :: members) => unitOf '{' :: (quoted k ++ unitOf ':' :: (print v ++ printMembers members))

/-- What follows the first element. -/
def printElements : List (Json NumberText) → CodeUnits
  | [] => [unitOf ']']
  | v :: vs => unitOf ',' :: (print v ++ printElements vs)

/-- What follows the first member. -/
def printMembers : List (CodeUnits × Json NumberText) → CodeUnits
  | [] => [unitOf '}']
  | (k, v) :: members => unitOf ',' :: (quoted k ++ unitOf ':' :: (print v ++ printMembers members))
end

/-- A word and the value it stands for. -/
def readWord (word : String) (v : Json NumberText) (t : CodeUnits) : Option (Json NumberText × CodeUnits) :=
  if units word.toList <+: t then some (v, t.drop word.toList.length) else none

def readNumber (t : CodeUnits) : Option (Json NumberText × CodeUnits) :=
  let literal := t.takeWhile isNumberUnit
  if h : isNumberText literal = true ∧ literal.all isNumberUnit = true then
    some (.num ⟨literal, h.1, h.2⟩, t.dropWhile isNumberUnit)
  else none

/-- A string with its quotes. -/
def readQuoted : CodeUnits → Option (CodeUnits × CodeUnits)
  | [] => none
  | u :: rest => if u = unitOf '"' then readUnits rest else none

mutual
/-- A value and what follows it, with fuel for every token. -/
def readValue : Nat → CodeUnits → Option (Json NumberText × CodeUnits)
  | 0, _ => none
  | _ + 1, [] => none
  | n + 1, u :: rest =>
    if u = unitOf '"' then (readUnits rest).map fun r => (.str r.1, r.2)
    else if u = unitOf '[' then
      if rest.head? = some (unitOf ']') then some (.arr [], rest.tail)
      else
        match readValue n rest with
        | some (v, rest) => (readElements n rest).map fun r => (.arr (v :: r.1), r.2)
        | none => none
    else if u = unitOf '{' then
      if rest.head? = some (unitOf '}') then some (.obj [], rest.tail)
      else
        match readMember n rest with
        | some (m, rest) => (readMembers n rest).map fun r => (.obj (m :: r.1), r.2)
        | none => none
    else if u = unitOf 'n' then readWord "null" .null (u :: rest)
    else if u = unitOf 't' then readWord "true" (.bool true) (u :: rest)
    else if u = unitOf 'f' then readWord "false" (.bool false) (u :: rest)
    else readNumber (u :: rest)

def readElements : Nat → CodeUnits → Option (List (Json NumberText) × CodeUnits)
  | 0, _ => none
  | _ + 1, [] => none
  | n + 1, u :: rest =>
    if u = unitOf ']' then some ([], rest)
    else if u = unitOf ',' then
      match readValue n rest with
      | some (v, rest) => (readElements n rest).map fun r => (v :: r.1, r.2)
      | none => none
    else none

def readMember : Nat → CodeUnits → Option ((CodeUnits × Json NumberText) × CodeUnits)
  | 0, _ => none
  | n + 1, t =>
    match readQuoted t with
    | some (k, colon :: rest) =>
      if colon = unitOf ':' then (readValue n rest).map fun r => ((k, r.1), r.2) else none
    | _ => none

def readMembers : Nat → CodeUnits → Option (List (CodeUnits × Json NumberText) × CodeUnits)
  | 0, _ => none
  | _ + 1, [] => none
  | n + 1, u :: rest =>
    if u = unitOf '}' then some ([], rest)
    else if u = unitOf ',' then
      match readMember n rest with
      | some (m, rest) => (readMembers n rest).map fun r => (m :: r.1, r.2)
      | none => none
    else none
end

/-- The value of a whole text. -/
def read (t : CodeUnits) : Option (Json NumberText) :=
  match readValue t.length t with
  | some (v, []) => some v
  | _ => none

end Json

/-! ## The round trip -/

/-- No literal goes on here. -/
def Stops (rest : CodeUnits) : Prop := ∀ u ∈ rest.head?, isNumberUnit u = false

theorem takeWhile_of_stops {l rest : CodeUnits} (hl : l.all isNumberUnit = true) (hrest : Stops rest) :
    (l ++ rest).takeWhile isNumberUnit = l ∧ (l ++ rest).dropWhile isNumberUnit = rest := by
  rw [List.all_eq_true] at hl
  rw [List.takeWhile_append_of_pos hl, List.dropWhile_append_of_pos hl]
  cases rest with
  | nil => simp
  | cons u rest =>
    have hu : isNumberUnit u = false := hrest u rfl
    simp [hu]

/-- A literal begins with none of the units that begin another value. -/
theorem numberUnit_ne {u : UInt16} (hu : isNumberUnit u = true) : u ≠ unitOf '"' ∧ u ≠ unitOf '[' ∧ u ≠ unitOf '{' ∧
    u ≠ unitOf 'n' ∧ u ≠ unitOf 't' ∧ u ≠ unitOf 'f' := by
  refine ⟨?_, ?_, ?_, ?_, ?_, ?_⟩ <;> rintro rfl <;> revert hu <;> decide

theorem readQuoted_quoted (s rest : CodeUnits) : Json.readQuoted (quoted s ++ rest) = some (s, rest) := by
  have hread := (spelledBy_quoteUnits s).read rest
  have htext : quoted s ++ rest = unitOf '"' :: (quoteUnits s ++ unitOf '"' :: rest) := by simp [quoted]
  rw [htext, Json.readQuoted, if_pos rfl, hread]

theorem NumberText.exists_cons (n : NumberText) : ∃ u t, n.text = u :: t ∧ isNumberUnit u = true := by
  have hnumber := n.number
  have hplain := n.plain
  cases htext : n.text with
  | nil =>
    rw [htext] at hnumber
    cases hnumber
  | cons u t =>
    rw [htext, List.all_cons, Bool.and_eq_true] at hplain
    exact ⟨u, t, rfl, hplain.1⟩

theorem readNumber_text (n : NumberText) {rest : CodeUnits} (hrest : Stops rest) :
    Json.readNumber (n.text ++ rest) = some (.num n, rest) := by
  obtain ⟨htake, hdrop⟩ := takeWhile_of_stops n.plain hrest
  unfold Json.readNumber
  simp only [htake, hdrop]
  exact dif_pos ⟨n.number, n.plain⟩

namespace Json

theorem stops_printElements (vs : List (Json NumberText)) (rest : CodeUnits) : Stops (printElements vs ++ rest) := by
  intro u hu
  cases vs with
  | nil =>
    cases hu
    decide
  | cons v vs =>
    cases hu
    decide

theorem stops_printMembers (members : List (CodeUnits × Json NumberText)) (rest : CodeUnits) :
    Stops (printMembers members ++ rest) := by
  intro u hu
  cases members with
  | nil =>
    cases hu
    decide
  | cons m members =>
    cases hu
    decide

/-- No value begins with a closing bracket. -/
theorem print_eq_cons (v : Json NumberText) : ∃ u t, print v = u :: t ∧ u ≠ unitOf ']' := by
  cases v with
  | null => exact ⟨_, _, rfl, by decide⟩
  | bool b => cases b <;> exact ⟨_, _, rfl, by decide⟩
  | num n =>
    obtain ⟨u, t, htext, hu⟩ := n.exists_cons
    refine ⟨u, t, htext, ?_⟩
    rintro rfl
    revert hu
    decide
  | str s => exact ⟨_, _, rfl, by decide⟩
  | arr vs => cases vs <;> exact ⟨_, _, rfl, by decide⟩
  | obj members => cases members <;> exact ⟨_, _, rfl, by decide⟩

theorem head?_print_ne (v : Json NumberText) (rest : CodeUnits) : (print v ++ rest).head? ≠ some (unitOf ']') := by
  obtain ⟨u, t, htext, hu⟩ := print_eq_cons v
  rw [htext]
  exact fun h => hu (Option.some.inj h)

/-- With fuel for each of its units, a printed value is read back and what follows it is left. -/
def Reads (v : Json NumberText) : Prop :=
  ∀ n rest, (print v).length ≤ n → Stops rest → readValue n (print v ++ rest) = some (v, rest)

theorem readElements_print {vs : List (Json NumberText)} (hvs : ∀ v ∈ vs, Reads v) (n : Nat) (rest : CodeUnits)
    (hn : (printElements vs).length ≤ n) : readElements n (printElements vs ++ rest) = some (vs, rest) := by
  induction vs generalizing n with
  | nil =>
    obtain ⟨n, rfl⟩ := Nat.exists_eq_add_of_le' hn
    exact if_pos rfl
  | cons v vs ih =>
    rw [List.forall_mem_cons] at hvs
    rw [printElements, List.length_cons, List.length_append] at hn
    obtain ⟨n, rfl⟩ : ∃ m, n = m + 1 := ⟨n - 1, by omega⟩
    have hfirst := hvs.1 n (printElements vs ++ rest) (by omega) (stops_printElements vs rest)
    rw [printElements, List.cons_append, List.append_assoc, readElements, if_neg (by decide), if_pos rfl, hfirst]
    simp only [ih hvs.2 n (by omega), Option.map_some]

theorem readMember_print {k : CodeUnits} {v : Json NumberText} (hv : Reads v) (n : Nat) {rest : CodeUnits}
    (hn : (quoted k ++ unitOf ':' :: print v).length ≤ n) (hrest : Stops rest) :
    readMember n (quoted k ++ unitOf ':' :: (print v ++ rest)) = some ((k, v), rest) := by
  rw [List.length_append, List.length_cons] at hn
  obtain ⟨n, rfl⟩ : ∃ m, n = m + 1 := ⟨n - 1, by omega⟩
  rw [readMember, readQuoted_quoted]
  simp only [if_true, hv n rest (by omega) hrest, Option.map_some]

theorem readMembers_print {members : List (CodeUnits × Json NumberText)} (hmembers : ∀ m ∈ members, Reads m.2)
    (n : Nat) (rest : CodeUnits) (hn : (printMembers members).length ≤ n) :
    readMembers n (printMembers members ++ rest) = some (members, rest) := by
  induction members generalizing n with
  | nil =>
    obtain ⟨n, rfl⟩ := Nat.exists_eq_add_of_le' hn
    exact if_pos rfl
  | cons m members ih =>
    obtain ⟨k, v⟩ := m
    rw [List.forall_mem_cons] at hmembers
    rw [printMembers, List.length_cons, List.length_append, List.length_cons, List.length_append] at hn
    obtain ⟨n, rfl⟩ : ∃ m, n = m + 1 := ⟨n - 1, by omega⟩
    have hlen : (quoted k ++ unitOf ':' :: print v).length ≤ n := by
      rw [List.length_append, List.length_cons]
      omega
    have hfirst := readMember_print hmembers.1 n hlen (stops_printMembers members rest)
    have htext : printMembers ((k, v) :: members) ++ rest =
        unitOf ',' :: (quoted k ++ unitOf ':' :: (print v ++ (printMembers members ++ rest))) := by
      simp [printMembers]
    rw [htext, readMembers, if_neg (by decide), if_pos rfl, hfirst]
    simp only [ih hmembers.2 n (by omega), Option.map_some]

theorem readValue_print (v : Json NumberText) : Reads v := by
  induction v using induct with
  | hnull =>
    intro n rest hn _
    obtain ⟨n, rfl⟩ := Nat.exists_eq_add_of_le' hn
    rfl
  | hbool b =>
    intro n rest hn _
    cases b <;> obtain ⟨n, rfl⟩ := Nat.exists_eq_add_of_le' hn <;> rfl
  | hnum number =>
    intro n rest hn hrest
    have hread := readNumber_text number hrest
    obtain ⟨u, t, htext, hu⟩ := number.exists_cons
    obtain ⟨hquote, harr, hobj, hn', ht, hf⟩ := numberUnit_ne hu
    have hprint : print (.num number) = u :: t := htext
    rw [htext, List.cons_append] at hread
    rw [hprint] at hn ⊢
    obtain ⟨n, rfl⟩ := Nat.exists_eq_add_of_le' (Nat.le_trans (Nat.le_add_left 1 t.length) hn)
    rw [List.cons_append, readValue, if_neg hquote, if_neg harr, if_neg hobj, if_neg hn', if_neg ht, if_neg hf, hread]
  | hstr s =>
    intro n rest hn _
    have hread := (spelledBy_quoteUnits s).read rest
    have htext : print (.str s) ++ rest = unitOf '"' :: (quoteUnits s ++ unitOf '"' :: rest) := by simp [print, quoted]
    rw [print, quoted, List.length_cons] at hn
    obtain ⟨n, rfl⟩ := Nat.exists_eq_add_of_le' (Nat.le_trans (Nat.le_add_left 1 _) hn)
    rw [htext, readValue, if_pos rfl, hread]
    rfl
  | harr vs ih =>
    intro n rest hn _
    cases vs with
    | nil =>
      obtain ⟨n, rfl⟩ := Nat.exists_eq_add_of_le' hn
      rfl
    | cons v vs =>
      rw [List.forall_mem_cons] at ih
      rw [print, List.length_cons, List.length_append] at hn
      obtain ⟨n, rfl⟩ : ∃ m, n = m + 1 := ⟨n - 1, by omega⟩
      have hfirst := ih.1 n (printElements vs ++ rest) (by omega) (stops_printElements vs rest)
      have hrest := readElements_print ih.2 n rest (by omega)
      have htext : print (.arr (v :: vs)) ++ rest = unitOf '[' :: (print v ++ (printElements vs ++ rest)) := by
        simp [print]
      rw [htext, readValue, if_neg (by decide), if_pos rfl, if_neg (head?_print_ne v _), hfirst]
      simp only [hrest, Option.map_some]
  | hobj members ih =>
    intro n rest hn _
    cases members with
    | nil =>
      obtain ⟨n, rfl⟩ := Nat.exists_eq_add_of_le' hn
      rfl
    | cons m members =>
      obtain ⟨k, v⟩ := m
      rw [List.forall_mem_cons] at ih
      rw [print, List.length_cons, List.length_append, List.length_cons, List.length_append] at hn
      obtain ⟨n, rfl⟩ : ∃ m, n = m + 1 := ⟨n - 1, by omega⟩
      have hlen : (quoted k ++ unitOf ':' :: print v).length ≤ n := by
        rw [List.length_append, List.length_cons]
        omega
      have hfirst := readMember_print ih.1 n hlen (stops_printMembers members rest)
      have hrest := readMembers_print ih.2 n rest (by omega)
      have htext : print (.obj ((k, v) :: members)) ++ rest =
          unitOf '{' :: (quoted k ++ unitOf ':' :: (print v ++ (printMembers members ++ rest))) := by
        simp [print]
      have hopen : (quoted k ++ unitOf ':' :: (print v ++ (printMembers members ++ rest))).head? ≠ some (unitOf '}') := by
        simp only [quoted, List.cons_append, List.head?_cons]
        decide
      rw [htext, readValue, if_neg (by decide), if_neg (by decide), if_pos rfl, if_neg hopen, hfirst]
      simp only [hrest, Option.map_some]

theorem read_print (v : Json NumberText) : read (print v) = some v := by
  have hread := readValue_print v (print v).length [] le_rfl (by simp [Stops])
  rw [List.append_nil] at hread
  rw [read, hread]

end Json

end Lib

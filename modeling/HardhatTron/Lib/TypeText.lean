import HardhatTron.Lib.Separated
/-!
# Texts of types

A type is a word or a tuple of types, with array suffixes behind it:
`uint256[3][]`, `(address,(bool,bytes)[])[2]`. Its text says what it is
(`TypeShape.text_inj`), also in front of what may follow it in a list.
-/
namespace Lib

/-- A name of letters and digits. -/
structure Word where
  text : List Char
  nonempty : text ≠ []
  alphanumeric : ∀ c ∈ text, c.isAlphanum = true
  deriving DecidableEq

theorem Word.ext_text {v w : Word} (h : v.text = w.text) : v = w := by
  cases v
  cases w
  cases h
  rfl

/-- The lengths of array suffixes stand innermost first. -/
inductive TypeShape where
  | word (w : Word) (dims : List (Option Nat))
  | tuple (parts : List TypeShape) (dims : List (Option Nat))

theorem TypeShape.induct {motive : TypeShape → Prop} (hword : ∀ w dims, motive (.word w dims))
    (htuple : ∀ parts dims, (∀ t ∈ parts, motive t) → motive (.tuple parts dims)) (t : TypeShape) : motive t := by
  apply @TypeShape.rec motive (fun ts => ∀ t ∈ ts, motive t) hword htuple
  · simp
  · intro t ts ht hts
    rw [List.forall_mem_cons]
    exact ⟨ht, hts⟩

/-! ## Texts -/

/-- `[]`, or the length between the brackets. -/
def dimText (d : Option Nat) : List Char := '[' :: ((d.map (Nat.toDigits 10)).getD [] ++ [']'])

def dimsText (dims : List (Option Nat)) : List Char := dims.flatMap dimText

mutual
def TypeShape.text : TypeShape → List Char
  | .word w dims => w.text ++ dimsText dims
  | .tuple parts dims => bracketed '(' ',' ')' (TypeShape.texts parts) ++ dimsText dims

def TypeShape.texts : List TypeShape → List (List Char)
  | [] => []
  | t :: ts => t.text :: TypeShape.texts ts
end

theorem TypeShape.texts_eq (ts : List TypeShape) : TypeShape.texts ts = ts.map TypeShape.text := by
  induction ts with
  | nil => rfl
  | cons t ts ih => rw [TypeShape.texts, ih, List.map_cons]

/-! ## Reading them back -/

/-- What may stand behind a type in a list. -/
def EndsType (r : List Char) : Prop := r.head? = some ',' ∨ r.head? = some ')'

theorem dim_digits_inj {d d' : Option Nat}
    (h : (d.map (Nat.toDigits 10)).getD [] = (d'.map (Nat.toDigits 10)).getD []) : d = d' := by
  cases d with
  | none =>
    cases d' with
    | none => rfl
    | some n => exact absurd h.symm Nat.toDigits_ne_nil
  | some n =>
    cases d' with
    | none => exact absurd h Nat.toDigits_ne_nil
    | some m =>
      have hnm : Nat.toDigits 10 n = Nat.toDigits 10 m := h
      rw [← Nat.ofDigitChars_ten_toDigits (n := n), hnm, Nat.ofDigitChars_ten_toDigits]

theorem not_mem_digits {c : Char} (hc : c.isDigit = false) (d : Option Nat) :
    c ∉ (d.map (Nat.toDigits 10)).getD [] := by
  cases d with
  | none => exact List.not_mem_nil
  | some n =>
    intro h
    have hdigit := Nat.isDigit_of_mem_toDigits (b := 10) (n := n) (by omega) (by omega) h
    rw [hc] at hdigit
    cases hdigit

theorem dimsText_inj {dims dims' : List (Option Nat)} {r r' : List Char} (hr : EndsType r) (hr' : EndsType r')
    (e : dimsText dims ++ r = dimsText dims' ++ r') : dims = dims' ∧ r = r' := by
  have hbracket : ∀ {r : List Char} {u : List Char}, EndsType r → r ≠ '[' :: u := by
    rintro r u (h | h) rfl <;> simp at h
  induction dims generalizing dims' with
  | nil =>
    cases dims' with
    | nil => exact ⟨rfl, e⟩
    | cons d dims' => exact absurd e (hbracket hr)
  | cons d dims ih =>
    cases dims' with
    | nil => exact absurd e.symm (hbracket hr')
    | cons d' dims' =>
      simp only [dimsText, List.flatMap_cons, dimText, List.cons_append, List.append_assoc, List.nil_append,
        List.cons.injEq, true_and] at e
      obtain ⟨hd, e⟩ := append_mark_inj (not_mem_digits rfl d) (not_mem_digits rfl d') e
      obtain ⟨rfl, rfl⟩ := ih e
      exact ⟨by rw [dim_digits_inj hd], rfl⟩

/-- What may stand behind a word. -/
def EndsWord (r : List Char) : Prop := ∀ c u, r = c :: u → c.isAlphanum = false

theorem Word.closed (w : Word) : Closed EndsWord w.text := by
  rintro p u hu hne r - hr
  obtain ⟨c, u, rfl⟩ := List.exists_cons_of_ne_nil hne
  have halpha := w.alphanumeric c (by rw [hu]; simp)
  rw [hr c (u ++ r) rfl] at halpha
  cases halpha

theorem endsWord_dims {dims : List (Option Nat)} {r : List Char} (hr : EndsType r) : EndsWord (dimsText dims ++ r) := by
  rintro c u h
  cases dims with
  | nil =>
    obtain rfl : r = c :: u := h
    rcases hr with hr | hr
    · obtain rfl : c = ',' := by simpa using hr
      rfl
    · obtain rfl : c = ')' := by simpa using hr
      rfl
  | cons d dims =>
    obtain rfl : '[' = c := (List.cons.inj h).1
    rfl

/-- A type's text begins with a letter, a digit or an opening bracket. -/
theorem TypeShape.text_opens (t : TypeShape) : ∃ c u, t.text = c :: u ∧ c ≠ ')' := by
  cases t with
  | word w dims =>
    obtain ⟨c, u, hw⟩ := List.exists_cons_of_ne_nil w.nonempty
    refine ⟨c, u ++ dimsText dims, by rw [TypeShape.text, hw, List.cons_append], ?_⟩
    rintro rfl
    have halpha := w.alphanumeric ')' (by rw [hw]; simp)
    exact absurd halpha (by decide)
  | tuple parts dims => exact ⟨'(', _, rfl, by decide⟩

theorem TypeShape.item (t : TypeShape) : Item EndsType ',' ')' t.text := ⟨t.text_opens, fun _ _ => .inl rfl⟩

/-- A type can be read back from its text, in front of what may follow it. -/
theorem TypeShape.text_append_inj (s : TypeShape) : ∀ {t : TypeShape} {r r' : List Char}, EndsType r → EndsType r' →
    s.text ++ r = t.text ++ r' → s = t ∧ r = r' := by
  have hmixed : ∀ {w : Word} {dims dims' : List (Option Nat)} {parts : List TypeShape} {r r' : List Char},
      (TypeShape.word w dims).text ++ r ≠ (TypeShape.tuple parts dims').text ++ r' := by
    intro w dims dims' parts r r' e
    obtain ⟨c, u, hw⟩ := List.exists_cons_of_ne_nil w.nonempty
    have halpha := w.alphanumeric c (by rw [hw]; simp)
    rw [TypeShape.text, TypeShape.text, hw, bracketed] at e
    rw [(List.cons.inj e).1] at halpha
    exact absurd halpha (by decide)
  induction s using TypeShape.induct with
  | hword w dims =>
    intro t r r' hr hr' e
    cases t with
    | tuple parts dims' => exact absurd e hmixed
    | word w' dims' =>
      rw [TypeShape.text, TypeShape.text, List.append_assoc, List.append_assoc] at e
      obtain ⟨hw, e⟩ := (unambiguous_of_closed w.closed w'.closed).rest (endsWord_dims hr) (endsWord_dims hr') e
      obtain ⟨rfl, rfl⟩ := dimsText_inj hr hr' e
      exact ⟨by rw [Word.ext_text hw], rfl⟩
  | htuple parts dims ih =>
    intro t r r' hr hr' e
    cases t with
    | word w' dims' => exact absurd e.symm hmixed
    | tuple parts' dims' =>
      simp only [TypeShape.text, TypeShape.texts_eq, bracketed, List.cons_append, List.append_assoc, List.nil_append,
        List.cons.injEq, true_and] at e
      have hun : ∀ s ∈ parts.map TypeShape.text, ∀ t ∈ parts'.map TypeShape.text, Unambiguous EndsType s t := by
        simp only [List.forall_mem_map]
        intro s hs t _ r r' hr hr' e
        rw [(ih s hs hr hr' e).1]
      have hitems : ∀ ts : List TypeShape, ∀ x ∈ ts.map TypeShape.text, Item EndsType ',' ')' x := by
        intro ts
        simp only [List.forall_mem_map]
        intro t _
        exact t.item
      obtain ⟨htexts, e⟩ := intercalate_inj_of (by decide) hun (hitems parts) (hitems parts') (.inr rfl) (.inr rfl) e
      obtain ⟨rfl, rfl⟩ := dimsText_inj hr hr' e
      refine ⟨?_, rfl⟩
      congr 1
      -- the texts of the parts are the same, then so are the parts
      apply List.ext_getElem
      · have := congrArg List.length htexts
        simpa using this
      · intro i hi hi'
        have htext : parts[i].text = parts'[i].text := by
          have := congrArg (fun l => l[i]?) htexts
          simpa [hi, hi'] using this
        have hr : EndsType [')'] := .inr rfl
        exact (ih parts[i] (List.getElem_mem hi) hr hr (by rw [htext])).1

theorem TypeShape.text_inj {s t : TypeShape} (h : s.text = t.text) : s = t := by
  have hr : EndsType [')'] := .inr rfl
  exact (s.text_append_inj hr hr (by rw [h])).1

/-- So can the types of a list. -/
theorem TypeShape.list_inj {ss ts : List TypeShape}
    (h : bracketed '(' ',' ')' (ss.map TypeShape.text) = bracketed '(' ',' ')' (ts.map TypeShape.text)) : ss = ts := by
  have htuple : (TypeShape.tuple ss []).text = (TypeShape.tuple ts []).text := by
    rw [TypeShape.text, TypeShape.text, TypeShape.texts_eq, TypeShape.texts_eq, h]
  exact (TypeShape.tuple.inj (TypeShape.text_inj htuple)).1

end Lib

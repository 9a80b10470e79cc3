import Mathlib.Data.List.Basic
/-!
# Texts that a separator tells apart

A printer writes nested values with brackets and separators but without
escapes, so its output can be read back only while no leaf reads like what
may follow it. `F r` says that `r` may follow an item; `Unambiguous F s t` that
`s` and `t` cannot be confused in front of such texts. It holds of leaves none
of whose endings reads on (`unambiguous_of_closed`) and passes to tagged texts,
to named fields and to bracketed lists; a printer's injectivity is then an
induction over its values.
-/
namespace Lib

variable {α : Type*} {F : List α → Prop}

/-- Where `F` follows, `s` and `t` are told apart. -/
def Unambiguous (F : List α → Prop) (s t : List α) : Prop :=
  ∀ r r', F r → F r' → s ++ r = t ++ r' → s = t

theorem Unambiguous.rest {s t r r' : List α} (h : Unambiguous F s t) (hr : F r) (hr' : F r')
    (e : s ++ r = t ++ r') : s = t ∧ r = r' := by
  have hst := h r r' hr hr' e
  subst hst
  exact ⟨rfl, List.append_cancel_left e⟩

/-- No ending of `s` reads like the beginning of what follows. -/
def Closed (F : List α → Prop) (s : List α) : Prop := ∀ p u, s = p ++ u → u ≠ [] → ∀ r, F r → ¬F (u ++ r)

theorem unambiguous_of_closed {s t : List α} (hs : Closed F s) (ht : Closed F t) : Unambiguous F s t := by
  intro r r' hr hr' e
  rcases List.append_eq_append_iff.1 e with ⟨u, htu, hru⟩ | ⟨u, hsu, hru⟩
  · by_cases hu : u = []
    · rw [htu, hu, List.append_nil]
    · exact absurd (hru ▸ hr) (ht s u htu hu r' hr')
  · by_cases hu : u = []
    · rw [hsu, hu, List.append_nil]
    · exact absurd (hru ▸ hr') (hs t u hsu hu r hr)

theorem unambiguous_of_head_ne {c d : α} {s t : List α} (h : c ≠ d) : Unambiguous F (c :: s) (d :: t) := by
  intro r r' _ _ e
  exact absurd (List.cons.inj e).1 h

/-! ## Named fields -/

theorem append_mark_inj {mark : α} {k k' u u' : List α} (hk : mark ∉ k) (hk' : mark ∉ k')
    (e : k ++ mark :: u = k' ++ mark :: u') : k = k' ∧ u = u' := by
  have hclosed : ∀ {k : List α}, mark ∉ k → Closed (fun r => r.head? = some mark) k := by
    rintro k hk p u rfl hu r _ hh
    obtain ⟨c, u, rfl⟩ := List.exists_cons_of_ne_nil hu
    exact hk (by rw [← Option.some.inj hh]; simp)
  obtain ⟨hkk, hu⟩ := (unambiguous_of_closed (hclosed hk) (hclosed hk')).rest rfl rfl e
  exact ⟨hkk, (List.cons.inj hu).2⟩

/-- A name without the mark, the mark, then the value's text. -/
theorem Unambiguous.field {mark : α} {k k' s t : List α} (hk : mark ∉ k) (hk' : mark ∉ k')
    (h : Unambiguous F s t) : Unambiguous F (k ++ mark :: s) (k' ++ mark :: t) := by
  intro r r' hr hr' e
  rw [List.append_assoc, List.append_assoc, List.cons_append, List.cons_append] at e
  obtain ⟨rfl, e'⟩ := append_mark_inj hk hk' e
  rw [h r r' hr hr' e']

/-! ## Bracketed lists -/

section Bracketed
variable {sep close : α}

/-- The items after the first, each behind its separator. -/
def followers (sep : α) (ss : List (List α)) : List α := ss.flatMap (sep :: ·)

theorem intercalate_cons (s : List α) (ss : List (List α)) :
    List.intercalate [sep] (s :: ss) = s ++ followers sep ss := by
  induction ss generalizing s with
  | nil => simp [followers, List.intercalate]
  | cons t ss ih =>
    rw [List.intercalate_cons_cons, ih t]
    simp [followers]

/-- An item of a list: it begins, not with the closing bracket, and behind a
separator it may follow another item. -/
structure Item (F : List α → Prop) (sep close : α) (s : List α) : Prop where
  opens : ∃ c u, s = c :: u ∧ c ≠ close
  follows : ∀ r, F r → F (sep :: (s ++ r))

theorem follows_followers {ss : List (List α)} (hs : ∀ s ∈ ss, Item F sep close s) {r : List α}
    (hr : F (close :: r)) : F (followers sep ss ++ close :: r) := by
  induction ss with
  | nil => exact hr
  | cons s ss ih =>
    have h := (hs s (by simp)).follows _ (ih fun t ht => hs t (by simp [ht]))
    simpa [followers] using h

/-- Items that may stand before the closing bracket, whatever is behind it. -/
theorem followers_inj_of (hne : sep ≠ close) {ss ts : List (List α)}
    (h : ∀ s ∈ ss, ∀ t ∈ ts, Unambiguous F s t) (hs : ∀ s ∈ ss, Item F sep close s)
    (ht : ∀ t ∈ ts, Item F sep close t) {r r' : List α} (hr : F (close :: r)) (hr' : F (close :: r'))
    (e : followers sep ss ++ close :: r = followers sep ts ++ close :: r') : ss = ts ∧ r = r' := by
  induction ss generalizing ts with
  | nil =>
    cases ts with
    | nil => simpa [followers] using e
    | cons t ts => exact absurd (List.cons.inj e).1.symm hne
  | cons s ss ih =>
    cases ts with
    | nil => exact absurd (List.cons.inj e).1 hne
    | cons t ts =>
      have hs' : ∀ x ∈ ss, Item F sep close x := fun x hx => hs x (by simp [hx])
      have ht' : ∀ x ∈ ts, Item F sep close x := fun x hx => ht x (by simp [hx])
      simp only [followers, List.flatMap_cons, List.cons_append, List.append_assoc] at e
      -- the items before the next separator are equal, then so are the rest
      obtain ⟨rfl, e'⟩ := (h s (by simp) t (by simp)).rest (follows_followers hs' hr)
        (follows_followers ht' hr') (List.cons.inj e).2
      obtain ⟨rfl, rfl⟩ := ih (fun x hx y hy => h x (by simp [hx]) y (by simp [hy])) hs' ht' e'
      exact ⟨rfl, rfl⟩

theorem intercalate_inj_of (hne : sep ≠ close) {ss ts : List (List α)}
    (h : ∀ s ∈ ss, ∀ t ∈ ts, Unambiguous F s t) (hs : ∀ s ∈ ss, Item F sep close s)
    (ht : ∀ t ∈ ts, Item F sep close t) {r r' : List α} (hr : F (close :: r)) (hr' : F (close :: r'))
    (e : List.intercalate [sep] ss ++ close :: r = List.intercalate [sep] ts ++ close :: r') :
    ss = ts ∧ r = r' := by
  cases ss with
  | nil =>
    cases ts with
    | nil => simpa [List.intercalate] using e
    | cons t ts =>
      obtain ⟨c, u, rfl, hc⟩ := (ht t (by simp)).opens
      rw [intercalate_cons] at e
      exact absurd (List.cons.inj e).1.symm hc
  | cons s ss =>
    cases ts with
    | nil =>
      obtain ⟨c, u, rfl, hc⟩ := (hs s (by simp)).opens
      rw [intercalate_cons] at e
      exact absurd (List.cons.inj e).1 hc
    | cons t ts =>
      have hs' : ∀ x ∈ ss, Item F sep close x := fun x hx => hs x (by simp [hx])
      have ht' : ∀ x ∈ ts, Item F sep close x := fun x hx => ht x (by simp [hx])
      rw [intercalate_cons, intercalate_cons, List.append_assoc, List.append_assoc] at e
      obtain ⟨rfl, e'⟩ := (h s (by simp) t (by simp)).rest (follows_followers hs' hr)
        (follows_followers ht' hr') e
      obtain ⟨rfl, rfl⟩ := followers_inj_of hne (fun x hx y hy => h x (by simp [hx]) y (by simp [hy]))
        hs' ht' hr hr' e'
      exact ⟨rfl, rfl⟩

theorem intercalate_inj (hclose : ∀ r, F r → F (close :: r)) (hne : sep ≠ close) {ss ts : List (List α)}
    (h : ∀ s ∈ ss, ∀ t ∈ ts, Unambiguous F s t) (hs : ∀ s ∈ ss, Item F sep close s)
    (ht : ∀ t ∈ ts, Item F sep close t) {r r' : List α} (hr : F r) (hr' : F r')
    (e : List.intercalate [sep] ss ++ close :: r = List.intercalate [sep] ts ++ close :: r') :
    ss = ts ∧ r = r' :=
  intercalate_inj_of hne h hs ht (hclose r hr) (hclose r' hr') e

/-- `open item sep item close` -/
def bracketed (opening sep close : α) (ss : List (List α)) : List α :=
  opening :: (List.intercalate [sep] ss ++ [close])

theorem Unambiguous.bracketed (opening : α) (hclose : ∀ r, F r → F (close :: r)) (hne : sep ≠ close)
    {ss ts : List (List α)} (h : ∀ s ∈ ss, ∀ t ∈ ts, Unambiguous F s t) (hs : ∀ s ∈ ss, Item F sep close s)
    (ht : ∀ t ∈ ts, Item F sep close t) :
    Unambiguous F (bracketed opening sep close ss) (bracketed opening sep close ts) := by
  intro r r' hr hr' e
  simp only [Lib.bracketed, List.cons_append, List.append_assoc, List.nil_append] at e
  rw [(intercalate_inj hclose hne h hs ht hr hr' (List.cons.inj e).2).1]

theorem bracketed_inj {opening : α} (hnil : F []) (hclose : ∀ r, F r → F (close :: r)) (hne : sep ≠ close)
    {ss ts : List (List α)} (h : ∀ s ∈ ss, ∀ t ∈ ts, Unambiguous F s t) (hs : ∀ s ∈ ss, Item F sep close s)
    (ht : ∀ t ∈ ts, Item F sep close t)
    (e : bracketed opening sep close ss = bracketed opening sep close ts) : ss = ts :=
  (intercalate_inj hclose hne h hs ht hnil hnil (List.cons.inj e).2).1

end Bracketed

/-! ## Printed items -/

section Printed
variable {β : Type*} {P : β → List α → Prop} {xs ys : List β} {ss : List (List α)}

theorem exists_of_printed (h : List.Forall₂ P xs ss) {s : List α} (hs : s ∈ ss) : ∃ x ∈ xs, P x s := by
  induction h with
  | nil => simp at hs
  | @cons x t xs ss hxt _ ih =>
    rcases List.mem_cons.1 hs with rfl | hs
    · exact ⟨x, by simp, hxt⟩
    · obtain ⟨y, hy, hys⟩ := ih hs
      exact ⟨y, by simp [hy], hys⟩

/-- Lists that print alike are equal when their items are. -/
theorem printed_inj (hinj : ∀ x ∈ xs, ∀ y ∈ ys, ∀ s, P x s → P y s → x = y) (h : List.Forall₂ P xs ss)
    (h' : List.Forall₂ P ys ss) : xs = ys := by
  induction h generalizing ys with
  | nil => cases h'; rfl
  | @cons x s xs ss hxs _ ih =>
    cases h' with
    | @cons y _ ys _ hys h' =>
      rw [hinj x (by simp) y (by simp) s hxs hys,
        ih (fun a ha b hb => hinj a (by simp [ha]) b (by simp [hb])) h']

end Printed

end Lib

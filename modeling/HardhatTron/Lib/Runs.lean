import Mathlib.Data.List.Basic
/-!
# Runs of a machine

A machine answers calls one at a time: `step s c` is the reply and the next
state, or `none` when the call cannot happen in `s`. A `Run` records every call
with its reply, in order. A concurrent program is such a machine whose calls are
the atomic steps of its threads, so a theorem about every `Run` covers every
interleaving.

`ok s c` restricts the calls of a run; `fun _ _ => True` is no restriction.
-/
namespace Lib

variable {S C R : Type*}

/-- The runs from `s₀`: their history of calls and replies, and the state after them. -/
inductive Run (step : S → C → Option (R × S)) (ok : S → C → Prop) (s₀ : S) : List (C × R) → S → Prop
  | nil : Run step ok s₀ [] s₀
  | snoc {h s s' r} (c : C) : Run step ok s₀ h s → ok s c → step s c = some (r, s') →
      Run step ok s₀ (h ++ [(c, r)]) s'

variable {step : S → C → Option (R × S)} {ok : S → C → Prop} {s₀ : S}

/-- An invariant of the history and the state that every step keeps. -/
theorem Run.inv (I : List (C × R) → S → Prop) (h0 : I [] s₀)
    (hs : ∀ h s c r s', Run step ok s₀ h s → I h s → ok s c → step s c = some (r, s') → I (h ++ [(c, r)]) s')
    {h s} (hr : Run step ok s₀ h s) : I h s := by
  induction hr with
  | nil => exact h0
  | snoc c hr hc hst ih => exact hs _ _ c _ _ hr ih hc hst

/-- The same calls and replies lead to the same state. -/
theorem Run.unique {h s s'} (hr : Run step ok s₀ h s) (hr' : Run step ok s₀ h s') : s = s' := by
  induction hr generalizing s' with
  | nil =>
    generalize hh : ([] : List (C × R)) = h at hr'
    cases hr' with
    | nil => rfl
    | snoc => simp at hh
  | @snoc h s t r c hr _ hst ih =>
    generalize hh : h ++ [(c, r)] = h' at hr'
    cases hr' with
    | nil => simp at hh
    | @snoc h₂ s₂ _ r₂ c₂ hr₂ _ hst₂ =>
      obtain ⟨rfl, heq⟩ := List.append_inj' hh rfl
      obtain ⟨rfl, rfl⟩ : c = c₂ ∧ r = r₂ := by simpa using heq
      obtain rfl := ih hr₂
      rw [hst] at hst₂
      simpa using hst₂

theorem Run.append {g h m s} (hr₁ : Run step ok s₀ g m) (hr₂ : Run step ok m h s) :
    Run step ok s₀ (g ++ h) s := by
  induction hr₂ with
  | nil => simpa using hr₁
  | snoc c _ hc hs ih => rw [← List.append_assoc]; exact .snoc c ih hc hs

theorem Run.mono {ok' : S → C → Prop} (hok : ∀ s c, ok s c → ok' s c) {h s} (hr : Run step ok s₀ h s) :
    Run step ok' s₀ h s := by
  induction hr with
  | nil => exact .nil
  | snoc c _ hc hst ih => exact .snoc c ih (hok _ _ hc) hst

/-- A run splits wherever its history does. -/
theorem Run.split {h₁ h₂ s} (hr : Run step ok s₀ (h₁ ++ h₂) s) :
    ∃ m, Run step ok s₀ h₁ m ∧ Run step ok m h₂ s := by
  generalize hh : h₁ ++ h₂ = h at hr
  induction hr generalizing h₂ with
  | nil =>
    obtain ⟨rfl, rfl⟩ := List.append_eq_nil_iff.1 hh
    exact ⟨s₀, .nil, .nil⟩
  | @snoc h s s' r c hr hc hst ih =>
    rcases List.eq_nil_or_concat h₂ with rfl | ⟨h₂', e, rfl⟩
    · rw [List.append_nil] at hh
      subst hh
      exact ⟨s', .snoc c hr hc hst, .nil⟩
    · rw [List.concat_eq_append, ← List.append_assoc] at hh
      obtain ⟨rfl, heq⟩ := List.append_inj' hh rfl
      obtain rfl : e = (c, r) := by simpa using heq
      obtain ⟨m, h1, h2⟩ := ih rfl
      exact ⟨m, h1, by simpa using Run.snoc c h2 hc hst⟩

/-- The last step of a run. -/
theorem Run.last {h c r s} (hr : Run step ok s₀ (h ++ [(c, r)]) s) :
    ∃ m, Run step ok s₀ h m ∧ ok m c ∧ step m c = some (r, s) := by
  generalize hh : h ++ [(c, r)] = h' at hr
  cases hr with
  | nil => simp at hh
  | @snoc h₂ m _ r₂ c₂ hr hc hst =>
    obtain ⟨rfl, heq⟩ := List.append_inj' hh rfl
    obtain ⟨rfl, rfl⟩ : c = c₂ ∧ r = r₂ := by simpa using heq
    exact ⟨m, hr, hc, hst⟩

/-- The step of a run at a point of its history. -/
theorem Run.at {h₁ c r h₂ s} (hr : Run step ok s₀ (h₁ ++ (c, r) :: h₂) s) :
    ∃ m m', Run step ok s₀ h₁ m ∧ ok m c ∧ step m c = some (r, m') ∧ Run step ok m' h₂ s := by
  rw [List.append_cons] at hr
  obtain ⟨m', h12, h2⟩ := hr.split
  obtain ⟨m, h1, hc, hst⟩ := h12.last
  exact ⟨m, m', h1, hc, hst, h2⟩

/-- Play the calls in order, if each is allowed and can happen. -/
def play (step : S → C → Option (R × S)) (ok : S → C → Prop) [∀ s c, Decidable (ok s c)] :
    S → List C → Option (List (C × R) × S)
  | s, [] => some ([], s)
  | s, c :: cs =>
    if ok s c then
      (step s c).bind fun x => (play step ok x.2 cs).map fun y => ((c, x.1) :: y.1, y.2)
    else none

theorem Run.of_play [∀ s c, Decidable (ok s c)] {cs h s} (hp : play step ok s₀ cs = some (h, s)) :
    Run step ok s₀ h s := by
  induction cs generalizing s₀ h with
  | nil =>
    obtain ⟨rfl, rfl⟩ : [] = h ∧ s₀ = s := by simpa [play] using hp
    exact .nil
  | cons c cs ih =>
    rw [play] at hp
    split at hp
    · rename_i hc
      obtain ⟨⟨r, s'⟩, hst, hp⟩ := Option.bind_eq_some_iff.1 hp
      obtain ⟨⟨h', s''⟩, hp', he⟩ := Option.map_eq_some_iff.1 hp
      obtain ⟨rfl, rfl⟩ := Prod.mk.inj he
      exact Run.append (.snoc c .nil hc hst) (ih hp')
    · cases hp

/-- Rounds: a run that passes through `f 0`, `f 1`, up to `f n`, with history `e k` in round `k`. -/
theorem Run.rounds {f : ℕ → S} {e : ℕ → List (C × R)} (n : ℕ)
    (hs : ∀ k < n, Run step ok (f k) (e k) (f (k + 1))) :
    Run step ok (f 0) ((List.range n).flatMap e) (f n) := by
  induction n with
  | zero => exact .nil
  | succ n ih =>
    rw [List.range_succ, List.flatMap_append]
    have h := (ih fun k hk => hs k (Nat.lt_succ_of_lt hk)).append (hs n (Nat.lt_succ_self n))
    simpa using h

/-! ## States that are partial maps -/

/-- What an updated map holds was there before, or is the update. -/
theorem update_eq_some {κ V : Type*} [DecidableEq κ] {f : κ → Option V} {k k' : κ} {o : Option V} {v : V}
    (h : Function.update f k o k' = some v) : (k' = k ∧ o = some v) ∨ (k' ≠ k ∧ f k' = some v) := by
  by_cases hk : k' = k
  · subst hk
    rw [Function.update_self] at h
    exact .inl ⟨rfl, h⟩
  · rw [Function.update_of_ne hk] at h
    exact .inr ⟨hk, h⟩

theorem update_none_eq_some {κ V : Type*} [DecidableEq κ] {f : κ → Option V} {k k' : κ} {v : V}
    (h : Function.update f k none k' = some v) : k' ≠ k ∧ f k' = some v := by
  rcases update_eq_some h with ⟨-, hnone⟩ | hkept
  · cases hnone
  · exact hkept

end Lib

import Mathlib.Data.List.Basic
/-!
# Steps that fail on a schedule

A schedule says which of the steps to come fail. `forM_guarded` and
`forM_guarded_fault` say what that makes of a loop: it goes through exactly when
the schedule is clear for as many steps as the loop takes.
-/
namespace Lib

variable {ε σ α : Type}

/-- Which of the steps to come fail, and with what; the steps after those go through. -/
abbrev Faults (ε : Type) := List (Option ε)

/-- A step that is not on the schedule. -/
def spared (m : EStateM ε σ α) : EStateM ε (σ × Faults ε) α := fun st =>
  match m st.1 with
  | .ok a s => .ok a (s, st.2)
  | .error e s => .error e (s, st.2)

/-- A step that is on the schedule: it is not taken where it is due to fail. -/
def guarded (m : EStateM ε σ α) : EStateM ε (σ × Faults ε) α := fun st =>
  match st.2.head?.join with
  | some e => .error e (st.1, st.2.tail)
  | none => spared m (st.1, st.2.tail)

/-- None of the next `n` steps fails. -/
def Clear (n : Nat) (faults : Faults ε) : Prop := ∀ fault ∈ faults.take n, fault = none

instance (n : Nat) (faults : Faults ε) : Decidable (Clear n faults) :=
  decidable_of_iff (∀ fault ∈ faults.take n, Option.isNone fault = true)
    (forall₂_congr fun _ _ => Option.isNone_iff_eq_none)

theorem clear_zero (faults : Faults ε) : Clear 0 faults := by
  intro fault h
  cases h

theorem clear_succ {n : Nat} {faults : Faults ε} :
    Clear (n + 1) faults ↔ faults.head?.join = none ∧ Clear n faults.tail := by
  unfold Clear
  cases faults with
  | nil => simp
  | cons fault faults => simp

theorem spared_ok {m : EStateM ε σ α} {s s' : σ} {a : α} (h : m s = .ok a s') (faults : Faults ε) :
    spared m (s, faults) = .ok a (s', faults) := by
  unfold spared
  simp only [h]

theorem guarded_ok {m : EStateM ε σ α} {s s' : σ} {a : α} {faults : Faults ε} (hclear : faults.head?.join = none)
    (h : m s = .ok a s') : guarded m (s, faults) = .ok a (s', faults.tail) := by
  unfold guarded
  simp only [hclear]
  exact spared_ok h _

theorem guarded_error {e : ε} {faults : Faults ε} (hfault : faults.head?.join = some e) (m : EStateM ε σ α) (s : σ) :
    guarded m (s, faults) = .error e (s, faults.tail) := by
  unfold guarded
  simp only [hfault]

/-- On a clear schedule the loop does what it does without one. -/
theorem forM_guarded {f : α → EStateM ε σ Unit} (hok : ∀ x s, ∃ s', f x s = .ok () s') (xs : List α) (s : σ)
    (faults : Faults ε) (hclear : Clear xs.length faults) :
    ∃ s', forM xs f s = .ok () s' ∧
      forM xs (fun x => guarded (f x)) (s, faults) = .ok () (s', faults.drop xs.length) := by
  induction xs generalizing s faults with
  | nil => exact ⟨s, rfl, rfl⟩
  | cons x xs ih =>
    obtain ⟨hhead, htail⟩ := clear_succ.1 hclear
    obtain ⟨s₁, h₁⟩ := hok x s
    obtain ⟨s₂, h₂, hg₂⟩ := ih s₁ faults.tail htail
    refine ⟨s₂, ?_, ?_⟩
    · simp only [List.forM_cons, bind, EStateM.bind, h₁, h₂]
    · simp only [List.forM_cons, bind, EStateM.bind, guarded_ok hhead h₁, hg₂, List.length_cons, List.drop_tail]

/-- On any other schedule it fails. -/
theorem forM_guarded_fault {f : α → EStateM ε σ Unit} (hok : ∀ x s, ∃ s', f x s = .ok () s') (xs : List α) (s : σ)
    (faults : Faults ε) (hfault : ¬ Clear xs.length faults) :
    ∃ e st, forM xs (fun x => guarded (f x)) (s, faults) = .error e st := by
  induction xs generalizing s faults with
  | nil => exact absurd (clear_zero faults) hfault
  | cons x xs ih =>
    cases hhead : faults.head?.join with
    | some e =>
      refine ⟨e, (s, faults.tail), ?_⟩
      simp only [List.forM_cons, bind, EStateM.bind, guarded_error hhead]
    | none =>
      have htail : ¬ Clear xs.length faults.tail := fun h => hfault (clear_succ.2 ⟨hhead, h⟩)
      obtain ⟨s₁, h₁⟩ := hok x s
      obtain ⟨e, st, herr⟩ := ih s₁ faults.tail htail
      refine ⟨e, st, ?_⟩
      simp only [List.forM_cons, bind, EStateM.bind, guarded_ok hhead h₁, herr]

end Lib

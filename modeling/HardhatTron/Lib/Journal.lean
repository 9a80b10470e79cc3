import Mathlib.Data.List.Basic
/-!
# Steps that leave a record

A step keeps its effect and adds a record of itself to a journal, unless it
fails. `forM_recorded`: a loop of such steps does what it does without the
journal, and has one record for each step in the order of the loop.
-/
namespace Lib

variable {ε σ α ω : Type}

/-- A step that leaves no record. -/
def unrecorded (m : EStateM ε σ α) : EStateM ε (σ × List ω) α := fun st =>
  match m st.1 with
  | .ok a s => .ok a (s, st.2)
  | .error e s => .error e (s, st.2)

/-- A step that leaves the record `w`. -/
def recorded (w : ω) (m : EStateM ε σ α) : EStateM ε (σ × List ω) α := fun st =>
  match m st.1 with
  | .ok a s => .ok a (s, st.2 ++ [w])
  | .error e s => .error e (s, st.2)

theorem unrecorded_ok {m : EStateM ε σ α} {s s' : σ} {a : α} (h : m s = .ok a s') (journal : List ω) :
    unrecorded m (s, journal) = .ok a (s', journal) := by
  unfold unrecorded
  simp only [h]

theorem recorded_ok {m : EStateM ε σ α} {s s' : σ} {a : α} (h : m s = .ok a s') (w : ω) (journal : List ω) :
    recorded w m (s, journal) = .ok a (s', journal ++ [w]) := by
  unfold recorded
  simp only [h]

theorem forM_recorded {f : α → EStateM ε σ Unit} (hok : ∀ x s, ∃ s', f x s = .ok () s') (record : α → ω) (xs : List α)
    (s : σ) (journal : List ω) :
    ∃ s', forM xs f s = .ok () s' ∧
      forM xs (fun x => recorded (record x) (f x)) (s, journal) = .ok () (s', journal ++ xs.map record) := by
  induction xs generalizing s journal with
  | nil => exact ⟨s, rfl, by rw [List.map_nil, List.append_nil]; rfl⟩
  | cons x xs ih =>
    obtain ⟨s₁, h₁⟩ := hok x s
    obtain ⟨s₂, h₂, hrec⟩ := ih s₁ (journal ++ [record x])
    refine ⟨s₂, ?_, ?_⟩
    · simp only [List.forM_cons, bind, EStateM.bind, h₁, h₂]
    · simp only [List.forM_cons, bind, EStateM.bind, recorded_ok h₁, hrec, List.map_cons, List.append_assoc,
        List.singleton_append]

end Lib

import Mathlib.Order.Lattice
/-!
# The first of the best

A list sorted by falling score, equal scores in the order they had, begins
with the first element of the highest score.
-/
namespace Lib

variable {α κ : Type*} [LinearOrder κ] (score : α → κ)

/-- By falling score, stable. -/
def ranked (l : List α) : List α := l.mergeSort fun a b => decide (score b ≤ score a)

variable {score}

theorem ranked_trans (score : α → κ) (a b c : α) (hab : decide (score b ≤ score a) = true)
    (hbc : decide (score c ≤ score b) = true) : decide (score c ≤ score a) = true := by
  rw [decide_eq_true_eq] at *
  exact hbc.trans hab

theorem ranked_total (score : α → κ) (a b : α) :
    (decide (score b ≤ score a) || decide (score a ≤ score b)) = true := by
  rw [Bool.or_eq_true, decide_eq_true_eq, decide_eq_true_eq]
  exact le_total _ _

theorem ranked_pairwise (score : α → κ) (l : List α) : (ranked score l).Pairwise fun a b => score b ≤ score a :=
  (List.pairwise_mergeSort (ranked_trans score) (ranked_total score) l).imp of_decide_eq_true

/-- One more element in front goes before all that score no more. -/
theorem ranked_cons (score : α → κ) (a : α) (l : List α) :
    ∃ l₁ l₂, ranked score (a :: l) = l₁ ++ a :: l₂ ∧ ranked score l = l₁ ++ l₂ ∧ ∀ b ∈ l₁, score a < score b := by
  obtain ⟨l₁, l₂, hcons, hl, hbefore⟩ := List.mergeSort_cons (ranked_trans score) (ranked_total score) a l
  refine ⟨l₁, l₂, hcons, hl, ?_⟩
  intro b hb
  simpa using hbefore b hb

/-- The first element of the highest score comes first. -/
theorem head?_ranked {before after : List α} {a : α} (hbefore : ∀ b ∈ before, score b < score a)
    (hafter : ∀ b ∈ after, score b ≤ score a) : (ranked score (before ++ a :: after)).head? = some a := by
  induction before with
  | nil =>
    obtain ⟨l₁, l₂, hcons, hl, hhigher⟩ := ranked_cons score a after
    rw [List.nil_append, hcons]
    cases l₁ with
    | nil => rfl
    | cons b l₁ =>
      -- an element before it would score more
      have hb : b ∈ after := by
        have hmem : b ∈ ranked score after := by
          rw [hl]
          exact List.mem_cons_self
        exact List.mem_mergeSort.1 hmem
      exact absurd (hhigher b List.mem_cons_self) (not_lt.2 (hafter b hb))
  | cons b before ih =>
    have hrest := ih fun b' hb' => hbefore b' (List.mem_cons_of_mem _ hb')
    obtain ⟨l₁, l₂, hcons, hl, -⟩ := ranked_cons score b (before ++ a :: after)
    rw [hl] at hrest
    rw [List.cons_append, hcons]
    cases l₁ with
    | cons b' l₁ => exact hrest
    | nil =>
      -- in front it would have to score no less
      have hpairs := ranked_pairwise score (b :: (before ++ a :: after))
      rw [hcons, List.nil_append, List.pairwise_cons] at hpairs
      have hle := hpairs.1 a (List.mem_of_mem_head? hrest)
      exact absurd (hbefore b List.mem_cons_self) (not_lt.2 hle)

end Lib

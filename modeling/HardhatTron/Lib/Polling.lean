import Mathlib.Data.Nat.Notation
import Mathlib.Data.Prod.Basic
/-!
# Loops that poll

A loop reads a clock before each round; a round may end it, and once the clock
is past the deadline something is tried a last time. `Polling.run` runs it on
fuel. `run_eq_some_iff` says without fuel how it ends: after some number of
`Rounds` that found nothing.

The world `W` is arbitrary: it holds the clock, the peer and whatever goes
wrong between them.
-/
namespace Lib

structure Polling (W α : Type*) where
  /-- The clock has not reached the deadline. -/
  goesOn : W → Bool × W
  round : ℕ → W → Option α × W
  after : W → α × W

namespace Polling

variable {W V α : Type*} (p : Polling W α)

/-- The loop from its round number `n` on. -/
def run : ℕ → ℕ → W → Option (α × W)
  | 0, _, _ => none
  | fuel + 1, n, w =>
    match p.goesOn w with
    | (false, w) => some (p.after w)
    | (true, w) =>
      match p.round n w with
      | (some a, w) => some (a, w)
      | (none, w) => run fuel (n + 1) w

/-- Round `n` finds nothing. -/
inductive Passes (n : ℕ) (w : W) : W → Prop
  | intro {m w' : W} : p.goesOn w = (true, m) → p.round n m = (none, w') → Passes n w w'

/-- The loop ends with `n` rounds behind it. -/
inductive Ends (n : ℕ) (w : W) : α × W → Prop
  | found {m w' : W} {a : α} : p.goesOn w = (true, m) → p.round n m = (some a, w') → Ends n w (a, w')
  | late {m : W} : p.goesOn w = (false, m) → Ends n w (p.after m)

/-- `n` rounds from `w₀` have found nothing. -/
inductive Rounds (w₀ : W) : ℕ → W → Prop
  | zero : Rounds w₀ 0 w₀
  | succ {n : ℕ} {w w' : W} : Rounds w₀ n w → p.Passes n w w' → Rounds w₀ (n + 1) w'

variable {p}

theorem passes_or_ends (n : ℕ) (w : W) : (∃ w', p.Passes n w w') ∨ ∃ out, p.Ends n w out := by
  rcases hgo : p.goesOn w with ⟨_ | _, m⟩
  · exact .inr ⟨_, .late hgo⟩
  · rcases hround : p.round n m with ⟨_ | a, w'⟩
    · exact .inl ⟨w', .intro hgo hround⟩
    · exact .inr ⟨_, .found hgo hround⟩

theorem run_of_passes {n : ℕ} {w w' : W} (h : p.Passes n w w') (fuel : ℕ) :
    p.run (fuel + 1) n w = p.run fuel (n + 1) w' := by
  cases h with
  | intro hgo hround => simp only [run, hgo, hround]

theorem run_of_ends {n : ℕ} {w : W} {out : α × W} (h : p.Ends n w out) (fuel : ℕ) :
    p.run (fuel + 1) n w = some out := by
  cases h with
  | found hgo hround => simp only [run, hgo, hround]
  | late hgo => simp only [run, hgo]

theorem run_of_rounds {w₀ w : W} {n : ℕ} (h : p.Rounds w₀ n w) (fuel : ℕ) :
    p.run (fuel + n) 0 w₀ = p.run fuel n w := by
  induction h generalizing fuel with
  | zero => rfl
  | succ _ hpass ih =>
    rw [← Nat.succ_eq_add_one, ← Nat.succ_add_eq_add_succ, ih, run_of_passes hpass]

theorem ends_of_run {w₀ w : W} {fuel n : ℕ} {out : α × W} (hr : p.Rounds w₀ n w)
    (h : p.run fuel n w = some out) : ∃ m w', p.Rounds w₀ m w' ∧ p.Ends m w' out := by
  induction fuel generalizing n w with
  | zero => cases h
  | succ fuel ih =>
    rcases passes_or_ends (p := p) n w with ⟨w', hpass⟩ | ⟨out', hend⟩
    · rw [run_of_passes hpass] at h
      exact ih (hr.succ hpass) h
    · rw [run_of_ends hend, Option.some_inj] at h
      exact ⟨n, w, hr, h ▸ hend⟩

/-- How the loop ends, whatever the fuel. -/
theorem run_eq_some_iff {w₀ : W} {out : α × W} :
    (∃ fuel, p.run fuel 0 w₀ = some out) ↔ ∃ n w, p.Rounds w₀ n w ∧ p.Ends n w out := by
  constructor
  · rintro ⟨fuel, h⟩
    exact ends_of_run .zero h
  · rintro ⟨n, w, hr, hend⟩
    exact ⟨1 + n, by rw [run_of_rounds hr]; exact run_of_ends hend 0⟩

/-- What every round that finds nothing keeps. -/
theorem Rounds.inv {w₀ : W} (I : ℕ → W → Prop) (h0 : I 0 w₀)
    (hs : ∀ n w w', I n w → p.Passes n w w' → I (n + 1) w') {n : ℕ} {w : W} (h : p.Rounds w₀ n w) : I n w := by
  induction h with
  | zero => exact h0
  | succ _ hpass ih => exact hs _ _ _ ih hpass

/-- Within `N` rounds the loop has ended, or found nothing in all of them. -/
theorem rounds_or_run (w₀ : W) (N : ℕ) :
    (∃ w, p.Rounds w₀ N w) ∨ ∃ fuel out, p.run fuel 0 w₀ = some out := by
  induction N with
  | zero => exact .inl ⟨w₀, .zero⟩
  | succ N ih =>
    rcases ih with ⟨w, hr⟩ | hended
    · rcases passes_or_ends (p := p) N w with ⟨w', hpass⟩ | ⟨out, hend⟩
      · exact .inl ⟨w', hr.succ hpass⟩
      · exact .inr ⟨1 + N, out, by rw [run_of_rounds hr]; exact run_of_ends hend 0⟩
    · exact .inr hended

/-- A loop over a world that keeps more ends as the one over the world it is seen as. -/
theorem run_map {q : Polling V α} (f : W → V)
    (hgo : ∀ w, q.goesOn (f w) = Prod.map id f (p.goesOn w))
    (hround : ∀ n w, q.round n (f w) = Prod.map id f (p.round n w))
    (hafter : ∀ w, q.after (f w) = Prod.map id f (p.after w)) (fuel n : ℕ) (w : W) :
    q.run fuel n (f w) = (p.run fuel n w).map (Prod.map id f) := by
  induction fuel generalizing n w with
  | zero => rfl
  | succ fuel ih =>
    simp only [run, hgo]
    rcases p.goesOn w with ⟨_ | _, m⟩
    · simp [hafter]
    · rcases hr : p.round n m with ⟨_ | a, w'⟩
      · simp [hround, hr, ih]
      · simp [hround, hr]

end Polling

end Lib

import Mathlib.Data.Int.ModEq
/-!
# Integers of 32 and 64 bits

Signed machine integers are the integers of a range, and an operation whose
exact result leaves it wraps around: `toInt` and `toLong` take an integer to the
one of its residue in the range. A quotient or a remainder that rounds toward
zero (`tdiv`, `tmod`) agrees with the Euclidean one on non-negative numbers
only; `tmod_eq_emod_iff` is when a truncated remainder is still the remainder of
the number it should have been taken of.
-/
namespace Lib

/-- Narrowing to 32 bits. -/
def toInt (x : ℤ) : ℤ := x.bmod (2 ^ 32)

/-- Wrapping around at 64 bits. -/
def toLong (x : ℤ) : ℤ := x.bmod (2 ^ 64)

theorem toLong_of_mem {x : ℤ} (hlo : -2 ^ 63 ≤ x) (hhi : x < 2 ^ 63) : toLong x = x :=
  Int.bmod_eq_of_le (by omega) (by omega)

/-- Above the range, by less than its length. -/
theorem toLong_of_le {x : ℤ} (hlo : 2 ^ 63 ≤ x) (hhi : x < 2 ^ 64) : toLong x = x - 2 ^ 64 :=
  (Int.bmod_eq_iff (by decide)).2 ⟨by omega, by omega, ⟨-1, by omega⟩⟩

/-- What narrowing takes off: the multiple of `2 ^ 32` nearest to the number. -/
theorem toInt_eq (x : ℤ) : toInt x = x - 2 ^ 32 * ((x + 2 ^ 31) / 2 ^ 32) :=
  (Int.bmod_eq_iff (by decide)).2 ⟨by omega, by omega, ⟨-((x + 2 ^ 31) / 2 ^ 32), by omega⟩⟩

/-- The truncated remainder of `x` is the remainder of `y` exactly if they are
congruent and `x` is not negative, or both are multiples. -/
theorem tmod_eq_emod_iff {x y m : ℤ} (hm : 0 < m) : x.tmod m = y % m ↔ m ∣ y - x ∧ (x < 0 → m ∣ y) := by
  have hcongr : x % m = y % m ↔ m ∣ y - x := Int.modEq_iff_dvd
  rcases lt_or_ge x 0 with hx | hx
  · constructor
    · intro h
      -- the one is not positive, the other not negative
      have hle : 0 ≤ (-x).tmod m := Int.tmod_nonneg m (by omega)
      have hge := Int.emod_nonneg y hm.ne'
      rw [Int.neg_tmod] at hle
      have hy : m ∣ y := Int.dvd_of_emod_eq_zero (by omega)
      have hx' : m ∣ x := Int.dvd_of_tmod_eq_zero (by omega)
      exact ⟨Int.dvd_sub hy hx', fun _ => hy⟩
    · rintro ⟨hd, hy⟩
      have hx' : m ∣ x := (Int.dvd_iff_dvd_of_dvd_sub hd).1 (hy hx)
      rw [Int.tmod_eq_zero_of_dvd hx', Int.emod_eq_zero_of_dvd (hy hx)]
  · rw [Int.tmod_eq_emod_of_nonneg hx, hcongr]
    exact ⟨fun h => ⟨h, fun hlt => absurd hx (by omega)⟩, fun h => h.1⟩

end Lib

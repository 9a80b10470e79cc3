import Mathlib.Data.List.Induction
import Mathlib.Algebra.Group.Nat.Defs
/-!
# Numerals of a fixed length

`fixedDigits` writes the last `n` digits of a number in any base and
`readDigits` reads a numeral.
-/
namespace Lib

variable {base : Nat} {digit : Nat → Char} {value : Char → Nat}

def fixedDigits (base : Nat) (digit : Nat → Char) : Nat → Nat → List Char
  | 0, _ => []
  | n + 1, v => fixedDigits base digit n (v / base) ++ [digit (v % base)]

def readDigits (base : Nat) (value : Char → Nat) (l : List Char) : Nat := l.foldl (fun n c => base * n + value c) 0

theorem readDigits_append (l : List Char) (c : Char) :
    readDigits base value (l ++ [c]) = base * readDigits base value l + value c := by
  rw [readDigits, List.foldl_append]
  rfl

theorem length_fixedDigits (n v : Nat) : (fixedDigits base digit n v).length = n := by
  induction n generalizing v with
  | zero => rfl
  | succ n ih => rw [fixedDigits, List.length_append, ih, List.length_singleton]

theorem mem_fixedDigits (hbase : 0 < base) {n v : Nat} :
    ∀ c ∈ fixedDigits base digit n v, ∃ d, d < base ∧ c = digit d := by
  induction n generalizing v with
  | zero => simp [fixedDigits]
  | succ n ih =>
    intro c hc
    rw [fixedDigits, List.mem_append, List.mem_singleton] at hc
    rcases hc with hc | rfl
    · exact ih c hc
    · exact ⟨v % base, Nat.mod_lt _ hbase, rfl⟩

/-- Reading what was written gives the number, up to what did not fit. -/
theorem readDigits_fixedDigits (hbase : 0 < base) (hdigit : ∀ d < base, value (digit d) = d) (n v : Nat) :
    readDigits base value (fixedDigits base digit n v) = v % base ^ n := by
  induction n generalizing v with
  | zero => simp [fixedDigits, readDigits, Nat.mod_one]
  | succ n ih =>
    rw [fixedDigits, readDigits_append, ih, hdigit _ (Nat.mod_lt _ hbase), Nat.pow_succ', Nat.mod_mul]
    omega

/-- Writing what was read gives the numeral back. -/
theorem fixedDigits_readDigits {l : List Char} (hl : ∀ c ∈ l, value c < base ∧ digit (value c) = c) :
    fixedDigits base digit l.length (readDigits base value l) = l := by
  induction l using List.reverseRecOn with
  | nil => rfl
  | append_singleton l c ih =>
    obtain ⟨hlt, hc⟩ := hl c (List.mem_append_right l (List.mem_singleton_self c))
    have hinit := ih fun c hc => hl c (List.mem_append_left _ hc)
    have hdiv : (base * readDigits base value l + value c) / base = readDigits base value l := by
      rw [Nat.mul_add_div (by omega), Nat.div_eq_of_lt hlt, Nat.add_zero]
    have hmod : (base * readDigits base value l + value c) % base = value c := by
      rw [Nat.mul_add_mod, Nat.mod_eq_of_lt hlt]
    rw [List.length_append, List.length_singleton, fixedDigits, readDigits_append, hdiv, hmod, hinit, hc]

theorem readDigits_lt {l : List Char} (hl : ∀ c ∈ l, value c < base) :
    readDigits base value l < base ^ l.length := by
  induction l using List.reverseRecOn with
  | nil => exact Nat.one_pos
  | append_singleton l c ih =>
    have hinit := ih fun c hc => hl c (List.mem_append_left _ hc)
    have hc := hl c (List.mem_append_right l (List.mem_singleton_self c))
    rw [List.length_append, List.length_singleton, readDigits_append, Nat.pow_succ']
    calc base * readDigits base value l + value c
      _ < base * readDigits base value l + base := by omega
      _ = base * (readDigits base value l + 1) := (Nat.mul_succ _ _).symm
      _ ≤ base * base ^ l.length := Nat.mul_le_mul_left base hinit

end Lib

import Mathlib.Data.List.Nodup
/-!
# The most recent elements of a history

A history lists its events newest first, so `h.eraseDups` lists the distinct
ones by the last time each happened, and `h.eraseDups.take n` are the `n` most
recent.
-/
namespace Lib

variable {α : Type*} [BEq α] [LawfulBEq α]

theorem eraseDups_filter (p : α → Bool) (h : List α) : (h.filter p).eraseDups = h.eraseDups.filter p := by
  induction hn : h.length using Nat.strongRecOn generalizing h with
  | ind n ih =>
    cases h with
    | nil => rfl
    | cons x h =>
      have hlen : ∀ q : α → Bool, (h.filter q).length < n := by
        intro q
        rw [← hn]
        exact Nat.lt_succ_of_le (List.length_filter_le q h)
      rw [List.eraseDups_cons]
      by_cases hp : p x = true
      · rw [List.filter_cons_of_pos hp, List.eraseDups_cons, List.filter_cons_of_pos hp, ← ih _ (hlen _) _ rfl,
          List.filter_comm]
      · rw [List.filter_cons_of_neg hp, List.filter_cons_of_neg hp, ← ih _ (hlen _) _ rfl, List.filter_filter]
        congr 1
        apply List.filter_congr
        intro y _
        by_cases hy : y = x <;> simp [hy, hp]

/-- What happens now is the most recent; the others keep their order. -/
theorem eraseDups_snoc (x : α) (h : List α) : (x :: h).eraseDups = x :: h.eraseDups.filter fun y => !y == x := by
  rw [List.eraseDups_cons, eraseDups_filter]

/-- What happens several times in a row happened once. -/
theorem eraseDups_replicate (n : Nat) (x : α) (h : List α) :
    (List.replicate (n + 1) x ++ h).eraseDups = (x :: h).eraseDups := by
  induction n with
  | zero => rfl
  | succ n ih =>
    rw [List.replicate_succ, List.cons_append, eraseDups_snoc, ih, eraseDups_snoc, List.filter_cons_of_neg (by simp),
      List.filter_filter]
    simp

/-- Leaving one element out moves at most one other among the first `n`. -/
theorem mem_take_of_mem_take_filter {x y : α} {n : Nat} {l : List α} (hl : l.Nodup)
    (h : y ∈ (l.filter fun y => !y == x).take n) : y ∈ l.take (n + 1) := by
  induction l generalizing n with
  | nil => simp at h
  | cons z l ih =>
    obtain ⟨hz, hl⟩ := List.nodup_cons.1 hl
    rw [List.take_succ_cons, List.mem_cons]
    by_cases hzx : z = x
    · subst hzx
      right
      rw [List.filter_cons_of_neg (by simp), List.filter_eq_self.2] at h
      · exact h
      · intro w hw
        simpa using fun hwz : w = z => hz (hwz ▸ hw)
    · rw [List.filter_cons_of_pos (by simpa using hzx)] at h
      cases n with
      | zero => simp at h
      | succ n =>
        rw [List.take_succ_cons, List.mem_cons] at h
        rcases h with h | h
        · exact .inl h
        · exact .inr (ih hl h)

/-- Leaving out an element that is not among the first `n` moves none of them. -/
theorem take_filter_of_not_mem {x : α} {n : Nat} {l : List α} (h : x ∉ l.take n) :
    (l.filter fun y => !y == x).take n = l.take n := by
  induction l generalizing n with
  | nil => rfl
  | cons z l ih =>
    cases n with
    | zero => rfl
    | succ n =>
      rw [List.take_succ_cons, List.mem_cons, not_or] at h
      rw [List.filter_cons_of_pos (by simpa using fun hz => h.1 hz.symm), List.take_succ_cons, List.take_succ_cons,
        ih h.2]

theorem eraseDups_nodup (h : List α) : h.eraseDups.Nodup := by
  induction h with
  | nil => exact List.nodup_nil
  | cons x h ih =>
    rw [eraseDups_snoc, List.nodup_cons]
    exact ⟨by simp, ih.filter _⟩

/-- What is recent after another event is that event, or was recent before. -/
theorem mem_recent_cons {x y : α} {n : Nat} {h : List α} (hy : y ∈ (x :: h).eraseDups.take (n + 1)) :
    y = x ∨ y ∈ h.eraseDups.take (n + 1) := by
  rw [eraseDups_snoc, List.take_succ_cons, List.mem_cons] at hy
  exact hy.imp_right (mem_take_of_mem_take_filter (eraseDups_nodup h))

/-- After an event that was not recent, the others recent are the first of those before. -/
theorem take_eraseDups_cons {x : α} {n : Nat} {h : List α} (hx : x ∉ h.eraseDups.take n) :
    (x :: h).eraseDups.take (n + 1) = x :: h.eraseDups.take n := by
  rw [eraseDups_snoc, List.take_succ_cons, take_filter_of_not_mem hx]

omit [BEq α] [LawfulBEq α] in
/-- When the first `n` of distinct keys are dropped and one is added, the keys in `r` stay exactly
when none of them is dropped. -/
theorem kept_after_drop_iff {x : α} {n : Nat} {r keys : List α} (hn : keys.Nodup) (hr : ∀ y ∈ r, y ∈ keys)
    (hx : x ∉ keys) : (∀ y ∈ x :: r, y ∈ keys.drop n ++ [x]) ↔ ∀ y ∈ keys.take n, y ∉ r := by
  rw [← List.take_append_drop n keys] at hn hr
  have hdisj := (List.nodup_append.1 hn).2.2
  constructor
  · intro h y hy hyr
    rcases List.mem_append.1 (h y (List.mem_cons_of_mem x hyr)) with hd | hd
    · exact hdisj y hy y hd rfl
    · rw [List.mem_singleton] at hd
      exact hx (hd ▸ List.mem_of_mem_take hy)
  · intro h y hy
    rcases List.mem_cons.1 hy with rfl | hyr
    · simp
    · rcases List.mem_append.1 (hr y hyr) with ht | hd
      · exact absurd hyr (h y ht)
      · exact List.mem_append_left _ hd

/-- A key is in the history when something was stored under it. -/
theorem exists_lookup_of_mem {β : Type*} {k : α} {l : List (α × β)} (h : k ∈ l.map Prod.fst) :
    ∃ v, l.lookup k = some v := by
  induction l with
  | nil => simp at h
  | cons e l ih =>
    obtain ⟨k', v⟩ := e
    by_cases hk : k = k'
    · exact ⟨v, by simp [hk]⟩
    · obtain ⟨w, hw⟩ := ih (by simpa [hk] using h)
      exact ⟨w, by rw [List.lookup_cons, show (k == k') = false by simpa using hk, hw]⟩

end Lib

import Mathlib.Data.List.Nodup
import Mathlib.Data.List.Sublists
/-!
# Which checkpoints are live

A store of checkpoints hands out an identifier for each one taken. Restoring a
checkpoint discards it and every newer one; dropping one discards it alone. A
`Mark` is what one operation did, and a history is a list of marks.

`LiveIn` reads the live identifiers off the history; `liveIds` computes them.
`mem_liveIds_iff` says they agree when no identifier is handed out twice and only
live checkpoints are restored.
-/
namespace Lib

inductive Mark (I : Type*) where
  | taken (i : I)
  | restored (i : I)
  | dropped (i : I)
  | other
  deriving DecidableEq

namespace Mark

variable {I : Type*}

/-- The identifiers handed out, oldest first. -/
def takenIds (h : List (Mark I)) : List I :=
  h.filterMap fun
    | .taken i => some i
    | _ => none

/-- `i` was handed out, and since then neither dropped nor discarded by
restoring it or an older checkpoint. -/
def LiveIn (h : List (Mark I)) (i : I) : Prop :=
  ∃ pre post, h = pre ++ .taken i :: post ∧ .dropped i ∉ post ∧
    ∀ j, .restored j ∈ post → j ≠ i ∧ j ∉ takenIds pre

/-- `j` was handed out before `i`. -/
def OlderIn (h : List (Mark I)) (j i : I) : Prop :=
  ∃ pre post, h = pre ++ .taken i :: post ∧ j ∈ takenIds pre

variable [DecidableEq I]

def liveStep (l : List I) : Mark I → List I
  | .taken i => l ++ [i]
  | .restored i => l.takeWhile (· ≠ i)
  | .dropped i => l.filter (· ≠ i)
  | .other => l

/-- The live identifiers, oldest first. -/
def liveIds (h : List (Mark I)) : List I := h.foldl liveStep []

/-- Every restored checkpoint was live. -/
def RestoresLive (h : List (Mark I)) : Prop :=
  ∀ pre j post, h = pre ++ .restored j :: post → j ∈ liveIds pre

omit [DecidableEq I] in
@[simp] theorem takenIds_append (h₁ h₂ : List (Mark I)) : takenIds (h₁ ++ h₂) = takenIds h₁ ++ takenIds h₂ :=
  List.filterMap_append

omit [DecidableEq I] in
@[simp] theorem takenIds_nil : takenIds ([] : List (Mark I)) = [] := rfl

omit [DecidableEq I] in
@[simp] theorem takenIds_taken (i : I) (h : List (Mark I)) : takenIds (.taken i :: h) = i :: takenIds h := rfl

omit [DecidableEq I] in
@[simp] theorem takenIds_restored (i : I) (h : List (Mark I)) : takenIds (.restored i :: h) = takenIds h := rfl

omit [DecidableEq I] in
@[simp] theorem takenIds_dropped (i : I) (h : List (Mark I)) : takenIds (.dropped i :: h) = takenIds h := rfl

omit [DecidableEq I] in
@[simp] theorem takenIds_other (h : List (Mark I)) : takenIds (.other :: h) = takenIds h := rfl

omit [DecidableEq I] in
theorem mem_takenIds_iff {h : List (Mark I)} {i : I} : i ∈ takenIds h ↔ .taken i ∈ h := by
  simp only [takenIds, List.mem_filterMap]
  constructor
  · rintro ⟨m, hm, he⟩
    cases m <;> simp_all
  · exact fun hm => ⟨_, hm, rfl⟩

@[simp] theorem liveIds_snoc (h : List (Mark I)) (m : Mark I) : liveIds (h ++ [m]) = liveStep (liveIds h) m := by
  simp [liveIds]

theorem restoresLive_snoc {h : List (Mark I)} {m : Mark I} (hr : RestoresLive h)
    (hm : ∀ j, m = .restored j → j ∈ liveIds h) : RestoresLive (h ++ [m]) := by
  intro pre j post he
  rcases List.eq_nil_or_concat post with rfl | ⟨post', x, rfl⟩
  · obtain ⟨h1, h2⟩ := List.append_inj' he rfl
    rw [← h1]
    exact hm j (by simpa using h2)
  · rw [List.concat_eq_append, ← List.cons_append, ← List.append_assoc] at he
    exact hr pre j post' (List.append_inj' he rfl).1

theorem liveIds_sublist (h : List (Mark I)) : List.Sublist (liveIds h) (takenIds h) := by
  induction h using List.reverseRecOn with
  | nil => exact .slnil
  | append_singleton h m ih =>
    rw [liveIds_snoc, takenIds_append]
    cases m with
    | taken i => exact ih.append (.refl _)
    | restored i => exact ((List.takeWhile_sublist _).trans ih).trans (by simp)
    | dropped i => exact (List.filter_sublist.trans ih).trans (by simp)
    | other => simpa [liveStep] using ih

omit [DecidableEq I] in
/-- Where a history ending in `m` splits at the taking of `i`. -/
theorem snoc_eq_iff {h pre post : List (Mark I)} {m : Mark I} {i : I} :
    h ++ [m] = pre ++ .taken i :: post ↔
      (h = pre ∧ m = .taken i ∧ post = []) ∨ ∃ post', post = post' ++ [m] ∧ h = pre ++ .taken i :: post' := by
  rcases List.eq_nil_or_concat post with rfl | ⟨post', m', rfl⟩
  · constructor
    · intro he
      obtain ⟨h1, h2⟩ := List.append_inj' he rfl
      exact .inl ⟨h1, by simpa using h2, rfl⟩
    · rintro (⟨rfl, rfl, -⟩ | ⟨post', hp, -⟩)
      · rfl
      · simp at hp
  · constructor
    · intro he
      rw [List.concat_eq_append, ← List.cons_append, ← List.append_assoc] at he
      obtain ⟨h1, h2⟩ := List.append_inj' he rfl
      exact .inr ⟨post', by simp_all, h1⟩
    · rintro (⟨-, -, hp⟩ | ⟨post'', hp, rfl⟩)
      · simp at hp
      · rw [hp]; simp

omit [DecidableEq I] in
/-- A sublist that keeps `i` splits at `i` like the list it comes from. -/
theorem sublist_split {P Q l : List I} {i : I} (hn : (P ++ i :: Q).Nodup) (hl : List.Sublist l (P ++ i :: Q))
    (hi : i ∈ l) : ∃ lP lQ, l = lP ++ i :: lQ ∧ List.Sublist lP P ∧ List.Sublist lQ Q ∧ i ∉ lP := by
  obtain ⟨lP, lQ', rfl, hP, hQ'⟩ := List.sublist_append_iff.1 hl
  rw [List.nodup_append, List.nodup_cons] at hn
  obtain ⟨-, hnQ, hdis⟩ := hn
  have hiP : i ∉ lP := fun h => hdis i (hP.subset h) i (by simp) rfl
  have hiQ' : i ∈ lQ' := (List.mem_append.1 hi).resolve_left hiP
  cases hQ' with
  | cons _ h => exact absurd (h.subset hiQ') hnQ.1
  | cons_cons _ h => exact ⟨lP, _, rfl, hP, h, hiP⟩

theorem takeWhile_append_cons {lP lQ : List I} {i : I} (h : i ∉ lP) :
    (lP ++ i :: lQ).takeWhile (· ≠ i) = lP := by
  rw [List.takeWhile_append_of_pos fun x hx => by rw [decide_eq_true_iff]; rintro rfl; exact h hx]
  simp

/-- Restoring `i` keeps exactly the live identifiers older than `i`. -/
theorem mem_takeWhile_self {P Q l : List I} {i j : I} (hn : (P ++ i :: Q).Nodup)
    (hl : List.Sublist l (P ++ i :: Q)) (hi : i ∈ l) : j ∈ l.takeWhile (· ≠ i) ↔ j ∈ l ∧ j ∈ P := by
  obtain ⟨lP, lQ, rfl, hP, hQ, hiP⟩ := sublist_split hn hl hi
  rw [takeWhile_append_cons hiP]
  refine ⟨fun h => ⟨by simp [h], hP.subset h⟩, fun ⟨hj, hjP⟩ => ?_⟩
  rw [List.nodup_append] at hn
  rcases List.mem_append.1 hj with h | h
  · exact h
  · exact absurd rfl (hn.2.2 j hjP j ((hQ.cons_cons i).subset h))

/-- Restoring `j` keeps the live `i` exactly when `j` is newer than `i`. -/
theorem mem_takeWhile_iff {P Q l : List I} {i j : I} (hn : (P ++ i :: Q).Nodup) (hl : List.Sublist l (P ++ i :: Q))
    (hi : i ∈ l) (hj : j ∈ l) : i ∈ l.takeWhile (· ≠ j) ↔ j ≠ i ∧ j ∉ P := by
  obtain ⟨lP, lQ, rfl, hP, hQ, hiP⟩ := sublist_split hn hl hi
  rw [List.nodup_append] at hn
  by_cases hjP : j ∈ lP
  · -- `j` is older: the prefix stops before `i`.
    obtain ⟨a, b, rfl⟩ := List.append_of_mem hjP
    have hja : j ∉ a := by
      have := hP.nodup hn.1
      rw [List.nodup_append] at this
      exact fun h => this.2.2 j h j (by simp) rfl
    have hnot : i ∉ ((a ++ j :: b) ++ i :: lQ).takeWhile (· ≠ j) := by
      rw [List.append_assoc, List.cons_append, takeWhile_append_cons hja]
      exact fun h => hiP (by simp [h])
    exact ⟨fun h => absurd h hnot, fun h => absurd (hP.subset hjP) h.2⟩
  · have hPj : j ∉ P := fun h => by
      rcases List.mem_append.1 hj with h' | h'
      · exact hjP h'
      · exact hn.2.2 j h j ((hQ.cons_cons i).subset h') rfl
    rw [List.takeWhile_append_of_pos fun x hx => by rw [decide_eq_true_iff]; rintro rfl; exact hjP hx]
    by_cases hji : j = i
    · subst hji
      simp [hiP]
    · rw [List.takeWhile_cons_of_pos (by simpa using Ne.symm hji)]
      simp [hji, hPj]

theorem mem_takeWhile_liveIds {h : List (Mark I)} (hn : (takenIds h).Nodup) {i : I} (hi : i ∈ liveIds h) (j : I) :
    j ∈ (liveIds h).takeWhile (· ≠ i) ↔ j ∈ liveIds h ∧ OlderIn h j i := by
  have hsub := liveIds_sublist h
  have hmem : .taken i ∈ h := mem_takenIds_iff.1 (hsub.subset hi)
  constructor
  · obtain ⟨pre, post, rfl⟩ := List.append_of_mem hmem
    rw [takenIds_append, takenIds_taken] at hn hsub
    intro hj
    obtain ⟨h1, h2⟩ := (mem_takeWhile_self hn hsub hi).1 hj
    exact ⟨h1, pre, post, rfl, h2⟩
  · rintro ⟨hj, pre, post, rfl, hjp⟩
    rw [takenIds_append, takenIds_taken] at hn hsub
    exact (mem_takeWhile_self hn hsub hi).2 ⟨hj, hjp⟩

/-- The computed live identifiers are those the history says are live. -/
theorem mem_liveIds_iff {h : List (Mark I)} (hn : (takenIds h).Nodup) (hr : RestoresLive h) (i : I) :
    i ∈ liveIds h ↔ LiveIn h i := by
  induction h using List.reverseRecOn with
  | nil => simp [liveIds, LiveIn]
  | append_singleton h m ih =>
    have hn' : (takenIds h).Nodup := by
      rw [takenIds_append] at hn; exact hn.of_append_left
    have hr' : RestoresLive h := fun pre j post he => hr pre j (post ++ [m]) (by simp [he])
    have ih := ih hn' hr'
    have hsub := liveIds_sublist h
    rw [liveIds_snoc]
    simp only [LiveIn, snoc_eq_iff]
    cases m with
    | taken k =>
      have hk : k ∉ takenIds h := by
        rw [takenIds_append, List.nodup_append] at hn
        exact fun hk => hn.2.2 k hk k (by simp) rfl
      simp only [liveStep, List.mem_append, List.mem_singleton, ih, LiveIn]
      constructor
      · rintro (⟨pre, post, rfl, hd, hs⟩ | rfl)
        · exact ⟨pre, _, .inr ⟨post, rfl, rfl⟩, by simpa using hd, by simpa using hs⟩
        · exact ⟨h, [], .inl ⟨rfl, rfl, rfl⟩, by simp, by simp⟩
      · rintro ⟨pre, post, ⟨rfl, he, rfl⟩ | ⟨post', rfl, rfl⟩, hd, hs⟩
        · exact .inr (by simpa using he.symm)
        · exact .inl ⟨pre, post', rfl, by simpa using hd, by simpa using hs⟩
    | restored j =>
      have hj : j ∈ liveIds h := hr h j [] rfl
      simp only [liveStep]
      constructor
      · intro hi
        obtain ⟨pre, post, rfl, hd, hs⟩ := ih.1 ((List.takeWhile_sublist _).subset hi)
        refine ⟨pre, _, .inr ⟨post, rfl, rfl⟩, by simpa using hd, fun j' hj' => ?_⟩
        rcases List.mem_append.1 hj' with hj' | hj'
        · exact hs j' hj'
        · obtain rfl : j' = j := by simpa using hj'
          rw [takenIds_append, takenIds_taken] at hn' hsub
          exact (mem_takeWhile_iff hn' hsub ((List.takeWhile_sublist _).subset hi) hj).1 hi
      · rintro ⟨pre, post, ⟨-, he, -⟩ | ⟨post', rfl, rfl⟩, hd, hs⟩
        · cases he
        · have hi : i ∈ liveIds (pre ++ .taken i :: post') :=
            ih.2 ⟨pre, post', rfl, by simpa using hd, fun j' hj' => hs j' (by simp [hj'])⟩
          rw [takenIds_append, takenIds_taken] at hn' hsub
          exact (mem_takeWhile_iff hn' hsub hi hj).2 (hs j (by simp))
    | dropped j =>
      simp only [liveStep, List.mem_filter, decide_eq_true_eq, ih, LiveIn]
      constructor
      · rintro ⟨⟨pre, post, rfl, hd, hs⟩, hij⟩
        exact ⟨pre, _, .inr ⟨post, rfl, rfl⟩, by simpa [hij] using hd, by simpa using hs⟩
      · rintro ⟨pre, post, ⟨-, he, -⟩ | ⟨post', rfl, rfl⟩, hd, hs⟩
        · cases he
        · simp only [List.mem_append, List.mem_singleton, dropped.injEq, not_or] at hd
          exact ⟨⟨pre, post', rfl, hd.1, by simpa using hs⟩, hd.2⟩
    | other =>
      simp only [liveStep, ih, LiveIn]
      constructor
      · rintro ⟨pre, post, rfl, hd, hs⟩
        exact ⟨pre, _, .inr ⟨post, rfl, rfl⟩, by simpa using hd, by simpa using hs⟩
      · rintro ⟨pre, post, ⟨-, he, -⟩ | ⟨post', rfl, rfl⟩, hd, hs⟩
        · cases he
        · exact ⟨pre, post', rfl, by simpa using hd, by simpa using hs⟩

end Mark

end Lib

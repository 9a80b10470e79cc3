import Mathlib.Data.List.Nodup
import Mathlib.Order.Basic
import Mathlib.Data.Set.Basic
/-!
# The first key of a range

A store whose keys are ordered by a rank, and the scan of its entries from a
rank on. `head_rangeFrom` says which entry the scan meets first, whatever
order the entries were kept in; `filter_from_eq`, where a scan that stopped at
an entry goes on.
-/
namespace Lib

variable {K V κ : Type*} [LinearOrder κ] (rank : K → κ)

/-- `k` is the first of the keys from `start` on. -/
structure IsFirst (keys : Set K) (start : κ) (k : K) : Prop where
  mem : k ∈ keys
  reached : start ≤ rank k
  first : ∀ k' ∈ keys, start ≤ rank k' → rank k ≤ rank k'

/-- The entries, by rank. -/
def ascending (entries : List (K × V)) : List (K × V) := entries.mergeSort fun a b => decide (rank a.1 ≤ rank b.1)

/-- The entries from `start` on, by rank. -/
def rangeFrom (start : κ) (entries : List (K × V)) : List (K × V) :=
  (ascending rank entries).filter fun e => decide (start ≤ rank e.1)

variable {rank}

theorem IsFirst.unique (hrank : Function.Injective rank) {keys : Set K} {start : κ} {k k' : K}
    (h : IsFirst rank keys start k) (h' : IsFirst rank keys start k') : k = k' :=
  hrank (le_antisymm (h.first k' h'.mem h'.reached) (h'.first k h.mem h.reached))

/-- The first of the keys is the first of fewer keys. -/
theorem IsFirst.subset {keys keys' : Set K} {start : κ} {k : K} (h : IsFirst rank keys start k) (hk : k ∈ keys')
    (hsub : keys' ⊆ keys) : IsFirst rank keys' start k :=
  ⟨hk, h.reached, fun k' hk' => h.first k' (hsub hk')⟩

theorem mem_ascending {entries : List (K × V)} {e : K × V} : e ∈ ascending rank entries ↔ e ∈ entries :=
  (List.mergeSort_perm entries _).mem_iff

theorem mem_rangeFrom {start : κ} {entries : List (K × V)} {e : K × V} :
    e ∈ rangeFrom rank start entries ↔ e ∈ entries ∧ start ≤ rank e.1 := by
  rw [rangeFrom, List.mem_filter, mem_ascending, decide_eq_true_eq]

theorem ascending_pairwise (entries : List (K × V)) :
    (ascending rank entries).Pairwise fun a b => rank a.1 ≤ rank b.1 := by
  have hsorted : (ascending rank entries).Pairwise fun a b => decide (rank a.1 ≤ rank b.1) = true := by
    apply List.pairwise_mergeSort
    · intro a b c hab hbc
      rw [decide_eq_true_eq] at *
      exact hab.trans hbc
    · intro a b
      rw [Bool.or_eq_true, decide_eq_true_eq, decide_eq_true_eq]
      exact le_total _ _
  exact hsorted.imp of_decide_eq_true

theorem rangeFrom_pairwise (start : κ) (entries : List (K × V)) :
    (rangeFrom rank start entries).Pairwise fun a b => rank a.1 ≤ rank b.1 :=
  (ascending_pairwise entries).filter _

/-- Entries of distinct keys are in strict order. -/
theorem ascending_pairwise_lt (hrank : Function.Injective rank) {entries : List (K × V)}
    (hkeys : (entries.map Prod.fst).Nodup) : (ascending rank entries).Pairwise fun a b => rank a.1 < rank b.1 := by
  have hperm : ((ascending rank entries).map Prod.fst).Perm (entries.map Prod.fst) :=
    (List.mergeSort_perm entries _).map Prod.fst
  have hne : (ascending rank entries).Pairwise fun a b => a.1 ≠ b.1 := List.pairwise_map.1 (hperm.nodup_iff.2 hkeys)
  exact ((ascending_pairwise entries).and hne).imp fun ⟨h, hn⟩ => lt_of_le_of_ne h fun e => hn (hrank e)

/-- In strict order, the entries from one of them on are that one and those after it. -/
theorem filter_from_eq {before after : List (K × V)} {e : K × V}
    (h : (before ++ e :: after).Pairwise fun a b => rank a.1 < rank b.1) :
    (before ++ e :: after).filter (fun a => decide (rank e.1 ≤ rank a.1)) = e :: after := by
  obtain ⟨-, hafter, hacross⟩ := List.pairwise_append.1 h
  have hbefore : before.filter (fun a => decide (rank e.1 ≤ rank a.1)) = [] := by
    rw [List.filter_eq_nil_iff]
    intro a ha
    simpa using hacross a ha e List.mem_cons_self
  have hrest : (e :: after).filter (fun a => decide (rank e.1 ≤ rank a.1)) = e :: after := by
    rw [List.filter_eq_self]
    intro a ha
    rw [decide_eq_true_eq]
    rcases List.mem_cons.1 ha with rfl | ha
    · exact le_rfl
    · exact ((List.pairwise_cons.1 hafter).1 a ha).le
  rw [List.filter_append, hbefore, List.nil_append, hrest]

/-- In order, the entries from a rank on are the last ones. -/
theorem exists_append_filter_from (start : κ) {l : List (K × V)} (h : l.Pairwise fun a b => rank a.1 < rank b.1) :
    ∃ before, l = before ++ l.filter fun a => decide (start ≤ rank a.1) := by
  induction l with
  | nil => exact ⟨[], rfl⟩
  | cons e l ih =>
    obtain ⟨hfirst, hrest⟩ := List.pairwise_cons.1 h
    by_cases he : start ≤ rank e.1
    · refine ⟨[], ?_⟩
      rw [List.nil_append, eq_comm, List.filter_eq_self]
      intro a ha
      rw [decide_eq_true_eq]
      rcases List.mem_cons.1 ha with rfl | ha
      · exact he
      · exact he.trans (hfirst a ha).le
    · obtain ⟨before, hbefore⟩ := ih hrest
      refine ⟨e :: before, ?_⟩
      rw [List.filter_cons_of_neg (by simpa using he), List.cons_append, ← hbefore]

/-- What the scan meets first is the entry of the first key. -/
theorem head_rangeFrom {start : κ} {entries : List (K × V)} {k : K} {v : V}
    (h : (rangeFrom rank start entries).head? = some (k, v)) :
    (k, v) ∈ entries ∧ IsFirst rank {k | ∃ v, (k, v) ∈ entries} start k := by
  obtain ⟨rest, hrest⟩ : ∃ rest, rangeFrom rank start entries = (k, v) :: rest := List.head?_eq_some_iff.1 h
  have hpairs : (rangeFrom rank start entries).Pairwise _ := rangeFrom_pairwise start entries
  rw [hrest, List.pairwise_cons] at hpairs
  obtain ⟨hmem, hreached⟩ := mem_rangeFrom.1 (show (k, v) ∈ rangeFrom rank start entries by rw [hrest]; simp)
  refine ⟨hmem, ⟨v, hmem⟩, hreached, ?_⟩
  rintro k' ⟨v', hmem'⟩ hreached'
  have hin : (k', v') ∈ rangeFrom rank start entries := mem_rangeFrom.2 ⟨hmem', hreached'⟩
  rw [hrest] at hin
  rcases List.mem_cons.1 hin with he | hin
  · rw [(Prod.mk.inj he).1]
  · exact hpairs.1 _ hin

theorem head_rangeFrom_none {start : κ} {entries : List (K × V)} (h : (rangeFrom rank start entries).head? = none) :
    ∀ e ∈ entries, rank e.1 < start := by
  rw [List.head?_eq_none_iff] at h
  intro e he
  by_contra hreached
  have hin : e ∈ rangeFrom rank start entries := mem_rangeFrom.2 ⟨he, not_lt.1 hreached⟩
  rw [h] at hin
  cases hin

end Lib

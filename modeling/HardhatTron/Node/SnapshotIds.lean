import HardhatTron.Node.Snapshots
import Mathlib.Data.List.TakeWhile
/-!
# Snapshot ids as numbers

A client compares ids with `Number(id)`. While the counter has not gone round,
an id is the number it was made from, and the live ids of the node increase:
the order of `SNAPSHOTS` is the order of the numbers.
-/
namespace HardhatTron

open Lib Lib.Mark

variable {S : Type} {db : IRevokingDB S} {n : TreNode S}

/-- The number an id was made from. -/
def idNumber (id : String) : Nat := parseHex (id.toList.drop 2)

theorem idNumber_snapshotId {c : Nat} (h : c < 2 ^ 64) : idNumber (snapshotId c) = c := by
  unfold idNumber snapshotId
  rw [String.toList_ofList, List.drop_succ_cons, List.drop_succ_cons, List.drop_zero, parseHex_toHexString]
  exact Nat.mod_eq_of_lt h

/-- `id` is one the node has handed out, or could have. -/
def Issued (n : TreNode S) (id : String) : Prop :=
  idNumber id ≤ n.SNAPSHOT_COUNTER ∧ snapshotId (idNumber id) = id

theorem numberOfHex_snapshotId {c : Nat} (h : c < 2 ^ 64) : numberOfHex (snapshotId c) = some (toDouble c) := by
  rw [snapshotId, numberOfHex_toHexString, Nat.mod_eq_of_lt h]

/-- `Number(id)` is exact while the node has taken at most `2 ^ 53` snapshots. -/
theorem Issued.numberOfHex {id : String} (h : Issued n id) (hc : n.SNAPSHOT_COUNTER ≤ 2 ^ 53) :
    numberOfHex id = some (idNumber id) := by
  have hle : idNumber id ≤ 2 ^ 53 := h.1.trans hc
  have hn := numberOfHex_snapshotId (c := idNumber id) (by omega)
  rw [h.2, toDouble_of_le hle] at hn
  exact hn

theorem Issued.inj {i j : String} (hi : Issued n i) (hj : Issued n j) (h : idNumber i = idNumber j) : i = j := by
  rw [← hi.2, ← hj.2, h]

/-- The next id is not one of those handed out. -/
theorem Issued.ne_next {id : String} (h : Issued n id) (hc : n.SNAPSHOT_COUNTER + 1 < 2 ^ 64) :
    id ≠ snapshotId (n.SNAPSHOT_COUNTER + 1) := by
  rintro rfl
  have := h.1
  rw [idNumber_snapshotId hc] at this
  omega

/-- The live ids are ids handed out, oldest first. -/
structure IdsOrdered (n : TreNode S) : Prop where
  issued : ∀ i ∈ n.SNAPSHOTS.keys, Issued n i
  sorted : n.SNAPSHOTS.keys.Pairwise fun i j => idNumber i < idNumber j

theorem idsOrdered_start (st : Stores S) : IdsOrdered (startNode st) :=
  ⟨by simp [startNode], by simp [startNode]⟩

/-- The live ids older than `i` are those with a smaller number. -/
theorem IdsOrdered.mem_takeWhile_iff (h : IdsOrdered n) {i j : String} (hi : i ∈ n.SNAPSHOTS.keys) :
    j ∈ n.SNAPSHOTS.keys.takeWhile (· ≠ i) ↔ j ∈ n.SNAPSHOTS.keys ∧ idNumber j < idNumber i := by
  obtain ⟨older, newer, hk⟩ := List.append_of_mem hi
  have hn := n.SNAPSHOTS.keys_nodup
  have hs := h.sorted
  rw [hk] at hn hs ⊢
  rw [takeWhile_append_cons fun hm => (List.nodup_append.1 hn).2.2 i hm i (by simp) rfl]
  rw [List.pairwise_append, List.pairwise_cons] at hs
  obtain ⟨-, ⟨hnewer, -⟩, holder⟩ := hs
  constructor
  · intro hj
    exact ⟨List.mem_append_left _ hj, holder j hj i (by simp)⟩
  · rintro ⟨hj, hlt⟩
    rcases List.mem_append.1 hj with hj | hj
    · exact hj
    · rcases List.mem_cons.1 hj with rfl | hj
      · omega
      · have := hnewer j hj
        omega

/-! ## What a call does to the live ids -/

theorem IdsOrdered.of_eq {n' : TreNode S} (h : IdsOrdered n) (hs : n'.SNAPSHOTS = n.SNAPSHOTS)
    (hc : n'.SNAPSHOT_COUNTER = n.SNAPSHOT_COUNTER) : IdsOrdered n' := by
  constructor
  · intro i hi
    rw [hs] at hi
    exact ⟨hc ▸ (h.issued i hi).1, (h.issued i hi).2⟩
  · rw [hs]
    exact h.sorted

/-- Forgetting snapshots keeps the order. -/
theorem IdsOrdered.of_sublist {n' : TreNode S} (h : IdsOrdered n)
    (hs : List.Sublist n'.SNAPSHOTS.keys n.SNAPSHOTS.keys) (hc : n'.SNAPSHOT_COUNTER = n.SNAPSHOT_COUNTER) :
    IdsOrdered n' := by
  constructor
  · intro i hi
    exact ⟨hc ▸ (h.issued i (hs.subset hi)).1, (h.issued i (hs.subset hi)).2⟩
  · exact h.sorted.sublist hs

/-- `n'` has every snapshot of `n`, and perhaps newer ones. -/
structure Extends (n n' : TreNode S) : Prop where
  ids : IdsOrdered n'
  live : n.SNAPSHOTS.keys ⊆ n'.SNAPSHOTS.keys
  counter : n.SNAPSHOT_COUNTER ≤ n'.SNAPSHOT_COUNTER
  fresh : ∀ i ∈ n'.SNAPSHOTS.keys, Issued n i → i ∈ n.SNAPSHOTS.keys

theorem Extends.refl (h : IdsOrdered n) : Extends n n := ⟨h, fun _ hi => hi, Nat.le_refl _, fun _ hi _ => hi⟩

theorem Extends.issued {n' : TreNode S} (h : Extends n n') {i : String} (hi : Issued n i) : Issued n' i :=
  ⟨hi.1.trans h.counter, hi.2⟩

theorem Extends.trans {n' n'' : TreNode S} (h : Extends n n') (h' : Extends n' n'') : Extends n n'' where
  ids := h'.ids
  live _ hi := h'.live (h.live hi)
  counter := h.counter.trans h'.counter
  fresh i hi hn := h.fresh i (h'.fresh i hi (h.issued hn)) hn

/-- `tre_snapshot` either fails and changes no snapshot, or adds one under the next id. -/
theorem exec_snapshot_cases (db : IRevokingDB S) (n : TreNode S) :
    (∃ e st, exec db n .tre_snapshot = (.error e, { n with stores := st })) ∨
    ∃ e st, exec db n .tre_snapshot = (.id (snapshotId (n.SNAPSHOT_COUNTER + 1)),
      ⟨st, n.SNAPSHOTS.put (snapshotId (n.SNAPSHOT_COUNTER + 1)) e, n.SNAPSHOT_COUNTER + 1⟩) := by
  unfold exec snapshot
  cases dumpStores db n.stores with
  | ok e st => exact .inr ⟨e, st, rfl⟩
  | error e st => exact .inl ⟨_, st, rfl⟩

/-- What a `tre_snapshot` leaves, and the id it answers with. -/
theorem exec_snapshot_extends (db : IRevokingDB S) (h : IdsOrdered n) (hc : n.SNAPSHOT_COUNTER + 1 < 2 ^ 64) :
    Extends n (exec db n .tre_snapshot).2 ∧ (exec db n .tre_snapshot).2.SNAPSHOT_COUNTER ≤ n.SNAPSHOT_COUNTER + 1 ∧
      ∀ i, (exec db n .tre_snapshot).1 = .id i → i ∈ (exec db n .tre_snapshot).2.SNAPSHOTS.keys ∧ ¬ Issued n i := by
  rcases exec_snapshot_cases db n with ⟨e, st, he⟩ | ⟨e, st, he⟩
  · rw [he]
    refine ⟨⟨h.of_eq rfl rfl, fun _ hi => hi, Nat.le_refl _, fun _ hi _ => hi⟩, Nat.le_succ _, ?_⟩
    intro i hi
    cases hi
  · have hnew : snapshotId (n.SNAPSHOT_COUNTER + 1) ∉ n.SNAPSHOTS.keys := fun hm => (h.issued _ hm).ne_next hc rfl
    have hnum := idNumber_snapshotId hc
    rw [he]
    refine ⟨⟨⟨?_, ?_⟩, ?_, Nat.le_succ _, ?_⟩, Nat.le_refl _, ?_⟩
    · intro i hi
      rw [OrderedMap.keys_put_of_not_mem hnew, List.mem_append, List.mem_singleton] at hi
      rcases hi with hi | rfl
      · exact ⟨(h.issued i hi).1.trans (Nat.le_succ _), (h.issued i hi).2⟩
      · exact ⟨hnum.le, by rw [hnum]⟩
    · show ((n.SNAPSHOTS.put _ e).keys).Pairwise _
      rw [OrderedMap.keys_put_of_not_mem hnew, List.pairwise_append]
      refine ⟨h.sorted, List.pairwise_singleton _ _, ?_⟩
      intro i hi j hj
      rw [List.mem_singleton] at hj
      subst hj
      have := (h.issued i hi).1
      omega
    · intro i hi
      rw [OrderedMap.keys_put_of_not_mem hnew]
      exact List.mem_append_left _ hi
    · intro i hi hissued
      rw [OrderedMap.keys_put_of_not_mem hnew, List.mem_append, List.mem_singleton] at hi
      exact hi.resolve_right (hissued.ne_next hc)
    · intro i hi
      cases hi
      refine ⟨?_, fun hm => hm.ne_next hc rfl⟩
      rw [OrderedMap.keys_put_of_not_mem hnew]
      simp

/-- `tre_revert` of an unknown id changes nothing; of a live one it discards
the id and every newer one, whether or not the stores can then be restored. -/
theorem exec_revert_cases (db : IRevokingDB S) (n : TreNode S) (id : String) :
    (id ∉ n.SNAPSHOTS.keys ∧ (exec db n (.tre_revert (some id))).2 = n ∧
      (exec db n (.tre_revert (some id))).1 = .error (.invalidParams ("unknown snapshot id: " ++ id))) ∨
    (id ∈ n.SNAPSHOTS.keys ∧ ∃ st, (exec db n (.tre_revert (some id))).2 =
        ⟨st, dropFrom n.SNAPSHOTS id, n.SNAPSHOT_COUNTER⟩ ∧
      ((exec db n (.tre_revert (some id))).1 = .bool true ∨
        ∃ m, (exec db n (.tre_revert (some id))).1 = .error (.internal m))) := by
  by_cases hid : id ∈ n.SNAPSHOTS.keys
  · obtain ⟨e, he⟩ := OrderedMap.mem_keys_iff.1 hid
    refine .inr ⟨hid, ?_⟩
    simp only [exec, revert, he]
    cases restoreStores db e n.stores with
    | ok u st => exact ⟨st, rfl, .inl rfl⟩
    | error m st => exact ⟨st, rfl, .inr ⟨_, rfl⟩⟩
  · rw [exec_revert_unknown hid]
    exact .inl ⟨hid, rfl, rfl⟩

theorem exec_revert_ids (db : IRevokingDB S) (h : IdsOrdered n) (id : String) :
    IdsOrdered (exec db n (.tre_revert (some id))).2 ∧ id ∉ (exec db n (.tre_revert (some id))).2.SNAPSHOTS.keys ∧
      (exec db n (.tre_revert (some id))).2.SNAPSHOT_COUNTER = n.SNAPSHOT_COUNTER := by
  rcases exec_revert_cases db n id with ⟨hid, hn, -⟩ | ⟨hid, st, hn, -⟩
  · rw [hn]
    exact ⟨h, hid, rfl⟩
  · rw [hn]
    refine ⟨h.of_sublist ?_ rfl, ?_, rfl⟩
    · rw [keys_dropFrom]
      exact List.takeWhile_sublist _
    · rw [keys_dropFrom]
      intro hm
      simpa using List.mem_takeWhile_imp hm

/-- The counter never goes back. -/
theorem exec_counter (db : IRevokingDB S) (n : TreNode S) (c : NodeCall) :
    n.SNAPSHOT_COUNTER ≤ (exec db n c).2.SNAPSHOT_COUNTER := by
  cases c with
  | tre_snapshot =>
    rcases exec_snapshot_cases db n with ⟨e, st, he⟩ | ⟨e, st, he⟩
    · rw [he]
    · rw [he]
      exact Nat.le_succ _
  | tre_revert id =>
    cases id with
    | none => exact Nat.le_refl _
    | some id =>
      rcases exec_revert_cases db n id with ⟨-, hn, -⟩ | ⟨-, st, hn, -⟩
      · rw [hn]
      · rw [hn]
  | tre_dropSnapshot id =>
    cases id with
    | none => exact Nat.le_refl _
    | some id => exact Nat.le_refl _
  | put name k v => exact (writeStore_SNAPSHOT_COUNTER n name _).ge
  | delete name k => exact (writeStore_SNAPSHOT_COUNTER n name _).ge

theorem exec_dropSnapshot (db : IRevokingDB S) (n : TreNode S) (id : String) :
    (exec db n (.tre_dropSnapshot (some id))).2 = { n with SNAPSHOTS := n.SNAPSHOTS.remove id } := rfl

end HardhatTron

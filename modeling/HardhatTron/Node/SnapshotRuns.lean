import HardhatTron.Node.Snapshots
/-!
# Runs of snapshots and reverts

`SnapshotInv` ties the snapshots of a node to its history: the live ids are the
ones the history leaves live, and each live snapshot holds the stores of the
moment it was taken. It holds as long as the 64-bit counter has not gone round;
`id_handed_out_twice` is a run past that point.
-/
namespace HardhatTron

open Lib Lib.Mark

variable {S : Type} {db : IRevokingDB S} {st : Stores S}

/-- The snapshots of `n` after the history `h`. -/
structure SnapshotInv (db : IRevokingDB S) (st : Stores S) (h : List (NodeCall × NodeReply)) (n : TreNode S) :
    Prop where
  ids : idsTaken h = (List.range n.SNAPSHOT_COUNTER).map fun k => snapshotId (k + 1)
  restores : RestoresLive (h.map mark)
  keys : n.SNAPSHOTS.keys = liveIds (h.map mark)
  held : ∀ i e, n.SNAPSHOTS.get? i = some e → ∃ pre post m, h = pre ++ (.tre_snapshot, .id i) :: post ∧
    NodeRun db st pre m ∧ ∀ name k, (e.get name).get? k = db.get (m.stores.get name) k

theorem idsTaken_append (h₁ h₂ : List (NodeCall × NodeReply)) : idsTaken (h₁ ++ h₂) = idsTaken h₁ ++ idsTaken h₂ := by
  simp [idsTaken]

theorem SnapshotInv.counter {h n} (hi : SnapshotInv db st h n) : n.SNAPSHOT_COUNTER = (idsTaken h).length := by
  simp [hi.ids]

theorem inv_start : SnapshotInv db st [] (startNode st) where
  ids := by simp [idsTaken, startNode]
  restores := by intro pre j post he; simp at he
  keys := rfl
  held := by intro i e he; simp [startNode] at he

/-- A call that takes and restores nothing, and leaves a subset of the snapshots. -/
theorem inv_keep {h n n' e} (hi : SnapshotInv db st h n) (hc : n'.SNAPSHOT_COUNTER = n.SNAPSHOT_COUNTER)
    (hm : mark e = .other ∨ ∃ i, mark e = .dropped i)
    (hk : n'.SNAPSHOTS.keys = liveStep n.SNAPSHOTS.keys (mark e))
    (hg : ∀ i d, n'.SNAPSHOTS.get? i = some d → n.SNAPSHOTS.get? i = some d) :
    SnapshotInv db st (h ++ [e]) n' where
  ids := by
    rw [idsTaken_append, hc, ← hi.ids]
    rcases hm with hm | ⟨i, hm⟩ <;> simp [idsTaken, hm]
  restores := by
    rw [List.map_append]
    refine restoresLive_snoc hi.restores fun j hj => ?_
    rcases hm with hm | ⟨i, hm⟩ <;> rw [hm] at hj <;> cases hj
  keys := by rw [hk, hi.keys]; simp
  held := by
    intro i d hd
    obtain ⟨pre, post, m, rfl, hr, hs⟩ := hi.held i d (hg i d hd)
    exact ⟨pre, post ++ [e], m, by simp, hr, hs⟩

theorem inv_snapshot {h n e} (hi : SnapshotInv db st h n) (hr : NodeRun db st h n)
    (hlen : n.SNAPSHOT_COUNTER < 2 ^ 64) (he : ∀ name k, (e.get name).get? k = db.get (n.stores.get name) k) :
    SnapshotInv db st (h ++ [(.tre_snapshot, .id (snapshotId (n.SNAPSHOT_COUNTER + 1)))])
      ⟨n.stores, n.SNAPSHOTS.put (snapshotId (n.SNAPSHOT_COUNTER + 1)) e, n.SNAPSHOT_COUNTER + 1⟩ := by
  have hids : idsTaken (h ++ [(.tre_snapshot, .id (snapshotId (n.SNAPSHOT_COUNTER + 1)))]) =
      (List.range (n.SNAPSHOT_COUNTER + 1)).map fun k => snapshotId (k + 1) := by
    rw [idsTaken_append, hi.ids, List.range_succ, List.map_append]
    rfl
  have hfresh : snapshotId (n.SNAPSHOT_COUNTER + 1) ∉ n.SNAPSHOTS.keys := by
    intro hk
    have hn := ids_nodup (c := n.SNAPSHOT_COUNTER + 1) hlen
    rw [List.range_succ, List.map_append, ← hi.ids, List.nodup_append] at hn
    rw [hi.keys] at hk
    exact hn.2.2 _ ((liveIds_sublist _).subset hk) _ (by simp) rfl
  refine ⟨hids, ?_, ?_, ?_⟩
  · rw [List.map_append]
    exact restoresLive_snoc hi.restores fun j hj => by cases hj
  · rw [OrderedMap.keys_put_of_not_mem hfresh, hi.keys, List.map_append, List.map_singleton, liveIds_snoc]
    rfl
  · intro i d hd
    rw [OrderedMap.get?_put] at hd
    split at hd
    · rename_i hi'
      obtain rfl : e = d := by simpa using hd
      exact ⟨h, [], n, by rw [hi'], hr, he⟩
    · obtain ⟨pre, post, m, rfl, hr', hs⟩ := hi.held i d hd
      exact ⟨pre, _, m, by rw [List.append_assoc, List.cons_append], hr', hs⟩

theorem inv_revert {h n i stores} (hi : SnapshotInv db st h n) (hk : i ∈ n.SNAPSHOTS.keys) :
    SnapshotInv db st (h ++ [(.tre_revert (some i), .bool true)])
      ⟨stores, dropFrom n.SNAPSHOTS i, n.SNAPSHOT_COUNTER⟩ where
  ids := by rw [idsTaken_append, hi.ids]; simp [idsTaken, mark]
  restores := by
    rw [List.map_append]
    refine restoresLive_snoc hi.restores fun j hj => ?_
    obtain rfl : i = j := by simpa [mark] using hj
    rw [← hi.keys]
    exact hk
  keys := by
    rw [keys_dropFrom, hi.keys, List.map_append, List.map_singleton, liveIds_snoc]
    rfl
  held := by
    intro j d hd
    obtain ⟨pre, post, m, rfl, hr, hs⟩ := hi.held j d (get?_dropFrom hd)
    exact ⟨pre, _, m, by rw [List.append_assoc, List.cons_append], hr, hs⟩

/-- Every call keeps the invariant while the counter is below `2 ^ 64`. -/
theorem inv_exec (hdb : db.Lawful) {h n} (c : NodeCall) (hi : SnapshotInv db st h n) (hr : NodeRun db st h n)
    (hlen : (idsTaken (h ++ [(c, (exec db n c).1)])).length ≤ 2 ^ 64) :
    SnapshotInv db st (h ++ [(c, (exec db n c).1)]) (exec db n c).2 := by
  cases c with
  | tre_snapshot =>
    obtain ⟨e, he, hg⟩ := exec_snapshot hdb n
    rw [he] at hlen ⊢
    refine inv_snapshot hi hr ?_ hg
    rw [idsTaken_append, List.length_append, ← hi.counter] at hlen
    exact hlen
  | tre_revert id =>
    cases id with
    | none => exact inv_keep hi rfl (.inl rfl) rfl fun _ _ h => h
    | some i =>
      by_cases hk : i ∈ n.SNAPSHOTS.keys
      · obtain ⟨e, he⟩ := OrderedMap.mem_keys_iff.1 hk
        obtain ⟨stores, hrev, -⟩ := exec_revert_live hdb he
        rw [hrev]
        exact inv_revert hi hk
      · rw [exec_revert_unknown hk]
        exact inv_keep hi rfl (.inl rfl) rfl fun _ _ h => h
  | tre_dropSnapshot id =>
    cases id with
    | none => exact inv_keep hi rfl (.inl rfl) rfl fun _ _ h => h
    | some i =>
      refine inv_keep hi rfl (.inr ⟨i, rfl⟩) (by simp [exec, dropSnapshot, reply, mark, liveStep]) fun j d hd => ?_
      simp only [exec, dropSnapshot, reply, OrderedMap.get?_remove] at hd
      split at hd
      · cases hd
      · exact hd
  | put name k v =>
    exact inv_keep hi (writeStore_SNAPSHOT_COUNTER n name _) (.inl rfl) (by simp [exec, liveStep])
      fun _ _ h => by simpa [exec] using h
  | delete name k =>
    exact inv_keep hi (writeStore_SNAPSHOT_COUNTER n name _) (.inl rfl) (by simp [exec, liveStep])
      fun _ _ h => by simpa [exec] using h

/-- The invariant holds after every run that takes at most `2 ^ 64` snapshots. -/
theorem run_inv (hdb : db.Lawful) {h n} (hr : NodeRun db st h n) (hlen : (idsTaken h).length ≤ 2 ^ 64) :
    SnapshotInv db st h n := by
  revert hlen
  refine Run.inv (fun h n => (idsTaken h).length ≤ 2 ^ 64 → SnapshotInv db st h n) (fun _ => inv_start) ?_ hr
  intro h n c r n' hr ih _ hst hlen
  obtain ⟨rfl, rfl⟩ : (exec db n c).1 = r ∧ (exec db n c).2 = n' := by
    rw [Option.some.injEq] at hst; simp [hst]
  refine inv_exec hdb c (ih ?_) hr hlen
  rw [idsTaken_append, List.length_append] at hlen
  omega

/-- In an invariant state the ids handed out so far are distinct. -/
theorem SnapshotInv.nodup {h n} (hi : SnapshotInv db st h n) (hlen : (idsTaken h).length ≤ 2 ^ 64) :
    (idsTaken h).Nodup := by
  rw [hi.ids]
  exact ids_nodup (hi.counter ▸ hlen)

/-- The call that hands out `i` occurs once. -/
theorem taken_once {h pre post pre' post' : List (NodeCall × NodeReply)} {i : String} (hn : (idsTaken h).Nodup)
    (he : h = pre ++ (.tre_snapshot, .id i) :: post) (he' : h = pre' ++ (.tre_snapshot, .id i) :: post') :
    pre = pre' := by
  subst he
  rcases List.append_eq_append_iff.1 he' with ⟨a, rfl, ha⟩ | ⟨a, rfl, ha⟩
  · rcases a with _ | ⟨x, a⟩
    · simp
    · obtain ⟨rfl, rfl⟩ : (NodeCall.tre_snapshot, NodeReply.id i) = x ∧ post = a ++ (.tre_snapshot, .id i) :: post' := by
        simpa using ha
      simp [idsTaken, mark, List.nodup_append] at hn
  · rcases a with _ | ⟨x, a⟩
    · simp
    · obtain ⟨rfl, rfl⟩ : (NodeCall.tre_snapshot, NodeReply.id i) = x ∧ post' = a ++ (.tre_snapshot, .id i) :: post := by
        simpa using ha
      simp [idsTaken, mark, List.nodup_append] at hn

/-- After any run, `tre_revert` succeeds exactly on the ids handed out and since
neither dropped nor discarded by a revert to them or to an older id. It then
leaves the four stores as they were when the id was taken, and live exactly the
ids that were live and older. No id is handed out twice. -/
theorem revert_restores_snapshot (hdb : db.Lawful) {h n} (hr : NodeRun db st h n)
    (hlen : (idsTaken h).length ≤ 2 ^ 64) :
    (idsTaken h).Nodup ∧ (∀ i, i ∈ n.SNAPSHOTS.keys ↔ LiveIn (h.map mark) i) ∧
    ∀ id r n', exec db n (.tre_revert id) = (r, n') →
      (r = .bool true ↔ ∃ i, id = some i ∧ LiveIn (h.map mark) i) ∧
      ∀ i, id = some i → r = .bool true →
        (∀ pre post m, h = pre ++ (.tre_snapshot, .id i) :: post → NodeRun db st pre m →
          ∀ name k, db.get (n'.stores.get name) k = db.get (m.stores.get name) k) ∧
        ∀ j, j ∈ n'.SNAPSHOTS.keys ↔ j ∈ n.SNAPSHOTS.keys ∧ OlderIn (h.map mark) j i := by
  have hi := run_inv hdb hr hlen
  have hn := hi.nodup hlen
  have hlive : ∀ i, i ∈ n.SNAPSHOTS.keys ↔ LiveIn (h.map mark) i := fun i => by
    rw [hi.keys]; exact mem_liveIds_iff hn hi.restores i
  refine ⟨hn, hlive, fun id r n' hex => ?_⟩
  cases id with
  | none =>
    obtain ⟨rfl, rfl⟩ := Prod.mk.inj hex
    simp
  | some i =>
    by_cases hk : i ∈ n.SNAPSHOTS.keys
    · obtain ⟨e, he⟩ := OrderedMap.mem_keys_iff.1 hk
      obtain ⟨stores, hrev, hg⟩ := exec_revert_live hdb he
      obtain ⟨rfl, rfl⟩ := Prod.mk.inj (hrev.symm.trans hex)
      refine ⟨by simpa using (hlive i).1 hk, ?_⟩
      rintro _ ⟨⟩ -
      refine ⟨fun pre post m hh hm name k => ?_, fun j => ?_⟩
      · obtain ⟨pre', post', m', hh', hm', hs⟩ := hi.held i e he
        obtain rfl := taken_once hn hh' hh
        rw [hg, hs, hm'.unique hm]
      · rw [keys_dropFrom, hi.keys]
        exact mem_takeWhile_liveIds hn (hi.keys ▸ hk) j
    · obtain ⟨rfl, rfl⟩ := Prod.mk.inj ((exec_revert_unknown hk).symm.trans hex)
      have := fun h => hk ((hlive i).2 h)
      simpa using this

/-- Four empty stores in memory. -/
def emptyStores : Stores HashMap := ⟨.empty, .empty, .empty, .empty⟩

/-- `revert_restores_snapshot` after an account was written, a snapshot taken and
the account written again: reverting restores the first value. -/
theorem revert_restores_first_write :
    ∃ h n n', NodeRun memoryDB emptyStores h n ∧ exec memoryDB n (.tre_revert (some "0x1")) = (.bool true, n') ∧
      memoryDB.get (n.stores.get .accountStore) [1] = some [3] ∧
      memoryDB.get (n'.stores.get .accountStore) [1] = some [2] ∧ n'.SNAPSHOTS.keys = [] := by
  let calls : List NodeCall := [.put .accountStore [1] [2], .tre_snapshot, .put .accountStore [1] [3]]
  obtain ⟨⟨h, n⟩, hp⟩ : ∃ p, play (fun n c => some (exec memoryDB n c)) (fun _ _ => True)
    (startNode emptyStores) calls = some p := ⟨_, rfl⟩
  obtain ⟨⟨h₁, m⟩, hp₁⟩ : ∃ p, play (fun n c => some (exec memoryDB n c)) (fun _ _ => True)
    (startNode emptyStores) (calls.take 1) = some p := ⟨_, rfl⟩
  obtain ⟨rfl, rfl⟩ := Prod.mk.inj (Option.some.inj hp)
  obtain ⟨rfl, rfl⟩ := Prod.mk.inj (Option.some.inj hp₁)
  have hr : NodeRun memoryDB emptyStores _ _ := Run.of_play hp
  have hr₁ : NodeRun memoryDB emptyStores _ _ := Run.of_play hp₁
  obtain ⟨-, -, hrev⟩ := revert_restores_snapshot memoryDB_lawful hr (by decide)
  obtain ⟨-, hres⟩ := hrev (some "0x1") (.bool true) _ rfl
  obtain ⟨hstores, -⟩ := hres "0x1" rfl rfl
  exact ⟨_, _, _, hr, rfl, by decide, (hstores _ _ _ rfl hr₁ .accountStore [1]).trans (by decide), by decide⟩

/-- The node after `k` snapshots, each dropped again. -/
def cycled (k : ℕ) : TreNode HashMap := ⟨emptyStores, .empty, k⟩

/-- Take the snapshot that follows `k` others, and drop it. -/
def cycle (k : ℕ) : List (NodeCall × NodeReply) :=
  [(.tre_snapshot, .id (snapshotId (k + 1))), (.tre_dropSnapshot (some (snapshotId (k + 1))), .bool true)]

theorem cycle_run (k : ℕ) :
    Run (fun n c => some (exec memoryDB n c)) (fun _ _ => True) (cycled k) (cycle k) (cycled (k + 1)) := by
  obtain ⟨e, he, -⟩ := exec_snapshot memoryDB_lawful (cycled k)
  refine Run.append (.snoc NodeCall.tre_snapshot .nil trivial (congrArg some he))
    (.snoc (NodeCall.tre_dropSnapshot (some (snapshotId (k + 1)))) .nil trivial ?_)
  simp only [exec, dropSnapshot, reply, cycled, Option.some.injEq, Prod.mk.injEq, NodeReply.bool.injEq,
    TreNode.mk.injEq, true_and, and_true]
  refine ⟨OrderedMap.contains_iff.2 (OrderedMap.mem_keys_iff.2 ⟨e, by simp⟩), ?_⟩
  apply OrderedMap.ext
  simp [OrderedMap.remove, OrderedMap.filter, OrderedMap.put, OrderedMap.empty]

theorem idsTaken_cycles (n : ℕ) :
    idsTaken ((List.range n).flatMap cycle) = (List.range n).map fun k => snapshotId (k + 1) := by
  induction n with
  | zero => rfl
  | succ n ih =>
    rw [List.range_succ, List.flatMap_append, idsTaken_append, ih, List.map_append]
    rfl

/-- After `2 ^ 64` snapshots the counter goes round and the first id is handed out again. -/
theorem id_handed_out_twice : ∃ h n, NodeRun memoryDB emptyStores h n ∧ ¬ (idsTaken h).Nodup := by
  obtain ⟨e, he, -⟩ := exec_snapshot memoryDB_lawful (cycled (2 ^ 64))
  have hrounds := Run.rounds (f := cycled) (e := cycle) (2 ^ 64) fun k _ => cycle_run k
  refine ⟨_, _, .snoc .tre_snapshot hrounds trivial (congrArg some he), fun hn => ?_⟩
  rw [idsTaken_append, idsTaken_cycles, List.nodup_append] at hn
  refine hn.2.2 (snapshotId 1) (List.mem_map.2 ⟨0, by simp, rfl⟩) (snapshotId (2 ^ 64 + 1)) (by simp [idsTaken, mark, cycled]) ?_
  rw [snapshotId, snapshotId, Nat.add_mod_left]

end HardhatTron

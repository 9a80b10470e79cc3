import HardhatTron.Lib.Faults
import HardhatTron.Node.Snapshots
import Mathlib.Data.List.TakeWhile
import Mathlib.Data.Set.Card
/-!
# Writes that fail during a revert

`revert` forgets the ids before it restores anything, and `restoreStore` writes
key by key. A write that throws leaves both half done: `revert_atomic_iff` says
that a revert is all or nothing exactly when none of its writes fails.
-/
namespace HardhatTron

open Lib

variable {S : Type}

/-- The database with a schedule of failing writes. -/
def faulty (db : IRevokingDB S) : IRevokingDB (S × Faults String) where
  get st := db.get st.1
  iterator := spared db.iterator
  put k v := guarded (db.put k v)
  delete k := guarded (db.delete k)

/-- Either all of a revert to `id`, whose entry is `e`, or none of it and an error. -/
def AllOrNothing (db : IRevokingDB S) (id : String) (e : SnapshotEntry) (n : TreNode S)
    (r : Except RpcException Bool × TreNode S) : Prop :=
  (r.1 = .ok true ∧ (∀ name k, db.get (r.2.stores.get name) k = (e.get name).get? k) ∧
    ∀ older newer, n.SNAPSHOTS.keys = older ++ id :: newer → r.2.SNAPSHOTS.keys = older) ∨
  ((∃ ex, r.1 = .error ex) ∧ (∀ name k, db.get (r.2.stores.get name) k = db.get (n.stores.get name) k) ∧
    ∀ i, i ∈ r.2.SNAPSHOTS.keys ↔ i ∈ n.SNAPSHOTS.keys)

/-- How many keys are bound differently in a store and in its snapshot. -/
noncomputable def changes (db : IRevokingDB S) (snapshot : HashMap) (s : S) : Nat :=
  {k | db.get s k ≠ snapshot.get? k}.ncard

/-! ## The writes of a restore -/

/-- Write the snapshot's binding of a key. -/
def writeBack (db : IRevokingDB S) (snapshot : HashMap) (k : Bytes) : EStateM String S Unit :=
  match snapshot.get? k with
  | some v => db.put k v
  | none => db.delete k

/-- The keys that are in both but with another value, by the iterator's entries `l`. -/
def changedKeys (snapshot : HashMap) (l : List (Bytes × Bytes)) : List Bytes :=
  (l.filter fun e => snapshot.get? e.1 ≠ none ∧ snapshot.get? e.1 ≠ some e.2).map Prod.fst

/-- The keys added since the snapshot. -/
def addedKeys (snapshot : HashMap) (l : List (Bytes × Bytes)) : List Bytes :=
  (l.filter fun e => snapshot.get? e.1 = none).map Prod.fst

/-- The keys still there. -/
def matchedKeys (snapshot : HashMap) (l : List (Bytes × Bytes)) : List Bytes :=
  (l.filter fun e => snapshot.get? e.1 ≠ none).map Prod.fst

/-- The keys removed since the snapshot. -/
def removedKeys (snapshot : HashMap) (l : List (Bytes × Bytes)) : List Bytes :=
  (snapshot.entries.filter fun e => !(matchedKeys snapshot l).contains e.1).map Prod.fst

/-- The keys a restore writes, in its order. -/
def restoredKeys (snapshot : HashMap) (l : List (Bytes × Bytes)) : List Bytes :=
  changedKeys snapshot l ++ addedKeys snapshot l ++ removedKeys snapshot l

/-- The pass writes the changed keys and collects the others. -/
theorem scan_eq (db : IRevokingDB S) (snapshot : HashMap) (l : List (Bytes × Bytes)) (a : Scan) :
    (l.map fun e => (some e.1, some e.2)).foldlM (scanEntry db snapshot) a = (do
      forM (changedKeys snapshot l) (writeBack db snapshot)
      pure ⟨a.toDelete ++ addedKeys snapshot l, (matchedKeys snapshot l).reverse ++ a.matched⟩) := by
  induction l generalizing a with
  | nil => simp [changedKeys, addedKeys, matchedKeys]
  | cons e l ih =>
    obtain ⟨k, v⟩ := e
    rw [List.map_cons, List.foldlM_cons]
    cases hs : snapshot.get? k with
    | none =>
      simp only [scanEntry, hs, pure_bind]
      rw [ih]
      simp [changedKeys, addedKeys, matchedKeys, hs]
    | some w =>
      simp only [scanEntry, hs, ih]
      by_cases hv : v = w
      · subst hv
        simp [changedKeys, addedKeys, matchedKeys, hs]
      · simp [changedKeys, addedKeys, matchedKeys, hs, hv, Ne.symm hv, writeBack]

/-- A loop that does the same for every element does the same. -/
theorem forM_congr {m : Type → Type} [Monad m] {α : Type} {f g : α → m Unit} {xs : List α} (h : ∀ x ∈ xs, f x = g x) :
    forM xs f = forM xs g := by
  induction xs with
  | nil => rfl
  | cons x xs ih =>
    rw [List.forM_cons, List.forM_cons, h x List.mem_cons_self, ih fun y hy => h y (List.mem_cons_of_mem _ hy)]

theorem get?_of_mem_addedKeys {snapshot : HashMap} {l : List (Bytes × Bytes)} {k : Bytes}
    (h : k ∈ addedKeys snapshot l) : snapshot.get? k = none := by
  obtain ⟨e, he, rfl⟩ := List.mem_map.1 h
  simpa using (List.mem_filter.1 he).2

theorem forM_addedKeys (db : IRevokingDB S) (snapshot : HashMap) (l : List (Bytes × Bytes)) :
    forM (addedKeys snapshot l) db.delete = forM (addedKeys snapshot l) (writeBack db snapshot) := by
  apply forM_congr
  intro k hk
  rw [writeBack, get?_of_mem_addedKeys hk]

theorem forM_removedKeys (db : IRevokingDB S) (snapshot : HashMap) (l : List (Bytes × Bytes)) {matched : List Bytes}
    (hmatched : ∀ k, k ∈ matched ↔ k ∈ matchedKeys snapshot l) :
    (forM snapshot.entries fun e => if e.1 ∈ matched then pure () else db.put e.1 e.2) =
      forM (removedKeys snapshot l) (writeBack db snapshot) := by
  have hget : ∀ e ∈ snapshot.entries, snapshot.get? e.1 = some e.2 := fun e he => OrderedMap.get?_eq_some_iff.2 he
  unfold removedKeys
  generalize snapshot.entries = es at hget
  induction es with
  | nil => rfl
  | cons e es ih =>
    have hes := ih fun e he => hget e (List.mem_cons_of_mem _ he)
    rw [List.forM_cons, hes]
    by_cases hk : e.1 ∈ matchedKeys snapshot l
    · rw [if_pos ((hmatched _).2 hk), List.filter_cons_of_neg (by simpa using hk), pure_bind]
    · rw [if_neg (fun h => hk ((hmatched _).1 h)), List.filter_cons_of_pos (by simpa using hk), List.map_cons,
        List.forM_cons, writeBack, hget e List.mem_cons_self]

/-- A restore is the run of its writes. -/
theorem restoreStore_eq {db : IRevokingDB S} {s : S} {l : List (Bytes × Bytes)}
    (hit : db.iterator s = .ok (l.map fun e => (some e.1, some e.2)) s) (snapshot : HashMap) :
    restoreStore db snapshot s = forM (restoredKeys snapshot l) (writeBack db snapshot) s := by
  rw [restoreStore, bind_ok hit, scan_eq]
  simp only [bind_assoc, pure_bind, List.nil_append]
  rw [forM_addedKeys, forM_removedKeys db snapshot l (by simp), restoredKeys]
  simp only [List.forM_append, bind_assoc]

theorem mem_map_fst_filter {es : List (Bytes × Bytes)} {p : Bytes × Bytes → Bool} {k : Bytes} :
    k ∈ (es.filter p).map Prod.fst ↔ ∃ v, (k, v) ∈ es ∧ p (k, v) = true := by
  simp only [List.mem_map, List.mem_filter, Prod.exists]
  constructor
  · rintro ⟨k', v, h, rfl⟩
    exact ⟨v, h⟩
  · rintro ⟨v, h⟩
    exact ⟨k, v, h, rfl⟩

theorem not_contains_iff {l : List Bytes} {k : Bytes} : (!l.contains k) = true ↔ k ∉ l := by
  rw [Bool.not_eq_true', ← Bool.not_eq_true, List.contains_iff_mem]

theorem mem_restoredKeys {db : IRevokingDB S} {s : S} {l : List (Bytes × Bytes)}
    (hl : ∀ k v, (k, v) ∈ l ↔ db.get s k = some v) (snapshot : HashMap) (k : Bytes) :
    k ∈ restoredKeys snapshot l ↔ db.get s k ≠ snapshot.get? k := by
  simp only [restoredKeys, changedKeys, addedKeys, removedKeys, matchedKeys, List.mem_append, mem_map_fst_filter, hl,
    decide_eq_true_eq, not_contains_iff, ← OrderedMap.get?_eq_some_iff]
  cases db.get s k <;> cases snapshot.get? k <;> simp [eq_comm]

theorem restoredKeys_nodup {snapshot : HashMap} {l : List (Bytes × Bytes)} (hn : (l.map Prod.fst).Nodup) :
    (restoredKeys snapshot l).Nodup := by
  have hsub : ∀ (es : List (Bytes × Bytes)) p, (es.map Prod.fst).Nodup → ((es.filter p).map Prod.fst).Nodup :=
    fun es p h => h.sublist (List.filter_sublist.map _)
  have hdisjoint : ∀ k ∈ changedKeys snapshot l, k ∉ addedKeys snapshot l := by
    intro k hk hk'
    obtain ⟨v, -, hv⟩ := mem_map_fst_filter.1 hk
    rw [decide_eq_true_eq] at hv
    exact hv.1 (get?_of_mem_addedKeys hk')
  unfold restoredKeys
  rw [List.nodup_append', List.nodup_append']
  refine ⟨⟨hsub _ _ hn, hsub _ _ hn, hdisjoint⟩, hsub _ _ snapshot.nodup, ?_⟩
  intro k hk hremoved
  obtain ⟨v, hv, hnot⟩ := mem_map_fst_filter.1 hremoved
  rcases List.mem_append.1 hk with hchanged | hadded
  · obtain ⟨w, hw, hne⟩ := mem_map_fst_filter.1 hchanged
    rw [decide_eq_true_eq] at hne
    rw [not_contains_iff] at hnot
    exact hnot (mem_map_fst_filter.2 ⟨w, hw, decide_eq_true hne.1⟩)
  · have hnone := get?_of_mem_addedKeys hadded
    rw [OrderedMap.get?_eq_some_iff.2 hv] at hnone
    cases hnone

/-- There are as many writes as changes. -/
theorem length_restoredKeys {db : IRevokingDB S} {s : S} {l : List (Bytes × Bytes)} (hn : (l.map Prod.fst).Nodup)
    (hl : ∀ k v, (k, v) ∈ l ↔ db.get s k = some v) (snapshot : HashMap) :
    (restoredKeys snapshot l).length = changes db snapshot s := by
  have hset : {k | db.get s k ≠ snapshot.get? k} = ((restoredKeys snapshot l).toFinset : Set Bytes) := by
    ext k
    rw [List.coe_toFinset, Set.mem_ofPred_eq, Set.mem_ofPred_eq, mem_restoredKeys hl]
  rw [changes, hset, Set.ncard_coe_finset, List.toFinset_card_of_nodup (restoredKeys_nodup hn)]

/-! ## A restore under faults -/

theorem writeBack_ok {db : IRevokingDB S} (hdb : db.Lawful) (snapshot : HashMap) (k : Bytes) (s : S) :
    ∃ s', writeBack db snapshot k s = .ok () s' := by
  unfold writeBack
  cases snapshot.get? k with
  | some v =>
    obtain ⟨s', h, -⟩ := hdb.put_ok k v s
    exact ⟨s', h⟩
  | none =>
    obtain ⟨s', h, -⟩ := hdb.delete_ok k s
    exact ⟨s', h⟩

theorem writeBack_faulty (db : IRevokingDB S) (snapshot : HashMap) :
    writeBack (faulty db) snapshot = fun k => guarded (writeBack db snapshot k) := by
  funext k
  unfold writeBack
  split <;> rfl

/-- A clear schedule restores the store, any other makes the restore fail. -/
theorem restoreStore_faulty {db : IRevokingDB S} (hdb : db.Lawful) (snapshot : HashMap) (st : S × Faults String) :
    (Clear (changes db snapshot st.1) st.2 →
      ∃ st', restoreStore (faulty db) snapshot st = .ok () st' ∧ ∀ k, db.get st'.1 k = snapshot.get? k) ∧
    (¬ Clear (changes db snapshot st.1) st.2 → ∃ e st', restoreStore (faulty db) snapshot st = .error e st') := by
  obtain ⟨s, faults⟩ := st
  obtain ⟨l, hit, hn, hl⟩ := hdb.iterator_ok s
  obtain ⟨s', hrestore, hget⟩ := restoreStore_ok hdb snapshot s
  rw [restoreStore_eq hit] at hrestore
  rw [restoreStore_eq (show (faulty db).iterator (s, faults) = _ from spared_ok hit faults), writeBack_faulty,
    ← length_restoredKeys hn hl]
  constructor
  · intro hclear
    obtain ⟨s'', h, hguarded⟩ := forM_guarded (writeBack_ok hdb snapshot) _ s faults hclear
    obtain rfl : s' = s'' := by
      rw [hrestore] at h
      injection h
    exact ⟨_, hguarded, hget⟩
  · intro hfault
    exact forM_guarded_fault (writeBack_ok hdb snapshot) _ s faults hfault

/-- The stores in the order `revert` restores them. -/
def storeNames : List StoreName := [.accountStore, .codeStore, .contractStore, .storageRowStore]

theorem mem_storeNames (name : StoreName) : name ∈ storeNames := by
  cases name <;> decide

theorem restoreStores_eq (db : IRevokingDB S) (e : SnapshotEntry) :
    restoreStores db e = forM storeNames fun name => onStore name (restoreStore db (e.get name)) := by
  simp [restoreStores, storeNames, SnapshotEntry.get]

theorem onStore_error {α : Type} {name : StoreName} {m : EStateM String S α} {st : Stores S} {err : String} {s : S}
    (h : m (st.get name) = .error err s) : onStore name m st = .error err (st.set s name) := by
  rw [onStore, h]

/-- Store by store. -/
theorem restoreNames_faulty {db : IRevokingDB S} (hdb : db.Lawful) (e : SnapshotEntry) (names : List StoreName)
    (hn : names.Nodup) (st : Stores (S × Faults String)) :
    ((∀ name ∈ names, Clear (changes db (e.get name) (st.get name).1) (st.get name).2) →
      ∃ st', forM names (fun name => onStore name (restoreStore (faulty db) (e.get name))) st = .ok () st' ∧
        (∀ name ∈ names, ∀ k, db.get (st'.get name).1 k = (e.get name).get? k) ∧
        ∀ name, name ∉ names → st'.get name = st.get name) ∧
    ((∃ name ∈ names, ¬ Clear (changes db (e.get name) (st.get name).1) (st.get name).2) →
      ∃ err st', forM names (fun name => onStore name (restoreStore (faulty db) (e.get name))) st = .error err st') := by
  induction names generalizing st with
  | nil => exact ⟨fun _ => ⟨st, rfl, by simp, by simp⟩, by simp⟩
  | cons name names ih =>
    obtain ⟨hnot, hn⟩ := List.nodup_cons.1 hn
    obtain ⟨hok, herr⟩ := restoreStore_faulty hdb (e.get name) (st.get name)
    by_cases hclear : Clear (changes db (e.get name) (st.get name).1) (st.get name).2
    · obtain ⟨s, hs, hget⟩ := hok hclear
      obtain ⟨hrest, hrestErr⟩ := ih hn (st.set s name)
      -- the stores to come are as they were
      have hsame : ∀ name' ∈ names, (st.set s name).get name' = st.get name' := by
        intro name' hmem
        rw [Stores.get_set, if_neg]
        rintro rfl
        exact hnot hmem
      rw [List.forM_cons, bind_ok (onStore_ok hs)]
      constructor
      · intro hall
        obtain ⟨st', hst', hg, hother⟩ := hrest fun name' hmem => by
          rw [hsame name' hmem]
          exact hall name' (List.mem_cons_of_mem _ hmem)
        refine ⟨st', hst', ?_, ?_⟩
        · intro name' hmem
          rcases List.mem_cons.1 hmem with rfl | hmem
          · rw [hother _ hnot, Stores.get_set, if_pos rfl]
            exact hget
          · exact hg name' hmem
        · intro name' hmem
          rw [List.mem_cons, not_or] at hmem
          rw [hother name' hmem.2, Stores.get_set, if_neg hmem.1]
      · rintro ⟨name', hmem, hfault⟩
        rcases List.mem_cons.1 hmem with rfl | hmem
        · exact absurd hclear hfault
        · apply hrestErr
          refine ⟨name', hmem, ?_⟩
          rw [hsame name' hmem]
          exact hfault
    · obtain ⟨err, s, hs⟩ := herr hclear
      constructor
      · intro hall
        exact absurd (hall name List.mem_cons_self) hclear
      · intro _
        refine ⟨err, st.set s name, ?_⟩
        rw [List.forM_cons]
        simp only [bind, EStateM.bind, onStore_error hs]

/-! ## All or nothing -/

theorem keys_dropFrom_of_split {m : OrderedMap String SnapshotEntry} {id : String} {older newer : List String}
    (h : m.keys = older ++ id :: newer) : (dropFrom m id).keys = older := by
  have hnot : id ∉ older := by
    have hn := m.keys_nodup
    rw [h] at hn
    intro hmem
    exact (List.nodup_append'.1 hn).2.2 hmem List.mem_cons_self
  rw [keys_dropFrom, h, List.takeWhile_append_of_pos]
  · simp
  · intro i hi
    rw [decide_eq_true_eq]
    rintro rfl
    exact hnot hi

/-- A revert to a live snapshot is all or nothing exactly when, in every store, none of the writes that bring it
back to the snapshot fails. -/
theorem revert_atomic_iff {db : IRevokingDB S} (hdb : db.Lawful) {n : TreNode (S × Faults String)} {id : String}
    {e : SnapshotEntry} (hlive : n.SNAPSHOTS.get? id = some e) :
    AllOrNothing (faulty db) id e n (revert (faulty db) (some id) n) ↔
      ∀ name, Clear (changes db (e.get name) (n.stores.get name).1) (n.stores.get name).2 := by
  obtain ⟨hok, herr⟩ := restoreNames_faulty hdb e storeNames (by decide) n.stores
  rw [← restoreStores_eq] at hok herr
  constructor
  · intro h
    by_contra hfault
    obtain ⟨name, hfault⟩ := not_forall.1 hfault
    obtain ⟨err, st, hst⟩ := herr ⟨name, mem_storeNames name, hfault⟩
    simp only [revert, hlive, hst] at h
    rcases h with ⟨h, -⟩ | ⟨-, -, h⟩
    · cases h
    · -- the id is forgotten
      have hmem := (h id).2 (OrderedMap.mem_keys_iff.2 ⟨e, hlive⟩)
      rw [keys_dropFrom] at hmem
      have hne := List.mem_takeWhile_imp hmem
      simp at hne
  · intro hclear
    obtain ⟨st, hst, hget, -⟩ := hok fun name _ => hclear name
    left
    have hrevert : revert (faulty db) (some id) n =
        (.ok true, { n with stores := st, SNAPSHOTS := dropFrom n.SNAPSHOTS id }) := by
      simp only [revert, hlive, hst]
    rw [hrevert]
    exact ⟨rfl, fun name k => hget name (mem_storeNames name) k, fun older newer => keys_dropFrom_of_split⟩

/-! ## An account written since the snapshot -/

def noRows : SnapshotEntry := ⟨.empty, .empty, .empty, .empty, .empty, .empty⟩

/-- One account since the snapshot, and a schedule for the writes to that store. -/
def accountSince (faults : Faults String) : TreNode (HashMap × Faults String) where
  stores := ⟨(OrderedMap.empty.put [1] [2], faults), (.empty, []), (.empty, []), (.empty, [])⟩
  SNAPSHOTS := OrderedMap.empty.put "0x1" noRows
  SNAPSHOT_COUNTER := 1

/-- The revert takes one write, and the second fails. -/
theorem laterFault_atomic :
    AllOrNothing (faulty memoryDB) "0x1" noRows (accountSince [none, some "disk full"])
      (revert (faulty memoryDB) (some "0x1") (accountSince [none, some "disk full"])) ↔
    ∀ name, Clear (changes memoryDB (noRows.get name) ((accountSince [none, some "disk full"]).stores.get name).1)
      ((accountSince [none, some "disk full"]).stores.get name).2 :=
  revert_atomic_iff memoryDB_lawful rfl

/-- The first write fails: an error, and the id is gone. -/
theorem failedWrite_forgets : ¬ ∀ (db : IRevokingDB HashMap) (n : TreNode (HashMap × Faults String)) (id : String)
    (e : SnapshotEntry), db.Lawful → n.SNAPSHOTS.get? id = some e →
    AllOrNothing (faulty db) id e n (revert (faulty db) (some id) n) := by
  intro h
  rcases h memoryDB (accountSince [some "disk full"]) "0x1" noRows memoryDB_lawful rfl with ⟨hdone, -⟩ | ⟨-, -, hids⟩
  · cases hdone
  · have hmem : "0x1" ∈ (accountSince [some "disk full"]).SNAPSHOTS.keys := List.mem_singleton.2 rfl
    exact List.not_mem_nil ((hids "0x1").2 hmem)

end HardhatTron

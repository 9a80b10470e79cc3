import HardhatTron.Lib.Journal
import HardhatTron.Node.RevertFaults
/-!
# What a restore writes

`restoreStore` took the place of a restore that deletes every key and puts every
binding of the snapshot. `restore_eq_naive`: it leaves the same content, and its
writes are one for each key that is bound differently.
-/
namespace HardhatTron

open Lib

variable {S : Type}

/-- The restore that `restoreStore` stands for: delete every key, then put every
binding of the snapshot. -/
def naiveRestore (db : IRevokingDB S) (snapshot : HashMap) : EStateM String S Unit := do
  let it ← db.iterator
  forM it fun e =>
    match e.1 with
    | some k => db.delete k
    | none => pure ()
  forM snapshot.entries fun e => db.put e.1 e.2

/-- A call that writes to the database. -/
inductive DbWrite where
  | put (k v : Bytes)
  | delete (k : Bytes)
  deriving DecidableEq

def DbWrite.key : DbWrite → Bytes
  | .put k _ => k
  | .delete k => k

/-- The database with a journal of the writes it is called for. -/
def journaled (db : IRevokingDB S) : IRevokingDB (S × List DbWrite) where
  get st := db.get st.1
  iterator := unrecorded db.iterator
  put k v := recorded (.put k v) (db.put k v)
  delete k := recorded (.delete k) (db.delete k)

/-- The write that brings a key back. -/
def restoringWrite (snapshot : HashMap) (k : Bytes) : DbWrite :=
  match snapshot.get? k with
  | some v => .put k v
  | none => .delete k

theorem restoringWrite_key (snapshot : HashMap) (k : Bytes) : (restoringWrite snapshot k).key = k := by
  unfold restoringWrite
  split <;> rfl

section
variable {db : IRevokingDB S}

theorem writeBack_journaled (db : IRevokingDB S) (snapshot : HashMap) :
    writeBack (journaled db) snapshot = fun k => recorded (restoringWrite snapshot k) (writeBack db snapshot k) := by
  funext k
  unfold writeBack restoringWrite
  cases snapshot.get? k with
  | some v => rfl
  | none => rfl

/-- The journal of a restore has the keys it restores. -/
theorem restoreStore_journaled (hdb : db.Lawful) {s : S} {l : List (Bytes × Bytes)}
    (hit : db.iterator s = .ok (l.map fun e => (some e.1, some e.2)) s) (snapshot : HashMap) :
    ∃ s', restoreStore db snapshot s = .ok () s' ∧
      restoreStore (journaled db) snapshot (s, []) =
        .ok () (s', (restoredKeys snapshot l).map (restoringWrite snapshot)) := by
  have hit' : (journaled db).iterator (s, []) = _ := unrecorded_ok hit []
  rw [restoreStore_eq hit, restoreStore_eq hit', writeBack_journaled]
  exact forM_recorded (writeBack_ok hdb snapshot) (restoringWrite snapshot) (restoredKeys snapshot l) s []

theorem forM_deleteKeys (db : IRevokingDB S) (l : List (Bytes × Bytes)) :
    (forM (l.map fun e => (some e.1, some e.2)) fun e : Option Bytes × Option Bytes =>
      match e.1 with
      | some k => db.delete k
      | none => pure ()) = forM (l.map Prod.fst) db.delete := by
  induction l with
  | nil => rfl
  | cons e l ih =>
    rw [List.map_cons, List.forM_cons, List.map_cons, List.forM_cons, ih]

/-- The naive restore leaves the bindings of the snapshot. -/
theorem naiveRestore_ok (hdb : db.Lawful) (snapshot : HashMap) (s : S) :
    ∃ s', naiveRestore db snapshot s = .ok () s' ∧ ∀ k, db.get s' k = snapshot.get? k := by
  obtain ⟨l, hit, -, hl⟩ := hdb.iterator_ok s
  obtain ⟨t, hdel, ht⟩ := forM_delete hdb (l.map Prod.fst) s
  obtain ⟨s', hput, hs'⟩ := forM_putMissing hdb [] snapshot.entries snapshot.nodup t
  -- nothing is left of the store
  have hempty : ∀ k, db.get t k = none := by
    intro k
    rw [ht]
    split
    · rfl
    · rename_i hk
      cases hget : db.get s k with
      | none => rfl
      | some v => exact absurd (List.mem_map.2 ⟨(k, v), (hl k v).2 hget, rfl⟩) hk
  simp only [List.not_mem_nil, if_false] at hput hs'
  refine ⟨s', ?_, ?_⟩
  · rw [naiveRestore, bind_ok hit, forM_deleteKeys, bind_ok hdel, hput]
  · intro k
    rw [hs', hempty, Option.or_none]
    rfl

/-- **A restore by differences.** It leaves what the naive restore leaves, and it
puts or deletes each key that is bound differently once, and no other key. -/
theorem restore_eq_naive (hdb : db.Lawful) (snapshot : HashMap) (s : S) :
    ∃ s' t writes, restoreStore db snapshot s = .ok () s' ∧ naiveRestore db snapshot s = .ok () t ∧
      (∀ k, db.get s' k = db.get t k) ∧
      restoreStore (journaled db) snapshot (s, []) = .ok () (s', writes) ∧ (writes.map DbWrite.key).Nodup ∧
      ∀ w, w ∈ writes ↔ db.get s w.key ≠ snapshot.get? w.key ∧ w = restoringWrite snapshot w.key := by
  obtain ⟨l, hit, hn, hl⟩ := hdb.iterator_ok s
  obtain ⟨s', hrestore, hjournal⟩ := restoreStore_journaled hdb hit snapshot
  obtain ⟨t, hnaive, ht⟩ := naiveRestore_ok hdb snapshot s
  have hs' : ∀ k, db.get s' k = snapshot.get? k := by
    obtain ⟨s'', hok, hget⟩ := restoreStore_ok hdb snapshot s
    obtain rfl : s' = s'' := by
      rw [hrestore] at hok
      injection hok
    exact hget
  refine ⟨s', t, _, hrestore, hnaive, fun k => (hs' k).trans (ht k).symm, hjournal, ?_, ?_⟩
  · have hkeys : DbWrite.key ∘ restoringWrite snapshot = id := by
      funext k
      exact restoringWrite_key snapshot k
    rw [List.map_map, hkeys, List.map_id]
    exact restoredKeys_nodup hn
  · intro w
    rw [List.mem_map]
    constructor
    · rintro ⟨k, hk, rfl⟩
      rw [restoringWrite_key]
      exact ⟨(mem_restoredKeys hl snapshot k).1 hk, rfl⟩
    · rintro ⟨hne, hw⟩
      exact ⟨w.key, (mem_restoredKeys hl snapshot w.key).2 hne, hw.symm⟩

end

/-- A store in which one binding was added, one changed and one left alone. -/
theorem restore_eq_naive_memory : ∃ s' writes, restoreStore memoryDB ((OrderedMap.empty.put [1] [10]).put [2] [20])
      (((OrderedMap.empty.put [1] [10]).put [2] [21]).put [3] [30]) = .ok () s' ∧
    restoreStore (journaled memoryDB) ((OrderedMap.empty.put [1] [10]).put [2] [20])
      (((OrderedMap.empty.put [1] [10]).put [2] [21]).put [3] [30], []) = .ok () (s', writes) ∧
    writes = [.put [2] [20], .delete [3]] := by
  obtain ⟨s', t, writes, h, -, -, hj, -⟩ := restore_eq_naive memoryDB_lawful
    ((OrderedMap.empty.put [1] [10]).put [2] [20]) (((OrderedMap.empty.put [1] [10]).put [2] [21]).put [3] [30])
  refine ⟨s', writes, h, hj, ?_⟩
  have hrun : restoreStore (journaled memoryDB) ((OrderedMap.empty.put [1] [10]).put [2] [20])
      (((OrderedMap.empty.put [1] [10]).put [2] [21]).put [3] [30], []) =
      .ok () (_, [.put [2] [20], .delete [3]]) := rfl
  rw [hrun] at hj
  injection hj with _ hst
  exact (Prod.mk.inj hst).2.symm

end HardhatTron

import HardhatTron.Lib.Checkpoints
import HardhatTron.Lib.Number
import HardhatTron.Lib.Runs
import HardhatTron.Node.Stores
/-!
# Snapshots of the node's stores

`tre_snapshot` dumps four stores under a fresh id, `tre_revert` restores them
and discards the id and every newer one, `tre_dropSnapshot` discards one id.
The live snapshots sit in a `LinkedHashMap`, so insertion order is age.
-/
namespace HardhatTron

open Lib Lib.Mark

variable {S : Type}

/-! ## The node -/

inductive StoreName where
  | accountStore
  | codeStore
  | contractStore
  | storageRowStore
  deriving DecidableEq

/-- The four stores a snapshot covers. -/
structure Stores (S : Type) where
  accountStore : S
  codeStore : S
  contractStore : S
  storageRowStore : S

def Stores.get (st : Stores S) : StoreName → S
  | .accountStore => st.accountStore
  | .codeStore => st.codeStore
  | .contractStore => st.contractStore
  | .storageRowStore => st.storageRowStore

def Stores.set (st : Stores S) (s : S) : StoreName → Stores S
  | .accountStore => { st with accountStore := s }
  | .codeStore => { st with codeStore := s }
  | .contractStore => { st with contractStore := s }
  | .storageRowStore => { st with storageRowStore := s }

/-- Run a step on one of the stores. -/
def onStore {α : Type} (name : StoreName) (m : EStateM String S α) : EStateM String (Stores S) α := fun st =>
  match m (st.get name) with
  | .ok a s => .ok a (st.set s name)
  | .error e s => .error e (st.set s name)

structure SnapshotEntry where
  accounts : HashMap
  codes : HashMap
  contracts : HashMap
  storageRows : HashMap
  transactions : HashMap
  recentTransactions : HashMap

/-- The dump of a store. -/
def SnapshotEntry.get (e : SnapshotEntry) : StoreName → HashMap
  | .accountStore => e.accounts
  | .codeStore => e.codes
  | .contractStore => e.contracts
  | .storageRowStore => e.storageRows

inductive RpcException where
  | invalidParams (message : String)
  | internal (message : String)
  deriving DecidableEq

/-- The node's stores and the static snapshot state of `TreJsonRpcImpl`.
`SNAPSHOT_COUNTER` counts the calls of `incrementAndGet`: the `AtomicLong`
holds it modulo `2 ^ 64`. -/
structure TreNode (S : Type) where
  stores : Stores S
  SNAPSHOTS : OrderedMap String SnapshotEntry
  SNAPSHOT_COUNTER : Nat

/-- `"0x" + Long.toHexString(counter)`, which prints the word as unsigned. -/
def snapshotId (counter : Nat) : String := String.ofList ('0' :: 'x' :: toHexString (counter % 2 ^ 64))

/-- The dumps `snapshot` takes under the `dbManager` lock. -/
def dumpStores (db : IRevokingDB S) : EStateM String (Stores S) SnapshotEntry := do
  let accounts ← onStore .accountStore (dumpStore db)
  let codes ← onStore .codeStore (dumpStore db)
  let contracts ← onStore .contractStore (dumpStore db)
  let storageRows ← onStore .storageRowStore (dumpStore db)
  return { accounts, codes, contracts, storageRows, transactions := .empty, recentTransactions := .empty }

def snapshot (db : IRevokingDB S) (n : TreNode S) : Except RpcException String × TreNode S :=
  match dumpStores db n.stores with
  | .error e st => (.error (.internal ("snapshot failed: " ++ e)), { n with stores := st })
  | .ok entry st =>
    let counter := n.SNAPSHOT_COUNTER + 1
    let id := snapshotId counter
    (.ok id, { stores := st, SNAPSHOTS := n.SNAPSHOTS.put id entry, SNAPSHOT_COUNTER := counter })

/-- `revert`'s walk in insertion order: remove `snapshotId` and everything after it. -/
def dropTail (snapshotId : String) : Bool → List (String × SnapshotEntry) → List (String × SnapshotEntry)
  | _, [] => []
  | inTail, e :: it =>
    let inTail := inTail || e.1 == snapshotId
    if inTail then dropTail snapshotId inTail it else e :: dropTail snapshotId inTail it

theorem dropTail_true (id : String) (l : List (String × SnapshotEntry)) : dropTail id true l = [] := by
  induction l with
  | nil => rfl
  | cons e l ih => simpa [dropTail] using ih

theorem dropTail_eq (id : String) (l : List (String × SnapshotEntry)) :
    dropTail id false l = l.takeWhile (·.1 ≠ id) := by
  induction l with
  | nil => rfl
  | cons e l ih =>
    by_cases h : e.1 = id
    · simp [dropTail, h, dropTail_true]
    · have hb : (e.1 == id) = false := by simpa using h
      simpa [dropTail, h, hb] using ih

/-- The snapshots `revert` leaves. -/
def dropFrom (m : OrderedMap String SnapshotEntry) (id : String) : OrderedMap String SnapshotEntry :=
  ⟨dropTail id false m.entries, by
    rw [dropTail_eq]; exact m.nodup.sublist ((List.takeWhile_sublist _).map _)⟩

/-- The restores `revert` makes under the `dbManager` lock. -/
def restoreStores (db : IRevokingDB S) (targetEntry : SnapshotEntry) : EStateM String (Stores S) Unit := do
  onStore .accountStore (restoreStore db targetEntry.accounts)
  onStore .codeStore (restoreStore db targetEntry.codes)
  onStore .contractStore (restoreStore db targetEntry.contracts)
  onStore .storageRowStore (restoreStore db targetEntry.storageRows)

def revert (db : IRevokingDB S) (snapshotId : Option String) (n : TreNode S) :
    Except RpcException Bool × TreNode S :=
  match snapshotId with
  | none => (.error (.invalidParams "unknown snapshot id: null"), n)
  | some id =>
    match n.SNAPSHOTS.get? id with
    | none => (.error (.invalidParams ("unknown snapshot id: " ++ id)), n)
    | some targetEntry =>
      let n := { n with SNAPSHOTS := dropFrom n.SNAPSHOTS id }
      match restoreStores db targetEntry n.stores with
      | .ok () st => (.ok true, { n with stores := st })
      | .error e st => (.error (.internal ("revert failed: " ++ e)), { n with stores := st })

def dropSnapshot (snapshotId : Option String) (n : TreNode S) : Except RpcException Bool × TreNode S :=
  match snapshotId with
  | none => (.error (.invalidParams "snapshotId is required"), n)
  | some id => (.ok (n.SNAPSHOTS.contains id), { n with SNAPSHOTS := n.SNAPSHOTS.remove id })

/-! ## Calls -/

/-- What a client or the chain asks of the stores. -/
inductive NodeCall where
  | tre_snapshot
  | tre_revert (snapshotId : Option String)
  | tre_dropSnapshot (snapshotId : Option String)
  | put (name : StoreName) (k v : Bytes)
  | delete (name : StoreName) (k : Bytes)

inductive NodeReply where
  | id (s : String)
  | bool (b : Bool)
  | done
  | error (e : RpcException)
  deriving DecidableEq

def reply {α : Type} (f : α → NodeReply) : Except RpcException α × TreNode S → NodeReply × TreNode S
  | (.ok a, n) => (f a, n)
  | (.error e, n) => (.error e, n)

/-- A write to a store, from a transaction or a cheatcode. -/
def writeStore (n : TreNode S) (name : StoreName) (m : EStateM String S Unit) : NodeReply × TreNode S :=
  match onStore name m n.stores with
  | .ok () st => (.done, { n with stores := st })
  | .error e st => (.error (.internal e), { n with stores := st })

def exec (db : IRevokingDB S) (n : TreNode S) : NodeCall → NodeReply × TreNode S
  | .tre_snapshot => reply .id (snapshot db n)
  | .tre_revert id => reply .bool (revert db id n)
  | .tre_dropSnapshot id => reply .bool (dropSnapshot id n)
  | .put name k v => writeStore n name (db.put k v)
  | .delete name k => writeStore n name (db.delete k)

/-- A node that has just started on the stores `st`. -/
def startNode (st : Stores S) : TreNode S := ⟨st, .empty, 0⟩

/-- The runs of the node, one call at a time. -/
def NodeRun (db : IRevokingDB S) (st : Stores S) : List (NodeCall × NodeReply) → TreNode S → Prop :=
  Run (fun n c => some (exec db n c)) (fun _ _ => True) (startNode st)

/-- What one call did to the snapshots. -/
def mark : NodeCall × NodeReply → Mark String
  | (.tre_snapshot, .id i) => .taken i
  | (.tre_revert (some i), .bool true) => .restored i
  | (.tre_dropSnapshot (some i), _) => .dropped i
  | _ => .other

/-- The ids handed out in a history, oldest first. -/
def idsTaken (h : List (NodeCall × NodeReply)) : List String := takenIds (h.map mark)

/-! ## The stores -/

@[simp] theorem Stores.get_set (st : Stores S) (s : S) (name name' : StoreName) :
    (st.set s name).get name' = if name' = name then s else st.get name' := by
  cases name <;> cases name' <;> rfl

@[simp] theorem Stores.set_get (st : Stores S) (name : StoreName) : st.set (st.get name) name = st := by
  cases name <;> rfl

theorem onStore_ok {α : Type} {name : StoreName} {m : EStateM String S α} {st : Stores S} {a : α} {s : S}
    (h : m (st.get name) = .ok a s) : onStore name m st = .ok a (st.set s name) := by
  rw [onStore, h]

/-- Four dumps hold exactly the bindings of the four stores. -/
theorem dumpStores_ok {db : IRevokingDB S} (hdb : db.Lawful) (st : Stores S) :
    ∃ e, dumpStores db st = .ok e st ∧ ∀ name k, (e.get name).get? k = db.get (st.get name) k := by
  have hdump : ∀ name, ∃ d, onStore name (dumpStore db) st = .ok d st ∧ ∀ k, d.get? k = db.get (st.get name) k := by
    intro name
    obtain ⟨d, hd, hg⟩ := dumpStore_ok hdb (st.get name)
    exact ⟨d, by rw [onStore_ok hd, Stores.set_get], hg⟩
  obtain ⟨a, ha, hga⟩ := hdump .accountStore
  obtain ⟨c, hc, hgc⟩ := hdump .codeStore
  obtain ⟨t, ht, hgt⟩ := hdump .contractStore
  obtain ⟨r, hr, hgr⟩ := hdump .storageRowStore
  refine ⟨⟨a, c, t, r, .empty, .empty⟩, ?_, fun name => ?_⟩
  · rw [dumpStores, bind_ok ha, bind_ok hc, bind_ok ht, bind_ok hr]; rfl
  · cases name
    · exact hga
    · exact hgc
    · exact hgt
    · exact hgr

/-- Restoring a store leaves it the dump's bindings, and the other stores as they were. -/
theorem onStore_restore {db : IRevokingDB S} (hdb : db.Lawful) (name : StoreName) (d : HashMap) (st : Stores S) :
    ∃ st', onStore name (restoreStore db d) st = .ok () st' ∧ (∀ k, db.get (st'.get name) k = d.get? k) ∧
      ∀ name', name' ≠ name → st'.get name' = st.get name' := by
  obtain ⟨s', hs, hg⟩ := restoreStore_ok hdb d (st.get name)
  exact ⟨_, onStore_ok hs, by simpa using hg, fun name' h => by simp [h]⟩

theorem restoreStores_ok {db : IRevokingDB S} (hdb : db.Lawful) (e : SnapshotEntry) (st : Stores S) :
    ∃ st', restoreStores db e st = .ok () st' ∧ ∀ name k, db.get (st'.get name) k = (e.get name).get? k := by
  obtain ⟨st₁, h₁, hg₁, -⟩ := onStore_restore hdb .accountStore e.accounts st
  obtain ⟨st₂, h₂, hg₂, hk₂⟩ := onStore_restore hdb .codeStore e.codes st₁
  obtain ⟨st₃, h₃, hg₃, hk₃⟩ := onStore_restore hdb .contractStore e.contracts st₂
  obtain ⟨st₄, h₄, hg₄, hk₄⟩ := onStore_restore hdb .storageRowStore e.storageRows st₃
  refine ⟨st₄, by rw [restoreStores, bind_ok h₁, bind_ok h₂, bind_ok h₃, h₄], fun name k => ?_⟩
  cases name
  · rw [hk₄ _ (by simp), hk₃ _ (by simp), hk₂ _ (by simp)]; exact hg₁ k
  · rw [hk₄ _ (by simp), hk₃ _ (by simp)]; exact hg₂ k
  · rw [hk₄ _ (by simp)]; exact hg₃ k
  · exact hg₄ k

/-! ## What a call does -/

theorem exec_snapshot {db : IRevokingDB S} (hdb : db.Lawful) (n : TreNode S) :
    ∃ e, exec db n .tre_snapshot = (.id (snapshotId (n.SNAPSHOT_COUNTER + 1)),
        ⟨n.stores, n.SNAPSHOTS.put (snapshotId (n.SNAPSHOT_COUNTER + 1)) e, n.SNAPSHOT_COUNTER + 1⟩) ∧
      ∀ name k, (e.get name).get? k = db.get (n.stores.get name) k := by
  obtain ⟨e, he, hg⟩ := dumpStores_ok hdb n.stores
  exact ⟨e, by simp only [exec, snapshot, he, reply], hg⟩

theorem exec_revert_unknown {db : IRevokingDB S} {n : TreNode S} {id : String} (h : id ∉ n.SNAPSHOTS.keys) :
    exec db n (.tre_revert (some id)) = (.error (.invalidParams ("unknown snapshot id: " ++ id)), n) := by
  simp only [exec, revert, OrderedMap.get?_eq_none_iff.2 h, reply]

theorem exec_revert_live {db : IRevokingDB S} (hdb : db.Lawful) {n : TreNode S} {id : String} {e : SnapshotEntry}
    (h : n.SNAPSHOTS.get? id = some e) :
    ∃ st, exec db n (.tre_revert (some id)) = (.bool true, ⟨st, dropFrom n.SNAPSHOTS id, n.SNAPSHOT_COUNTER⟩) ∧
      ∀ name k, db.get (st.get name) k = (e.get name).get? k := by
  obtain ⟨st, hst, hg⟩ := restoreStores_ok hdb e n.stores
  exact ⟨st, by simp only [exec, revert, h, hst, reply], hg⟩

theorem keys_dropFrom (m : OrderedMap String SnapshotEntry) (id : String) :
    (dropFrom m id).keys = m.keys.takeWhile (· ≠ id) := by
  simp only [OrderedMap.keys, dropFrom, dropTail_eq, List.takeWhile_map]
  rfl

theorem get?_dropFrom {m : OrderedMap String SnapshotEntry} {id i : String} {e : SnapshotEntry}
    (h : (dropFrom m id).get? i = some e) : m.get? i = some e := by
  rw [OrderedMap.get?_eq_some_iff] at h ⊢
  simp only [dropFrom, dropTail_eq] at h
  exact (List.takeWhile_sublist _).subset h

@[simp] theorem writeStore_SNAPSHOTS (n : TreNode S) (name : StoreName) (m : EStateM String S Unit) :
    (writeStore n name m).2.SNAPSHOTS = n.SNAPSHOTS := by
  unfold writeStore; split <;> rfl

@[simp] theorem writeStore_SNAPSHOT_COUNTER (n : TreNode S) (name : StoreName) (m : EStateM String S Unit) :
    (writeStore n name m).2.SNAPSHOT_COUNTER = n.SNAPSHOT_COUNTER := by
  unfold writeStore; split <;> rfl

@[simp] theorem mark_put (name : StoreName) (k v : Bytes) (r : NodeReply) : mark (.put name k v, r) = .other := rfl

@[simp] theorem mark_delete (name : StoreName) (k : Bytes) (r : NodeReply) : mark (.delete name k, r) = .other := rfl

/-! ## Ids -/

theorem snapshotId_inj {a b : Nat} (h : snapshotId a = snapshotId b) : a % 2 ^ 64 = b % 2 ^ 64 := by
  have := String.ofList_injective h
  simp only [List.cons.injEq, true_and] at this
  exact toHexString_injective this

/-- The first `2 ^ 64` ids are distinct. -/
theorem ids_nodup {c : Nat} (hc : c ≤ 2 ^ 64) : ((List.range c).map fun k => snapshotId (k + 1)).Nodup := by
  refine List.Nodup.map_on (fun a ha b hb h => ?_) List.nodup_range
  have := snapshotId_inj h
  simp only [List.mem_range] at ha hb
  omega

end HardhatTron

import HardhatTron.Node.Cheatcodes
import HardhatTron.Node.SnapshotRuns
/-!
# The node by what its stores hold

`NodeView` keeps the bindings of the stores and of the snapshots, and leaves out
how a store dumps, restores and writes them. `nodeRun_iff_view` shows that over
any run a `TreNode` on a lawful database answers as its view does and holds what
it holds: what is proved with views is true of nodes.
-/
namespace HardhatTron

open Lib

/-- The node's stores as serialized capsules. -/
abbrev StoreContents := ChainState Bytes Bytes

structure NodeView where
  stores : StoreContents
  SNAPSHOTS : OrderedMap String (StoreDump Bytes Bytes)
  SNAPSHOT_COUNTER : Nat

def StoreDump.get (e : StoreDump Bytes Bytes) : StoreName → Bytes → Option Bytes
  | .accountStore => e.accounts
  | .codeStore => e.codes
  | .contractStore => e.contracts
  | .storageRowStore => e.storageRows

/-- What a restore leaves: the dump's bindings, other stores as they were. -/
def restored (entry : StoreDump Bytes Bytes) (stores : StoreContents) : StoreContents
  | .account address => entry.accounts address
  | .code address => entry.codes address
  | .contract address => entry.contracts address
  | .storageRow key => entry.storageRows key
  | .dynamicProperty name => stores (.dynamicProperty name)

/-- Bind a key of one of the four stores, or unbind it. -/
def bound (stores : StoreContents) (name : StoreName) (k : Bytes) (v : Option Bytes) : StoreContents
  | .account address => if name = .accountStore ∧ address = k then v else stores (.account address)
  | .code address => if name = .codeStore ∧ address = k then v else stores (.code address)
  | .contract address => if name = .contractStore ∧ address = k then v else stores (.contract address)
  | .storageRow key => if name = .storageRowStore ∧ key = k then v else stores (.storageRow key)
  | .dynamicProperty property => stores (.dynamicProperty property)

/-- The snapshots older than `id`. -/
def olderThan (m : OrderedMap String (StoreDump Bytes Bytes)) (id : String) :
    OrderedMap String (StoreDump Bytes Bytes) :=
  ⟨m.entries.takeWhile (·.1 ≠ id), m.nodup.sublist ((List.takeWhile_sublist _).map _)⟩

def NodeView.exec (t : NodeView) : NodeCall → NodeReply × NodeView
  | .tre_snapshot =>
    let id := snapshotId (t.SNAPSHOT_COUNTER + 1)
    (.id id, ⟨t.stores, t.SNAPSHOTS.put id (dumpOf t.stores), t.SNAPSHOT_COUNTER + 1⟩)
  | .tre_revert none => (.error (.invalidParams "unknown snapshot id: null"), t)
  | .tre_revert (some id) =>
    match t.SNAPSHOTS.get? id with
    | none => (.error (.invalidParams ("unknown snapshot id: " ++ id)), t)
    | some entry => (.bool true, ⟨restored entry t.stores, olderThan t.SNAPSHOTS id, t.SNAPSHOT_COUNTER⟩)
  | .tre_dropSnapshot none => (.error (.invalidParams "snapshotId is required"), t)
  | .tre_dropSnapshot (some id) =>
    (.bool (t.SNAPSHOTS.contains id), { t with SNAPSHOTS := t.SNAPSHOTS.remove id })
  | .put name k v => (.done, { t with stores := bound t.stores name k (some v) })
  | .delete name k => (.done, { t with stores := bound t.stores name k none })

theorem NodeView.exec_revert_stores {t : NodeView} {id : String} {entry : StoreDump Bytes Bytes}
    (h : t.SNAPSHOTS.get? id = some entry) : (t.exec (.tre_revert (some id))).2.stores = restored entry t.stores := by
  simp only [exec, h]

/-! ## The view of a node -/

variable {S : Type}

/-- `t` has the bindings of `n`. -/
structure Views (db : IRevokingDB S) (n : TreNode S) (t : NodeView) : Prop where
  stores : ∀ name k, (dumpOf t.stores).get name k = db.get (n.stores.get name) k
  keys : t.SNAPSHOTS.keys = n.SNAPSHOTS.keys
  entries : ∀ id e e', n.SNAPSHOTS.get? id = some e → t.SNAPSHOTS.get? id = some e' →
    ∀ name k, e'.get name k = (e.get name).get? k
  counter : t.SNAPSHOT_COUNTER = n.SNAPSHOT_COUNTER

theorem get_dumpOf_bound (stores : StoreContents) (k k' : Bytes) (v : Option Bytes) (name name' : StoreName) :
    (dumpOf (bound stores name k v)).get name' k' =
      if name' = name ∧ k' = k then v else (dumpOf stores).get name' k' := by
  cases name <;> cases name' <;> simp [dumpOf, bound, StoreDump.get] <;> rfl

theorem get_dumpOf_restored (entry : StoreDump Bytes Bytes) (stores : StoreContents) (name : StoreName) (k : Bytes) :
    (dumpOf (restored entry stores)).get name k = entry.get name k := by
  cases name <;> rfl

theorem keys_olderThan (m : OrderedMap String (StoreDump Bytes Bytes)) (id : String) :
    (olderThan m id).keys = m.keys.takeWhile (· ≠ id) := by
  simp only [OrderedMap.keys, olderThan, List.takeWhile_map]
  rfl

theorem get?_olderThan {m : OrderedMap String (StoreDump Bytes Bytes)} {id i : String} {e : StoreDump Bytes Bytes}
    (h : (olderThan m id).get? i = some e) : m.get? i = some e := by
  rw [OrderedMap.get?_eq_some_iff] at h ⊢
  exact (List.takeWhile_sublist _).subset h

section

variable {db : IRevokingDB S} {n : TreNode S} {t : NodeView}

/-- A write to a store is a binding of the view. -/
theorem Views.write (hv : Views db n t) {name : StoreName} {k : Bytes} {v : Option Bytes} {m : EStateM String S Unit}
    {s' : S} (hm : m (n.stores.get name) = .ok () s')
    (hget : ∀ k', db.get s' k' = if k' = k then v else db.get (n.stores.get name) k') :
    (writeStore n name m).1 = .done ∧
      Views db (writeStore n name m).2 { t with stores := bound t.stores name k v } := by
  have hwrite : writeStore n name m = (.done, { n with stores := n.stores.set s' name }) := by
    simp only [writeStore, onStore_ok hm]
  rw [hwrite]
  refine ⟨rfl, ?_, hv.keys, hv.entries, hv.counter⟩
  intro name' k'
  rw [get_dumpOf_bound, Stores.get_set]
  by_cases hname : name' = name
  · subst hname
    simp only [true_and, if_true, hget]
    rw [hv.stores]
  · simp only [hname, false_and, if_false]
    exact hv.stores name' k'

theorem Views.snapshot (hdb : db.Lawful) (hv : Views db n t) :
    (exec db n .tre_snapshot).1 = (t.exec .tre_snapshot).1 ∧
      Views db (exec db n .tre_snapshot).2 (t.exec .tre_snapshot).2 := by
  obtain ⟨e, he, hg⟩ := exec_snapshot hdb n
  rw [he]
  simp only [NodeView.exec, hv.counter, true_and]
  refine ⟨hv.stores, ?_, ?_, rfl⟩
  · by_cases hid : snapshotId (n.SNAPSHOT_COUNTER + 1) ∈ n.SNAPSHOTS.keys
    · rw [OrderedMap.keys_put_of_mem hid, OrderedMap.keys_put_of_mem (by rwa [hv.keys]), hv.keys]
    · rw [OrderedMap.keys_put_of_not_mem hid, OrderedMap.keys_put_of_not_mem (by rwa [hv.keys]), hv.keys]
  · intro id e₁ e₂ h₁ h₂
    rw [OrderedMap.get?_put] at h₁ h₂
    by_cases hid : id = snapshotId (n.SNAPSHOT_COUNTER + 1)
    · rw [if_pos hid] at h₁ h₂
      obtain rfl := Option.some.inj h₁
      obtain rfl := Option.some.inj h₂
      intro name k
      rw [hv.stores, hg]
    · rw [if_neg hid] at h₁ h₂
      exact hv.entries id e₁ e₂ h₁ h₂

theorem Views.revert (hdb : db.Lawful) (hv : Views db n t) (id : String) :
    (exec db n (.tre_revert (some id))).1 = (t.exec (.tre_revert (some id))).1 ∧
      Views db (exec db n (.tre_revert (some id))).2 (t.exec (.tre_revert (some id))).2 := by
  by_cases hid : id ∈ n.SNAPSHOTS.keys
  · obtain ⟨e, he⟩ := OrderedMap.mem_keys_iff.1 hid
    obtain ⟨e', he'⟩ := OrderedMap.mem_keys_iff.1 (show id ∈ t.SNAPSHOTS.keys by rwa [hv.keys])
    obtain ⟨st, hst, hg⟩ := exec_revert_live hdb he
    rw [hst]
    simp only [NodeView.exec, he', true_and]
    refine ⟨?_, ?_, ?_, hv.counter⟩
    · intro name k
      rw [get_dumpOf_restored, hg]
      exact hv.entries id e e' he he' name k
    · rw [keys_olderThan, keys_dropFrom, hv.keys]
    · intro i e₁ e₂ h₁ h₂
      exact hv.entries i e₁ e₂ (get?_dropFrom h₁) (get?_olderThan h₂)
  · rw [exec_revert_unknown hid]
    have hnone : t.SNAPSHOTS.get? id = none := OrderedMap.get?_eq_none_iff.2 (by rwa [hv.keys])
    simp only [NodeView.exec, hnone, true_and]
    exact hv

/-- One call: the node answers as its view does, and stays in it. -/
theorem exec_view (hdb : db.Lawful) (hv : Views db n t) (c : NodeCall) :
    (exec db n c).1 = (t.exec c).1 ∧ Views db (exec db n c).2 (t.exec c).2 := by
  cases c with
  | tre_snapshot => exact hv.snapshot hdb
  | tre_revert id =>
    cases id with
    | none => exact ⟨rfl, hv⟩
    | some id => exact hv.revert hdb id
  | tre_dropSnapshot id =>
    cases id with
    | none => exact ⟨rfl, hv⟩
    | some id =>
      refine ⟨?_, hv.stores, ?_, ?_, hv.counter⟩
      · have hcontains : n.SNAPSHOTS.contains id = t.SNAPSHOTS.contains id := by
          rw [Bool.eq_iff_iff, OrderedMap.contains_iff, OrderedMap.contains_iff, hv.keys]
        simp [exec, dropSnapshot, reply, NodeView.exec, hcontains]
      · show (t.SNAPSHOTS.remove id).keys = (n.SNAPSHOTS.remove id).keys
        rw [OrderedMap.keys_remove, OrderedMap.keys_remove, hv.keys]
      · intro i e₁ e₂ h₁ h₂
        replace h₁ : (n.SNAPSHOTS.remove id).get? i = some e₁ := h₁
        replace h₂ : (t.SNAPSHOTS.remove id).get? i = some e₂ := h₂
        rw [OrderedMap.get?_remove] at h₁ h₂
        by_cases hi : i = id
        · simp [hi] at h₁
        · rw [if_neg hi] at h₁ h₂
          exact hv.entries i e₁ e₂ h₁ h₂
  | put name k v =>
    obtain ⟨s', hput, hget⟩ := hdb.put_ok k v (n.stores.get name)
    exact hv.write hput hget
  | delete name k =>
    obtain ⟨s', hdelete, hget⟩ := hdb.delete_ok k (n.stores.get name)
    exact hv.write hdelete hget

/-! ## Runs -/

def startView (stores : StoreContents) : NodeView := ⟨stores, .empty, 0⟩

/-- The runs of a view, one call at a time. -/
def ViewRun (stores : StoreContents) : List (NodeCall × NodeReply) → NodeView → Prop :=
  Run (fun t c => some (t.exec c)) (fun _ _ => True) (startView stores)

variable {st : Stores S} {stores : StoreContents} {h : List (NodeCall × NodeReply)}

theorem views_start (hst : ∀ name k, (dumpOf stores).get name k = db.get (st.get name) k) :
    Views db (startNode st) (startView stores) where
  stores := hst
  keys := rfl
  entries := by
    intro id e e' he
    cases he
  counter := rfl

/-- The view follows the node. -/
theorem viewRun_of_nodeRun (hdb : db.Lawful) (hst : ∀ name k, (dumpOf stores).get name k = db.get (st.get name) k)
    (hr : NodeRun db st h n) : ∃ t, ViewRun stores h t ∧ Views db n t := by
  refine Run.inv (fun h n => ∃ t, ViewRun stores h t ∧ Views db n t) ⟨_, .nil, views_start hst⟩ ?_ hr
  rintro h n c r n' - ⟨t, ht, hv⟩ - hstep
  obtain ⟨rfl, rfl⟩ : (exec db n c).1 = r ∧ (exec db n c).2 = n' := Prod.ext_iff.1 (Option.some.inj hstep)
  obtain ⟨hreply, hv'⟩ := exec_view hdb hv c
  rw [hreply]
  exact ⟨_, ht.snoc c trivial rfl, hv'⟩

/-- The node follows the view. -/
theorem nodeRun_of_viewRun (hdb : db.Lawful) (hst : ∀ name k, (dumpOf stores).get name k = db.get (st.get name) k)
    (hr : ViewRun stores h t) : ∃ n, NodeRun db st h n ∧ Views db n t := by
  refine Run.inv (fun h t => ∃ n, NodeRun db st h n ∧ Views db n t) ⟨_, .nil, views_start hst⟩ ?_ hr
  rintro h t c r t' - ⟨n, hn, hv⟩ - hstep
  obtain ⟨rfl, rfl⟩ : (t.exec c).1 = r ∧ (t.exec c).2 = t' := Prod.ext_iff.1 (Option.some.inj hstep)
  obtain ⟨hreply, hv'⟩ := exec_view hdb hv c
  rw [← hreply]
  exact ⟨_, hn.snoc c trivial rfl, hv'⟩

/-- **A node on a lawful database is what its stores hold.** From the same bindings, node and
view have the same histories, and after each the same bindings and the same snapshots. -/
theorem nodeRun_iff_view (hdb : db.Lawful) (hst : ∀ name k, (dumpOf stores).get name k = db.get (st.get name) k) :
    ((∃ n, NodeRun db st h n) ↔ ∃ t, ViewRun stores h t) ∧
      ∀ n t, NodeRun db st h n → ViewRun stores h t → Views db n t := by
  refine ⟨⟨?_, ?_⟩, ?_⟩
  · rintro ⟨n, hr⟩
    obtain ⟨t, ht, -⟩ := viewRun_of_nodeRun hdb hst hr
    exact ⟨t, ht⟩
  · rintro ⟨t, hr⟩
    obtain ⟨n, hn, -⟩ := nodeRun_of_viewRun hdb hst hr
    exact ⟨n, hn⟩
  · intro n t hn ht
    obtain ⟨t', ht', hv⟩ := viewRun_of_nodeRun hdb hst hn
    exact Run.unique ht' ht ▸ hv

end

/-! ### A write taken back -/

def emptyContents : StoreContents
  | .account _ => none
  | .code _ => none
  | .contract _ => none
  | .storageRow _ => none
  | .dynamicProperty _ => none

theorem emptyContents_eq (name : StoreName) (k : Bytes) :
    (dumpOf emptyContents).get name k = memoryDB.get (emptyStores.get name) k := by
  cases name <;> rfl

def putBack : List (NodeCall × NodeReply) :=
  [(.put .accountStore [1] [2], .done), (.tre_snapshot, .id "0x1"), (.delete .accountStore [1], .done),
    (.tre_revert (some "0x1"), .bool true)]

theorem putBack_viewed : ∃ n t, NodeRun memoryDB emptyStores putBack n ∧ ViewRun emptyContents putBack t ∧
    Views memoryDB n t := by
  obtain ⟨hiff, hviews⟩ := @nodeRun_iff_view _ _ _ _ putBack memoryDB_lawful emptyContents_eq
  obtain ⟨t, hplay⟩ : ∃ t, play (fun t c => some (NodeView.exec t c)) (fun _ _ => True) (startView emptyContents)
    (putBack.map Prod.fst) = some (putBack, t) := ⟨_, rfl⟩
  have ht : ViewRun emptyContents putBack t := Run.of_play hplay
  obtain ⟨n, hn⟩ := hiff.2 ⟨t, ht⟩
  exact ⟨n, t, hn, ht, hviews n t hn ht⟩

end HardhatTron

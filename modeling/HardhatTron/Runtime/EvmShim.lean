import HardhatTron.Runtime.FixtureData
/-!
# `evm_snapshot` and `evm_revert` beside fixtures

`patchHardhatProvider` sends a test's own `evm_snapshot` and `evm_revert` to the
node that `loadFixture` keeps its snapshots on, and `loadFixture` does not hear
of them. `restored_recorded` says that this costs no correctness, whatever RPCs
fail: a fixture that is given back comes with the stores its last run left.
`SafeInv` is the invariant. `Later` is what a step does to the snapshots of a
node: it may forget some and add others, but an id is never taken twice.
-/
namespace HardhatTron

open Lib

variable {S F D : Type} {db : IRevokingDB S} {name : F → String} {st : Stores S}

namespace EvmShim

/-! ## The provider -/

/-- What `provider.send` of a shimmed method comes to. -/
inductive EvmAnswer where
  | result (r : NodeReply)
  | fetch (e : FetchError)
  /-- `${method}: ${JSON.stringify(r.error)}` -/
  | failed (method : String) (e : RpcException)

def evmCall (db : IRevokingDB S) (method : String) (c : NodeCall) (a : Attempts) (n : TreNode S) :
    EvmAnswer × TreNode S :=
  match rpcCall (fun n => exec db n c) a n with
  | (.error e, n) => (.fetch e, n)
  | (.ok (.error e), n) => (.failed method e, n)
  | (.ok r, n) => (.result r, n)

def evm_snapshot (db : IRevokingDB S) (a : Attempts) (n : TreNode S) : EvmAnswer × TreNode S :=
  evmCall db "tre_snapshot" .tre_snapshot a n

def evm_revert (db : IRevokingDB S) (id : Option String) (a : Attempts) (n : TreNode S) : EvmAnswer × TreNode S :=
  evmCall db "tre_revert" (.tre_revert id) a n

/-! ## The process -/

inductive ShimEvent (F D : Type) where
  | fixture (ev : FixtureEvent F D)
  | evm_snapshot (a : Attempts)
  | evm_revert (id : Option String) (a : Attempts)

inductive ShimOutcome (F D : Type) where
  | fixture (out : Outcome F D)
  | answer (r : EvmAnswer)

abbrev ShimHistory (F D : Type) := List (ShimEvent F D × ShimOutcome F D)

section
variable [DecidableEq F]

def shimStep (db : IRevokingDB S) (name : F → String) (b : Process S F D) :
    ShimEvent F D → Option (ShimOutcome F D × Process S F D)
  | .fixture ev => (fixtureStep db name b ev).map fun x => (.fixture x.1, x.2)
  | .evm_snapshot a =>
    let (r, node) := EvmShim.evm_snapshot db a b.node
    some (.answer r, { b with node })
  | .evm_revert id a =>
    let (r, node) := EvmShim.evm_revert db id a b.node
    some (.answer r, { b with node })

def ShimRun (db : IRevokingDB S) (name : F → String) (st : Stores S) (ok : Process S F D → ShimEvent F D → Prop) :
    ShimHistory F D → Process S F D → Prop :=
  Run (shimStep db name) ok (startProcess st)

/-- A fixture's body does not lead back to the fixture. -/
def Fresh (b : Process S F D) : ShimEvent F D → Prop
  | .fixture (.loadFixture fn _) => fn ∉ b.running.map (·.fixture)
  | _ => True

instance : ∀ (b : Process S F D) (ev : ShimEvent F D), Decidable (Fresh b ev)
  | b, .fixture (.loadFixture fn _) => inferInstanceAs (Decidable (fn ∉ b.running.map (·.fixture)))
  | _, .fixture (.fnReturns ..) => isTrue trivial
  | _, .fixture (.fnThrows _) => isTrue trivial
  | _, .fixture (.put ..) => isTrue trivial
  | _, .fixture (.delete ..) => isTrue trivial
  | _, .fixture (.dropArrives _) => isTrue trivial
  | _, .evm_snapshot _ => isTrue trivial
  | _, .evm_revert .. => isTrue trivial

/-- The last run of `fn` recorded in `h` resolved with `data` in the state `m`. -/
def LastRun (db : IRevokingDB S) (name : F → String) (st : Stores S) (h : ShimHistory F D) (fn : F) (data : D)
    (m : Process S F D) : Prop :=
  ∃ pre a post, h = pre ++ (.fixture (.fnReturns data a), .fixture (.recorded fn data)) :: post ∧
    (∀ x ∈ post, ∀ d, x.2 ≠ .fixture (.recorded fn d)) ∧ ShimRun db name st Fresh pre m

theorem LastRun.snoc {h : ShimHistory F D} {fn : F} {data : D} {m : Process S F D}
    (hl : LastRun db name st h fn data m) {ev : ShimEvent F D} {out : ShimOutcome F D}
    (hout : ∀ d, out ≠ .fixture (.recorded fn d)) : LastRun db name st (h ++ [(ev, out)]) fn data m := by
  obtain ⟨pre, a, post, rfl, hpost, hm⟩ := hl
  refine ⟨pre, a, post ++ [(ev, out)], by simp, ?_, hm⟩
  intro x hx
  rcases List.mem_append.1 hx with hx | hx
  · exact hpost x hx
  · rw [List.mem_singleton] at hx
    subst hx
    exact hout

end

/-! ## What a step does to the snapshots -/

/-- A snapshot of `n'` whose id `n` had handed out is one of `n`. -/
structure Later (n n' : TreNode S) : Prop where
  counter : n.SNAPSHOT_COUNTER ≤ n'.SNAPSHOT_COUNTER
  kept : ∀ i s, Issued n i → n'.SNAPSHOTS.get? i = some s → n.SNAPSHOTS.get? i = some s

theorem Later.of_eq {n n' : TreNode S} (hs : n'.SNAPSHOTS = n.SNAPSHOTS)
    (hc : n'.SNAPSHOT_COUNTER = n.SNAPSHOT_COUNTER) : Later n n' where
  counter := hc.ge
  kept := by
    rw [hs]
    exact fun _ _ _ h => h

theorem Later.issued {n n' : TreNode S} (h : Later n n') {i : String} (hi : Issued n i) : Issued n' i :=
  ⟨hi.1.trans h.counter, hi.2⟩

theorem Later.trans {n n' n'' : TreNode S} (h : Later n n') (h' : Later n' n'') : Later n n'' where
  counter := h.counter.trans h'.counter
  kept i s hi hs := h.kept i s hi (h'.kept i s (h.issued hi) hs)

theorem exec_later (db : IRevokingDB S) (n : TreNode S) (c : NodeCall) (hc : (exec db n c).2.SNAPSHOT_COUNTER < 2 ^ 64) :
    Later n (exec db n c).2 := by
  refine ⟨exec_counter db n c, ?_⟩
  intro i s hi hs
  cases c with
  | tre_snapshot =>
    rcases exec_snapshot_cases db n with ⟨e, st, he⟩ | ⟨e, st, he⟩
    · rw [he] at hs
      exact hs
    · rw [he] at hs hc
      rw [OrderedMap.get?_put, if_neg (hi.ne_next hc)] at hs
      exact hs
  | tre_revert id =>
    cases id with
    | none => exact hs
    | some id =>
      rcases exec_revert_cases db n id with ⟨-, hn, -⟩ | ⟨-, st, hn, -⟩
      · rw [hn] at hs
        exact hs
      · rw [hn] at hs
        exact get?_dropFrom hs
  | tre_dropSnapshot id =>
    cases id with
    | none => exact hs
    | some id =>
      rw [exec_dropSnapshot, OrderedMap.get?_remove] at hs
      split at hs
      · cases hs
      · exact hs
  | put nm k v => rwa [exec, writeStore_SNAPSHOTS] at hs
  | delete nm k => rwa [exec, writeStore_SNAPSHOTS] at hs

theorem exec_idsOrdered (db : IRevokingDB S) {n : TreNode S} (h : IdsOrdered n) (c : NodeCall)
    (hc : (exec db n c).2.SNAPSHOT_COUNTER < 2 ^ 64) : IdsOrdered (exec db n c).2 := by
  cases c with
  | tre_snapshot =>
    rcases exec_snapshot_cases db n with ⟨e, st, he⟩ | ⟨e, st, he⟩
    · rw [he]
      exact h.of_eq rfl rfl
    · rw [he] at hc
      exact (exec_snapshot_extends db h hc).1.ids
  | tre_revert id =>
    cases id with
    | none => exact h
    | some id => exact (exec_revert_ids db h id).1
  | tre_dropSnapshot id =>
    cases id with
    | none => exact h
    | some id =>
      rw [exec_dropSnapshot]
      refine h.of_sublist ?_ rfl
      rw [OrderedMap.keys_remove]
      exact List.filter_sublist
  | put nm k v => exact h.of_eq (writeStore_SNAPSHOTS _ _ _) (writeStore_SNAPSHOT_COUNTER _ _ _)
  | delete nm k => exact h.of_eq (writeStore_SNAPSHOTS _ _ _) (writeStore_SNAPSHOT_COUNTER _ _ _)

/-- The node `n'` came from `n` while the counter did not go round. -/
def Grows (n n' : TreNode S) : Prop :=
  n'.SNAPSHOT_COUNTER < 2 ^ 64 → Later n n' ∧ (IdsOrdered n → IdsOrdered n')

theorem Grows.of_eq {n n' : TreNode S} (hs : n'.SNAPSHOTS = n.SNAPSHOTS)
    (hc : n'.SNAPSHOT_COUNTER = n.SNAPSHOT_COUNTER) : Grows n n' :=
  fun _ => ⟨.of_eq hs hc, fun h => h.of_eq hs hc⟩

theorem Grows.exec {n m : TreNode S} (h : Grows n m) (db : IRevokingDB S) (c : NodeCall) : Grows n (exec db m c).2 := by
  intro hc
  obtain ⟨hl, hi⟩ := h (lt_of_le_of_lt (exec_counter db m c) hc)
  exact ⟨hl.trans (exec_later db m c hc), fun hn => exec_idsOrdered db (hi hn) c hc⟩

theorem Grows.rpcCall {n m : TreNode S} (h : Grows n m) (db : IRevokingDB S) (c : NodeCall) (a : Attempts) :
    Grows n (rpcCall (fun n => HardhatTron.exec db n c) a m).2 :=
  rpcCall_state (Grows n) (fun _ hm => hm.exec db c) h

theorem Grows.takeSnapshot {n m : TreNode S} (h : Grows n m) (db : IRevokingDB S) (a : Attempts) :
    Grows n (_takeSnapshot db a m).2 := by
  have hcall := h.rpcCall db .tre_snapshot a
  unfold _takeSnapshot
  split <;> rename_i heq <;> rw [heq] at hcall <;> exact hcall

theorem Grows.restore {n m : TreNode S} (h : Grows n m) (db : IRevokingDB S) (env : LoadEnv) (id : String) :
    Grows n (restore db env id m).2 := by
  have hcall := h.rpcCall db (.tre_revert (some id)) env.revert
  unfold HardhatTron.restore
  split
  · rename_i heq
    rwa [heq] at hcall
  · rename_i heq
    rwa [heq] at hcall
  · rename_i heq
    rw [heq] at hcall
    exact hcall.takeSnapshot db env.snapshot

theorem Grows.evmCall {n m : TreNode S} (h : Grows n m) (db : IRevokingDB S) (method : String) (c : NodeCall)
    (a : Attempts) : Grows n (evmCall db method c a m).2 := by
  have hcall := h.rpcCall db c a
  unfold EvmShim.evmCall
  split <;> rename_i heq <;> rw [heq] at hcall <;> exact hcall

/-! ## The invariant -/

section
variable [DecidableEq F] {h : ShimHistory F D} {b b' : Process S F D} {f : Frame F} {running : List (Frame F)}

/-- Every entry has an id that was handed out, and if that id is live, its snapshot
is of the stores that the last run of the fixture left. -/
structure SafeInv (db : IRevokingDB S) (name : F → String) (st : Stores S) (h : ShimHistory F D) (b : Process S F D) :
    Prop where
  ids : IdsOrdered b.node
  issued : ∀ e ∈ b._fixtureSnapshots, Issued b.node e.snapshotId
  fixtures : (b._fixtureSnapshots.map (·.fixture) ++ (b.running.filter (·.record)).map (·.fixture)).Nodup
  data : ∀ e ∈ b._fixtureSnapshots, ∃ m, LastRun db name st h e.fixture e.data m ∧
    ∀ s, b.node.SNAPSHOTS.get? e.snapshotId = some s → s.Holds db m.node

theorem safeInv_start (st : Stores S) : SafeInv db name st [] (startProcess st : Process S F D) where
  ids := idsOrdered_start st
  issued := by simp [startProcess]
  fixtures := by simp [startProcess]
  data := by simp [startProcess]

theorem SafeInv.snoc (hi : SafeInv db name st h b) {ev : ShimEvent F D} {out : ShimOutcome F D}
    (hout : ∀ fn d, out ≠ .fixture (.recorded fn d)) : SafeInv db name st (h ++ [(ev, out)]) b :=
  ⟨hi.ids, hi.issued, hi.fixtures, fun e he =>
    let ⟨m, hl, hm⟩ := hi.data e he
    ⟨m, hl.snoc (hout _), hm⟩⟩

/-- What happens on the node alone. -/
theorem SafeInv.moves (hi : SafeInv db name st h b) (hg : Grows b.node b'.node) (hc : b'.node.SNAPSHOT_COUNTER < 2 ^ 64)
    (he : b'._fixtureSnapshots = b._fixtureSnapshots) (hr : b'.running = b.running) : SafeInv db name st h b' := by
  obtain ⟨hlater, hids⟩ := hg hc
  refine ⟨hids hi.ids, ?_, ?_, ?_⟩
  · rw [he]
    exact fun e hm => hlater.issued (hi.issued e hm)
  · rw [he, hr]
    exact hi.fixtures
  · rw [he]
    intro e hm
    obtain ⟨m, hl, hholds⟩ := hi.data e hm
    exact ⟨m, hl, fun s hs => hholds s (hlater.kept _ s (hi.issued e hm) hs)⟩

theorem SafeInv.quiet (hi : SafeInv db name st h b) {v : Attempts} (hq : Quiet v b b')
    (hc : b'.node.SNAPSHOT_COUNTER < 2 ^ 64) : SafeInv db name st h b' :=
  hi.moves (.of_eq hq.snapshots hq.counter) hc hq.entries hq.running

/-- The body of a fixture starts to run. -/
theorem SafeInv.enter (hi : SafeInv db name st h b) {fn : F} {record : Bool}
    (hnone : record = true → b._fixtureSnapshots.find? (·.fixture = fn) = none)
    (hfresh : fn ∉ b.running.map (·.fixture)) :
    SafeInv db name st h { b with running := ⟨fn, record⟩ :: b.running } := by
  refine ⟨hi.ids, hi.issued, ?_, hi.data⟩
  cases record with
  | false => exact hi.fixtures
  | true =>
    show (_ ++ fn :: (b.running.filter (·.record)).map (·.fixture)).Nodup
    rw [List.nodup_middle, List.nodup_cons, List.mem_append, not_or]
    refine ⟨⟨?_, fun hm => hfresh ((List.filter_sublist.map _).subset hm)⟩, hi.fixtures⟩
    intro hm
    obtain ⟨e, he, rfl⟩ := List.mem_map.1 hm
    simpa using List.find?_eq_none.1 (hnone rfl) e he

/-- The innermost fixture leaves the stack. -/
theorem SafeInv.leave (hi : SafeInv db name st h b) (hrun : b.running = f :: running) :
    SafeInv db name st h { b with running } ∧ (f.record = true →
      f.fixture ∉ b._fixtureSnapshots.map (·.fixture) ++ (running.filter (·.record)).map (·.fixture)) := by
  have hn := hi.fixtures
  rw [hrun] at hn
  by_cases hrecord : f.record = true
  · rw [List.filter_cons_of_pos hrecord, List.map_cons, List.nodup_middle, List.nodup_cons] at hn
    exact ⟨⟨hi.ids, hi.issued, hn.2, hi.data⟩, fun _ => hn.1⟩
  · rw [List.filter_cons_of_neg hrecord] at hn
    exact ⟨⟨hi.ids, hi.issued, hn, hi.data⟩, fun h => absurd h hrecord⟩

/-! ## Snapshots of the stores -/

/-- A snapshot that is answered holds the stores as they are, which it does not touch. -/
theorem takeSnapshot_taken (hdb : db.Lawful) {a : Attempts} {n n' : TreNode S} {id : String}
    (h : _takeSnapshot db a n = (.ok id, n')) :
    n'.stores = n.stores ∧ id = snapshotId n'.SNAPSHOT_COUNTER ∧ ∃ s, n'.SNAPSHOTS.get? id = some s ∧ s.Holds db n := by
  -- a request whose answer was lost has taken one too
  have hlost : (if a.executedThenRetried then (exec db n .tre_snapshot).2 else n).stores = n.stores := by
    obtain ⟨e, he, -⟩ := exec_snapshot hdb n
    split
    · rw [he]
    · rfl
  generalize hn₁ : (if a.executedThenRetried then (exec db n .tre_snapshot).2 else n) = n₁ at hlost
  obtain ⟨s, hs, hholds⟩ := exec_snapshot hdb n₁
  unfold _takeSnapshot at h
  split at h
  · cases h
  · rename_i i n₂ heq
    obtain ⟨hi, rfl⟩ := Prod.mk.inj h
    obtain ⟨-, hex⟩ := rpcCall_ok_iff.1 heq
    rw [hn₁, hs] at hex
    obtain ⟨hid, rfl⟩ := Prod.mk.inj hex
    obtain rfl := NodeReply.id.inj hid
    obtain rfl := Except.ok.inj hi
    refine ⟨hlost, rfl, s, by rw [OrderedMap.get?_put, if_pos rfl], ?_⟩
    intro store k
    rw [hholds, hlost]
  · cases h

theorem issued_of_taken {n : TreNode S} (hc : n.SNAPSHOT_COUNTER < 2 ^ 64) :
    Issued n (snapshotId n.SNAPSHOT_COUNTER) := by
  have hnumber := idNumber_snapshotId hc
  exact ⟨hnumber.le, by rw [hnumber]⟩

/-- A restore that returns has put the bindings of the snapshot back and taken a new one of them. -/
theorem restore_taken (hdb : db.Lawful) {n n' : TreNode S} {env : LoadEnv} {id newId : String} (hids : IdsOrdered n)
    (h : restore db env id n = (.ok newId, n')) :
    newId = snapshotId n'.SNAPSHOT_COUNTER ∧ ∃ s s', n.SNAPSHOTS.get? id = some s ∧
      n'.SNAPSHOTS.get? newId = some s' ∧ s'.Holds db n' ∧
      ∀ store k, db.get (n'.stores.get store) k = (s.get store).get? k := by
  obtain ⟨-, htrue, htake⟩ := restore_ok hids h
  by_cases hlive : id ∈ n.SNAPSHOTS.keys
  · obtain ⟨s, hs⟩ := OrderedMap.mem_keys_iff.1 hlive
    obtain ⟨stores, hrevert, hstores⟩ := exec_revert_live hdb hs
    rw [hrevert] at htake
    obtain ⟨hsame, hid, s', hs', hholds⟩ := takeSnapshot_taken hdb htake
    refine ⟨hid, s, s', hs, hs', ?_, ?_⟩
    · intro store k
      rw [hholds, hsame]
    · rw [hsame]
      exact hstores
  · rw [exec_revert_unknown hlive] at htrue
    cases htrue

/-! ## The steps -/

/-- A fixture that returns is recorded with the stores it leaves, or not at all. -/
theorem SafeInv.returns (hdb : db.Lawful) (hr : ShimRun db name st Fresh h b) (hi : SafeInv db name st h b)
    (hrun : b.running = f :: running) (data : D) (a : Attempts)
    (hc : (fnReturns db f data a { b with running }).2.node.SNAPSHOT_COUNTER < 2 ^ 64) :
    SafeInv db name st (h ++ [(.fixture (.fnReturns data a), .fixture (fnReturns db f data a { b with running }).1)])
      (fnReturns db f data a { b with running }).2 := by
  obtain ⟨hleft, hnew⟩ := hi.leave hrun
  have hgrows : Grows b.node (_takeSnapshot db a b.node).2 := Grows.takeSnapshot (.of_eq rfl rfl) db a
  by_cases hrecord : f.record = true
  · rcases htake : _takeSnapshot db a b.node with ⟨e | id, node⟩
    · have hret : fnReturns db f data a { b with running } = (.threw f.fixture e, { b with running, node }) := by
        simp [fnReturns, hrecord, htake]
      rw [hret] at hc ⊢
      rw [htake] at hgrows
      exact (hleft.moves hgrows hc rfl rfl).snoc (by simp)
    · have hret : fnReturns db f data a { b with running } = (.recorded f.fixture data, { b with
          running, node, _fixtureSnapshots := b._fixtureSnapshots ++ [⟨id, f.fixture, data⟩] }) := by
        simp [fnReturns, hrecord, htake]
      rw [hret] at hc ⊢
      rw [htake] at hgrows
      have hmoved : SafeInv db name st h { b with running, node } := hleft.moves hgrows hc rfl rfl
      obtain ⟨-, hid, s, hs, hholds⟩ := takeSnapshot_taken hdb htake
      have hlast : LastRun db name st (h ++ [(.fixture (.fnReturns data a), .fixture (.recorded f.fixture data))])
          f.fixture data b := ⟨h, a, [], rfl, by simp, hr⟩
      refine ⟨hmoved.ids, ?_, ?_, ?_⟩
      · intro e he
        rcases List.mem_append.1 he with he | he
        · exact hmoved.issued e he
        · rw [List.mem_singleton.1 he]
          exact hid ▸ issued_of_taken hc
      · show ((b._fixtureSnapshots ++ [_]).map _ ++ _).Nodup
        rw [List.map_append, List.map_singleton, List.append_assoc, List.singleton_append, List.nodup_middle,
          List.nodup_cons]
        exact ⟨hnew hrecord, hmoved.fixtures⟩
      · intro e he
        rcases List.mem_append.1 he with he | he
        · obtain ⟨m, hl, hm⟩ := hmoved.data e he
          refine ⟨m, hl.snoc fun d hd => ?_, hm⟩
          obtain ⟨heq, -⟩ := Outcome.recorded.inj (ShimOutcome.fixture.inj hd)
          exact hnew hrecord (List.mem_append_left _ (List.mem_map.2 ⟨e, he, heq.symm⟩))
        · rw [List.mem_singleton.1 he]
          refine ⟨b, hlast, fun t ht => ?_⟩
          obtain rfl := Option.some.inj (hs.symm.trans ht)
          exact hholds
  · have hret : fnReturns db f data a { b with running } = (.unrecorded f.fixture data, { b with running }) := by
      simp [fnReturns, hrecord]
    rw [hret]
    exact hleft.snoc (by simp)

/-- A fixture that is restored has the stores of its last run, and so has its new snapshot. -/
theorem SafeInv.restores (hdb : db.Lawful) (hi : SafeInv db name st h b) {fn : F} {snapshot : FixtureSnapshot F D}
    (hf : b._fixtureSnapshots.find? (·.fixture = fn) = some snapshot) {env : LoadEnv} {newId : String}
    {node : TreNode S} (hr : restore db env snapshot.snapshotId b.node = (.ok newId, node))
    (hc : node.SNAPSHOT_COUNTER < 2 ^ 64) (sentDrops : List String) :
    SafeInv db name st h { b with node, _fixtureSnapshots := keptEntries fn newId b._fixtureSnapshots, sentDrops } ∧
      ∃ m, LastRun db name st h fn snapshot.data m ∧ SameBindings db node m.node := by
  have hmem := List.mem_of_find?_eq_some hf
  have hfixture : snapshot.fixture = fn := by simpa using List.find?_some hf
  obtain ⟨hid, s, s', hs, hs', hholds', hback⟩ := restore_taken hdb hi.ids hr
  have hgrows : Grows b.node (restore db env snapshot.snapshotId b.node).2 := Grows.restore (.of_eq rfl rfl) db env _
  rw [hr] at hgrows
  obtain ⟨hlater, hids⟩ := hgrows hc
  obtain ⟨m, hl, hm⟩ := hi.data snapshot hmem
  have hsame : SameBindings db node m.node := fun store k => (hback store k).trans (hm s hs store k)
  refine ⟨⟨hids hi.ids, ?_, ?_, ?_⟩, m, hfixture ▸ hl, hsame⟩
  · intro e he
    rcases mem_keptEntries hf he with rfl | he
    · exact hid ▸ issued_of_taken hc
    · exact hlater.issued (hi.issued e he)
  · exact hi.fixtures.sublist ((keptEntries_fixtures hf _).append (.refl _))
  · intro e he
    rcases mem_keptEntries hf he with rfl | he
    · refine ⟨m, hl, fun t ht => ?_⟩
      obtain rfl := Option.some.inj (hs'.symm.trans ht)
      exact fun store k => (hholds' store k).trans (hsame store k)
    · obtain ⟨m', hl', hm'⟩ := hi.data e he
      exact ⟨m', hl', fun t ht => hm' t (hlater.kept _ t (hi.issued e he) ht)⟩

/-- A call of `loadFixture`, whatever its RPCs meet. -/
theorem SafeInv.loads (hdb : db.Lawful) (hi : b.node.SNAPSHOT_COUNTER < 2 ^ 64 → SafeInv db name st h b) {fn : F}
    {env : LoadEnv} (hfresh : fn ∉ b.running.map (·.fixture)) {out : Outcome F D}
    (heff : LoadEffect db name fn env b out b') (hc : b'.node.SNAPSHOT_COUNTER < 2 ^ 64) (ev : ShimEvent F D) :
    SafeInv db name st (h ++ [(ev, .fixture out)]) b' ∧ ∀ fn' data, out = .restored fn' data →
      ∃ m, LastRun db name st h fn' data m ∧ SameBindings db b'.node m.node := by
  cases heff with
  | threw e _ hq => exact ⟨((hi (hq.counter ▸ hc)).quiet hq hc).snoc (by simp), by simp⟩
  | @entered record b₁ _ hq _ hnone =>
    refine ⟨(SafeInv.enter ((hi (hq.counter ▸ hc)).quiet hq hc) ?_ ?_).snoc (by simp), by simp⟩
    · rw [hq.entries]
      exact hnone
    · rw [hq.running]
      exact hfresh
  | @restoreFailed snapshot e b₁ node _ hq _ hrest =>
    have hgrows : Grows b.node (restore db env snapshot.snapshotId b₁.node).2 :=
      Grows.restore (.of_eq hq.snapshots hq.counter) db env _
    rw [hrest] at hgrows
    have hstart := hi ((hq.counter_le_of_restore hrest).trans_lt hc)
    exact ⟨(hstart.moves hgrows hc hq.entries hq.running).snoc (by simp), by simp⟩
  | @restored snapshot newId b₁ node hres hq _ hrest =>
    have hcounter := (hq.counter_le_of_restore hrest).trans_lt hc
    have hquiet := (hi hcounter).quiet hq (hq.counter.trans_lt hcounter)
    have hfound := restoring_find hres
    rw [← hq.entries] at hfound
    obtain ⟨hrestored, hlast⟩ := hquiet.restores hdb hfound hrest hc _
    refine ⟨hrestored.snoc (by simp), ?_⟩
    rintro fn' data ⟨⟩
    exact hlast

/-- A call of the shim is a call of the node. -/
theorem SafeInv.evm (hi : b.node.SNAPSHOT_COUNTER < 2 ^ 64 → SafeInv db name st h b) (method : String) (c : NodeCall)
    (a : Attempts) (hc : (evmCall db method c a b.node).2.SNAPSHOT_COUNTER < 2 ^ 64) :
    SafeInv db name st h { b with node := (evmCall db method c a b.node).2 } := by
  have hgrows : Grows b.node (evmCall db method c a b.node).2 := Grows.evmCall (.of_eq rfl rfl) db method c a
  obtain ⟨hlater, -⟩ := hgrows hc
  exact (hi (hlater.counter.trans_lt hc)).moves hgrows hc rfl rfl

/-- What a step keeps, and what it says of a fixture that it restores. -/
theorem safeInv_step (hdb : db.Lawful) {ev : ShimEvent F D} {out : ShimOutcome F D} (hr : ShimRun db name st Fresh h b)
    (hi : b.node.SNAPSHOT_COUNTER < 2 ^ 64 → SafeInv db name st h b) (hfresh : Fresh b ev)
    (hs : shimStep db name b ev = some (out, b')) (hc : b'.node.SNAPSHOT_COUNTER < 2 ^ 64) :
    SafeInv db name st (h ++ [(ev, out)]) b' ∧ ∀ fn data, out = .fixture (.restored fn data) →
      ∃ m, LastRun db name st h fn data m ∧ SameBindings db b'.node m.node := by
  cases ev with
  | fixture ev =>
    obtain ⟨⟨out, b₁⟩, hstep, heq⟩ := Option.map_eq_some_iff.1 hs
    obtain ⟨rfl, rfl⟩ := Prod.mk.inj heq
    cases fixtureStep_effect hstep with
    | loaded fn env =>
      obtain ⟨hinv, hrestored⟩ := SafeInv.loads hdb hi hfresh (loadFixture_effect db name fn env b) hc
        (.fixture (.loadFixture fn env))
      refine ⟨hinv, ?_⟩
      intro fn' data hout
      exact hrestored fn' data (ShimOutcome.fixture.inj hout)
    | @returned f running data a hrun =>
      have hcounter := (fnReturns_counter db f data a { b with running }).trans_lt hc
      refine ⟨SafeInv.returns hdb hr (hi hcounter) hrun data a hc, ?_⟩
      intro fn data' hout
      have hrestored : (fnReturns db f data a { b with running }).1 = .restored fn data' := ShimOutcome.fixture.inj hout
      unfold fnReturns at hrestored
      split at hrestored
      · cases hrestored
      · split at hrestored <;> cases hrestored
    | threw message hrun => exact ⟨((hi hc).leave hrun).1.snoc (by simp), by simp⟩
    | put nm k v =>
      have hq : Quiet .allAnswered b { b with node := (exec db b.node (.put nm k v)).2 } := .written _ b nm _
      exact ⟨((hi (hq.counter ▸ hc)).quiet hq hc).snoc (by simp), by simp⟩
    | delete nm k =>
      have hq : Quiet .allAnswered b { b with node := (exec db b.node (.delete nm k)).2 } := .written _ b nm _
      exact ⟨((hi (hq.counter ▸ hc)).quiet hq hc).snoc (by simp), by simp⟩
    | @dropped id _ =>
      have hgrows : Grows b.node (exec db b.node (.tre_dropSnapshot (some id))).2 := Grows.exec (.of_eq rfl rfl) db _
      exact ⟨((hi hc).moves hgrows hc rfl rfl).snoc (by simp), by simp⟩
  | evm_snapshot a =>
    obtain ⟨rfl, rfl⟩ := Prod.mk.inj (Option.some.inj hs)
    exact ⟨(SafeInv.evm hi _ _ a hc).snoc (by simp), by simp⟩
  | evm_revert id a =>
    obtain ⟨rfl, rfl⟩ := Prod.mk.inj (Option.some.inj hs)
    exact ⟨(SafeInv.evm hi _ _ a hc).snoc (by simp), by simp⟩

theorem safeInv_run (hdb : db.Lawful) (hr : ShimRun db name st Fresh h b) (hc : b.node.SNAPSHOT_COUNTER < 2 ^ 64) :
    SafeInv db name st h b := by
  refine Run.inv (fun h b => b.node.SNAPSHOT_COUNTER < 2 ^ 64 → SafeInv db name st h b) (fun _ => safeInv_start st)
    ?_ hr hc
  intro h b ev out b' hr hi hfresh hs hc
  exact (safeInv_step hdb hr hi hfresh hs hc).1

/-- **What is given back.** Whatever `evm_snapshot` and `evm_revert` a test sends in
between and whatever RPCs fail: a fixture that `loadFixture` restores comes with the
data of its last recorded run and with the four stores as that run left them. -/
theorem restored_recorded (hdb : db.Lawful) {fn : F} {data : D} {ev : ShimEvent F D}
    (hr : ShimRun db name st Fresh (h ++ [(ev, .fixture (.restored fn data))]) b)
    (hc : b.node.SNAPSHOT_COUNTER < 2 ^ 64) : ∃ m, LastRun db name st h fn data m ∧ SameBindings db b.node m.node := by
  obtain ⟨b₀, hr₀, hfresh, hs⟩ := Run.last hr
  exact (safeInv_step hdb hr₀ (safeInv_run hdb hr₀) hfresh hs hc).2 fn data rfl

end

/-! ### A fixture beside a snapshot of the test's own -/

/-- The request is executed, its connection drops, and the second one is answered. -/
def sentTwice : Attempts := ⟨.fetchThrows true ⟨"TypeError", "fetch failed"⟩, .answered⟩

/-- The test takes a snapshot, of which a lost answer makes two, writes, goes back to the
first of them, writes again and loads the fixture. -/
def besideSnapshot : List (ShimEvent Unit Unit) :=
  [.fixture (.loadFixture () quietEnv), .fixture (.fnReturns () .allAnswered), .evm_snapshot sentTwice,
    .fixture (.put .accountStore [1] [2]), .evm_revert (some "0x2") .allAnswered,
    .fixture (.put .accountStore [1] [3]), .fixture (.loadFixture () quietEnv)]

/-- The last step restored a fixture. -/
def endsRestored (h : ShimHistory Unit Unit) : Bool :=
  match h.getLast? with
  | some (_, .fixture (.restored _ _)) => true
  | _ => false

theorem endsRestored_split {h : ShimHistory Unit Unit} (hends : endsRestored h = true) :
    ∃ h' ev, h = h' ++ [(ev, .fixture (.restored () ()))] := by
  rcases List.eq_nil_or_concat h with rfl | ⟨h', ⟨ev, out⟩, rfl⟩
  · cases hends
  · rw [List.concat_eq_append] at hends ⊢
    rw [endsRestored, List.getLast?_append, List.getLast?_singleton] at hends
    rcases out with out | r
    · cases out with
      | restored fn data => exact ⟨h', ev, rfl⟩
      | _ => cases hends
    · cases hends

theorem besideSnapshot_play : ((play (shimStep memoryDB fun _ => "fixture") Fresh (startProcess emptyStores)
    besideSnapshot).any fun x => endsRestored x.1 && decide (x.2.node.SNAPSHOT_COUNTER < 2 ^ 64) &&
      (memoryDB.get (x.2.node.stores.get .accountStore) [1]).isNone) = true := by
  decide +kernel

/-- The fixture is given back without either write. -/
theorem reload_beside_snapshot : ∃ (h : ShimHistory Unit Unit) (ev : ShimEvent Unit Unit) (b m : Process HashMap Unit Unit),
    ShimRun memoryDB (fun _ => "fixture") emptyStores Fresh (h ++ [(ev, .fixture (.restored () ()))]) b ∧
    LastRun memoryDB (fun _ => "fixture") emptyStores h () () m ∧ SameBindings memoryDB b.node m.node ∧
    memoryDB.get (b.node.stores.get .accountStore) [1] = none := by
  obtain ⟨⟨h, b⟩, hplay, hends⟩ := (Option.any_eq_true _ _).1 besideSnapshot_play
  simp only [Bool.and_eq_true, decide_eq_true_eq, Option.isNone_iff_eq_none] at hends
  obtain ⟨⟨hrestored, hcounter⟩, hgone⟩ := hends
  obtain ⟨h, ev, rfl⟩ := endsRestored_split hrestored
  have hr : ShimRun memoryDB (fun _ => "fixture") emptyStores Fresh _ b := Run.of_play hplay
  obtain ⟨m, hm, hsame⟩ := restored_recorded memoryDB_lawful hr hcounter
  exact ⟨h, ev, b, m, hr, hm, hsame, hgone⟩

end EvmShim

end HardhatTron

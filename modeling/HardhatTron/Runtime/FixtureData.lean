import HardhatTron.Runtime.FixtureLiveness
/-!
# What `loadFixture` returns

When no RPC fails, a call that returns gives the data of the last recorded run
of the fixture and leaves the stores as they were when that run completed:
`loadFixture_returns_last_run`. `DataInv` is the invariant, the list in step
with the node and each entry's snapshot equal to the stores of its run.

The client compares ids as doubles, so all of this stops once the node has taken
more than `2 ^ 53 + 1` snapshots; `entry_dead_past_two_pow_53` is the run of that length.
-/
namespace HardhatTron

open Lib Lib.Mark

variable {S F D : Type} [DecidableEq F] {db : IRevokingDB S} {name : F → String} {st : Stores S}

/-- No RPC fails, and a fixture's body does not lead back to the fixture. -/
def sequential (b : Process S F D) : FixtureEvent F D → Bool
  | .loadFixture fn env => env.version.first == .answered && env.revert.first == .answered &&
      env.snapshot.first == .answered && decide (fn ∉ b.running.map (·.fixture))
  | .fnReturns _ a => a.first == .answered
  | _ => true

/-- The fixture and data of a call that returned. -/
def Outcome.returned : Outcome F D → Option (F × D)
  | .restored fn data => some (fn, data)
  | .recorded fn data => some (fn, data)
  | .unrecorded fn data => some (fn, data)
  | _ => none

/-- The last run of `fn` recorded in `h` resolved with `data` in the state `m`. -/
def LastRecorded (db : IRevokingDB S) (name : F → String) (st : Stores S)
    (h : List (FixtureEvent F D × Outcome F D)) (fn : F) (data : D) (m : Process S F D) : Prop :=
  ∃ pre a post, h = pre ++ (.fnReturns data a, .recorded fn data) :: post ∧
    (∀ x ∈ post, ∀ d, x.2 ≠ .recorded fn d) ∧ FixtureRun db name st (fun b ev => sequential b ev = true) pre m

/-- The four stores of two nodes have the same bindings. -/
def SameBindings (db : IRevokingDB S) (n m : TreNode S) : Prop :=
  ∀ store k, db.get (n.stores.get store) k = db.get (m.stores.get store) k

/-- A snapshot holds the bindings of a node. -/
def SnapshotEntry.Holds (db : IRevokingDB S) (s : SnapshotEntry) (m : TreNode S) : Prop :=
  ∀ store k, (s.get store).get? k = db.get (m.stores.get store) k

omit [DecidableEq F] in
theorem LastRecorded.snoc [DecidableEq F] {h : List (FixtureEvent F D × Outcome F D)} {fn : F} {data : D}
    {m : Process S F D} (hl : LastRecorded db name st h fn data m) {ev : FixtureEvent F D} {out : Outcome F D}
    (hout : ∀ d, out ≠ .recorded fn d) : LastRecorded db name st (h ++ [(ev, out)]) fn data m := by
  obtain ⟨pre, a, post, rfl, hpost, hm⟩ := hl
  refine ⟨pre, a, post ++ [(ev, out)], by simp, ?_, hm⟩
  intro x hx
  rcases List.mem_append.1 hx with hx | hx
  · exact hpost x hx
  · rw [List.mem_singleton] at hx
    subst hx
    exact hout

/-! ## RPCs that are answered -/

theorem executedOnce_of_answered {a : Attempts} (h : a.first = .answered) : a.executedOnce = true := by
  simp [Attempts.executedOnce, Attempts.last, Attempts.retried, Attempts.executedThenRetried, h]

theorem _takeSnapshot_answered (hdb : db.Lawful) {a : Attempts} (h : a.first = .answered) (n : TreNode S) :
    ∃ s, _takeSnapshot db a n = (.ok (snapshotId (n.SNAPSHOT_COUNTER + 1)),
        ⟨n.stores, n.SNAPSHOTS.put (snapshotId (n.SNAPSHOT_COUNTER + 1)) s, n.SNAPSHOT_COUNTER + 1⟩) ∧
      s.Holds db n := by
  obtain ⟨s, hs, hg⟩ := exec_snapshot hdb n
  refine ⟨s, ?_, hg⟩
  have hcall := rpcCall_executedOnce (f := fun n => exec db n .tre_snapshot) (n := n) (executedOnce_of_answered h)
  simp only [hs] at hcall
  rw [_takeSnapshot, hcall]

/-- A restore of a live id: the stores get the snapshot's bindings back, and a
new snapshot of them takes the place of the old one. -/
theorem restore_answered (hdb : db.Lawful) (env : LoadEnv) (hrev : env.revert.first = .answered)
    (hsnap : env.snapshot.first = .answered) {n : TreNode S} {id : String} {s : SnapshotEntry}
    (hs : n.SNAPSHOTS.get? id = some s) :
    ∃ stores s', restore db env id n = (.ok (snapshotId (n.SNAPSHOT_COUNTER + 1)),
        ⟨stores, (dropFrom n.SNAPSHOTS id).put (snapshotId (n.SNAPSHOT_COUNTER + 1)) s', n.SNAPSHOT_COUNTER + 1⟩) ∧
      (∀ store k, db.get (stores.get store) k = (s.get store).get? k) ∧
      ∀ store k, (s'.get store).get? k = (s.get store).get? k := by
  obtain ⟨stores, hr, hg⟩ := exec_revert_live hdb hs
  obtain ⟨s', htake, hg'⟩ := _takeSnapshot_answered hdb hsnap ⟨stores, dropFrom n.SNAPSHOTS id, n.SNAPSHOT_COUNTER⟩
  refine ⟨stores, s', ?_, hg, fun store k => (hg' store k).trans (hg store k)⟩
  have hcall := rpcCall_executedOnce (f := fun n => exec db n (.tre_revert (some id))) (n := n)
    (executedOnce_of_answered hrev)
  simp only [hr] at hcall
  rw [restore, hcall]
  exact htake

/-! ## The invariant -/

structure DataInv (db : IRevokingDB S) (name : F → String) (st : Stores S)
    (h : List (FixtureEvent F D × Outcome F D)) (b : Process S F D) : Prop where
  inStep : InStep b
  supported : b._snapshotSupported ≠ some false
  records : ∀ f ∈ b.running, f.record = true
  fixtures : (b._fixtureSnapshots.map (·.fixture) ++ b.running.map (·.fixture)).Nodup
  data : ∀ e ∈ b._fixtureSnapshots, ∃ m, LastRecorded db name st h e.fixture e.data m ∧
    ∀ s, b.node.SNAPSHOTS.get? e.snapshotId = some s → s.Holds db m.node

theorem dataInv_start (st : Stores S) : DataInv db name st [] (startProcess st : Process S F D) where
  inStep := inStep_start st
  supported := by simp [startProcess]
  records := by simp [startProcess]
  fixtures := by simp [startProcess]
  data := by simp [startProcess]

/-- Steps that touch no snapshot. -/
theorem DataInv.settle {h : List (FixtureEvent F D × Outcome F D)} {b b' : Process S F D} {v : Attempts}
    (hi : DataInv db name st h b) (hv : v.first = .answered) (hq : Quiet v b b') : DataInv db name st h b' where
  inStep := hi.inStep.quiet hq
  supported := by
    rcases hq.supported with hs | ⟨-, hs⟩
    · rw [hs]
      exact hi.supported
    · rw [hs]
      simp [Attempts.last, Attempts.retried, hv]
  records := by
    rw [hq.running]
    exact hi.records
  fixtures := by
    rw [hq.running, hq.entries]
    exact hi.fixtures
  data := by
    rw [hq.entries, hq.snapshots]
    exact hi.data

theorem DataInv.snoc {h : List (FixtureEvent F D × Outcome F D)} {b : Process S F D} (hi : DataInv db name st h b)
    {ev : FixtureEvent F D} {out : Outcome F D} (hout : ∀ fn d, out ≠ .recorded fn d) :
    DataInv db name st (h ++ [(ev, out)]) b :=
  ⟨hi.inStep, hi.supported, hi.records, hi.fixtures, fun e he =>
    let ⟨m, hl, hg⟩ := hi.data e he
    ⟨m, hl.snoc (hout _), hg⟩⟩

/-- A step that neither records a fixture nor touches a snapshot. -/
theorem DataInv.quiet {h : List (FixtureEvent F D × Outcome F D)} {b b' : Process S F D} {v : Attempts}
    (hi : DataInv db name st h b) (hv : v.first = .answered) (hq : Quiet v b b') {ev : FixtureEvent F D}
    {out : Outcome F D} (hout : ∀ fn d, out ≠ .recorded fn d) : DataInv db name st (h ++ [(ev, out)]) b' :=
  (hi.settle hv hq).snoc hout

/-- The body of a fixture that is not recorded starts to run. -/
theorem DataInv.enter {h : List (FixtureEvent F D × Outcome F D)} {b : Process S F D} (hi : DataInv db name st h b)
    {fn : F} (hf : b._fixtureSnapshots.find? (·.fixture = fn) = none) (hrun : fn ∉ b.running.map (·.fixture)) :
    DataInv db name st h { b with running := ⟨fn, true⟩ :: b.running } where
  inStep := ⟨hi.inStep.ids, hi.inStep.live, hi.inStep.distinct, hi.inStep.drops⟩
  supported := hi.supported
  records := by
    intro f hm
    rcases List.mem_cons.1 hm with rfl | hm
    · rfl
    · exact hi.records f hm
  fixtures := by
    show (_ ++ fn :: b.running.map (·.fixture)).Nodup
    rw [List.nodup_middle, List.nodup_cons]
    refine ⟨?_, hi.fixtures⟩
    rw [List.mem_append, not_or]
    refine ⟨?_, hrun⟩
    intro hm
    obtain ⟨e, he, rfl⟩ := List.mem_map.1 hm
    simpa using List.find?_eq_none.1 hf e he
  data := hi.data

/-- The innermost fixture leaves the stack. -/
theorem DataInv.leave {h : List (FixtureEvent F D × Outcome F D)} {b : Process S F D} {f : Frame F}
    {running : List (Frame F)} (hi : DataInv db name st h b) (hrun : b.running = f :: running) :
    DataInv db name st h { b with running } ∧ f.record = true ∧
      ∀ e ∈ b._fixtureSnapshots, e.fixture ≠ f.fixture := by
  have hn := hi.fixtures
  rw [hrun, List.map_cons, List.nodup_middle, List.nodup_cons] at hn
  refine ⟨⟨⟨hi.inStep.ids, hi.inStep.live, hi.inStep.distinct, hi.inStep.drops⟩, hi.supported, ?_, hn.2, hi.data⟩,
    hi.records f (by simp [hrun]), ?_⟩
  · exact fun g hg => hi.records g (by simp [hrun, hg])
  · rintro e he heq
    exact hn.1 (List.mem_append_left _ (List.mem_map.2 ⟨e, he, heq⟩))

/-- A recorded run: its entry goes last, with a snapshot of the stores it left. -/
theorem DataInv.record (hdb : db.Lawful) {h : List (FixtureEvent F D × Outcome F D)} {b b₀ : Process S F D}
    (hi : DataInv db name st h b) (hc : b.node.SNAPSHOT_COUNTER + 2 < 2 ^ 64) {f : Frame F}
    (hrec : f.record = true) (hnew : ∀ e ∈ b._fixtureSnapshots, e.fixture ≠ f.fixture)
    (hrun : f.fixture ∉ b.running.map (·.fixture)) {a : Attempts} (ha : a.first = .answered) (data : D)
    (hr : FixtureRun db name st (fun b ev => sequential b ev = true) h b₀) (hnode : b₀.node = b.node) :
    (fnReturns db f data a b).1 = .recorded f.fixture data ∧
      (fnReturns db f data a b).2.node.SNAPSHOT_COUNTER = b.node.SNAPSHOT_COUNTER + 1 ∧
      DataInv db name st (h ++ [(.fnReturns data a, .recorded f.fixture data)]) (fnReturns db f data a b).2 ∧
      ∃ m, LastRecorded db name st (h ++ [(.fnReturns data a, .recorded f.fixture data)]) f.fixture data m ∧
        SameBindings db (fnReturns db f data a b).2.node m.node := by
  obtain ⟨s, htake, hg⟩ := _takeSnapshot_answered hdb ha b.node
  have hlast : LastRecorded db name st (h ++ [(.fnReturns data a, .recorded f.fixture data)]) f.fixture data b₀ :=
    ⟨h, a, [], rfl, by simp, hr⟩
  have hin := hi.inStep.returned db hc f data a
  have hret : fnReturns db f data a b = (.recorded f.fixture data, { b with
      node := ⟨b.node.stores, b.node.SNAPSHOTS.put (snapshotId (b.node.SNAPSHOT_COUNTER + 1)) s,
        b.node.SNAPSHOT_COUNTER + 1⟩
      _fixtureSnapshots := b._fixtureSnapshots ++ [⟨snapshotId (b.node.SNAPSHOT_COUNTER + 1), f.fixture, data⟩] }) := by
    simp only [fnReturns, hrec, htake, Bool.not_true, Bool.false_eq_true, if_false]
  rw [hret] at hin ⊢
  refine ⟨rfl, rfl, ⟨hin, hi.supported, hi.records, ?_, ?_⟩, b₀, hlast, ?_⟩
  · show ((b._fixtureSnapshots ++ [_]).map _ ++ _).Nodup
    rw [List.map_append, List.map_singleton, List.append_assoc, List.singleton_append, List.nodup_middle,
      List.nodup_cons, List.mem_append, not_or]
    refine ⟨⟨?_, hrun⟩, hi.fixtures⟩
    intro hm
    obtain ⟨e, he, heq⟩ := List.mem_map.1 hm
    exact hnew e he heq
  · intro e he
    rcases List.mem_append.1 he with he | he
    · obtain ⟨m, hl, hm⟩ := hi.data e he
      refine ⟨m, hl.snoc ?_, ?_⟩
      · rintro d hd
        exact hnew e he (Outcome.recorded.inj hd).1.symm
      · intro s' hs'
        rw [OrderedMap.get?_put, if_neg ((hi.inStep.issued e he).ne_next (by omega))] at hs'
        exact hm s' hs'
    · rw [List.mem_singleton] at he
      subst he
      refine ⟨b₀, hlast, ?_⟩
      intro s' hs'
      rw [OrderedMap.get?_put, if_pos rfl] at hs'
      cases hs'
      rw [hnode]
      exact hg
  · rw [hnode]
    exact fun store k => rfl

/-- A restored fixture: the stores of its run are back, and the entries that stay keep theirs. -/
theorem DataInv.restored (hdb : db.Lawful) {h : List (FixtureEvent F D × Outcome F D)} {b : Process S F D}
    (hi : DataInv db name st h b) {fn : F} {snapshot : FixtureSnapshot F D}
    (hf : b._fixtureSnapshots.find? (·.fixture = fn) = some snapshot) {env : LoadEnv}
    (hrev : env.revert.first = .answered) (hsnap : env.snapshot.first = .answered) {newId : String} {node : TreNode S}
    (hr : restore db env snapshot.snapshotId b.node = (.ok newId, node)) (hc : node.SNAPSHOT_COUNTER ≤ 2 ^ 53 + 1)
    (ev : FixtureEvent F D) :
    DataInv db name st (h ++ [(ev, .restored fn snapshot.data)]) { b with
        node
        _fixtureSnapshots := keptEntries fn newId b._fixtureSnapshots
        sentDrops := b.sentDrops ++ (evictedEntries fn b._fixtureSnapshots).map (·.snapshotId) } ∧
      ∃ m, LastRecorded db name st (h ++ [(ev, .restored fn snapshot.data)]) fn snapshot.data m ∧
        SameBindings db node m.node := by
  have hsm := List.mem_of_find?_eq_some hf
  have hfix : snapshot.fixture = fn := by simpa using List.find?_some hf
  obtain ⟨s, hs⟩ := OrderedMap.mem_keys_iff.1 (hi.inStep.live snapshot hsm)
  obtain ⟨stores, s', hres, hstores, hs'⟩ := restore_answered hdb env hrev hsnap hs
  rw [hres] at hr
  obtain ⟨hnew, rfl⟩ := Prod.mk.inj hr
  obtain rfl := Except.ok.inj hnew
  have hc' : b.node.SNAPSHOT_COUNTER ≤ 2 ^ 53 := Nat.le_of_succ_le_succ hc
  obtain ⟨m, hl, hm⟩ := hi.data snapshot hsm
  have hl' : LastRecorded db name st (h ++ [(ev, .restored fn snapshot.data)]) snapshot.fixture snapshot.data m :=
    hl.snoc fun d => by simp
  refine ⟨⟨hi.inStep.restored hc' hf hres, hi.supported, hi.records, ?_, ?_⟩, m, hfix ▸ hl', ?_⟩
  · exact hi.fixtures.sublist ((keptEntries_fixtures hf _).append (.refl _))
  · intro e he
    rcases mem_keptEntries hf he with rfl | he
    · refine ⟨m, hl', ?_⟩
      intro t ht
      rw [OrderedMap.get?_put, if_pos rfl] at ht
      cases ht
      exact fun store k => (hs' store k).trans (hm s hs store k)
    · obtain ⟨m', hl₁, hm'⟩ := hi.data e he
      refine ⟨m', hl₁.snoc (fun d => by simp), ?_⟩
      intro t ht
      rw [OrderedMap.get?_put, if_neg ((hi.inStep.issued e he).ne_next (by omega))] at ht
      exact hm' t (get?_dropFrom ht)
  · exact fun store k => (hstores store k).trans (hm s hs store k)

/-! ## Runs -/

omit [DecidableEq F] in
theorem fnReturns_counter (db : IRevokingDB S) (f : Frame F) (data : D) (a : Attempts) (b : Process S F D) :
    b.node.SNAPSHOT_COUNTER ≤ (fnReturns db f data a b).2.node.SNAPSHOT_COUNTER := by
  have h := _takeSnapshot_counter db a b.node
  unfold fnReturns
  split
  · exact Nat.le_refl _
  · split <;> rename_i heq <;> rw [heq] at h <;> exact h

/-- A call of `loadFixture`, with its probe, its revert and its snapshot answered. -/
theorem DataInv.loads (hdb : db.Lawful) {h : List (FixtureEvent F D × Outcome F D)} {b : Process S F D} {fn : F}
    {env : LoadEnv} (hi : b.node.SNAPSHOT_COUNTER ≤ 2 ^ 53 + 1 → DataInv db name st h b)
    (hok : sequential b (.loadFixture fn env : FixtureEvent F D) = true) {out : Outcome F D} {b' : Process S F D}
    (heff : LoadEffect db name fn env b out b') (hc : b'.node.SNAPSHOT_COUNTER ≤ 2 ^ 53 + 1) :
    DataInv db name st (h ++ [(.loadFixture fn env, out)]) b' ∧ ∀ fn' data, out.returned = some (fn', data) →
      ∃ m, LastRecorded db name st (h ++ [(.loadFixture fn env, out)]) fn' data m ∧ SameBindings db b'.node m.node := by
  simp only [sequential, Bool.and_eq_true, beq_iff_eq, decide_eq_true_eq] at hok
  obtain ⟨⟨⟨hver, hrev⟩, hsnap⟩, hrun⟩ := hok
  cases heff with
  | threw e _ hq =>
    refine ⟨(hi (hq.counter ▸ hc)).quiet hver hq (by simp), ?_⟩
    simp [Outcome.returned]
  | @entered record b₁ _ hq hsup hnone =>
    have hi := hi (hq.counter ▸ hc)
    have hi₁ : DataInv db name st (h ++ [(.loadFixture fn env, .entered fn)]) b₁ := hi.quiet hver hq (by simp)
    -- the probe was answered, so the fixture will be recorded
    obtain rfl : record = true := by
      have := hi₁.supported
      rw [hsup] at this
      simpa using this
    refine ⟨hi₁.enter ?_ ?_, by simp [Outcome.returned]⟩
    · rw [hq.entries]
      exact hnone rfl
    · rw [hq.running]
      exact hrun
  | @restoreFailed snapshot e b₁ node hres hq hnode hrest =>
    -- impossible: the entry is live and both RPCs are answered
    have hi := (hi ((hq.counter_le_of_restore hrest).trans hc)).inStep.quiet hq
    have hfound := List.mem_of_find?_eq_some (restoring_find hres)
    rw [← hq.entries] at hfound
    obtain ⟨s, hs⟩ := OrderedMap.mem_keys_iff.1 (hi.live snapshot hfound)
    obtain ⟨stores, s', hr', -⟩ := restore_answered hdb env hrev hsnap hs
    rw [hr'] at hrest
    cases hrest
  | @restored snapshot newId b₁ node hres hq hnode hrest =>
    have hi := (hi ((hq.counter_le_of_restore hrest).trans hc)).settle hver hq
    have hfound := restoring_find hres
    rw [← hq.entries] at hfound
    obtain ⟨h1, h2⟩ := hi.restored hdb hfound hrev hsnap hrest hc (.loadFixture fn env)
    refine ⟨h1, ?_⟩
    rintro fn' data ⟨⟩
    exact h2

/-- A fixture that returns is recorded. -/
theorem DataInv.returns (hdb : db.Lawful) {h : List (FixtureEvent F D × Outcome F D)} {b : Process S F D}
    (hr : FixtureRun db name st (fun b ev => sequential b ev = true) h b) (hi : DataInv db name st h b)
    (hcounter : b.node.SNAPSHOT_COUNTER ≤ 2 ^ 53 + 1) {f : Frame F} {running : List (Frame F)}
    (hrun : b.running = f :: running) {a : Attempts} (ha : a.first = .answered) (data : D) :
    (fnReturns db f data a { b with running }).1 = .recorded f.fixture data ∧
      DataInv db name st (h ++ [(.fnReturns data a, .recorded f.fixture data)])
        (fnReturns db f data a { b with running }).2 ∧
      ∃ m, LastRecorded db name st (h ++ [(.fnReturns data a, .recorded f.fixture data)]) f.fixture data m ∧
        SameBindings db (fnReturns db f data a { b with running }).2.node m.node := by
  obtain ⟨hi', hrec, hne⟩ := hi.leave hrun
  have hfix : f.fixture ∉ running.map (·.fixture) := by
    have hn := hi.fixtures.of_append_right
    rw [hrun, List.map_cons, List.nodup_cons] at hn
    exact hn.1
  obtain ⟨h1, -, h2, h3⟩ := hi'.record hdb (show b.node.SNAPSHOT_COUNTER + 2 < 2 ^ 64 by omega) hrec hne hfix ha
    data hr rfl
  exact ⟨h1, h2, h3⟩

/-- A drop takes an id off the node that no entry has. -/
theorem DataInv.drops {h : List (FixtureEvent F D × Outcome F D)} {b : Process S F D} (hi : DataInv db name st h b)
    {id : String} (hid : id ∈ b.sentDrops) : DataInv db name st (h ++ [(.dropArrives id, .silent)])
      { b with node := (exec db b.node (.tre_dropSnapshot (some id))).2 } := by
  refine ⟨hi.inStep.drop hid, hi.supported, hi.records, hi.fixtures, ?_⟩
  intro e he
  obtain ⟨m, hl, hm⟩ := hi.data e he
  refine ⟨m, hl.snoc (by simp), fun s hs => hm s ?_⟩
  rw [exec_dropSnapshot, OrderedMap.get?_remove] at hs
  split at hs
  · cases hs
  · exact hs

/-- What a step of a sequential run keeps, and what a call that returns says. -/
theorem dataInv_step (hdb : db.Lawful) {h : List (FixtureEvent F D × Outcome F D)} {b b' : Process S F D}
    {ev : FixtureEvent F D} {out : Outcome F D} (hr : FixtureRun db name st (fun b ev => sequential b ev = true) h b)
    (hi : b.node.SNAPSHOT_COUNTER ≤ 2 ^ 53 + 1 → DataInv db name st h b) (hok : sequential b ev = true)
    (hs : fixtureStep db name b ev = some (out, b')) (hc : b'.node.SNAPSHOT_COUNTER ≤ 2 ^ 53 + 1) :
    DataInv db name st (h ++ [(ev, out)]) b' ∧ ∀ fn data, out.returned = some (fn, data) →
      ∃ m, LastRecorded db name st (h ++ [(ev, out)]) fn data m ∧ SameBindings db b'.node m.node := by
  cases fixtureStep_effect hs with
  | loaded fn env => exact DataInv.loads hdb hi hok (loadFixture_effect db name fn env b) hc
  | @returned f running data a hrun =>
    have ha : a.first = .answered := by simpa [sequential] using hok
    have hcounter := (fnReturns_counter db f data a { b with running }).trans hc
    obtain ⟨hout, hinv, hlast⟩ := DataInv.returns hdb hr (hi hcounter) hcounter hrun ha data
    rw [hout]
    refine ⟨hinv, ?_⟩
    rintro fn' data' ⟨⟩
    exact hlast
  | @threw f running message hrun => exact ⟨((hi hc).leave hrun).1.snoc (by simp), by simp [Outcome.returned]⟩
  | put nm k v =>
    have hq : Quiet .allAnswered b { b with node := (exec db b.node (.put nm k v)).2 } := .written _ b nm _
    exact ⟨(hi (hq.counter ▸ hc)).quiet rfl hq (by simp), by simp [Outcome.returned]⟩
  | delete nm k =>
    have hq : Quiet .allAnswered b { b with node := (exec db b.node (.delete nm k)).2 } := .written _ b nm _
    exact ⟨(hi (hq.counter ▸ hc)).quiet rfl hq (by simp), by simp [Outcome.returned]⟩
  | dropped hid => exact ⟨(hi hc).drops hid, by simp [Outcome.returned]⟩

theorem dataInv_run (hdb : db.Lawful) {h : List (FixtureEvent F D × Outcome F D)} {b : Process S F D}
    (hr : FixtureRun db name st (fun b ev => sequential b ev = true) h b)
    (hc : b.node.SNAPSHOT_COUNTER ≤ 2 ^ 53 + 1) : DataInv db name st h b := by
  refine Run.inv (fun h b => b.node.SNAPSHOT_COUNTER ≤ 2 ^ 53 + 1 → DataInv db name st h b)
    (fun _ => dataInv_start st) ?_ hr hc
  intro h b ev out b' hr hi hok hs hc
  exact (dataInv_step hdb hr hi hok hs hc).1

/-- In every sequential run of at most `2 ^ 53 + 1` snapshots: each entry of
`_fixtureSnapshots` holds a live id, no two the same; and a call that returns
gives the data of the last recorded run of its fixture, and leaves the four
stores as they were when that run completed. -/
theorem loadFixture_returns_last_run (hdb : db.Lawful) {h : List (FixtureEvent F D × Outcome F D)}
    {b : Process S F D} (hr : FixtureRun db name st (fun b ev => sequential b ev = true) h b)
    (hc : b.node.SNAPSHOT_COUNTER ≤ 2 ^ 53 + 1) :
    (∀ e ∈ b._fixtureSnapshots, e.snapshotId ∈ b.node.SNAPSHOTS.keys) ∧
    (b._fixtureSnapshots.map (·.snapshotId)).Nodup ∧
    ∀ h' ev out fn data, h = h' ++ [(ev, out)] → out.returned = some (fn, data) →
      ∃ m, LastRecorded db name st h fn data m ∧ SameBindings db b.node m.node := by
  have hi := dataInv_run hdb hr hc
  refine ⟨hi.inStep.live, hi.inStep.distinct, ?_⟩
  rintro h' ev out fn data rfl hret
  obtain ⟨b₀, hr₀, hok, hs⟩ := Run.last hr
  exact (dataInv_step hdb hr₀ (dataInv_run hdb hr₀) hok hs hc).2 fn data hret

/-- `loadFixture_returns_last_run` on a run that records a fixture, changes an
account and loads the fixture again: the account is gone. -/
theorem reload_undoes_write :
    ∃ (h : List (FixtureEvent Unit Unit × Outcome Unit Unit)) (b m : Process HashMap Unit Unit),
      FixtureRun memoryDB (fun _ => "fixture") emptyStores (fun b ev => sequential b ev = true) h b ∧
      LastRecorded memoryDB (fun _ => "fixture") emptyStores h () () m ∧ SameBindings memoryDB b.node m.node ∧
      memoryDB.get (b.node.stores.get .accountStore) [1] = none := by
  obtain ⟨⟨h, b⟩, hp⟩ : ∃ p, play (fixtureStep memoryDB fun _ => "fixture") (fun b ev => sequential b ev = true)
    (startProcess emptyStores) ((recordAndReload quietEnv).take 3) = some p := ⟨_, rfl⟩
  obtain ⟨rfl, rfl⟩ := Prod.mk.inj (Option.some.inj hp)
  have hr : FixtureRun memoryDB (fun _ => "fixture") emptyStores _ _ _ :=
    .snoc (.loadFixture () quietEnv) (Run.of_play hp) rfl rfl
  obtain ⟨-, -, hret⟩ := loadFixture_returns_last_run memoryDB_lawful hr (by decide)
  obtain ⟨m, hm, hsame⟩ := hret _ (.loadFixture () quietEnv) (.restored () ()) () () rfl rfl
  exact ⟨_, _, m, hr, hm, hsame, by decide⟩

/-! ## Past `2 ^ 53` -/

/-- The dump of four empty stores. -/
def emptyEntry : SnapshotEntry := ⟨.empty, .empty, .empty, .empty, .empty, .empty⟩

/-- The fixture `false` was recorded, and restored `k` times. -/
def reloaded (k : ℕ) : Process HashMap Bool Unit where
  node := ⟨emptyStores, OrderedMap.empty.put (snapshotId (k + 1)) emptyEntry, k + 1⟩
  _fixtureSnapshots := [⟨snapshotId (k + 1), false, ()⟩]
  _snapshotSupported := some true
  _cachedSigners := true
  running := []
  sentDrops := []

def reload : List (FixtureEvent Bool Unit × Outcome Bool Unit) := [(.loadFixture false quietEnv, .restored false ())]

theorem exec_revert_singleton (id : String) (c : ℕ) :
    exec memoryDB ⟨emptyStores, OrderedMap.empty.put id emptyEntry, c⟩ (.tre_revert (some id)) =
      (.bool true, ⟨emptyStores, .empty, c⟩) := by
  have hget : (OrderedMap.empty.put id emptyEntry).get? id = some emptyEntry := by simp
  have hdrop : dropFrom (OrderedMap.empty.put id emptyEntry) id = .empty := by
    apply OrderedMap.ext
    simp [dropFrom, dropTail_eq, OrderedMap.put, OrderedMap.empty]
  have hstores : restoreStores memoryDB emptyEntry emptyStores = .ok () emptyStores := rfl
  simp only [exec, revert, hget, hdrop, hstores, reply]

theorem exec_snapshot_empty (m : OrderedMap String SnapshotEntry) (c : ℕ) :
    exec memoryDB ⟨emptyStores, m, c⟩ .tre_snapshot =
      (.id (snapshotId (c + 1)), ⟨emptyStores, m.put (snapshotId (c + 1)) emptyEntry, c + 1⟩) := by
  have hdump : dumpStores memoryDB emptyStores = .ok emptyEntry emptyStores := rfl
  simp only [exec, snapshot, hdump, reply]

theorem restore_reloaded (k : ℕ) :
    restore memoryDB quietEnv (snapshotId (k + 1)) (reloaded k).node =
      (.ok (snapshotId (k + 2)), (reloaded (k + 1)).node) := by
  have hrev : rpcCall (fun n => exec memoryDB n (.tre_revert (some (snapshotId (k + 1))))) quietEnv.revert
      (reloaded k).node = (.ok (.bool true), ⟨emptyStores, .empty, k + 1⟩) :=
    (rpcCall_executedOnce rfl).trans (by rw [reloaded, exec_revert_singleton])
  have hsnap : rpcCall (fun n => exec memoryDB n .tre_snapshot) quietEnv.snapshot ⟨emptyStores, .empty, k + 1⟩ =
      (.ok (.id (snapshotId (k + 2))), (reloaded (k + 1)).node) :=
    (rpcCall_executedOnce rfl).trans (by rw [exec_snapshot_empty, reloaded])
  rw [restore, hrev]
  dsimp only
  rw [_takeSnapshot, hsnap]

/-- A process with its signers and its probe behind it goes straight to the restore. -/
theorem loadFixture_ready {b : Process S F D} {fn : F} {env : LoadEnv} {snapshot : FixtureSnapshot F D}
    {newId : String} {node : TreNode S} (hname : name fn ≠ "") (hs : b._cachedSigners = true)
    (hv : b._snapshotSupported = some true) (hf : b._fixtureSnapshots.find? (·.fixture = fn) = some snapshot)
    (hr : restore db env snapshot.snapshotId b.node = (.ok newId, node)) :
    loadFixture db name fn env b = (.restored fn snapshot.data, { b with
      node
      _fixtureSnapshots := keptEntries fn newId b._fixtureSnapshots
      sentDrops := b.sentDrops ++ (evictedEntries fn b._fixtureSnapshots).map (·.snapshotId) }) := by
  simp only [loadFixture, if_neg hname, makeSigners, hs, if_true, _supportsSnapshot, hv, hf, hr]

theorem reload_run (k : ℕ) :
    Run (fixtureStep memoryDB fun _ => "fixture") (fun b ev => sequential b ev = true) (reloaded k) reload
      (reloaded (k + 1)) := by
  refine .snoc (FixtureEvent.loadFixture false quietEnv) .nil rfl ?_
  have hload : loadFixture memoryDB (fun _ => "fixture") false quietEnv (reloaded k) =
      (.restored false (), reloaded (k + 1)) := by
    have hfind : (reloaded k)._fixtureSnapshots.find? (·.fixture = false) = some ⟨snapshotId (k + 1), false, ()⟩ := rfl
    rw [loadFixture_ready (by simp) rfl rfl hfind (restore_reloaded k)]
    simp [keptEntries, evictedEntries, reloaded]
  rw [fixtureStep, hload]

/-- Both fixtures are recorded, `true` right after the `k`-th restore of `false`. -/
def bothRecorded (k : ℕ) : Process HashMap Bool Unit :=
  { reloaded k with
    node := ⟨emptyStores, (reloaded k).node.SNAPSHOTS.put (snapshotId (k + 2)) emptyEntry, k + 2⟩
    _fixtureSnapshots := [⟨snapshotId (k + 1), false, ()⟩, ⟨snapshotId (k + 2), true, ()⟩] }

/-- The run of a fixture that is not in the list and returns at once. -/
def recordNew (fn : Bool) : List (FixtureEvent Bool Unit × Outcome Bool Unit) :=
  [(.loadFixture fn quietEnv, .entered fn), (.fnReturns () .allAnswered, .recorded fn ())]

theorem recordNew_start :
    Run (fixtureStep memoryDB fun _ => "fixture") (fun b ev => sequential b ev = true) (startProcess emptyStores)
      (recordNew false) (reloaded 0) := by
  refine Run.append (g := [_]) (.snoc (FixtureEvent.loadFixture false quietEnv) .nil rfl rfl)
    (.snoc (FixtureEvent.fnReturns () .allAnswered) .nil rfl ?_)
  rfl

theorem recordNew_run (k : ℕ) :
    Run (fixtureStep memoryDB fun _ => "fixture") (fun b ev => sequential b ev = true) (reloaded k)
      (recordNew true) (bothRecorded k) := by
  have hload : loadFixture memoryDB (fun _ => "fixture") true quietEnv (reloaded k) =
      (.entered true, { reloaded k with running := [⟨true, true⟩] }) := rfl
  have hsnap : rpcCall (fun n => exec memoryDB n .tre_snapshot) .allAnswered (reloaded k).node =
      (.ok (.id (snapshotId (k + 2))), (bothRecorded k).node) :=
    (rpcCall_executedOnce rfl).trans (by rw [reloaded, exec_snapshot_empty]; rfl)
  have hreturn : fnReturns memoryDB ⟨true, true⟩ () .allAnswered (reloaded k) =
      (.recorded true (), bothRecorded k) := by
    simp only [fnReturns, _takeSnapshot, hsnap, Bool.not_true, Bool.false_eq_true, if_false]
    rfl
  exact Run.append (g := [_]) (.snoc (FixtureEvent.loadFixture true quietEnv) .nil rfl (congrArg some hload))
    (.snoc (FixtureEvent.fnReturns () .allAnswered) .nil rfl (congrArg some hreturn))

/-- Restoring the older of two fixtures whose ids are the same double. -/
theorem restore_bothRecorded {k : ℕ} (hk : k + 2 < 2 ^ 64) (hd : toDouble (k + 2) = toDouble (k + 1)) :
    ∃ b, loadFixture memoryDB (fun _ => "fixture") false quietEnv (bothRecorded k) = (.restored false (), b) ∧
      ⟨snapshotId (k + 2), true, ()⟩ ∈ b._fixtureSnapshots ∧ b.node.SNAPSHOTS.keys = [snapshotId (k + 3)] := by
  have hold : numberOfHex (snapshotId (k + 1)) = some (toDouble (k + 1)) := numberOfHex_snapshotId (by omega)
  have hnew : numberOfHex (snapshotId (k + 2)) = some (toDouble (k + 1)) := by
    rw [numberOfHex_snapshotId hk, hd]
  have hne : snapshotId (k + 2) ≠ snapshotId (k + 1) := by
    intro h
    have := snapshotId_inj h
    omega
  have hkeys : (bothRecorded k).node.SNAPSHOTS.entries =
      [(snapshotId (k + 1), emptyEntry), (snapshotId (k + 2), emptyEntry)] := by
    have h1 : (OrderedMap.empty.put (snapshotId (k + 1)) emptyEntry).entries = [(snapshotId (k + 1), emptyEntry)] :=
      OrderedMap.entries_put_of_not_mem (by simp) _
    rw [bothRecorded, OrderedMap.entries_put_of_not_mem]
    · rw [reloaded, h1]
      rfl
    · rw [reloaded, OrderedMap.keys, h1]
      simpa using hne
  have hs : (bothRecorded k).node.SNAPSHOTS.get? (snapshotId (k + 1)) = some emptyEntry := by
    rw [OrderedMap.get?_eq_some_iff, hkeys]
    simp
  have hdrop : dropFrom (bothRecorded k).node.SNAPSHOTS (snapshotId (k + 1)) = .empty := by
    apply OrderedMap.ext
    simp [dropFrom, dropTail_eq, hkeys, OrderedMap.empty]
  obtain ⟨stores, s', hres, -⟩ := restore_answered memoryDB_lawful quietEnv rfl rfl hs
  rw [hdrop] at hres
  refine ⟨_, loadFixture_ready (by simp) rfl rfl rfl hres, ?_, ?_⟩
  · simp [keptEntries, bothRecorded, hold, hnew, numberLe]
  · rw [OrderedMap.keys_put_of_not_mem (by simp)]
    rfl

/-- Record `false`, restore it until its id is `2 ^ 53`, record `true`, and restore `false`. -/
theorem entry_dead_past_two_pow_53 :
    ∃ (h : List (FixtureEvent Bool Unit × Outcome Bool Unit)) (b : Process HashMap Bool Unit),
      FixtureRun memoryDB (fun _ => "fixture") emptyStores (fun b ev => sequential b ev = true) h b ∧
      ∃ e ∈ b._fixtureSnapshots, e.snapshotId ∉ b.node.SNAPSHOTS.keys := by
  have hrounds := Run.rounds (f := reloaded) (e := fun _ => reload) (2 ^ 53 - 1) fun k _ => reload_run k
  obtain ⟨b, hload, hmem, hkeys⟩ := restore_bothRecorded (k := 2 ^ 53 - 1) (by omega)
    (show toDouble (2 ^ 53 + 1) = toDouble (2 ^ 53) by rw [toDouble_two_pow_53_succ, toDouble_two_pow_53])
  have hr := ((recordNew_start.append hrounds).append (recordNew_run _)).snoc (FixtureEvent.loadFixture false quietEnv)
    rfl (congrArg some hload)
  refine ⟨_, _, hr, _, hmem, ?_⟩
  rw [hkeys, List.mem_singleton]
  intro h
  have := snapshotId_inj h
  omega

end HardhatTron

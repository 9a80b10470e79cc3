import HardhatTron.Node.SnapshotIds
import HardhatTron.Runtime.Fixtures
/-!
# What one call of `loadFixture` does

`LoadEffect` lists the ways a call can go, so the theorems about fixtures are
case analyses over it and do not look at the code again. The last sections say
what the RPCs of a restore leave on the node, and what the restore leaves of the
list.
-/
namespace HardhatTron

open Lib Lib.Mark

variable {S F D : Type} {db : IRevokingDB S}

/-! ## Steps that touch no snapshot -/

/-- Between `b` and `b'` only the stores, the signers and the probe's result changed. -/
structure Quiet (version : Attempts) (b b' : Process S F D) : Prop where
  snapshots : b'.node.SNAPSHOTS = b.node.SNAPSHOTS
  counter : b'.node.SNAPSHOT_COUNTER = b.node.SNAPSHOT_COUNTER
  entries : b'._fixtureSnapshots = b._fixtureSnapshots
  running : b'.running = b.running
  drops : b'.sentDrops = b.sentDrops
  supported : b'._snapshotSupported = b._snapshotSupported ∨
    (b._snapshotSupported = none ∧ b'._snapshotSupported = some (version.last == .answered))

theorem Quiet.trans {v : Attempts} {b b' b'' : Process S F D} (h : Quiet v b b') (h' : Quiet v b' b'') :
    Quiet v b b'' where
  snapshots := h'.snapshots.trans h.snapshots
  counter := h'.counter.trans h.counter
  entries := h'.entries.trans h.entries
  running := h'.running.trans h.running
  drops := h'.drops.trans h.drops
  supported := by
    rcases h.supported with h1 | ⟨h1, h2⟩
    · rcases h'.supported with h3 | ⟨h3, h4⟩
      · exact .inl (h3.trans h1)
      · exact .inr ⟨h1 ▸ h3, h4⟩
    · rcases h'.supported with h3 | ⟨h3, h4⟩
      · exact .inr ⟨h1, h3.trans h2⟩
      · exact .inr ⟨h1, h4⟩

theorem fund_snapshots (db : IRevokingDB S) (f : Funding) (n : TreNode S) :
    (fund db f n).2.SNAPSHOTS = n.SNAPSHOTS ∧ (fund db f n).2.SNAPSHOT_COUNTER = n.SNAPSHOT_COUNTER := by
  obtain ⟨writes, error⟩ := f
  unfold fund
  induction writes generalizing n with
  | nil => exact ⟨rfl, rfl⟩
  | cons w ws ih =>
    obtain ⟨h1, h2⟩ := ih (exec db n (.put .accountStore w.1 w.2)).2
    exact ⟨h1.trans (writeStore_SNAPSHOTS _ _ _), h2.trans (writeStore_SNAPSHOT_COUNTER _ _ _)⟩

theorem Quiet.refl (v : Attempts) (b : Process S F D) : Quiet v b b := ⟨rfl, rfl, rfl, rfl, rfl, .inl rfl⟩

/-- Funding accounts is quiet. -/
theorem Quiet.funded (db : IRevokingDB S) (v : Attempts) (f : Funding) (b : Process S F D) (signers : Bool) :
    Quiet v b { b with node := (fund db f b.node).2, _cachedSigners := signers } :=
  ⟨(fund_snapshots db f b.node).1, (fund_snapshots db f b.node).2, rfl, rfl, rfl, .inl rfl⟩

/-- So is a write of a test body. -/
theorem Quiet.written (v : Attempts) (b : Process S F D) (name : StoreName) (m : EStateM String S Unit) :
    Quiet v b { b with node := (writeStore b.node name m).2 } :=
  ⟨writeStore_SNAPSHOTS _ _ _, writeStore_SNAPSHOT_COUNTER _ _ _, rfl, rfl, rfl, .inl rfl⟩

theorem makeSigners_quiet (db : IRevokingDB S) (v : Attempts) (f : Funding) (b : Process S F D) :
    Quiet v b (makeSigners db f b).2 ∧ (makeSigners db f b).2._snapshotSupported = b._snapshotSupported := by
  unfold makeSigners
  split
  · exact ⟨.refl v b, rfl⟩
  · have hq := fun c => Quiet.funded db v f b c
    split
    · rename_i h
      rw [h] at hq
      exact ⟨hq _, rfl⟩
    · rename_i h
      rw [h] at hq
      exact ⟨hq true, rfl⟩

theorem refundSigners_quiet (db : IRevokingDB S) (v : Attempts) (f : Funding) (b : Process S F D) :
    Quiet v b (refundSigners db f b).2 ∧ (refundSigners db f b).2._snapshotSupported = b._snapshotSupported := by
  unfold refundSigners
  split
  · exact ⟨.refl v b, rfl⟩
  · have hq := fun c => Quiet.funded db v f b c
    split
    · rename_i h
      rw [h] at hq
      exact ⟨hq _, rfl⟩
    · rename_i h
      rw [h] at hq
      exact ⟨hq b._cachedSigners, rfl⟩

theorem isPatched_version : isPatched version = true := by decide

/-- The probe's answer is remembered, and is `true` exactly when it arrived. -/
theorem _supportsSnapshot_eq (a : Attempts) (b : Process S F D) :
    _supportsSnapshot a b = (b._snapshotSupported.getD (a.last == .answered),
      { b with _snapshotSupported := some (b._snapshotSupported.getD (a.last == .answered)) }) := by
  obtain ⟨node, entries, supported, signers, running, drops⟩ := b
  unfold _supportsSnapshot
  cases supported with
  | some s => rfl
  | none =>
    simp only [rpcCall_eq, Option.getD_none]
    cases a.last with
    | answered => simp [request, isPatched_version]
    | fetchThrows ex e => simp [request]
    | bodyThrows ex e => simp [request]

/-! ## The ways a call can go -/

section
variable [DecidableEq F]

/-- The entry `loadFixture(fn)` restores, if it gets as far as restoring one. -/
def restoring (db : IRevokingDB S) (name : F → String) (fn : F) (env : LoadEnv) (b : Process S F D) :
    Option (FixtureSnapshot F D) :=
  if name fn = "" then none
  else
    match (makeSigners db env.makeSigners b).1 with
    | .error _ => none
    | .ok () =>
      if (_supportsSnapshot env.version b).1 then b._fixtureSnapshots.find? (·.fixture = fn) else none

theorem restoring_find {name : F → String} {fn : F} {env : LoadEnv} {b : Process S F D}
    {snapshot : FixtureSnapshot F D} (h : restoring db name fn env b = some snapshot) :
    b._fixtureSnapshots.find? (·.fixture = fn) = some snapshot := by
  unfold restoring at h
  split at h
  · cases h
  · split at h
    · cases h
    · split at h
      · exact h
      · cases h

/-- The node when a restore sends its `tre_revert`. -/
def nodeAtRestore (db : IRevokingDB S) (env : LoadEnv) (b : Process S F D) : TreNode S :=
  (makeSigners db env.makeSigners b).2.node

inductive LoadEffect (db : IRevokingDB S) (name : F → String) (fn : F) (env : LoadEnv) (b : Process S F D) :
    Outcome F D → Process S F D → Prop
  | threw (e : FixtureError) {b'} : restoring db name fn env b = none → Quiet env.version b b' →
      LoadEffect db name fn env b (.threw fn e) b'
  | entered (record : Bool) {b'} : restoring db name fn env b = none → Quiet env.version b b' →
      b'._snapshotSupported = some record →
      (record = true → b._fixtureSnapshots.find? (·.fixture = fn) = none) →
      LoadEffect db name fn env b (.entered fn) { b' with running := ⟨fn, record⟩ :: b'.running }
  | restoreFailed (snapshot : FixtureSnapshot F D) (e : FixtureError) {b₁ node} :
      restoring db name fn env b = some snapshot → Quiet env.version b b₁ → b₁.node = nodeAtRestore db env b →
      restore db env snapshot.snapshotId b₁.node = (.error e, node) →
      LoadEffect db name fn env b (.threw fn e) { b₁ with node }
  | restored (snapshot : FixtureSnapshot F D) (newId : String) {b₁ node} :
      restoring db name fn env b = some snapshot → Quiet env.version b b₁ → b₁.node = nodeAtRestore db env b →
      restore db env snapshot.snapshotId b₁.node = (.ok newId, node) →
      LoadEffect db name fn env b (.restored fn snapshot.data)
        { b₁ with
          node
          _fixtureSnapshots := keptEntries fn newId b₁._fixtureSnapshots
          sentDrops := b₁.sentDrops ++ (evictedEntries fn b₁._fixtureSnapshots).map (·.snapshotId) }

theorem loadFixture_effect (db : IRevokingDB S) (name : F → String) (fn : F) (env : LoadEnv) (b : Process S F D) :
    LoadEffect db name fn env b (loadFixture db name fn env b).1 (loadFixture db name fn env b).2 := by
  unfold loadFixture
  split
  · rename_i hname
    exact .threw _ (by rw [restoring, if_pos hname]) (.refl _ b)
  · rename_i hname
    obtain ⟨hq, hs⟩ := makeSigners_quiet db env.version env.makeSigners b
    split
    · rename_i e b₀ hm
      rw [hm] at hq
      exact .threw _ (by rw [restoring, if_neg hname, hm]) hq
    · rename_i b₀ hm
      rw [hm] at hq hs
      have hsup := _supportsSnapshot_eq env.version b₀
      have hq₁ : Quiet env.version b (_supportsSnapshot env.version b₀).2 := by
        apply hq.trans
        rw [hsup]
        refine ⟨rfl, rfl, rfl, rfl, rfl, ?_⟩
        cases b₀._snapshotSupported with
        | some s => exact .inl rfl
        | none => exact .inr ⟨rfl, rfl⟩
      have hrec : (_supportsSnapshot env.version b₀).2._snapshotSupported =
          some (_supportsSnapshot env.version b₀).1 := by rw [hsup]
      have hsame : (_supportsSnapshot env.version b).1 = (_supportsSnapshot env.version b₀).1 := by
        rw [hsup, _supportsSnapshot_eq, ← hs]
      have hnode : (_supportsSnapshot env.version b₀).2.node = nodeAtRestore db env b := by
        rw [hsup, nodeAtRestore, hm]
      have hres : restoring db name fn env b = if (_supportsSnapshot env.version b).1 = true then
          b._fixtureSnapshots.find? (·.fixture = fn) else none := by rw [restoring, if_neg hname, hm]
      rw [hsame] at hres
      split
      · rename_i b₁ h1
        rw [h1] at hq₁ hrec hres
        exact .entered false hres hq₁ hrec (by simp)
      · rename_i b₁ h1
        rw [h1, if_pos rfl] at hres
        rw [h1] at hq₁ hrec hnode
        split
        · rename_i hf
          rw [hq₁.entries] at hf
          rw [hf] at hres
          obtain ⟨hq₂, hs₂⟩ := refundSigners_quiet db env.version env.refundSigners b₁
          split
          · rename_i e b₂ h2
            rw [h2] at hq₂
            exact .threw _ hres (hq₁.trans hq₂)
          · rename_i b₂ h2
            rw [h2] at hq₂ hs₂
            exact .entered true hres (hq₁.trans hq₂) (hs₂.trans hrec) fun _ => hf
        · rename_i snapshot hf
          rw [hq₁.entries] at hf
          rw [hf] at hres
          split
          · rename_i e node h2
            exact .restoreFailed snapshot e hres hq₁ hnode h2
          · rename_i newId node h2
            exact .restored snapshot newId hres hq₁ hnode h2

/-- What an event of the process does. -/
inductive FixtureEffect (db : IRevokingDB S) (name : F → String) (b : Process S F D) :
    FixtureEvent F D → Outcome F D → Process S F D → Prop
  | loaded (fn : F) (env : LoadEnv) :
      FixtureEffect db name b (.loadFixture fn env) (loadFixture db name fn env b).1 (loadFixture db name fn env b).2
  | returned {f : Frame F} {running : List (Frame F)} (data : D) (a : Attempts) : b.running = f :: running →
      FixtureEffect db name b (.fnReturns data a) (fnReturns db f data a { b with running }).1
        (fnReturns db f data a { b with running }).2
  | threw {f : Frame F} {running : List (Frame F)} (message : String) : b.running = f :: running →
      FixtureEffect db name b (.fnThrows message) (.threw f.fixture (.fixture message)) { b with running }
  | put (nm : StoreName) (k v : Bytes) :
      FixtureEffect db name b (.put nm k v) .silent { b with node := (exec db b.node (.put nm k v)).2 }
  | delete (nm : StoreName) (k : Bytes) :
      FixtureEffect db name b (.delete nm k) .silent { b with node := (exec db b.node (.delete nm k)).2 }
  | dropped {id : String} : id ∈ b.sentDrops → FixtureEffect db name b (.dropArrives id) .silent
      { b with node := (exec db b.node (.tre_dropSnapshot (some id))).2 }

theorem fixtureStep_effect {name : F → String} {b b' : Process S F D} {ev : FixtureEvent F D} {out : Outcome F D}
    (hs : fixtureStep db name b ev = some (out, b')) : FixtureEffect db name b ev out b' := by
  cases ev with
  | loadFixture fn env =>
    obtain ⟨rfl, rfl⟩ := Prod.mk.inj (Option.some.inj hs)
    exact .loaded fn env
  | fnReturns data a =>
    simp only [fixtureStep] at hs
    split at hs
    · cases hs
    · rename_i f running hrun
      obtain ⟨rfl, rfl⟩ := Prod.mk.inj (Option.some.inj hs)
      exact .returned data a hrun
  | fnThrows message =>
    simp only [fixtureStep] at hs
    split at hs
    · cases hs
    · rename_i f running hrun
      obtain ⟨rfl, rfl⟩ := Prod.mk.inj (Option.some.inj hs)
      exact .threw message hrun
  | put nm k v =>
    obtain ⟨rfl, rfl⟩ := Prod.mk.inj (Option.some.inj hs)
    exact .put nm k v
  | delete nm k =>
    obtain ⟨rfl, rfl⟩ := Prod.mk.inj (Option.some.inj hs)
    exact .delete nm k
  | dropArrives id =>
    simp only [fixtureStep] at hs
    split at hs
    · rename_i hid
      obtain ⟨rfl, rfl⟩ := Prod.mk.inj (Option.some.inj hs)
      exact .dropped hid
    · cases hs

end

/-! ## What the RPCs of a restore leave -/

section
variable {n : TreNode S}

/-- `tre_snapshot`, whatever its requests meet, only adds snapshots; the id it
returns is live and new. -/
theorem _takeSnapshot_extends (db : IRevokingDB S) (a : Attempts) (h : IdsOrdered n)
    (hc : n.SNAPSHOT_COUNTER + 2 < 2 ^ 64) :
    Extends n (_takeSnapshot db a n).2 ∧
      ∀ i, (_takeSnapshot db a n).1 = .ok i → i ∈ (_takeSnapshot db a n).2.SNAPSHOTS.keys ∧ ¬ Issued n i := by
  obtain ⟨n₁, hn₁, he₁, hc₁⟩ : ∃ n₁, n₁ = (if a.executedThenRetried then (exec db n .tre_snapshot).2 else n) ∧
      Extends n n₁ ∧ n₁.SNAPSHOT_COUNTER ≤ n.SNAPSHOT_COUNTER + 1 := by
    refine ⟨_, rfl, ?_⟩
    obtain ⟨h1, h2, -⟩ := exec_snapshot_extends db h (by omega)
    split
    · exact ⟨h1, h2⟩
    · exact ⟨.refl h, Nat.le_succ _⟩
  obtain ⟨he₂, -, hid⟩ := exec_snapshot_extends db he₁.ids (by omega)
  have hstate : Extends n (rpcCall (fun n => exec db n .tre_snapshot) a n).2 := by
    rw [rpcCall_eq, ← hn₁]
    cases a.last with
    | answered => exact he₁.trans he₂
    | fetchThrows ex e => cases ex; exacts [he₁, he₁.trans he₂]
    | bodyThrows ex e => cases ex; exacts [he₁, he₁.trans he₂]
  unfold _takeSnapshot
  split
  · rename_i e n' heq
    rw [heq] at hstate
    exact ⟨hstate, by simp⟩
  · rename_i i n' heq
    obtain ⟨-, hex⟩ := rpcCall_ok_iff.1 heq
    rw [heq] at hstate
    refine ⟨hstate, ?_⟩
    rintro j ⟨⟩
    rw [← hn₁] at hex
    obtain ⟨hlive, hnew⟩ := hid i (by rw [hex])
    rw [hex] at hlive
    exact ⟨hlive, fun hi => hnew (he₁.issued hi)⟩
  · rename_i r n' hr heq
    rw [heq] at hstate
    exact ⟨hstate, by simp⟩

theorem _takeSnapshot_counter (db : IRevokingDB S) (a : Attempts) (n : TreNode S) :
    n.SNAPSHOT_COUNTER ≤ (_takeSnapshot db a n).2.SNAPSHOT_COUNTER := by
  have hcall := rpcCall_state (f := fun n => exec db n .tre_snapshot) (a := a) (n := n)
    (fun m => n.SNAPSHOT_COUNTER ≤ m.SNAPSHOT_COUNTER) (fun m hm => hm.trans (exec_counter db m _)) (Nat.le_refl _)
  unfold _takeSnapshot
  split <;> rename_i heq <;> rw [heq] at hcall <;> exact hcall

theorem restore_counter (db : IRevokingDB S) (env : LoadEnv) (id : String) (n : TreNode S) :
    n.SNAPSHOT_COUNTER ≤ (restore db env id n).2.SNAPSHOT_COUNTER := by
  have hcall := rpcCall_state (f := fun n => exec db n (.tre_revert (some id))) (a := env.revert) (n := n)
    (fun m => n.SNAPSHOT_COUNTER ≤ m.SNAPSHOT_COUNTER) (fun m hm => hm.trans (exec_counter db m _)) (Nat.le_refl _)
  unfold restore
  split
  · rename_i heq
    rw [heq] at hcall
    exact hcall
  · rename_i heq
    rw [heq] at hcall
    exact hcall
  · rename_i heq
    rw [heq] at hcall
    exact hcall.trans (_takeSnapshot_counter db env.snapshot _)

theorem Quiet.counter_le_of_restore {v : Attempts} {b b₁ : Process S F D} (hq : Quiet v b b₁) {env : LoadEnv}
    {id : String} {r : Except FixtureError String} {node : TreNode S} (hr : restore db env id b₁.node = (r, node)) :
    b.node.SNAPSHOT_COUNTER ≤ node.SNAPSHOT_COUNTER := by
  have hcount := restore_counter db env id b₁.node
  rw [hr, hq.counter] at hcount
  exact hcount

/-- The `tre_revert` of a restore never reached the node, or it was carried out
once and answered, and the `tre_snapshot` after it answered with an id. -/
def restoreSafe (db : IRevokingDB S) (env : LoadEnv) (id : String) (n : TreNode S) : Bool :=
  env.revert.neverExecuted ||
    (env.revert.executedOnce && (exec db n (.tre_revert (some id))).1 == .bool true &&
      (_takeSnapshot db env.snapshot (exec db n (.tre_revert (some id))).2).1.isOk)

theorem restoreSafe_iff {env : LoadEnv} {id : String} : restoreSafe db env id n = true ↔
    env.revert.neverExecuted = true ∨
      (env.revert.executedOnce = true ∧ (exec db n (.tre_revert (some id))).1 = .bool true ∧
        ∃ i n', _takeSnapshot db env.snapshot (exec db n (.tre_revert (some id))).2 = (.ok i, n')) := by
  have hok : ∀ r : Except FixtureError String × TreNode S, r.1.isOk = true ↔ ∃ i n', r = (.ok i, n') := by
    rintro ⟨r, n'⟩
    cases r with
    | ok i => simp [Except.isOk, Except.toBool]
    | error e => simp [Except.isOk, Except.toBool]
  simp only [restoreSafe, Bool.or_eq_true, Bool.and_eq_true, beq_iff_eq, hok, and_assoc]

/-- A restore that returns is a safe one. -/
theorem restore_ok {env : LoadEnv} {id newId : String} {n' : TreNode S} (h : IdsOrdered n)
    (hr : restore db env id n = (.ok newId, n')) :
    env.revert.executedOnce = true ∧ (exec db n (.tre_revert (some id))).1 = .bool true ∧
      _takeSnapshot db env.snapshot (exec db n (.tre_revert (some id))).2 = (.ok newId, n') := by
  unfold restore at hr
  split at hr
  · cases hr
  · cases hr
  · rename_i r n₁ hne heq
    obtain ⟨hlast, hex⟩ := rpcCall_ok_iff.1 heq
    -- had the lost request been executed, the id would be unknown to the second one
    have hlost : env.revert.executedThenRetried = false := by
      by_contra hx
      rw [Bool.not_eq_false] at hx
      rw [hx, if_pos rfl] at hex
      obtain ⟨-, hdead, -⟩ := exec_revert_ids db h id
      rw [exec_revert_unknown hdead] at hex
      exact hne _ (Prod.mk.inj hex).1.symm
    rw [hlost, if_neg (by simp)] at hex
    rw [hex]
    refine ⟨by simp [Attempts.executedOnce, hlast, hlost], ?_, hr⟩
    rcases exec_revert_cases db n id with ⟨-, -, he⟩ | ⟨-, st, -, he | ⟨m, he⟩⟩
    · rw [hex] at he
      exact (hne _ he).elim
    · rw [hex] at he
      exact he
    · rw [hex] at he
      exact (hne _ he).elim

theorem restore_of_safe {env : LoadEnv} {id : String} (hs : restoreSafe db env id n = true) :
    (∃ e, restore db env id n = (.error e, n)) ∨ ∃ newId n', restore db env id n = (.ok newId, n') := by
  rcases restoreSafe_iff.1 hs with hnever | ⟨honce, htrue, i, n', htake⟩
  · obtain ⟨e, he⟩ := rpcCall_neverExecuted (f := fun n => exec db n (.tre_revert (some id))) (n := n) hnever
    exact .inl ⟨.fetch e, by rw [restore, he]⟩
  · have hcall := rpcCall_executedOnce (f := fun n => exec db n (.tre_revert (some id))) (n := n) honce
    simp only [htrue] at hcall
    exact .inr ⟨i, n', by rw [restore, hcall]; exact htake⟩

/-- Any other restore throws, and the restorer is left with a dead id. -/
theorem restore_unsafe {env : LoadEnv} {id : String} (h : IdsOrdered n) (hid : Issued n id)
    (hc : n.SNAPSHOT_COUNTER + 2 < 2 ^ 64) (hs : restoreSafe db env id n = false) :
    ∃ e n', restore db env id n = (.error e, n') ∧ id ∉ n'.SNAPSHOTS.keys := by
  have hexecuted : env.revert.neverExecuted = false := by
    rw [← Bool.not_eq_true]
    intro hn
    have hsafe : restoreSafe db env id n = true := restoreSafe_iff.2 (.inl hn)
    rw [hs] at hsafe
    cases hsafe
  obtain ⟨hi₁, hd₁, hc₁⟩ := exec_revert_ids db h id
  obtain ⟨hi₂, hd₂, hc₂⟩ := exec_revert_ids db hi₁ id
  have hstate : ∀ r n₁, rpcCall (fun n => exec db n (.tre_revert (some id))) env.revert n = (r, n₁) →
      IdsOrdered n₁ ∧ id ∉ n₁.SNAPSHOTS.keys ∧ n₁.SNAPSHOT_COUNTER = n.SNAPSHOT_COUNTER := by
    intro r n₁ heq
    have hn₁ := rpcCall_executed (f := fun n => exec db n (.tre_revert (some id))) (n := n) hexecuted
    rw [heq] at hn₁
    rcases hn₁ with rfl | rfl
    · exact ⟨hi₁, hd₁, hc₁⟩
    · exact ⟨hi₂, hd₂, hc₂.trans hc₁⟩
  cases hr : restore db env id n with
  | mk r n' =>
    cases r with
    | ok newId =>
      obtain ⟨honce, htrue, htake⟩ := restore_ok h hr
      have hsafe : restoreSafe db env id n = true := restoreSafe_iff.2 (.inr ⟨honce, htrue, newId, n', htake⟩)
      rw [hs] at hsafe
      cases hsafe
    | error e =>
      refine ⟨e, n', rfl, ?_⟩
      unfold restore at hr
      split at hr
      · rename_i e' n₁ heq
        cases hr
        exact (hstate _ _ heq).2.1
      · rename_i e' n₁ heq
        cases hr
        exact (hstate _ _ heq).2.1
      · -- the `tre_snapshot` failed: what it may have added is not `id`
        rename_i r n₁ hne heq
        obtain ⟨hi, hdead, hcount⟩ := hstate _ _ heq
        obtain ⟨hext, -⟩ := _takeSnapshot_extends db env.snapshot hi (by omega)
        rw [hr] at hext
        exact fun hm => hdead (hext.fresh id hm ⟨hcount ▸ hid.1, hid.2⟩)

end

end HardhatTron

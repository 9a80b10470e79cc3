import HardhatTron.Runtime.FixtureEffects
/-!
# Do the recorded fixtures stay restorable?

`InStep` says that the client's list and the node's snapshots agree: every entry
holds a live id of its own. A restore that goes wrong between its `tre_revert`
and its `tre_snapshot` breaks it, and no other step does: `entries_live` covers
the runs without such a restore, `restore_keeps_live_iff` says which restores
they are, and `entry_dead_after_lost_snapshot` is a run with one.
-/
namespace HardhatTron

open Lib Lib.Mark

variable {S F D : Type} {db : IRevokingDB S} {name : F → String} {st : Stores S}

/-- The list of fixtures is in step with the node. -/
structure InStep (b : Process S F D) : Prop where
  ids : IdsOrdered b.node
  live : ∀ e ∈ b._fixtureSnapshots, e.snapshotId ∈ b.node.SNAPSHOTS.keys
  distinct : (b._fixtureSnapshots.map (·.snapshotId)).Nodup
  drops : ∀ i ∈ b.sentDrops, Issued b.node i ∧ ∀ e ∈ b._fixtureSnapshots, e.snapshotId ≠ i

theorem InStep.issued {b : Process S F D} (h : InStep b) : ∀ e ∈ b._fixtureSnapshots, Issued b.node e.snapshotId :=
  fun e he => h.ids.issued _ (h.live e he)

theorem inStep_start (st : Stores S) : InStep (startProcess st : Process S F D) where
  ids := idsOrdered_start st
  live := by simp [startProcess]
  distinct := by simp [startProcess]
  drops := by simp [startProcess]

/-! ## Steps that keep the list -/

/-- Taking snapshots, or none, keeps a list in step. -/
theorem InStep.extend {b b' : Process S F D} (h : InStep b) (hn : Extends b.node b'.node)
    (he : b'._fixtureSnapshots = b._fixtureSnapshots) (hd : b'.sentDrops = b.sentDrops) : InStep b' where
  ids := hn.ids
  live := by
    rw [he]
    exact fun e hm => hn.live (h.live e hm)
  distinct := by
    rw [he]
    exact h.distinct
  drops := by
    rw [hd, he]
    exact fun i hi => ⟨hn.issued (h.drops i hi).1, (h.drops i hi).2⟩

theorem extends_of_eq {n n' : TreNode S} (h : IdsOrdered n) (hs : n'.SNAPSHOTS = n.SNAPSHOTS)
    (hc : n'.SNAPSHOT_COUNTER = n.SNAPSHOT_COUNTER) : Extends n n' where
  ids := h.of_eq hs hc
  live := by rw [hs]; exact fun _ hi => hi
  counter := hc.ge
  fresh := by rw [hs]; exact fun _ hi _ => hi

theorem InStep.quiet {v : Attempts} {b b' : Process S F D} (h : InStep b) (hq : Quiet v b b') : InStep b' :=
  h.extend (extends_of_eq h.ids hq.snapshots hq.counter) hq.entries hq.drops

/-- A drop that arrives removes no entry's snapshot. -/
theorem InStep.drop {b : Process S F D} (h : InStep b) {id : String} (hid : id ∈ b.sentDrops) :
    InStep { b with node := (exec db b.node (.tre_dropSnapshot (some id))).2 } := by
  rw [exec_dropSnapshot]
  refine ⟨h.ids.of_sublist ?_ rfl, ?_, h.distinct, h.drops⟩
  · rw [OrderedMap.keys_remove]
    exact List.filter_sublist
  · intro e he
    rw [OrderedMap.keys_remove, List.mem_filter, decide_eq_true_iff]
    exact ⟨h.live e he, (h.drops id hid).2 e he⟩

/-- A fixture that completes gets a new id. -/
theorem InStep.returned (db : IRevokingDB S) {b : Process S F D} (h : InStep b) (hc : b.node.SNAPSHOT_COUNTER + 2 < 2 ^ 64)
    (f : Frame F) (data : D) (a : Attempts) : InStep (fnReturns db f data a b).2 := by
  unfold fnReturns
  split
  · exact h
  · obtain ⟨hext, hid⟩ := _takeSnapshot_extends db a h.ids hc
    split
    · rename_i e node heq
      rw [heq] at hext
      exact h.extend hext rfl rfl
    · rename_i id node heq
      rw [heq] at hext
      obtain ⟨hlive, hnew⟩ := hid id (by rw [heq])
      rw [heq] at hlive
      refine ⟨hext.ids, ?_, ?_, ?_⟩
      · intro e he
        rcases List.mem_append.1 he with he | he
        · exact hext.live (h.live e he)
        · rw [List.mem_singleton] at he
          subst he
          exact hlive
      · show ((b._fixtureSnapshots ++ [_]).map _).Nodup
        rw [List.map_append, List.map_singleton, List.nodup_append]
        refine ⟨h.distinct, List.nodup_singleton _, ?_⟩
        rintro i hi j hj rfl
        obtain ⟨e, he, rfl⟩ := List.mem_map.1 hi
        have hj : e.snapshotId = id := List.mem_singleton.1 hj
        exact hnew (hj ▸ h.issued e he)
      · intro i hi
        refine ⟨hext.issued (h.drops i hi).1, fun e he => ?_⟩
        rcases List.mem_append.1 he with he | he
        · exact (h.drops i hi).2 e he
        · rw [List.mem_singleton] at he
          subst he
          rintro rfl
          exact hnew (h.drops _ hi).1

/-! ## A restore -/

section
variable [DecidableEq F]

/-- Where the restored entry stands, and what the two filters are. -/
theorem keptEntries_split {fn : F} {l : List (FixtureSnapshot F D)} {snapshot : FixtureSnapshot F D}
    (hf : l.find? (·.fixture = fn) = some snapshot) (newId : String) :
    ∃ l₁ l₂, l = l₁ ++ snapshot :: l₂ ∧ snapshot.fixture = fn ∧ (∀ e ∈ l₁, e.fixture ≠ fn) ∧
      keptEntries fn newId l =
        l₁.filter (fun s => numberLe (numberOfHex s.snapshotId) (numberOfHex snapshot.snapshotId)) ++
          { snapshot with snapshotId := newId } ::
            l₂.filter (fun s => numberLe (numberOfHex s.snapshotId) (numberOfHex snapshot.snapshotId)) ∧
      evictedEntries fn l =
        (l₁ ++ l₂).filter fun s => numberGt (numberOfHex s.snapshotId) (numberOfHex snapshot.snapshotId) := by
  obtain ⟨hfix, l₁, l₂, rfl, hne⟩ := List.find?_eq_some_iff_append.1 hf
  rw [decide_eq_true_iff] at hfix
  have hne' : ∀ e ∈ l₁, e.fixture ≠ fn := fun e he => by simpa using hne e he
  have htake : (l₁ ++ snapshot :: l₂).takeWhile (·.fixture ≠ fn) = l₁ := by
    rw [List.takeWhile_append_of_pos fun e he => by simpa using hne' e he]
    simp [hfix]
  have hdrop : (l₁ ++ snapshot :: l₂).dropWhile (·.fixture ≠ fn) = snapshot :: l₂ := by
    rw [List.dropWhile_append_of_pos fun e he => by simpa using hne' e he]
    simp [hfix]
  refine ⟨l₁, l₂, rfl, hfix, hne', ?_, ?_⟩
  · unfold keptEntries
    rw [hdrop, htake]
  · unfold evictedEntries
    rw [hdrop, htake]

theorem mem_keptEntries {fn : F} {l : List (FixtureSnapshot F D)} {snapshot e : FixtureSnapshot F D} {newId : String}
    (hf : l.find? (·.fixture = fn) = some snapshot) (he : e ∈ keptEntries fn newId l) :
    e = { snapshot with snapshotId := newId } ∨ e ∈ l := by
  obtain ⟨l₁, l₂, rfl, -, -, hkept, -⟩ := keptEntries_split hf newId
  rw [hkept, List.mem_append, List.mem_cons] at he
  rcases he with he | rfl | he
  · exact .inr (List.mem_append_left _ (List.mem_filter.1 he).1)
  · exact .inl rfl
  · exact .inr (List.mem_append_right _ (List.mem_cons_of_mem _ (List.mem_filter.1 he).1))

theorem keptEntries_fixtures {fn : F} {l : List (FixtureSnapshot F D)} {snapshot : FixtureSnapshot F D}
    (hf : l.find? (·.fixture = fn) = some snapshot) (newId : String) :
    List.Sublist ((keptEntries fn newId l).map (·.fixture)) (l.map (·.fixture)) := by
  obtain ⟨l₁, l₂, rfl, -, -, hkept, -⟩ := keptEntries_split hf newId
  rw [hkept, List.map_append, List.map_append, List.map_cons, List.map_cons]
  exact (List.filter_sublist.map _).append ((List.filter_sublist.map _).cons_cons _)

omit [DecidableEq F] in
/-- While `Number(id)` is exact the client keeps the entries the node keeps. -/
theorem kept_iff {b : Process S F D} (h : InStep b) (hc : b.node.SNAPSHOT_COUNTER ≤ 2 ^ 53)
    {s e : FixtureSnapshot F D} (hs : s ∈ b._fixtureSnapshots) (he : e ∈ b._fixtureSnapshots)
    (hne : e.snapshotId ≠ s.snapshotId) :
    (numberLe (numberOfHex e.snapshotId) (numberOfHex s.snapshotId) = true ↔
      e.snapshotId ∈ b.node.SNAPSHOTS.keys.takeWhile (· ≠ s.snapshotId)) := by
  have hie := h.issued e he
  have his := h.issued s hs
  rw [hie.numberOfHex hc, his.numberOfHex hc, numberLe, decide_eq_true_iff, h.ids.mem_takeWhile_iff (h.live s hs)]
  constructor
  · intro hle
    refine ⟨h.live e he, Nat.lt_of_le_of_ne hle ?_⟩
    exact fun heq => hne (hie.inj his heq)
  · exact fun hlt => hlt.2.le

theorem numberGt_eq {a b : Nat} : numberGt (some a) (some b) = !numberLe (some a) (some b) := by
  simp only [numberGt, numberLe, ← decide_not, Nat.not_le]

/-- A restore that succeeds keeps the list in step: the entries it leaves are
the restored one, with its new id, and those the node still has. -/
theorem InStep.restored {b : Process S F D} (h : InStep b) (hc : b.node.SNAPSHOT_COUNTER ≤ 2 ^ 53) {fn : F}
    {snapshot : FixtureSnapshot F D} (hf : b._fixtureSnapshots.find? (·.fixture = fn) = some snapshot)
    {env : LoadEnv} {newId : String} {node : TreNode S}
    (hr : restore db env snapshot.snapshotId b.node = (.ok newId, node)) :
    InStep { b with
      node
      _fixtureSnapshots := keptEntries fn newId b._fixtureSnapshots
      sentDrops := b.sentDrops ++ (evictedEntries fn b._fixtureSnapshots).map (·.snapshotId) } := by
  obtain ⟨-, -, htake⟩ := restore_ok h.ids hr
  obtain ⟨hi₁, -, hc₁⟩ := exec_revert_ids db h.ids snapshot.snapshotId
  obtain ⟨hext, hid⟩ := _takeSnapshot_extends db env.snapshot hi₁ (by omega)
  rw [htake] at hext hid
  obtain ⟨hlive, hnew⟩ := hid newId rfl
  obtain ⟨l₁, l₂, hl, hfix, hl₁, hkept, hevicted⟩ := keptEntries_split hf newId
  have hsm : snapshot ∈ b._fixtureSnapshots := by rw [hl]; simp
  have hkeys : (exec db b.node (.tre_revert (some snapshot.snapshotId))).2.SNAPSHOTS.keys =
      b.node.SNAPSHOTS.keys.takeWhile (· ≠ snapshot.snapshotId) := by
    rcases exec_revert_cases db b.node snapshot.snapshotId with ⟨hdead, -⟩ | ⟨-, st, hn, -⟩
    · exact absurd (h.live snapshot hsm) hdead
    · rw [hn, keys_dropFrom]
  have hold : ∀ i, Issued b.node i → Issued (exec db b.node (.tre_revert (some snapshot.snapshotId))).2 i :=
    fun i hi => ⟨hc₁ ▸ hi.1, hi.2⟩
  have hdist := h.distinct
  rw [hl, List.map_append, List.map_cons, List.nodup_middle, List.nodup_cons, ← List.map_append] at hdist
  obtain ⟨hsnap, hdist⟩ := hdist
  -- every other entry has its own id, and stays exactly if the node keeps it
  have hother : ∀ e ∈ l₁ ++ l₂, e ∈ b._fixtureSnapshots ∧ e.snapshotId ≠ snapshot.snapshotId := by
    intro e he
    refine ⟨?_, fun heq => hsnap (List.mem_map.2 ⟨e, he, heq⟩)⟩
    rw [hl]
    rcases List.mem_append.1 he with he | he
    · exact List.mem_append_left _ he
    · exact List.mem_append_right _ (List.mem_cons_of_mem _ he)
  have hmem : ∀ e ∈ keptEntries fn newId b._fixtureSnapshots, e = { snapshot with snapshotId := newId } ∨
      (e ∈ l₁ ++ l₂ ∧ numberLe (numberOfHex e.snapshotId) (numberOfHex snapshot.snapshotId) = true) := by
    intro e he
    rw [hkept, List.mem_append, List.mem_cons, List.mem_filter, List.mem_filter] at he
    rcases he with he | rfl | he
    · exact .inr ⟨List.mem_append_left _ he.1, he.2⟩
    · exact .inl rfl
    · exact .inr ⟨List.mem_append_right _ he.1, he.2⟩
  refine ⟨hext.ids, ?_, ?_, ?_⟩
  · intro e he
    rcases hmem e he with rfl | ⟨he, hle⟩
    · exact hlive
    · apply hext.live
      rw [hkeys]
      exact (kept_iff h hc hsm (hother e he).1 (hother e he).2).1 hle
  · show ((keptEntries fn newId b._fixtureSnapshots).map _).Nodup
    rw [hkept, List.map_append, List.map_cons, List.nodup_middle, List.nodup_cons, ← List.map_append,
      ← List.filter_append]
    refine ⟨?_, hdist.sublist (List.filter_sublist.map _)⟩
    intro hm
    obtain ⟨e, he, heq⟩ := List.mem_map.1 hm
    have heq : e.snapshotId = newId := heq
    exact hnew (heq ▸ hold _ (h.issued e (hother e (List.mem_filter.1 he).1).1))
  · intro i hi
    rcases List.mem_append.1 hi with hi | hi
    · obtain ⟨hissued, hne⟩ := h.drops i hi
      refine ⟨hext.issued (hold i hissued), fun e he => ?_⟩
      rcases hmem e he with rfl | ⟨he, -⟩
      · rintro rfl
        exact hnew (hold _ hissued)
      · exact hne e (hother e he).1
    · obtain ⟨e', he', rfl⟩ := List.mem_map.1 hi
      rw [hevicted, List.mem_filter] at he'
      obtain ⟨hm', hgt⟩ := he'
      have hissued := h.issued e' (hother e' hm').1
      refine ⟨hext.issued (hold _ hissued), fun e he => ?_⟩
      rcases hmem e he with rfl | ⟨-, hle⟩
      · rintro rfl
        exact hnew (hold _ hissued)
      · rintro heq
        rw [heq, hissued.numberOfHex hc, (h.issued snapshot hsm).numberOfHex hc] at hle
        rw [hissued.numberOfHex hc, (h.issued snapshot hsm).numberOfHex hc, numberGt_eq, hle] at hgt
        cases hgt

/-! ## Runs -/

/-- The step does not restore, or its restore is safe and `Number(id)` exact. -/
def keepsLive (db : IRevokingDB S) (name : F → String) (b : Process S F D) : FixtureEvent F D → Bool
  | .loadFixture fn env =>
    match restoring db name fn env b with
    | none => true
    | some snapshot =>
      decide (b.node.SNAPSHOT_COUNTER ≤ 2 ^ 53) && restoreSafe db env snapshot.snapshotId (nodeAtRestore db env b)
  | .fnReturns _ _ => decide (b.node.SNAPSHOT_COUNTER ≤ 2 ^ 53)
  | _ => true

theorem keepsLive_restoring {b : Process S F D} {fn : F} {env : LoadEnv} {snapshot : FixtureSnapshot F D}
    (h : keepsLive db name b (.loadFixture fn env) = true) (hr : restoring db name fn env b = some snapshot) :
    b.node.SNAPSHOT_COUNTER ≤ 2 ^ 53 ∧ restoreSafe db env snapshot.snapshotId (nodeAtRestore db env b) = true := by
  simpa [keepsLive, hr] using h

theorem InStep.loaded {b : Process S F D} (h : InStep b) {fn : F} {env : LoadEnv}
    (hok : keepsLive db name b (.loadFixture fn env) = true) : InStep (loadFixture db name fn env b).2 := by
  have heff := loadFixture_effect db name fn env b
  generalize (loadFixture db name fn env b).1 = out, (loadFixture db name fn env b).2 = b' at heff
  cases heff with
  | threw e _ hq => exact h.quiet hq
  | @entered record b₁ _ hq hs hn =>
    have := h.quiet hq
    exact ⟨this.ids, this.live, this.distinct, this.drops⟩
  | @restoreFailed snapshot e b₁ node hr hq hnode hres =>
    obtain ⟨hc, hsafe⟩ := keepsLive_restoring hok hr
    rw [← hnode] at hsafe
    rcases restore_of_safe hsafe with ⟨e', he⟩ | ⟨newId, n', he⟩
    · -- nothing reached the node
      obtain rfl : b₁.node = node := by rw [he] at hres; exact (Prod.mk.inj hres).2
      exact h.quiet hq
    · rw [he] at hres
      cases hres
  | @restored snapshot newId b₁ node hr hq hnode hres =>
    obtain ⟨hc, -⟩ := keepsLive_restoring hok hr
    exact (h.quiet hq).restored (hq.counter ▸ hc) (hq.entries ▸ restoring_find hr) hres

theorem inStep_step {b b' : Process S F D} {ev : FixtureEvent F D} {out : Outcome F D} (h : InStep b)
    (hok : keepsLive db name b ev = true) (hs : fixtureStep db name b ev = some (out, b')) : InStep b' := by
  cases fixtureStep_effect hs with
  | loaded fn env => exact h.loaded hok
  | @returned f running data a hrun =>
    have hc : b.node.SNAPSHOT_COUNTER ≤ 2 ^ 53 := of_decide_eq_true hok
    exact InStep.returned db (b := { b with running }) ⟨h.ids, h.live, h.distinct, h.drops⟩
      (show b.node.SNAPSHOT_COUNTER + 2 < 2 ^ 64 by omega) f data a
  | threw message hrun => exact ⟨h.ids, h.live, h.distinct, h.drops⟩
  | put name k v =>
    exact h.extend (extends_of_eq h.ids (writeStore_SNAPSHOTS _ _ _) (writeStore_SNAPSHOT_COUNTER _ _ _)) rfl rfl
  | delete name k =>
    exact h.extend (extends_of_eq h.ids (writeStore_SNAPSHOTS _ _ _) (writeStore_SNAPSHOT_COUNTER _ _ _)) rfl rfl
  | dropped hid => exact h.drop hid

theorem inStep_run {h : List (FixtureEvent F D × Outcome F D)} {b : Process S F D}
    (hr : FixtureRun db name st (fun b ev => keepsLive db name b ev = true) h b) : InStep b :=
  Run.inv (fun _ b => InStep b) (inStep_start st) (fun _ _ _ _ _ _ hi hok hs => inStep_step hi hok hs) hr

/-- Which restores keep every entry's id live. -/
theorem restore_keeps_live_iff {b : Process S F D} (h : InStep b) {fn : F} {env : LoadEnv}
    {snapshot : FixtureSnapshot F D} (hr : restoring db name fn env b = some snapshot)
    (hc : b.node.SNAPSHOT_COUNTER ≤ 2 ^ 53) :
    (∀ e ∈ (loadFixture db name fn env b).2._fixtureSnapshots,
        e.snapshotId ∈ (loadFixture db name fn env b).2.node.SNAPSHOTS.keys) ↔
      restoreSafe db env snapshot.snapshotId (nodeAtRestore db env b) = true := by
  constructor
  · intro hlive
    by_contra hs
    rw [Bool.not_eq_true] at hs
    have heff := loadFixture_effect db name fn env b
    generalize (loadFixture db name fn env b).1 = out, (loadFixture db name fn env b).2 = b' at heff hlive
    have hfound := List.mem_of_find?_eq_some (restoring_find hr)
    cases heff with
    | threw e hnone _ => simp [hr] at hnone
    | entered record hnone _ _ _ => simp [hr] at hnone
    | @restoreFailed snapshot' e b₁ node hr' hq hnode hres =>
      obtain rfl : snapshot = snapshot' := Option.some.inj (hr.symm.trans hr')
      have h₁ := h.quiet hq
      rw [← hq.entries] at hfound
      rw [← hnode] at hs
      obtain ⟨e', n', he, hdead⟩ := restore_unsafe h₁.ids (h₁.issued _ hfound) (by rw [hq.counter]; omega) hs
      rw [he] at hres
      obtain ⟨-, rfl⟩ := Prod.mk.inj hres
      exact hdead (hlive _ hfound)
    | @restored snapshot' newId b₁ node hr' hq hnode hres =>
      obtain rfl : snapshot = snapshot' := Option.some.inj (hr.symm.trans hr')
      have h₁ := h.quiet hq
      rw [← hq.entries] at hfound
      rw [← hnode] at hs
      obtain ⟨e', n', he, -⟩ := restore_unsafe h₁.ids (h₁.issued _ hfound) (by rw [hq.counter]; omega) hs
      rw [he] at hres
      cases hres
  · intro hs
    exact (h.loaded (by rw [keepsLive, hr, Bool.and_eq_true, decide_eq_true_iff]; exact ⟨hc, hs⟩)).live

/-- In every run without an unsafe restore, each entry of `_fixtureSnapshots`
holds a live id in every state reached, so reverting to it is never refused as
an unknown snapshot. -/
theorem entries_live {h : List (FixtureEvent F D × Outcome F D)} {b : Process S F D}
    (hr : FixtureRun db name st (fun b ev => keepsLive db name b ev = true) h b) :
    ∀ e ∈ b._fixtureSnapshots, e.snapshotId ∈ b.node.SNAPSHOTS.keys ∧
      (exec db b.node (.tre_revert (some e.snapshotId))).1 ≠
        .error (.invalidParams ("unknown snapshot id: " ++ e.snapshotId)) := by
  intro e he
  have hlive := (inStep_run hr).live e he
  refine ⟨hlive, ?_⟩
  rcases exec_revert_cases db b.node e.snapshotId with ⟨hdead, -⟩ | ⟨-, st', -, hok | ⟨m, herr⟩⟩
  · exact absurd hlive hdead
  · simp [hok]
  · simp [herr]

end

/-- No signer is funded and every request is answered. -/
def quietEnv : LoadEnv := ⟨⟨[], none⟩, .allAnswered, ⟨[], none⟩, .allAnswered, .allAnswered⟩

/-- The connection resets twice while `tre_snapshot` is sent. -/
def resetTwice : Attempts :=
  ⟨.fetchThrows false ⟨"TypeError", "fetch failed"⟩, .fetchThrows false ⟨"TypeError", "fetch failed"⟩⟩

/-- Record a fixture, change an account, load the fixture again. -/
def recordAndReload (env : LoadEnv) : List (FixtureEvent Unit Unit) :=
  [.loadFixture () quietEnv, .fnReturns () .allAnswered, .put .accountStore [1] [2], .loadFixture () env]

/-- `entries_live` on a run that records and restores a fixture. -/
theorem entry_live_after_reload :
    ∃ (h : List (FixtureEvent Unit Unit × Outcome Unit Unit)) (b : Process HashMap Unit Unit),
      FixtureRun memoryDB (fun _ => "fixture") emptyStores
        (fun b ev => keepsLive memoryDB (fun _ => "fixture") b ev = true) h b ∧
      b._fixtureSnapshots.map (·.snapshotId) = ["0x2"] ∧ "0x2" ∈ b.node.SNAPSHOTS.keys := by
  obtain ⟨⟨h, b⟩, hp⟩ : ∃ p, play (fixtureStep memoryDB fun _ => "fixture")
    (fun b ev => keepsLive memoryDB (fun _ => "fixture") b ev = true) (startProcess emptyStores)
    (recordAndReload quietEnv) = some p := ⟨_, rfl⟩
  obtain ⟨rfl, rfl⟩ := Prod.mk.inj (Option.some.inj hp)
  have hr : FixtureRun memoryDB (fun _ => "fixture") emptyStores _ _ _ := Run.of_play hp
  exact ⟨_, _, hr, rfl, (entries_live hr _ (List.mem_singleton.2 rfl)).1⟩

/-- A `tre_snapshot` that fails after its `tre_revert` leaves the entry with a
dead id, and every later load of the fixture throws. -/
theorem entry_dead_after_lost_snapshot :
    ∃ (h : List (FixtureEvent Unit Unit × Outcome Unit Unit)) (b b' : Process HashMap Unit Unit),
      FixtureRun memoryDB (fun _ => "fixture") emptyStores (fun _ _ => True) h b ∧
      b._fixtureSnapshots.map (·.snapshotId) = ["0x1"] ∧ "0x1" ∉ b.node.SNAPSHOTS.keys ∧
      loadFixture memoryDB (fun _ => "fixture") () quietEnv b =
        (.threw () (.revertFailed (.invalidParams "unknown snapshot id: 0x1")), b') := by
  obtain ⟨⟨h, b⟩, hp⟩ : ∃ p, play (fixtureStep memoryDB fun _ => "fixture") (fun _ _ => True)
    (startProcess emptyStores) (recordAndReload { quietEnv with snapshot := resetTwice }) = some p := ⟨_, rfl⟩
  obtain ⟨rfl, rfl⟩ := Prod.mk.inj (Option.some.inj hp)
  exact ⟨_, _, _, Run.of_play hp, rfl, by decide, rfl⟩

end HardhatTron

import HardhatTron.Node.SnapshotIds
/-!
# Snapshots under concurrent callers

`tre_snapshot` dumps the stores under one lock, takes its number under none and
enters its id under another; `tre_revert` forgets ids under the second lock and
restores under the first. Between these sections other calls run.

`numbers_ordered` covers the runs in which overlapping snapshots take their
numbers, and enter their ids, in the order of their dumps;
`late_entry_survives_revert` is a run in which they do not.
-/
namespace HardhatTron

open Lib

variable {S : Type}

/-! ## The threads -/

/-- Where a thread stands between two sections. -/
inductive SnapshotPc where
  | idle
  /-- `snapshot` has dumped the stores as they were after `version` writes. -/
  | dumped (entry : SnapshotEntry) (version : Nat)
  /-- It has its id. -/
  | numbered (entry : SnapshotEntry) (id : String)
  /-- `revert` has forgotten the ids. -/
  | discarded (targetEntry : SnapshotEntry)

/-- The sections, and what else changes the stores and the live ids. -/
inductive SnapshotAct where
  | dump
  | increment
  | insert
  | discard (snapshotId : Option String)
  | restore
  | tre_dropSnapshot (snapshotId : Option String)
  | put (name : StoreName) (k v : Bytes)
  | delete (name : StoreName) (k : Bytes)

/-- `version` counts the writes to the stores, and `captured` has every id with the version it was taken at. -/
structure SnapshotRace (S : Type) where
  node : TreNode S
  threads : Nat → SnapshotPc
  version : Nat
  captured : List (String × Nat)

def SnapshotRace.goto (s : SnapshotRace S) (i : Nat) (pc : SnapshotPc) : SnapshotRace S :=
  { s with threads := fun j => if j = i then pc else s.threads j }

/-- The stores after a write. -/
def SnapshotRace.wrote (s : SnapshotRace S) (stores : Stores S) : SnapshotRace S :=
  { s with node := { s.node with stores := stores }, version := s.version + 1 }

/-- `incrementAndGet` for a thread that dumped at `version`. -/
def SnapshotRace.number (s : SnapshotRace S) (version : Nat) : SnapshotRace S :=
  { s with
    node := { s.node with SNAPSHOT_COUNTER := s.node.SNAPSHOT_COUNTER + 1 }
    captured := (snapshotId (s.node.SNAPSHOT_COUNTER + 1), version) :: s.captured }

/-- The live ids after a section under the `SNAPSHOTS` lock. -/
def SnapshotRace.live (s : SnapshotRace S) (SNAPSHOTS : OrderedMap String SnapshotEntry) : SnapshotRace S :=
  { s with node := { s.node with SNAPSHOTS := SNAPSHOTS } }

/-- The next section of a thread, unless it is not at that point. -/
def SnapshotRace.step (db : IRevokingDB S) (s : SnapshotRace S) :
    Nat × SnapshotAct → Option (NodeReply × SnapshotRace S)
  | (i, .dump) =>
    match s.threads i with
    | .idle =>
      match dumpStores db s.node.stores with
      | .ok entry st => some (.done, { s with node := { s.node with stores := st } }.goto i (.dumped entry s.version))
      | .error e st =>
        some (.error (.internal ("snapshot failed: " ++ e)), { s with node := { s.node with stores := st } })
    | _ => none
  | (i, .increment) =>
    match s.threads i with
    | .dumped entry version =>
      some (.done, (s.number version).goto i (.numbered entry (snapshotId (s.node.SNAPSHOT_COUNTER + 1))))
    | _ => none
  | (i, .insert) =>
    match s.threads i with
    | .numbered entry id => some (.id id, (s.live (s.node.SNAPSHOTS.put id entry)).goto i .idle)
    | _ => none
  | (i, .discard snapshotId) =>
    match s.threads i with
    | .idle =>
      match snapshotId with
      | none => some (.error (.invalidParams "unknown snapshot id: null"), s)
      | some id =>
        match s.node.SNAPSHOTS.get? id with
        | none => some (.error (.invalidParams ("unknown snapshot id: " ++ id)), s)
        | some targetEntry => some (.done, (s.live (dropFrom s.node.SNAPSHOTS id)).goto i (.discarded targetEntry))
    | _ => none
  | (i, .restore) =>
    match s.threads i with
    | .discarded targetEntry =>
      match restoreStores db targetEntry s.node.stores with
      | .ok () st => some (.bool true, (s.wrote st).goto i .idle)
      | .error e st => some (.error (.internal ("revert failed: " ++ e)), (s.wrote st).goto i .idle)
    | _ => none
  | (_, .tre_dropSnapshot snapshotId) =>
    let (r, n) := exec db s.node (.tre_dropSnapshot snapshotId)
    some (r, s.live n.SNAPSHOTS)
  | (_, .put name k v) =>
    let (r, n) := exec db s.node (.put name k v)
    some (r, s.wrote n.stores)
  | (_, .delete name k) =>
    let (r, n) := exec db s.node (.delete name k)
    some (r, s.wrote n.stores)

/-- A node that has just started, every thread idle. -/
def startSnapshots (st : Stores S) : SnapshotRace S := ⟨startNode st, fun _ => .idle, 0, []⟩

/-! ## What the numbers promise -/

/-- A revert discards what has at least its number, and a snapshot with a smaller number was not taken later. -/
structure NumbersOrdered (db : IRevokingDB S) (s : SnapshotRace S) : Prop where
  discards : ∀ i id r s', id ∈ s.node.SNAPSHOTS.keys → s.step db (i, .discard (some id)) = some (r, s') →
    ∀ k, k ∈ s'.node.SNAPSHOTS.keys ↔ k ∈ s.node.SNAPSHOTS.keys ∧ ¬ idNumber id ≤ idNumber k
  captures : ∀ a v b w, (a, v) ∈ s.captured → (b, w) ∈ s.captured → idNumber a < idNumber b → v ≤ w

/-- What must hold before a section: the next number is for the oldest dump that waits for one, and an id is entered
after the smaller ones. -/
def InTurn (s : SnapshotRace S) : Nat × SnapshotAct → Prop
  | (i, .increment) => s.node.SNAPSHOT_COUNTER + 1 < 2 ^ 64 ∧
    ∀ entry v, s.threads i = .dumped entry v → ∀ j entry' v', s.threads j = .dumped entry' v' → v ≤ v'
  | (i, .insert) => ∀ entry id, s.threads i = .numbered entry id → ∀ k ∈ s.node.SNAPSHOTS.keys, idNumber k < idNumber id
  | _ => True

/-! ## The order is kept -/

structure SnapshotRaceInv (s : SnapshotRace S) : Prop where
  ids : IdsOrdered s.node
  numbered : ∀ i entry id, s.threads i = .numbered entry id → Issued s.node id
  issued : ∀ a v, (a, v) ∈ s.captured → Issued s.node a
  captures : ∀ a v b w, (a, v) ∈ s.captured → (b, w) ∈ s.captured → idNumber a < idNumber b → v ≤ w
  -- a dump that waits for its number is at least as new as those that have one
  waiting : ∀ i entry w, s.threads i = .dumped entry w → w ≤ s.version ∧ ∀ a v, (a, v) ∈ s.captured → v ≤ w
  past : ∀ a v, (a, v) ∈ s.captured → v ≤ s.version

theorem goto_self (s : SnapshotRace S) (i : Nat) (pc : SnapshotPc) : (s.goto i pc).threads i = pc := if_pos rfl

theorem goto_cases {s : SnapshotRace S} {i j : Nat} {pc pc' : SnapshotPc} (h : (s.goto i pc).threads j = pc') :
    pc = pc' ∨ s.threads j = pc' := by
  unfold SnapshotRace.goto at h
  simp only at h
  split at h
  · exact .inl h
  · exact .inr h

theorem inv_startSnapshots (st : Stores S) : SnapshotRaceInv (startSnapshots st) where
  ids := idsOrdered_start st
  numbered := by
    intro i entry id h
    cases h
  issued := by
    intro a v h
    cases h
  captures := by
    intro a v b w h
    cases h
  waiting := by
    intro i entry w h
    cases h
  past := by
    intro a v h
    cases h

/-- A thread goes on with nothing to enter or number. -/
theorem SnapshotRaceInv.goto {s : SnapshotRace S} (h : SnapshotRaceInv s) (i : Nat) {pc : SnapshotPc}
    (hdumped : ∀ entry w, pc ≠ .dumped entry w) (hnumbered : ∀ entry id, pc ≠ .numbered entry id) :
    SnapshotRaceInv (s.goto i pc) :=
  { h with
    numbered := fun j entry id hj => h.numbered j entry id ((goto_cases hj).resolve_left (hnumbered entry id))
    waiting := fun j entry w hj => h.waiting j entry w ((goto_cases hj).resolve_left (hdumped entry w)) }

theorem SnapshotRaceInv.stores {s : SnapshotRace S} (h : SnapshotRaceInv s) (st : Stores S) :
    SnapshotRaceInv { s with node := { s.node with stores := st } } :=
  { h with ids := h.ids.of_eq rfl rfl }

theorem SnapshotRaceInv.wrote {s : SnapshotRace S} (h : SnapshotRaceInv s) (st : Stores S) :
    SnapshotRaceInv (s.wrote st) :=
  { h with
    ids := h.ids.of_eq rfl rfl
    waiting := fun i entry w hi => ⟨Nat.le_succ_of_le (h.waiting i entry w hi).1, (h.waiting i entry w hi).2⟩
    past := fun a v ha => Nat.le_succ_of_le (h.past a v ha) }

/-- A dump is as new as the stores. -/
theorem SnapshotRaceInv.dump {s : SnapshotRace S} (h : SnapshotRaceInv s) (i : Nat) (entry : SnapshotEntry) :
    SnapshotRaceInv (s.goto i (.dumped entry s.version)) :=
  { h with
    numbered := fun j entry id hj => h.numbered j entry id ((goto_cases hj).resolve_left (by rintro ⟨⟩))
    waiting := by
      intro j entry' w hj
      rcases goto_cases hj with he | hj
      · injection he with _ hw
        subst hw
        exact ⟨le_rfl, h.past⟩
      · exact h.waiting j entry' w hj }

theorem Issued.next {n n' : TreNode S} (hc : n'.SNAPSHOT_COUNTER = n.SNAPSHOT_COUNTER + 1) {id : String}
    (h : Issued n id) : Issued n' id :=
  ⟨by rw [hc]; exact Nat.le_succ_of_le h.1, h.2⟩

/-- The next number, for the oldest dump that waits. -/
theorem SnapshotRaceInv.number {s : SnapshotRace S} (h : SnapshotRaceInv s) {i : Nat} {entry : SnapshotEntry}
    {version : Nat} (hi : s.threads i = .dumped entry version) (hturn : InTurn s (i, .increment)) :
    SnapshotRaceInv ((s.number version).goto i (.numbered entry (snapshotId (s.node.SNAPSHOT_COUNTER + 1)))) := by
  obtain ⟨hcounter, holdest⟩ := hturn
  have hnumber := idNumber_snapshotId hcounter
  have hnew : Issued (s.number version).node (snapshotId (s.node.SNAPSHOT_COUNTER + 1)) :=
    ⟨hnumber.le, by rw [hnumber]⟩
  have hbelow : ∀ a v, (a, v) ∈ s.captured → v ≤ version := (h.waiting i entry version hi).2
  constructor
  · exact ⟨fun k hk => (h.ids.issued k hk).next rfl, h.ids.sorted⟩
  · intro j entry' id hj
    rcases goto_cases hj with he | hj
    · injection he with _ hid
      subst hid
      exact hnew
    · exact (h.numbered j entry' id hj).next rfl
  · intro a v ha
    rcases List.mem_cons.1 ha with he | ha
    · obtain ⟨rfl, rfl⟩ := Prod.mk.inj he
      exact hnew
    · exact (h.issued a v ha).next rfl
  · intro a v b w ha hb hlt
    rcases List.mem_cons.1 ha with he | ha <;> rcases List.mem_cons.1 hb with he' | hb
    · rw [(Prod.mk.inj he).2, (Prod.mk.inj he').2]
    · -- no number is above the new one
      rw [(Prod.mk.inj he).1, hnumber] at hlt
      have := (h.issued b w hb).1
      omega
    · rw [(Prod.mk.inj he').2]
      exact hbelow a v ha
    · exact h.captures a v b w ha hb hlt
  · intro j entry' w hj
    have hj := (goto_cases hj).resolve_left (by rintro ⟨⟩)
    refine ⟨(h.waiting j entry' w hj).1, ?_⟩
    intro a v ha
    rcases List.mem_cons.1 ha with he | ha
    · rw [(Prod.mk.inj he).2]
      exact holdest entry version hi j entry' w hj
    · exact (h.waiting j entry' w hj).2 a v ha
  · intro a v ha
    rcases List.mem_cons.1 ha with he | ha
    · rw [(Prod.mk.inj he).2]
      exact (h.waiting i entry version hi).1
    · exact h.past a v ha

/-- Forgetting ids. -/
theorem SnapshotRaceInv.forget {s : SnapshotRace S} (h : SnapshotRaceInv s) {m : OrderedMap String SnapshotEntry}
    (hm : List.Sublist m.keys s.node.SNAPSHOTS.keys) : SnapshotRaceInv (s.live m) :=
  { h with ids := h.ids.of_sublist hm rfl }

/-- An id is entered after the smaller ones. -/
theorem SnapshotRaceInv.insert {s : SnapshotRace S} (h : SnapshotRaceInv s) {i : Nat} {entry : SnapshotEntry}
    {id : String} (hi : s.threads i = .numbered entry id) (hturn : InTurn s (i, .insert)) :
    SnapshotRaceInv (s.live (s.node.SNAPSHOTS.put id entry)) := by
  have hlast : ∀ k ∈ s.node.SNAPSHOTS.keys, idNumber k < idNumber id := hturn entry id hi
  have hfresh : id ∉ s.node.SNAPSHOTS.keys := fun hmem => lt_irrefl _ (hlast id hmem)
  have hkeys : (s.live (s.node.SNAPSHOTS.put id entry)).node.SNAPSHOTS.keys = s.node.SNAPSHOTS.keys ++ [id] :=
    OrderedMap.keys_put_of_not_mem hfresh entry
  refine { h with ids := ⟨?_, ?_⟩ }
  · intro k hk
    rw [hkeys] at hk
    rcases List.mem_append.1 hk with hk | hk
    · exact h.ids.issued k hk
    · rw [List.mem_singleton.1 hk]
      exact h.numbered i entry id hi
  · rw [hkeys, List.pairwise_append]
    refine ⟨h.ids.sorted, List.pairwise_singleton _ _, ?_⟩
    intro k hk k' hk'
    rw [List.mem_singleton.1 hk']
    exact hlast k hk

theorem keys_dropSnapshot (db : IRevokingDB S) (n : TreNode S) (snapshotId : Option String) :
    List.Sublist (exec db n (.tre_dropSnapshot snapshotId)).2.SNAPSHOTS.keys n.SNAPSHOTS.keys := by
  cases snapshotId with
  | none => exact List.Sublist.refl _
  | some id =>
    change List.Sublist (n.SNAPSHOTS.remove id).keys n.SNAPSHOTS.keys
    rw [OrderedMap.keys_remove]
    exact List.filter_sublist

/-- Every section keeps the order when it is in turn. -/
theorem SnapshotRaceInv.step {db : IRevokingDB S} {s s' : SnapshotRace S} (h : SnapshotRaceInv s)
    {c : Nat × SnapshotAct} (hturn : InTurn s c) {r : NodeReply} (hs : s.step db c = some (r, s')) :
    SnapshotRaceInv s' := by
  obtain ⟨i, act⟩ := c
  unfold SnapshotRace.step at hs
  cases act with
  | dump =>
    cases hpc : s.threads i with
    | idle =>
      simp only [hpc] at hs
      split at hs <;> cases hs
      · exact (h.stores _).dump i _
      · exact h.stores _
    | dumped | numbered | discarded => simp [hpc] at hs
  | increment =>
    cases hpc : s.threads i with
    | dumped entry version =>
      simp only [hpc] at hs
      cases hs
      exact h.number hpc hturn
    | idle | numbered | discarded => simp [hpc] at hs
  | insert =>
    cases hpc : s.threads i with
    | numbered entry id =>
      simp only [hpc] at hs
      cases hs
      exact (h.insert hpc hturn).goto i (by rintro _ _ ⟨⟩) (by rintro _ _ ⟨⟩)
    | idle | dumped | discarded => simp [hpc] at hs
  | discard snapshotId =>
    cases hpc : s.threads i with
    | idle =>
      simp only [hpc] at hs
      split at hs
      · cases hs
        exact h
      · split at hs <;> cases hs
        · exact h
        · refine (h.forget ?_).goto i (by rintro _ _ ⟨⟩) (by rintro _ _ ⟨⟩)
          rw [keys_dropFrom]
          exact List.takeWhile_sublist _
    | dumped | numbered | discarded => simp [hpc] at hs
  | restore =>
    cases hpc : s.threads i with
    | discarded targetEntry =>
      simp only [hpc] at hs
      split at hs <;> cases hs <;> exact (h.wrote _).goto i (by rintro _ _ ⟨⟩) (by rintro _ _ ⟨⟩)
    | idle | dumped | numbered => simp [hpc] at hs
  | tre_dropSnapshot snapshotId =>
    cases hs
    exact h.forget (keys_dropSnapshot db s.node snapshotId)
  | put name k v =>
    cases hs
    exact h.wrote _
  | delete name k =>
    cases hs
    exact h.wrote _

/-- What a revert discards while the order is kept. -/
theorem SnapshotRaceInv.discards {db : IRevokingDB S} {s s' : SnapshotRace S} (h : SnapshotRaceInv s) {i : Nat}
    {id : String} (hlive : id ∈ s.node.SNAPSHOTS.keys) {r : NodeReply}
    (hs : s.step db (i, .discard (some id)) = some (r, s')) (k : String) :
    k ∈ s'.node.SNAPSHOTS.keys ↔ k ∈ s.node.SNAPSHOTS.keys ∧ ¬ idNumber id ≤ idNumber k := by
  obtain ⟨e, he⟩ := OrderedMap.mem_keys_iff.1 hlive
  unfold SnapshotRace.step at hs
  cases hpc : s.threads i with
  | idle =>
    simp only [hpc, he] at hs
    cases hs
    change k ∈ (dropFrom s.node.SNAPSHOTS id).keys ↔ _
    rw [keys_dropFrom, h.ids.mem_takeWhile_iff hlive, not_le]
  | dumped | numbered | discarded => simp [hpc] at hs

/-- In every run whose snapshots take their numbers and enter their ids in the order of their dumps, the numbers
promise what the client relies on. -/
theorem numbers_ordered (db : IRevokingDB S) (st : Stores S) {h : List ((Nat × SnapshotAct) × NodeReply)}
    {s : SnapshotRace S} (hr : Run (SnapshotRace.step db) InTurn (startSnapshots st) h s) : NumbersOrdered db s := by
  have hinv : SnapshotRaceInv s := by
    refine Run.inv (fun _ s => SnapshotRaceInv s) (inv_startSnapshots st) ?_ hr
    intro _ s c r s' _ hs hturn hstep
    exact hs.step hturn hstep
  exact ⟨fun i id r s' hlive hs k => hinv.discards hlive hs k, hinv.captures⟩

/-! ## Two snapshots that overlap -/

def noStores : Stores HashMap := ⟨.empty, .empty, .empty, .empty⟩

/-- A write and a second dump come between the dump of a snapshot and its number. -/
theorem overlapping_ordered : ∃ h s,
    h.map Prod.fst = [(0, .dump), (0, .put .accountStore [1] [2]), (1, .dump), (0, .increment), (0, .insert)] ∧
    Run (SnapshotRace.step memoryDB) InTurn (startSnapshots noStores) h s ∧ NumbersOrdered memoryDB s := by
  have hfirst : Run (SnapshotRace.step memoryDB) InTurn (startSnapshots noStores) _ _ :=
    .snoc (0, SnapshotAct.dump) .nil trivial rfl
  have hwrite := Run.snoc (0, SnapshotAct.put .accountStore [1] [2]) hfirst trivial rfl
  have hsecond := Run.snoc (1, SnapshotAct.dump) hwrite trivial rfl
  have hnumber := Run.snoc (0, SnapshotAct.increment) hsecond
    ⟨by decide, by rintro _ _ ⟨⟩ _ _ _ _; exact Nat.zero_le _⟩ rfl
  have hinsert := Run.snoc (0, SnapshotAct.insert) hnumber (by rintro _ _ ⟨⟩ _ ⟨⟩) rfl
  exact ⟨_, _, rfl, hinsert, numbers_ordered memoryDB noStores hinsert⟩

/-- The first of two snapshots enters its id after the second, and a revert to it leaves the second. -/
theorem late_entry_survives_revert : ¬ ∀ (db : IRevokingDB HashMap) (st : Stores HashMap)
    (h : List ((Nat × SnapshotAct) × NodeReply)) (s : SnapshotRace HashMap),
    Run (SnapshotRace.step db) (fun _ _ => True) (startSnapshots st) h s → NumbersOrdered db s := by
  intro hall
  obtain ⟨h, s, hplay, hkeys, hidle⟩ : ∃ h s, play (SnapshotRace.step memoryDB) (fun _ _ => True)
      (startSnapshots noStores) [(0, .dump), (0, .increment), (1, .dump), (1, .increment), (1, .insert), (0, .insert)] =
        some (h, s) ∧ s.node.SNAPSHOTS.keys = ["0x2", "0x1"] ∧ s.threads 2 = .idle := by
    refine ⟨_, _, rfl, ?_, rfl⟩
    decide
  have hordered := hall memoryDB noStores h s (Run.of_play hplay)
  obtain ⟨e, he⟩ := OrderedMap.mem_keys_iff.1 (show "0x1" ∈ s.node.SNAPSHOTS.keys by rw [hkeys]; decide)
  have hstep : s.step memoryDB (2, .discard (some "0x1")) =
      some (.done, (s.live (dropFrom s.node.SNAPSHOTS "0x1")).goto 2 (.discarded e)) := by
    simp only [SnapshotRace.step, hidle, he]
  have hleft : "0x2" ∈ (dropFrom s.node.SNAPSHOTS "0x1").keys := by
    rw [keys_dropFrom, hkeys]
    decide
  have hsmaller := ((hordered.discards 2 "0x1" _ _ (by rw [hkeys]; decide) hstep "0x2").1 hleft).2
  exact hsmaller (by decide)

end HardhatTron

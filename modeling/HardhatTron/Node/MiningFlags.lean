import HardhatTron.Node.MiningRace
/-!
# The manual-mining flag and the block wait lock

`Race` with the block wait lock: a producer sets it after it was admitted and
clears it after it has released the manual-mining flag. Between these two
releases another producer can be admitted and set the lock, which the first
then clears.

`flags_kept` covers the runs in which no `tre_mine` is on its way to a block
when the lock is cleared; `wait_lock_cleared` is a run in which one is.
-/
namespace HardhatTron

open Lib

variable {W : Type}

/-! ## The producers with the wait lock -/

/-- The accesses to the wait lock, which `Pc` leaves out. -/
inductive WaitStage where
  | none
  /-- Admitted, before `setBlockWaitLock(true)`. -/
  | setting
  /-- The flag is released, `setBlockWaitLock(false)` comes next. -/
  | releasing
  deriving DecidableEq

/-- The flags are a `Race`'s, with the state of the wait lock. -/
structure WaitRace (W : Type) where
  race : Race W
  blockWaitLock : Bool
  stage : Nat → WaitStage

/-- A thread takes its next access, or an exception reaches it where it stands;
a native batch may go on with another block. -/
inductive WaitAct (W : Type) where
  | race (a : Act W)
  | throw (e : JavaException)
  | nextBlock

/-- Where an exception takes a producer: to its `finally`. -/
def Pc.thrown (e : JavaException) : Pc → Option Pc
  | .mineAdmitted _ | .mineLoop _ | .mineNoOverride _ | .mineSlot _ _ | .mineTime _ _ | .mineProduce _ _
  | .mineProduced _ => some (.mineLeaving (.error (.other e)))
  | .nativeAdmitted | .nativeLoop | .nativeNoOverride | .nativeSlot _ | .nativeProduce _ | .nativeProduced =>
    some .nativeLeaving
  | _ => none

/-- What the release of the wait lock leaves of the result. -/
def Pc.released (e : JavaException) : Pc → Pc
  | .mineFinally _ => .mineFinally (.error (.other e))
  | pc => pc

/-- Which access to the wait lock follows a step. -/
def stageAfter : Pc → Pc → WaitStage
  | .mineCalled _, .mineAdmitted _ | .nativeCalled, .nativeAdmitted => .setting
  | .mineLeaving _, .mineFinally _ | .nativeLeaving, .idle => .releasing
  | _, _ => .none

def WaitRace.toStage (s : WaitRace W) (i : Nat) (g : WaitStage) : WaitRace W :=
  { s with stage := fun j => if j = i then g else s.stage j }

/-- The exception leaves the monitor. -/
def WaitRace.throw (s : WaitRace W) (i : Nat) (pc : Pc) : WaitRace W :=
  let race := if s.race.produceLock = some i then s.race.unlock else s.race
  { s with race := race.goto i pc }

def WaitRace.step (rt : RaceRuntime) (s : WaitRace W) : Nat × WaitAct W → Option (RaceEvent × WaitRace W)
  | (i, .race a) =>
    match s.stage i, a with
    | .none, a =>
      (s.race.step rt (i, a)).map fun r =>
        (r.1, { s with race := r.2 }.toStage i (stageAfter (s.race.threads i) (r.2.threads i)))
    | .setting, .go v =>
      match v.failure with
      | none => some (.silent, { s with blockWaitLock := true }.toStage i .none)
      | some e => ((s.race.threads i).thrown e).map fun pc => (.silent, (s.throw i pc).toStage i .none)
    | .releasing, .go v =>
      match v.failure with
      | none => some (.silent, { s with blockWaitLock := false }.toStage i .none)
      | some e =>
        some (.silent, { s with race := s.race.goto i ((s.race.threads i).released e) }.toStage i .none)
    | _, .call _ => none
  | (i, .throw e) =>
    if s.stage i = .none then ((s.race.threads i).thrown e).map fun pc => (.silent, s.throw i pc) else none
  | (i, .nextBlock) =>
    match s.stage i, s.race.threads i with
    | .none, .nativeProduced => some (.silent, { s with race := s.race.goto i .nativeLoop })
    | _, _ => none

def startWaitRace (d : DposSlot W) : WaitRace W := ⟨startRace d, false, fun _ => .none⟩

/-! ## What is kept -/

/-- Between the `compareAndSet` and `exitManualMining`. -/
def Pc.admitted : Pc → Prop
  | .mineAdmitted _ | .mineLeaving _ | .nativeAdmitted | .nativeLeaving => True
  | pc => pc.holdsLock

/-- A `tre_mine` in its monitor. -/
def Pc.mines : Pc → Prop
  | .mineLoop _ | .mineNoOverride _ | .mineSlot _ _ | .mineTime _ _ | .mineProduce _ _ | .mineProduced _ => True
  | _ => False

/-- Past its entry and not yet done with its releases. -/
def WaitRace.PastEntry (s : WaitRace W) (i : Nat) : Prop :=
  (s.race.threads i).admitted ∨ s.stage i = .releasing

/-- **The flags.** One producer is in the monitor; while a `tre_mine` is, both
flags are set; a call that is not admitted changes neither; and both are clear
once all calls have ended. -/
structure FlagsKept (rt : RaceRuntime) (s : WaitRace W) : Prop where
  exclusive : ∀ i j, (s.race.threads i).holdsLock → (s.race.threads j).holdsLock → i = j
  flagged : ∀ i, (s.race.threads i).mines → s.race.isManualMining = true ∧ s.blockWaitLock = true
  refused : ∀ i a ev s', s.step rt (i, a) = some (ev, s') → ¬ s.PastEntry i → ¬ s'.PastEntry i →
    s'.race.isManualMining = s.race.isManualMining ∧ s'.blockWaitLock = s.blockWaitLock
  released : (∀ i, s.race.threads i = .idle ∧ s.stage i = .none) →
    s.race.isManualMining = false ∧ s.blockWaitLock = false

/-- A `tre_mine` before or in its monitor. -/
def Pc.headsForBlock : Pc → Prop
  | .mineAdmitted _ => True
  | pc => pc.mines

/-- A `tre_mine` that has set the wait lock and has not left its monitor. -/
def WaitRace.NeedsWaitLock (s : WaitRace W) (j : Nat) : Prop :=
  s.stage j = .none ∧ (s.race.threads j).headsForBlock

/-- A step that clears the wait lock does clear it, and no `tre_mine` needs it. -/
def ClearsSafely (s : WaitRace W) (c : Nat × WaitAct W) : Prop :=
  s.stage c.1 = .releasing → (∃ v, c.2 = .race (.go v) ∧ v.failure = none) ∧ ∀ j, ¬ s.NeedsWaitLock j

/-! ## What a step does to the flags -/

/-- A step of thread `i` as the flags see it. -/
inductive FlagEffect (s s' : Race W) (i : Nat) : Prop
  | quiet (hadmitted : (s'.threads i).admitted ↔ (s.threads i).admitted)
      (hheads : (s'.threads i).headsForBlock → (s.threads i).headsForBlock)
      (hflag : s'.isManualMining = s.isManualMining) (hstage : stageAfter (s.threads i) (s'.threads i) = .none)
  | enters (hout : ¬ (s.threads i).admitted) (hin : (s'.threads i).admitted) (hmines : ¬ (s'.threads i).mines)
      (hfree : s.isManualMining = false) (hflag : s'.isManualMining = true) (hstage : stageAfter (s.threads i) (s'.threads i) = .setting)
  | leaves (hin : (s.threads i).admitted) (hout : ¬ (s'.threads i).admitted) (hflag : s'.isManualMining = false)
      (hstage : stageAfter (s.threads i) (s'.threads i) = .releasing)

variable {rt : RaceRuntime} {i : Nat}

theorem FlagEffect.of_goto {s t : Race W} {pc pc' : Pc} (hpc : s.threads i = pc)
    (hadmitted : pc'.admitted ↔ pc.admitted) (hheads : pc'.headsForBlock → pc.headsForBlock)
    (hflag : t.isManualMining = s.isManualMining) (hstage : stageAfter pc pc' = .none) :
    FlagEffect s (t.goto i pc') i := by
  apply FlagEffect.quiet
  · rwa [t.goto_self, hpc]
  · rwa [t.goto_self, hpc]
  · exact hflag
  · rwa [t.goto_self, hpc]

theorem FlagEffect.of_some {s t s' : Race W} {ev ev' : RaceEvent} {pc pc' : Pc}
    (hst : some (ev', t.goto i pc') = some (ev, s')) (hpc : s.threads i = pc)
    (hadmitted : pc'.admitted ↔ pc.admitted) (hheads : pc'.headsForBlock → pc.headsForBlock)
    (hflag : t.isManualMining = s.isManualMining) (hstage : stageAfter pc pc' = .none) : FlagEffect s s' i := by
  obtain ⟨-, rfl⟩ := Prod.mk.inj (Option.some.inj hst)
  exact .of_goto hpc hadmitted hheads hflag hstage

theorem Race.produce_flags {s : Race W} {v : StepEnv W} {t : Int} {pc returned : Pc} {threw : JavaException → Pc}
    (hpc : s.threads i = pc) (hadm : pc.admitted) (hr : returned.admitted) (ht : ∀ e, (threw e).admitted)
    (hheads : returned.headsForBlock → pc.headsForBlock) (hthrew : ∀ e, ¬ (threw e).headsForBlock)
    (hsr : stageAfter pc returned = .none) (hst : ∀ e, stageAfter pc (threw e) = .none) :
    FlagEffect s (s.produce i v t returned threw).2 i := by
  have hreturned : ∀ u : Race W, u.isManualMining = s.isManualMining → FlagEffect s (u.goto i returned) i :=
    fun u hu => .of_goto hpc ⟨fun _ => hadm, fun _ => hr⟩ hheads hu hsr
  have hthrown : ∀ (u : Race W) e, u.isManualMining = s.isManualMining → FlagEffect s (u.goto i (threw e)) i :=
    fun u e hu => .of_goto hpc ⟨fun _ => hadm, fun _ => ht e⟩ (fun h => (hthrew e h).elim) hu (hst e)
  unfold Race.produce
  cases v.produce with
  | pushed next => exact hreturned _ rfl
  | pushedThenThrew next e => exact hthrown _ e rfl
  | empty => exact hreturned _ rfl
  | threw e => exact hthrown _ e rfl

/-- A step of a thread moves that thread only. -/
theorem Race.go_threads {s s' : Race W} {v : StepEnv W} {pc : Pc} {ev : RaceEvent}
    (hst : s.go rt i v pc = some (ev, s')) {j : Nat} (hj : j ≠ i) : s'.threads j = s.threads j := by
  cases pc <;> simp only [Race.go, Race.produce] at hst <;> (repeat' split at hst) <;>
    first
    | cases hst; done
    | (obtain ⟨-, rfl⟩ := Prod.mk.inj (Option.some.inj hst)
       exact Race.goto_ne _ _ hj)

theorem Race.go_flags {s s' : Race W} {v : StepEnv W} {ev : RaceEvent} (hrt : rt.atomicFlag = true)
    (hst : s.go rt i v (s.threads i) = some (ev, s')) : FlagEffect s s' i := by
  cases hpc : s.threads i with
  | idle => simp [Race.go, hpc] at hst
  | setChecked target =>
    simp only [Race.go, hpc] at hst
    exact .of_some hst hpc Iff.rfl id rfl rfl
  | mineCalled n =>
    simp only [Race.go, hpc] at hst
    cases hr : rt.reflection with
    | error e =>
      simp only [hr] at hst
      exact .of_some hst hpc Iff.rfl id rfl rfl
    | ok =>
      simp only [hr] at hst
      split at hst
      · -- Refused: another producer has the flag.
        exact .of_some hst hpc Iff.rfl id rfl rfl
      · rename_i hfree
        obtain ⟨-, rfl⟩ := Prod.mk.inj (Option.some.inj hst)
        exact .enters (by simp [hpc, Pc.admitted, Pc.holdsLock]) (by simp [Pc.admitted]) (by simp [Pc.mines])
          (by simpa using hfree) rfl (by simp [hpc, stageAfter])
  | mineAdmitted n =>
    simp only [Race.go, hpc] at hst
    split at hst
    · exact .of_some hst hpc Iff.rfl False.elim rfl rfl
    · split at hst
      · cases hst
      · exact .of_some hst hpc Iff.rfl id rfl rfl
  | mineLoop left =>
    cases left with
    | zero =>
      simp only [Race.go, hpc] at hst
      exact .of_some hst hpc Iff.rfl False.elim rfl rfl
    | succ left =>
      simp only [Race.go, hpc] at hst
      split at hst <;> exact .of_some hst hpc Iff.rfl id rfl rfl
  | mineNoOverride left =>
    simp only [Race.go, hpc] at hst
    exact .of_some hst hpc Iff.rfl id rfl rfl
  | mineSlot left slot =>
    simp only [Race.go, hpc] at hst
    split at hst
    · exact .of_some hst hpc Iff.rfl False.elim rfl rfl
    · split at hst
      · exact .of_some hst hpc Iff.rfl False.elim rfl rfl
      · exact .of_some hst hpc Iff.rfl id rfl rfl
  | mineTime left blockTime =>
    simp only [Race.go, hpc] at hst
    exact .of_some hst hpc Iff.rfl id rfl rfl
  | mineProduce left blockTime =>
    simp only [Race.go, hpc, Option.some.injEq] at hst
    rw [← show (s.produce i v blockTime (.mineProduced left) fun e => .mineLeaving (.error (.other e))).2 = s' by rw [hst]]
    exact Race.produce_flags hpc trivial trivial (fun _ => trivial) id (fun _ => False.elim) rfl fun _ => rfl
  | mineProduced left =>
    simp only [Race.go, hpc] at hst
    exact .of_some hst hpc Iff.rfl id rfl rfl
  | mineLeaving result =>
    simp only [Race.go, hpc, Option.some.injEq, Prod.mk.injEq] at hst
    obtain ⟨-, rfl⟩ := hst
    exact .leaves (by simp [hpc, Pc.admitted]) (by simp [Pc.admitted, Pc.holdsLock]) rfl (by simp [hpc, stageAfter])
  | mineFinally result =>
    simp only [Race.go, hpc] at hst
    exact .of_some hst hpc Iff.rfl id rfl rfl
  | nativeCalled =>
    simp only [Race.go, hpc, hrt, if_true] at hst
    split at hst
    · exact .of_some hst hpc Iff.rfl id rfl rfl
    · rename_i hfree
      obtain ⟨-, rfl⟩ := Prod.mk.inj (Option.some.inj hst)
      exact .enters (by simp [hpc, Pc.admitted, Pc.holdsLock]) (by simp [Pc.admitted]) (by simp [Pc.mines])
        (by simpa using hfree) rfl (by simp [hpc, stageAfter])
  | nativeAdmitted =>
    simp only [Race.go, hpc] at hst
    split at hst
    · cases hst
    · exact .of_some hst hpc Iff.rfl id rfl rfl
  | nativeLoop =>
    simp only [Race.go, hpc] at hst
    split at hst <;> exact .of_some hst hpc Iff.rfl id rfl rfl
  | nativeNoOverride =>
    simp only [Race.go, hpc] at hst
    exact .of_some hst hpc Iff.rfl id rfl rfl
  | nativeSlot slot =>
    simp only [Race.go, hpc] at hst
    split at hst <;> exact .of_some hst hpc Iff.rfl id rfl rfl
  | nativeProduce blockTime =>
    simp only [Race.go, hpc, Option.some.injEq] at hst
    rw [← show (s.produce i v blockTime .nativeProduced fun _ => .nativeLeaving).2 = s' by rw [hst]]
    exact Race.produce_flags hpc trivial trivial (fun _ => trivial) id (fun _ => False.elim) rfl fun _ => rfl
  | nativeProduced =>
    simp only [Race.go, hpc] at hst
    exact .of_some hst hpc Iff.rfl id rfl rfl
  | nativeLeaving =>
    simp only [Race.go, hpc, Option.some.injEq, Prod.mk.injEq] at hst
    obtain ⟨-, rfl⟩ := hst
    exact .leaves (by simp [hpc, Pc.admitted]) (by simp [Pc.admitted, Pc.holdsLock])
      (by simp [hrt, Race.setFlag, Race.goto]) (by simp [hpc, stageAfter])

theorem Race.call_flags {s : Race W} (hpc : s.threads i = .idle) (r : Request) :
    FlagEffect s (s.call i r).2 i ∧ ∀ j ≠ i, (s.call i r).2.threads j = s.threads j := by
  have hstay : FlagEffect s s i := .quiet Iff.rfl id rfl (by simp [hpc, stageAfter])
  have hgoto : ∀ pc', ¬ pc'.admitted → ¬ pc'.headsForBlock → stageAfter .idle pc' = .none →
      FlagEffect s (s.goto i pc') i ∧ ∀ j ≠ i, (s.goto i pc').threads j = s.threads j := fun pc' ha hh hg =>
    ⟨.of_goto hpc ⟨fun h => (ha h).elim, False.elim⟩ (fun h => (hh h).elim) rfl hg, fun j hj => s.goto_ne pc' hj⟩
  cases r with
  | tre_setNextBlockTimestamp target =>
    simp only [Race.call]
    split
    · exact ⟨hstay, fun _ _ => rfl⟩
    · exact hgoto _ id id rfl
  | tre_mine n =>
    simp only [Race.call]
    split
    · exact ⟨hstay, fun _ _ => rfl⟩
    · exact hgoto _ id id rfl
  | produceBatch => exact hgoto _ id id rfl

theorem Race.step_flags {s s' : Race W} {a : Act W} {ev : RaceEvent} (hrt : rt.atomicFlag = true)
    (hst : s.step rt (i, a) = some (ev, s')) : FlagEffect s s' i ∧ ∀ j ≠ i, s'.threads j = s.threads j := by
  cases a with
  | call r =>
    cases hpc : s.threads i with
    | idle =>
      simp only [Race.step, hpc, Option.some.injEq] at hst
      have hcall := Race.call_flags hpc r
      rwa [hst] at hcall
    | _ => simp [Race.step, hpc] at hst
  | go v => exact ⟨Race.go_flags hrt hst, fun j hj => Race.go_threads hst hj⟩

/-- A step of thread `i` as the flags and the wait lock see it. -/
inductive WaitEffect (a : WaitAct W) (s s' : WaitRace W) (i : Nat) : Prop
  | quiet (hstage : s.stage i ≠ .releasing) (hstage' : s'.stage i = .none)
      (hadmitted : (s'.race.threads i).admitted ↔ (s.race.threads i).admitted)
      (hheads : (s'.race.threads i).headsForBlock → s.NeedsWaitLock i)
      (hflag : s'.race.isManualMining = s.race.isManualMining) (hlock : s'.blockWaitLock = s.blockWaitLock)
  | enters (hout : ¬ s.PastEntry i) (hin : (s'.race.threads i).admitted) (hmines : ¬ (s'.race.threads i).mines)
      (hfree : s.race.isManualMining = false) (hflag : s'.race.isManualMining = true)
      (hlock : s'.blockWaitLock = s.blockWaitLock) (hstage : s'.stage i = .setting)
  | sets (hstage : s.stage i = .setting) (hstage' : s'.stage i = .none) (hrace : s'.race = s.race)
      (hlock : s'.blockWaitLock = true)
  | leaves (hin : (s.race.threads i).admitted) (hout : ¬ (s'.race.threads i).admitted)
      (hflag : s'.race.isManualMining = false) (hlock : s'.blockWaitLock = s.blockWaitLock)
      (hstage : s'.stage i = .releasing)
  | clears (hstage : s.stage i = .releasing) (hstage' : s'.stage i = .none) (hrace : s'.race = s.race)
      (hlock : s'.blockWaitLock = false)
  | keeps (hstage : s.stage i = .releasing) (hfails : ∀ v, a = .race (.go v) → v.failure ≠ none)

theorem Pc.holdsLock.admitted {pc : Pc} (h : pc.holdsLock) : pc.admitted := by
  cases pc <;> trivial

theorem Pc.mines.holdsLock {pc : Pc} (h : pc.mines) : pc.holdsLock := by
  cases pc <;> trivial

theorem Pc.mines.headsForBlock {pc : Pc} (h : pc.mines) : pc.headsForBlock := by
  cases pc <;> trivial

theorem Pc.headsForBlock.admitted {pc : Pc} (h : pc.headsForBlock) : pc.admitted := by
  cases pc <;> trivial

/-- An exception leaves the flags to the `finally`. -/
theorem Pc.thrown_flags {pc pc' : Pc} {e : JavaException} (h : pc.thrown e = some pc') :
    pc.admitted ∧ pc'.admitted ∧ ¬ pc'.headsForBlock := by
  cases pc <;> simp only [Pc.thrown, Option.some.injEq, reduceCtorEq] at h <;> subst h <;>
    exact ⟨trivial, trivial, id⟩

theorem WaitRace.throw_race (s : WaitRace W) (i : Nat) (pc : Pc) :
    (s.throw i pc).race.isManualMining = s.race.isManualMining ∧
      (s.throw i pc).race.threads = (s.race.goto i pc).threads := by
  simp only [WaitRace.throw]
  split <;> exact ⟨rfl, rfl⟩

@[simp] theorem WaitRace.toStage_self (s : WaitRace W) (i : Nat) (g : WaitStage) : (s.toStage i g).stage i = g := if_pos rfl

theorem WaitRace.toStage_ne (s : WaitRace W) {i j : Nat} (g : WaitStage) (h : j ≠ i) :
    (s.toStage i g).stage j = s.stage j := if_neg h

@[simp] theorem WaitRace.toStage_race (s : WaitRace W) (i : Nat) (g : WaitStage) : (s.toStage i g).race = s.race := rfl

/-- An exception before the `finally`, wherever the wait lock stands. -/
theorem WaitRace.throw_flags {s : WaitRace W} {a : WaitAct W} {e : JavaException} {pc : Pc} (hg : s.stage i ≠ .releasing)
    (hpc : (s.race.threads i).thrown e = some pc) :
    WaitEffect a s ((s.throw i pc).toStage i .none) i ∧
      ∀ j ≠ i, ((s.throw i pc).toStage i .none).race.threads j = s.race.threads j ∧
        ((s.throw i pc).toStage i .none).stage j = s.stage j := by
  obtain ⟨hin, hin', hheads⟩ := Pc.thrown_flags hpc
  obtain ⟨hflag, hthreads⟩ := s.throw_race i pc
  refine ⟨.quiet hg (by simp) ?_ ?_ hflag rfl, ?_⟩
  · simp [hthreads, hin, hin']
  · simp [hthreads, hheads]
  · intro j hj
    exact ⟨by simp [hthreads, Race.goto_ne _ _ hj], toStage_ne _ _ hj⟩

theorem WaitRace.race_flags {s : WaitRace W} {a : Act W} {r : Race W} {ev : RaceEvent} (hrt : rt.atomicFlag = true)
    (hg : s.stage i = .none) (hst : s.race.step rt (i, a) = some (ev, r)) :
    WaitEffect (.race a) s ({ s with race := r }.toStage i (stageAfter (s.race.threads i) (r.threads i))) i := by
  obtain ⟨heffect, -⟩ := Race.step_flags hrt hst
  cases heffect with
  | quiet hadmitted hheads hflag hstage =>
    rw [hstage]
    exact .quiet (by simp [hg]) (by simp) hadmitted (fun h => ⟨hg, hheads h⟩) hflag rfl
  | enters hout hin hmines hfree hflag hstage =>
    rw [hstage]
    exact .enters (by simp [PastEntry, hout, hg]) hin hmines hfree hflag rfl (by simp)
  | leaves hin hout hflag hstage =>
    rw [hstage]
    exact .leaves hin hout hflag rfl (by simp)

theorem WaitRace.step_flags {s s' : WaitRace W} {a : WaitAct W} {ev : RaceEvent} (hrt : rt.atomicFlag = true)
    (hst : s.step rt (i, a) = some (ev, s')) :
    WaitEffect a s s' i ∧ ∀ j ≠ i, s'.race.threads j = s.race.threads j ∧ s'.stage j = s.stage j := by
  cases a with
  | race a =>
    cases hg : s.stage i with
    | none =>
      simp only [WaitRace.step, hg, Option.map_eq_some_iff] at hst
      obtain ⟨⟨ev, r⟩, hst, heq⟩ := hst
      obtain ⟨-, rfl⟩ := Prod.mk.inj heq
      refine ⟨WaitRace.race_flags hrt hg hst, fun j hj => ⟨(Race.step_flags hrt hst).2 j hj, toStage_ne _ _ hj⟩⟩
    | setting =>
      cases a with
      | call r => simp [WaitRace.step, hg] at hst
      | go v =>
        simp only [WaitRace.step, hg] at hst
        cases hv : v.failure with
        | none =>
          simp only [hv, Option.some.injEq, Prod.mk.injEq] at hst
          obtain ⟨-, rfl⟩ := hst
          exact ⟨.sets hg (by simp) rfl rfl, fun j hj => ⟨rfl, toStage_ne _ _ hj⟩⟩
        | some e =>
          simp only [hv, Option.map_eq_some_iff, Prod.mk.injEq] at hst
          obtain ⟨pc, hpc, -, rfl⟩ := hst
          exact WaitRace.throw_flags (by simp [hg]) hpc
    | releasing =>
      cases a with
      | call r => simp [WaitRace.step, hg] at hst
      | go v =>
        simp only [WaitRace.step, hg] at hst
        cases hv : v.failure with
        | none =>
          simp only [hv, Option.some.injEq, Prod.mk.injEq] at hst
          obtain ⟨-, rfl⟩ := hst
          exact ⟨.clears hg (by simp) rfl rfl, fun j hj => ⟨rfl, toStage_ne _ _ hj⟩⟩
        | some e =>
          simp only [hv, Option.some.injEq, Prod.mk.injEq] at hst
          obtain ⟨-, rfl⟩ := hst
          exact ⟨.keeps hg (by simp [hv]), fun j hj => ⟨Race.goto_ne _ _ hj, toStage_ne _ _ hj⟩⟩
  | throw e =>
    simp only [WaitRace.step] at hst
    split at hst
    · rename_i hg
      simp only [Option.map_eq_some_iff, Prod.mk.injEq] at hst
      obtain ⟨pc, hpc, -, rfl⟩ := hst
      have hstay : (s.throw i pc).toStage i .none = s.throw i pc := by
        simp only [WaitRace.toStage, WaitRace.throw, WaitRace.mk.injEq, true_and]
        funext j
        by_cases hj : j = i <;> simp [hj, hg]
      have hthrow := WaitRace.throw_flags (a := .throw e) (by simp [hg]) hpc
      rwa [hstay] at hthrow
    · cases hst
  | nextBlock =>
    simp only [WaitRace.step] at hst
    split at hst
    · rename_i hg hpc
      simp only [Option.some.injEq, Prod.mk.injEq] at hst
      obtain ⟨-, rfl⟩ := hst
      refine ⟨.quiet (by simp [hg]) hg ?_ ?_ rfl rfl, fun j hj => ⟨Race.goto_ne _ _ hj, rfl⟩⟩
      · simp [hpc, Pc.admitted, Pc.holdsLock]
      · simp [Pc.headsForBlock, Pc.mines]
    · cases hst

/-! ## The invariant -/

structure FlagInv (s : WaitRace W) : Prop where
  held : ∀ i, (s.race.threads i).admitted → s.race.isManualMining = true
  owner : s.race.isManualMining = true → ∃ i, (s.race.threads i).admitted
  unique : ∀ i j, (s.race.threads i).admitted → (s.race.threads j).admitted → i = j
  setting : ∀ i, s.stage i = .setting → (s.race.threads i).admitted ∧ ¬ (s.race.threads i).mines
  releasing : ∀ i, s.stage i = .releasing → ¬ (s.race.threads i).admitted
  waiting : s.blockWaitLock = true → ∃ i, s.PastEntry i
  needed : ∀ i, s.NeedsWaitLock i → s.blockWaitLock = true

theorem flagInv_start (d : DposSlot W) : FlagInv (startWaitRace d) where
  held i h := h.elim
  owner h := by cases h
  unique i j h := h.elim
  setting i h := by cases h
  releasing i h := by cases h
  waiting h := by cases h
  needed i h := h.2.elim

section

variable {s s' : WaitRace W} {a : WaitAct W} {ev : RaceEvent}

/-- The threads other than `i` stay in place. -/
def Undisturbed (s s' : WaitRace W) (i : Nat) : Prop :=
  ∀ j ≠ i, s'.race.threads j = s.race.threads j ∧ s'.stage j = s.stage j

theorem Undisturbed.pastEntry (h : Undisturbed s s' i) {j : Nat} (hj : j ≠ i) : s'.PastEntry j ↔ s.PastEntry j := by
  simp only [WaitRace.PastEntry, h j hj]

theorem Undisturbed.needs (h : Undisturbed s s' i) {j : Nat} (hj : j ≠ i) :
    s'.NeedsWaitLock j ↔ s.NeedsWaitLock j := by
  simp only [WaitRace.NeedsWaitLock, h j hj]

/-- Once `i` is at no access to the wait lock, whoever is at one was there before. -/
theorem Undisturbed.at_stage (h : Undisturbed s s' i) (hi : s'.stage i = .none) {j : Nat} {g : WaitStage}
    (hj : s'.stage j = g) (hg : g ≠ .none) : s.stage j = g ∧ s'.race.threads j = s.race.threads j := by
  have hne : j ≠ i := by
    rintro rfl
    exact hg (hj.symm.trans hi)
  obtain ⟨hthread, hstage⟩ := h j hne
  exact ⟨hstage.symm.trans hj, hthread⟩

/-- Who is admitted did not change. -/
theorem Undisturbed.admitted (h : Undisturbed s s' i)
    (hi : (s'.race.threads i).admitted ↔ (s.race.threads i).admitted) (j : Nat) :
    (s'.race.threads j).admitted ↔ (s.race.threads j).admitted := by
  by_cases hj : j = i
  · rw [hj, hi]
  · rw [(h j hj).1]

/-- With the admitted threads and the flag as they were, the flag still says whether one is. -/
theorem FlagInv.of_admitted (hi : FlagInv s)
    (hadm : ∀ j, (s'.race.threads j).admitted ↔ (s.race.threads j).admitted)
    (hflag : s'.race.isManualMining = s.race.isManualMining)
    (hsetting : ∀ j, s'.stage j = .setting → (s'.race.threads j).admitted ∧ ¬ (s'.race.threads j).mines)
    (hreleasing : ∀ j, s'.stage j = .releasing → s.stage j = .releasing)
    (hwaiting : s'.blockWaitLock = true → ∃ j, s'.PastEntry j)
    (hneeded : ∀ j, s'.NeedsWaitLock j → s'.blockWaitLock = true) : FlagInv s' where
  held j h := by
    rw [hflag]
    exact hi.held j ((hadm j).1 h)
  owner h := by
    obtain ⟨j, hj⟩ := hi.owner (by rwa [← hflag])
    exact ⟨j, (hadm j).2 hj⟩
  unique j k hj hk := hi.unique j k ((hadm j).1 hj) ((hadm k).1 hk)
  setting := hsetting
  releasing j h := by
    rw [hadm]
    exact hi.releasing j (hreleasing j h)
  waiting := hwaiting
  needed := hneeded

theorem FlagInv.step (hi : FlagInv s) (hrt : rt.atomicFlag = true) (hok : ClearsSafely s (i, a))
    (hst : s.step rt (i, a) = some (ev, s')) : FlagInv s' := by
  obtain ⟨heffect, hothers⟩ := WaitRace.step_flags hrt hst
  replace hothers : Undisturbed s s' i := hothers
  cases heffect with
  | quiet hstage hstage' hadmitted hheads hflag hlock =>
    have hadm := hothers.admitted hadmitted
    apply hi.of_admitted hadm hflag
    · intro j hj
      obtain ⟨hbefore, hthread⟩ := hothers.at_stage hstage' hj (by simp)
      rw [hthread]
      exact hi.setting j hbefore
    · intro j hj
      exact (hothers.at_stage hstage' hj (by simp)).1
    · intro h
      obtain ⟨j, hj⟩ := hi.waiting (by rwa [← hlock])
      by_cases hne : j = i
      · subst hne
        exact ⟨j, .inl (hadmitted.2 (hj.resolve_right hstage))⟩
      · exact ⟨j, (hothers.pastEntry hne).2 hj⟩
    · intro j hj
      rw [hlock]
      by_cases hne : j = i
      · subst hne
        exact hi.needed j (hheads hj.2)
      · exact hi.needed j ((hothers.needs hne).1 hj)
  | enters hout hin hmines hfree hflag hlock hstage =>
    -- The flag was clear, so nobody else is admitted.
    have hnobody : ∀ j, ¬ (s.race.threads j).admitted := by
      intro j hj
      rw [hi.held j hj] at hfree
      cases hfree
    have honly : ∀ j, (s'.race.threads j).admitted → j = i := by
      intro j hj
      by_contra hne
      exact hnobody j (by rwa [← (hothers j hne).1])
    refine ⟨fun _ _ => hflag, fun _ => ⟨i, hin⟩, fun j k hj hk => (honly j hj).trans (honly k hk).symm, ?_, ?_, ?_, ?_⟩
    · intro j hj
      by_cases hne : j = i
      · subst hne
        exact ⟨hin, hmines⟩
      · exact (hnobody j (hi.setting j (by rwa [← (hothers j hne).2])).1).elim
    · intro j hj hadm
      obtain rfl := honly j hadm
      rw [hstage] at hj
      cases hj
    · exact fun _ => ⟨i, .inl hin⟩
    · rintro j ⟨hnone, hheads⟩
      obtain rfl := honly j hheads.admitted
      rw [hstage] at hnone
      cases hnone
  | sets hstage hstage' hrace hlock =>
    refine hi.of_admitted (fun j => by rw [hrace]) (by rw [hrace]) ?_ ?_ ?_ fun _ _ => hlock
    · intro j hj
      rw [hrace]
      exact hi.setting j (hothers.at_stage hstage' hj (by simp)).1
    · intro j hj
      exact (hothers.at_stage hstage' hj (by simp)).1
    · intro _
      refine ⟨i, .inl ?_⟩
      rw [hrace]
      exact (hi.setting i hstage).1
  | leaves hin hout hflag hlock hstage =>
    have hnobody : ∀ j, ¬ (s'.race.threads j).admitted := by
      intro j hj
      by_cases hne : j = i
      · exact hout (hne ▸ hj)
      · rw [(hothers j hne).1] at hj
        exact hne (hi.unique j i hj hin)
    refine ⟨fun j hj => (hnobody j hj).elim, ?_, fun j _ hj => (hnobody j hj).elim, ?_, fun j _ => hnobody j, ?_, ?_⟩
    · intro h
      rw [hflag] at h
      cases h
    · intro j hj
      have hne : j ≠ i := by
        rintro rfl
        rw [hstage] at hj
        cases hj
      have hadm := (hi.setting j (by rwa [← (hothers j hne).2])).1
      exact (hne (hi.unique j i hadm hin)).elim
    · exact fun _ => ⟨i, .inr hstage⟩
    · intro j hj
      exact (hnobody j hj.2.admitted).elim
  | clears hstage hstage' hrace hlock =>
    apply hi.of_admitted (fun j => by rw [hrace]) (by rw [hrace])
    · intro j hj
      rw [hrace]
      exact hi.setting j (hothers.at_stage hstage' hj (by simp)).1
    · intro j hj
      exact (hothers.at_stage hstage' hj (by simp)).1
    · intro h
      rw [hlock] at h
      cases h
    · intro j hj
      by_cases hji : j = i
      · subst hji
        exact (hi.releasing j hstage (by rw [← hrace]; exact hj.2.admitted)).elim
      · exact ((hok hstage).2 j ((hothers.needs hji).1 hj)).elim
  | keeps hstage hfails =>
    -- A release that fails is not a safe one.
    obtain ⟨⟨v, rfl, hv⟩, -⟩ := hok hstage
    exact (hfails v rfl hv).elim

/-- Only a thread past its entry changes a flag. -/
theorem FlagInv.refused (hi : FlagInv s) (hrt : rt.atomicFlag = true) (hst : s.step rt (i, a) = some (ev, s'))
    (hout : ¬ s.PastEntry i) (hout' : ¬ s'.PastEntry i) :
    s'.race.isManualMining = s.race.isManualMining ∧ s'.blockWaitLock = s.blockWaitLock := by
  cases (WaitRace.step_flags hrt hst).1 with
  | quiet _ _ _ _ hflag hlock => exact ⟨hflag, hlock⟩
  | enters _ hin _ _ _ _ _ => exact (hout' (.inl hin)).elim
  | sets hstage _ _ _ => exact (hout (.inl (hi.setting i hstage).1)).elim
  | leaves hin _ _ _ _ => exact (hout (.inl hin)).elim
  | clears hstage _ _ _ => exact (hout (.inr hstage)).elim
  | keeps hstage _ => exact (hout (.inr hstage)).elim

/-- A thread that takes no step stays in place. -/
theorem Undisturbed.of_run {ok : WaitRace W → Nat × WaitAct W → Prop} {s₀ : WaitRace W} {h}
    (hrt : rt.atomicFlag = true) (hr : Run (WaitRace.step rt) ok s₀ h s) {j : Nat} (hj : ∀ e ∈ h, e.1.1 ≠ j) :
    s.race.threads j = s₀.race.threads j ∧ s.stage j = s₀.stage j := by
  induction hr with
  | nil => exact ⟨rfl, rfl⟩
  | @snoc h m m' r c _ _ hst ih =>
    obtain ⟨hthread, hstage⟩ := (WaitRace.step_flags hrt hst).2 j (hj (c, r) (by simp)).symm
    obtain ⟨hthread', hstage'⟩ := ih fun e he => hj e (by simp [he])
    exact ⟨hthread.trans hthread', hstage.trans hstage'⟩

theorem flagInv {d : DposSlot W} {h} (hrt : rt.atomicFlag = true)
    (hr : Run (WaitRace.step rt) ClearsSafely (startWaitRace d) h s) : FlagInv s := by
  apply Run.inv (fun _ s => FlagInv s) (flagInv_start d) _ hr
  rintro _ s ⟨i, a⟩ ev s' _ hi hok hst
  exact hi.step hrt hok hst

/-- **The flags are kept** on every run in which the wait lock is cleared only
while no `tre_mine` needs it. -/
theorem flags_kept {d : DposSlot W} {h} (hrt : rt.atomicFlag = true)
    (hr : Run (WaitRace.step rt) ClearsSafely (startWaitRace d) h s) : FlagsKept rt s := by
  have hi := flagInv hrt hr
  refine ⟨?_, ?_, fun i a ev s' hst => hi.refused hrt hst, ?_⟩
  · intro i j hj hk
    exact hi.unique i j hj.admitted hk.admitted
  · intro i hmines
    have hadm := hmines.holdsLock.admitted
    have hstage : s.stage i = .none := by
      cases hg : s.stage i with
      | none => rfl
      | setting => exact ((hi.setting i hg).2 hmines).elim
      | releasing => exact (hi.releasing i hg hadm).elim
    refine ⟨hi.held i hadm, hi.needed i ⟨hstage, hmines.headsForBlock⟩⟩
  · intro hended
    have hidle : ∀ i, ¬ s.PastEntry i := by
      intro i hp
      simp only [WaitRace.PastEntry, hended i] at hp
      exact hp.elim id (by simp)
    refine ⟨Bool.eq_false_iff.2 ?_, Bool.eq_false_iff.2 ?_⟩
    · intro hflag
      obtain ⟨i, hadm⟩ := hi.owner hflag
      exact hidle i (.inl hadm)
    · intro hlock
      obtain ⟨i, hp⟩ := hi.waiting hlock
      exact hidle i hp

end

/-! ## Runs with and without the race -/

/-- An access that meets nothing in its way. -/
def proceeds : WaitAct Unit := .race pushes

/-- A `tre_mine` fails and releases both flags; the next one mines with both set. -/
theorem flags_kept_in_turn : ∃ h s, Run (WaitRace.step atomicRuntime) ClearsSafely (startWaitRace oneWitness) h s ∧
    (s.race.threads 1).mines ∧ s.race.isManualMining = true ∧ s.blockWaitLock = true := by
  have hstart : Run (WaitRace.step atomicRuntime) ClearsSafely (startWaitRace oneWitness) _ _ := .nil
  have hcalled := hstart.snoc (0, .race (.call (.tre_mine 1))) (fun h => by cases h) rfl
  have hadmitted := hcalled.snoc (0, proceeds) (fun h => by cases h) rfl
  have hset := hadmitted.snoc (0, proceeds) (fun h => by cases h) rfl
  have hthrown := hset.snoc (0, .throw ⟨"java.lang.IllegalStateException", "interrupted"⟩) (fun h => by cases h) rfl
  have hreleasing := hthrown.snoc (0, proceeds) (fun h => by cases h) rfl
  have hcleared := hreleasing.snoc (0, proceeds) (fun _ => ⟨⟨_, rfl, rfl⟩, fun j h => by
    have hheads := h.2
    by_cases hj : j = 0
    · subst hj
      exact hheads
    · rw [(Undisturbed.of_run rfl hreleasing (by simp [Ne.symm hj])).1] at hheads
      exact hheads⟩) rfl
  have hcalled' := hcleared.snoc (1, .race (.call (.tre_mine 1))) (fun h => by cases h) rfl
  have hadmitted' := hcalled'.snoc (1, proceeds) (fun h => by cases h) rfl
  have hset' := hadmitted'.snoc (1, proceeds) (fun h => by cases h) rfl
  have hlocked' := hset'.snoc (1, proceeds) (fun h => by cases h) rfl
  exact ⟨_, _, hlocked', trivial, (flags_kept rfl hlocked').flagged 1 trivial⟩

/-- The first `tre_mine` has released the flag when the second is admitted and sets
the wait lock; the first then clears it, and the second is in its monitor without. -/
theorem wait_lock_cleared :
    ¬ ∀ (rt : RaceRuntime) (d : DposSlot Unit) h (s : WaitRace Unit), rt.atomicFlag = true →
      Run (WaitRace.step rt) (fun _ _ => True) (startWaitRace d) h s → FlagsKept rt s := by
  intro hall
  have hp : play (WaitRace.step atomicRuntime) (fun _ _ => True) (startWaitRace oneWitness)
    ((0, .race (.call (.tre_mine 1))) :: List.replicate 11 (0, proceeds) ++
      (1, .race (.call (.tre_mine 1))) :: List.replicate 2 (1, proceeds) ++
      [(0, proceeds), (1, proceeds)]) = some (_, _) := rfl
  have hkept := hall _ _ _ _ rfl (.of_play hp)
  exact absurd (hkept.flagged 1 trivial).2 (by decide)

end HardhatTron

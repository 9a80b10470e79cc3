import HardhatTron.Node.Mining
import Mathlib.Data.List.Nodup
/-!
# The override under concurrent callers

Threads that run `tre_setNextBlockTimestamp`, `tre_mine` and the node's own
`produceBatch`, one volatile access at a time. The override is cleared in two
places of `tre_mine` only, and read on every production path.

`override_one_shot` covers the runs that stay off the three ways this goes wrong;
`refused_mine_discards_timestamp` is a run that does not.
-/
namespace HardhatTron

open Lib

variable {W : Type}

/-! ## The threads -/

/-- Where a thread stands. `left` counts the iterations still to come. -/
inductive Pc where
  | idle
  /-- `tre_setNextBlockTimestamp` between its check and its write. -/
  | setChecked (target : Int)
  /-- `tre_mine` before it is admitted to manual mining. -/
  | mineCalled (blocksToMine : Nat)
  /-- Admitted, before the lock. -/
  | mineAdmitted (blocksToMine : Nat)
  | mineLoop (left : Nat)
  /-- `getSlot` has seen no override. -/
  | mineNoOverride (left : Nat)
  | mineSlot (left : Nat) (slot : Int)
  | mineTime (left : Nat) (blockTime : Int)
  | mineProduce (left : Nat) (blockTime : Int)
  /-- `produce` has returned. -/
  | mineProduced (left : Nat)
  /-- Out of the lock, the flag still set. -/
  | mineLeaving (result : Except Thrown Unit)
  /-- In the `finally` of `mineInternal`. -/
  | mineFinally (result : Except Thrown Unit)
  | nativeCalled
  | nativeAdmitted
  | nativeLoop
  | nativeNoOverride
  | nativeSlot (slot : Int)
  | nativeProduce (blockTime : Int)
  | nativeProduced
  | nativeLeaving

inductive Request where
  | tre_setNextBlockTimestamp (target : Int)
  | tre_mine (blocksToMine : Int)
  | produceBatch

/-- What a step meets: the clock, the miners, and what may throw. -/
structure StepEnv (W : Type) where
  currentTimeMillis : Int
  miners : W → Bool
  produce : Produced W
  failure : Option JavaException

/-- A thread takes a request, or goes on with the one it has. -/
inductive Act (W : Type) where
  | call (r : Request)
  | go (v : StepEnv W)

inductive RaceEvent where
  | accepted (target : Int)
  | block (blockTime : Int)
  | answer (result : Except RpcException Unit)
  | silent

structure Race (W : Type) where
  dposSlot : DposSlot W
  isManualMining : Bool
  produceLock : Option Nat
  threads : Nat → Pc

def Race.goto (s : Race W) (i : Nat) (pc : Pc) : Race W :=
  { s with threads := fun j => if j = i then pc else s.threads j }

/-- `atomicFlag`: `isManualMining` is an `AtomicBoolean`, which `produceBatch` sets too. -/
structure RaceRuntime extends TreRuntime where
  atomicFlag : Bool

def Race.setOverride (s : Race W) (target : Int) : Race W := { s with dposSlot := s.dposSlot.setOverride target }

def Race.push (s : Race W) (blockTime : Int) (next : NextHead W) : Race W :=
  { s with dposSlot := s.dposSlot.push blockTime next }

def Race.lock (s : Race W) (i : Nat) : Race W := { s with produceLock := some i }

def Race.unlock (s : Race W) : Race W := { s with produceLock := none }

def Race.setFlag (s : Race W) (b : Bool) : Race W := { s with isManualMining := b }

/-- What a request does at once: its checks. -/
def Race.call (s : Race W) (i : Nat) : Request → RaceEvent × Race W
  | .tre_setNextBlockTimestamp target =>
    match (setNextBlockTimestamp target s.dposSlot).1 with
    | .error e => (.answer (.error e), s)
    | .ok () => (.silent, s.goto i (.setChecked target))
  | .tre_mine n =>
    if !admits n then (.answer (.error (.invalidParams "blocks should between (0, 100]")), s)
    else (.silent, s.goto i (.mineCalled n.toNat))
  | .produceBatch => (.silent, s.goto i .nativeCalled)

/-- A block that a producer hands to `produce`, and where the producer goes. -/
def Race.produce (s : Race W) (i : Nat) (v : StepEnv W) (blockTime : Int) (returned : Pc)
    (threw : JavaException → Pc) : RaceEvent × Race W :=
  match v.produce with
  | .pushed next => (.block blockTime, (s.push blockTime next).goto i returned)
  | .pushedThenThrew next e => (.block blockTime, ((s.push blockTime next).unlock).goto i (threw e))
  | .empty => (.silent, s.goto i returned)
  | .threw e => (.silent, s.unlock.goto i (threw e))

/-- The next access of a thread, unless it waits for the lock. -/
def Race.go (rt : RaceRuntime) (s : Race W) (i : Nat) (v : StepEnv W) : Pc → Option (RaceEvent × Race W)
  | .idle => none
  | .setChecked target => some (.accepted target, (s.setOverride target).goto i .idle)
  | .mineCalled n =>
    match rt.reflection with
    | .error e => some (.silent, s.goto i (.mineFinally (.error e)))
    | .ok () =>
      if s.isManualMining then
        some (.silent, s.goto i (.mineFinally (.error (.jsonRpcInternal "node is already manual mining"))))
      else some (.silent, (s.setFlag true).goto i (.mineAdmitted n))
  | .mineAdmitted n =>
    match v.failure with
    | some e => some (.silent, s.goto i (.mineLeaving (.error (.other e))))
    | none => if s.produceLock.isSome then none else some (.silent, (s.lock i).goto i (.mineLoop n))
  | .mineLoop 0 => some (.silent, s.unlock.goto i (.mineLeaving (.ok ())))
  | .mineLoop (left + 1) =>
    if s.dposSlot.NEXT_BLOCK_TIMESTAMP_OVERRIDE > 0 then some (.silent, s.goto i (.mineSlot left 1))
    else some (.silent, s.goto i (.mineNoOverride left))
  | .mineNoOverride left =>
    some (.silent, s.goto i (.mineSlot left (s.dposSlot.slotAt (v.currentTimeMillis + 50))))
  | .mineSlot left slot =>
    match s.dposSlot.getScheduledWitness rt.outOfBounds slot with
    | .error e => some (.silent, s.unlock.goto i (.mineLeaving (.error (.other e))))
    | .ok scheduled =>
      if !v.miners scheduled then
        some (.silent, s.unlock.goto i
          (.mineLeaving (.error (.jsonRpcInternal "no miner configured for scheduled witness"))))
      else some (.silent, s.goto i (.mineTime left (s.dposSlot.getTime slot)))
  | .mineTime left blockTime => some (.silent, s.goto i (.mineProduce left (s.dposSlot.clamp blockTime)))
  | .mineProduce left blockTime =>
    some (s.produce i v blockTime (.mineProduced left) fun e => .mineLeaving (.error (.other e)))
  | .mineProduced left => some (.silent, (s.setOverride 0).goto i (.mineLoop left))
  | .mineLeaving result =>
    some (.silent, (s.setFlag false).goto i (.mineFinally (match v.failure with
      | some e => .error (.other e)
      | none => result)))
  | .mineFinally result => some (.answer (result.mapError Thrown.toRpc), (s.setOverride 0).goto i .idle)
  | .nativeCalled =>
    if rt.atomicFlag then
      if s.isManualMining then some (.silent, s.goto i .idle) else some (.silent, (s.setFlag true).goto i .nativeAdmitted)
    else some (.silent, s.goto i .nativeAdmitted)
  | .nativeAdmitted => if s.produceLock.isSome then none else some (.silent, (s.lock i).goto i .nativeLoop)
  | .nativeLoop =>
    if s.dposSlot.NEXT_BLOCK_TIMESTAMP_OVERRIDE > 0 then some (.silent, s.goto i (.nativeSlot 1))
    else some (.silent, s.goto i .nativeNoOverride)
  | .nativeNoOverride => some (.silent, s.goto i (.nativeSlot (s.dposSlot.slotAt v.currentTimeMillis)))
  | .nativeSlot slot =>
    -- Slot 0 is `NOT_TIME_YET`; a failure stands for the witness checks.
    if slot = 0 ∨ v.failure.isSome then some (.silent, s.unlock.goto i .nativeLeaving)
    else some (.silent, s.goto i (.nativeProduce (s.dposSlot.getTime slot)))
  | .nativeProduce blockTime =>
    some (s.produce i v blockTime .nativeProduced fun _ => .nativeLeaving)
  | .nativeProduced => some (.silent, s.unlock.goto i .nativeLeaving)
  | .nativeLeaving => some (.silent, (s.setFlag (!rt.atomicFlag && s.isManualMining)).goto i .idle)

def Race.step (rt : RaceRuntime) (s : Race W) : Nat × Act W → Option (RaceEvent × Race W)
  | (i, .call r) =>
    match s.threads i with
    | .idle => some (s.call i r)
    | _ => none
  | (i, .go v) => s.go rt i v (s.threads i)

/-- A node that has just started, every thread idle. -/
def startRace (d : DposSlot W) : Race W := ⟨d.setOverride 0, false, none, fun _ => .idle⟩

abbrev RaceHistory (W : Type) := List ((Nat × Act W) × RaceEvent)

/-! ## What a run says -/

/-- The timestamps of the blocks, in order. -/
def raceBlocks (h : RaceHistory W) : List Int :=
  h.filterMap fun e => match e.2 with
    | .block t => some t
    | _ => none

def RaceEvent.accepts : RaceEvent → Bool
  | .accepted _ => true
  | _ => false

def RaceEvent.isBlock : RaceEvent → Bool
  | .block _ => true
  | _ => false

/-- Neither a timestamp accepted nor a block. -/
def Quiescent (h : RaceHistory W) : Prop := ∀ e ∈ h, e.2.accepts = false ∧ e.2.isBlock = false

/-- A `tre_mine` past its `produce`, with an assignment to the override ahead. -/
def Pc.clearing : Pc → Prop
  | .mineProduced _ | .mineLeaving _ | .mineFinally _ => True
  | _ => False

/-- **One-shot.** An accepted timestamp stays in the override until a block is
produced. That block has it, no other block of the run does, and the override is
back at 0 once the producer of the block has done its assignment. -/
structure OneShot (h : RaceHistory W) (s : Race W) : Prop where
  pending : ∀ h₁ c T h₂, h = h₁ ++ (c, .accepted T) :: h₂ → Quiescent h₂ →
    s.dposSlot.NEXT_BLOCK_TIMESTAMP_OVERRIDE = T
  used : ∀ h₁ c T h₂ i a t h₃, h = h₁ ++ (c, .accepted T) :: (h₂ ++ ((i, a), .block t) :: h₃) → Quiescent h₂ →
    t = T ∧ (raceBlocks h).count T = 1 ∧
      ((∀ e ∈ h₃, e.2.accepts = false) → s.dposSlot.NEXT_BLOCK_TIMESTAMP_OVERRIDE = 0 ∨ (s.threads i).clearing)

/-! ## Steps that stay off the defects -/

/-- A timestamp above the head is in the override. -/
def DposSlot.Waits (d : DposSlot W) : Prop :=
  d.NEXT_BLOCK_TIMESTAMP_OVERRIDE ≠ 0 ∧ d.lbht < d.NEXT_BLOCK_TIMESTAMP_OVERRIDE

instance (d : DposSlot W) : Decidable d.Waits := inferInstanceAs (Decidable (_ ∧ _))

/-- A producer between its `getTime` and its `produce`. -/
def Pc.timed : Pc → Prop
  | .mineTime _ _ | .mineProduce _ _ | .nativeProduce _ => True
  | _ => False

/-- What must hold before the next access of a thread. -/
def OverrideSafe (s : Race W) : Pc → Prop
  -- The head has not passed the target, and no producer has its timestamp yet.
  | .setChecked target => s.dposSlot.lbht < target ∧ ∀ j, ¬ (s.threads j).timed
  -- The assignment discards nothing that waits.
  | .mineProduced _ | .mineFinally _ => ¬ s.dposSlot.Waits
  -- `getTime` meets no timestamp that a block already has.
  | .mineSlot _ _ => s.dposSlot.NEXT_BLOCK_TIMESTAMP_OVERRIDE = 0 ∨ s.dposSlot.Waits
  -- Native production, which never clears the override, meets none at all.
  | .nativeSlot _ => s.dposSlot.NEXT_BLOCK_TIMESTAMP_OVERRIDE = 0
  | _ => True

/-- The chain never skips backwards. -/
def Produced.skipsForward : Produced W → Prop
  | .pushed next | .pushedThenThrew next _ => 0 ≤ next.maintenanceSkipSlots
  | _ => True

instance (p : Produced W) : Decidable p.skipsForward :=
  match p with
  | .pushed next | .pushedThenThrew next _ => inferInstanceAs (Decidable (0 ≤ next.maintenanceSkipSlots))
  | .empty | .threw _ => isTrue trivial

/-- What the chain guarantees of a step. -/
def ChainKeeps (_ : Race W) : Nat × Act W → Prop
  | (_, .go v) => v.produce.skipsForward
  | (_, .call _) => True

instance (s : Race W) (c : Nat × Act W) : Decidable (ChainKeeps s c) :=
  match c with
  | (_, .go v) => inferInstanceAs (Decidable v.produce.skipsForward)
  | (_, .call _) => isTrue trivial

def SafeStep (s : Race W) (c : Nat × Act W) : Prop :=
  ChainKeeps s c ∧ match c with
    | (i, .go _) => OverrideSafe s (s.threads i)
    | (_, .call _) => True

/-! ## Phases of a history -/

/-- How far the last accepted timestamp has come. -/
inductive OverridePhase where
  | fresh
  | waiting (target : Int)
  | used (producer : Nat) (target : Int)

def phaseStep : OverridePhase → (Nat × Act W) × RaceEvent → OverridePhase
  | _, (_, .accepted T) => .waiting T
  | .waiting T, ((i, _), .block _) => .used i T
  | _, (_, .block _) => .fresh
  | p, _ => p

def overridePhase (h : RaceHistory W) : OverridePhase := h.foldl phaseStep .fresh

theorem phase_snoc (h : RaceHistory W) (e : (Nat × Act W) × RaceEvent) : overridePhase (h ++ [e]) = phaseStep (overridePhase h) e := by
  simp [overridePhase]

theorem phase_quiescent (p : OverridePhase) {h : RaceHistory W} (hq : Quiescent h) : h.foldl phaseStep p = p := by
  induction h with
  | nil => rfl
  | cons e h ih =>
    obtain ⟨c, ev⟩ := e
    obtain ⟨ha, hb⟩ := hq (c, ev) (List.mem_cons_self ..)
    rw [List.foldl_cons]
    have : phaseStep p (c, ev) = p := by
      cases ev with
      | accepted => cases ha
      | block => cases hb
      | answer => cases p <;> rfl
      | silent => cases p <;> rfl
    rw [this]
    exact ih fun e he => hq e (List.mem_cons_of_mem _ he)

theorem phase_snoc_quiet (h : RaceHistory W) (c : Nat × Act W) {ev : RaceEvent}
    (hev : ev.accepts = false ∧ ev.isBlock = false) : overridePhase (h ++ [(c, ev)]) = overridePhase h := by
  have hq : Quiescent [(c, ev)] := by simpa [Quiescent] using hev
  rw [overridePhase, List.foldl_append]
  exact phase_quiescent _ hq

theorem phase_accepted (h₁ : RaceHistory W) (c : Nat × Act W) (T : Int) {h₂ : RaceHistory W} (hq : Quiescent h₂) :
    overridePhase (h₁ ++ (c, .accepted T) :: h₂) = .waiting T := by
  unfold overridePhase
  rw [List.foldl_append, List.foldl_cons]
  exact phase_quiescent _ hq

/-- Without another acceptance, a timestamp that was used stays used. -/
theorem phase_no_accept {h : RaceHistory W} (hn : ∀ e ∈ h, e.2.accepts = false) (i : Nat) (T : Int) :
    h.foldl phaseStep (.used i T) = .used i T ∨ h.foldl phaseStep (.used i T) = .fresh := by
  have hfresh : ∀ l : RaceHistory W, (∀ e ∈ l, e.2.accepts = false) → l.foldl phaseStep .fresh = .fresh := by
    intro l hl
    induction l with
    | nil => rfl
    | cons e l ih =>
      obtain ⟨c, ev⟩ := e
      have ha := hl (c, ev) (List.mem_cons_self ..)
      rw [List.foldl_cons]
      have : phaseStep .fresh (c, ev) = .fresh := by cases ev <;> first | rfl | cases ha
      rw [this]
      exact ih fun e he => hl e (List.mem_cons_of_mem _ he)
  induction h with
  | nil => exact .inl rfl
  | cons e h ih =>
    obtain ⟨c, ev⟩ := e
    have ha := hn (c, ev) (List.mem_cons_self ..)
    have hh : ∀ e ∈ h, e.2.accepts = false := fun e he => hn e (List.mem_cons_of_mem _ he)
    rw [List.foldl_cons]
    cases ev with
    | accepted => cases ha
    | block => exact .inr (hfresh h hh)
    | answer => exact ih hh
    | silent => exact ih hh

/-! ## The invariant -/

def Pc.holdsLock : Pc → Prop
  | .mineLoop _ | .mineNoOverride _ | .mineSlot _ _ | .mineTime _ _ | .mineProduce _ _ | .mineProduced _
  | .nativeLoop | .nativeNoOverride | .nativeSlot _ | .nativeProduce _ | .nativeProduced => True
  | _ => False

/-- What a thread has computed, against the slots as they are now. -/
def Pc.Ok (d : DposSlot W) : Pc → Prop
  | .setChecked target => 0 < target
  | .mineTime _ t => d.NEXT_BLOCK_TIMESTAMP_OVERRIDE = 0 ∨ d.Waits ∧ t = d.NEXT_BLOCK_TIMESTAMP_OVERRIDE
  | .mineProduce _ t => d.NEXT_BLOCK_TIMESTAMP_OVERRIDE = 0 ∧ d.lbht < t ∨
      d.Waits ∧ t = d.NEXT_BLOCK_TIMESTAMP_OVERRIDE
  | .nativeSlot slot => 0 ≤ slot
  | .nativeProduce t => d.NEXT_BLOCK_TIMESTAMP_OVERRIDE = 0 ∧ d.lbht < t
  | _ => True

/-- What the override is in each phase. -/
def OverridePhase.Ok (s : Race W) : OverridePhase → Prop
  | .fresh => s.dposSlot.NEXT_BLOCK_TIMESTAMP_OVERRIDE = 0
  | .waiting T => 0 < T ∧ s.dposSlot.NEXT_BLOCK_TIMESTAMP_OVERRIDE = T ∧ s.dposSlot.lbht < T
  | .used i _ => s.dposSlot.NEXT_BLOCK_TIMESTAMP_OVERRIDE = 0 ∨
      s.dposSlot.NEXT_BLOCK_TIMESTAMP_OVERRIDE = s.dposSlot.lbht ∧ (s.threads i).clearing

/-- The first block after an accepted timestamp has it. -/
def Fulfilled (h : RaceHistory W) : Prop :=
  ∀ h₁ c T h₂ c' t h₃, h = h₁ ++ (c, .accepted T) :: (h₂ ++ (c', .block t) :: h₃) → Quiescent h₂ → t = T

structure RaceInv (d : DposSlot W) (h : RaceHistory W) (s : Race W) : Prop where
  chain : s.dposSlot.HeadOk
  nonneg : 0 ≤ s.dposSlot.NEXT_BLOCK_TIMESTAMP_OVERRIDE
  locked : ∀ j, (s.threads j).holdsLock → s.produceLock = some j
  pcs : ∀ j, (s.threads j).Ok s.dposSlot
  head : s.dposSlot.lbht = headAfter d.lbht (raceBlocks h)
  sorted : (d.lbht :: raceBlocks h).IsChain (· < ·)
  phase : (overridePhase h).Ok s
  fulfilled : Fulfilled h

theorem raceInv_start {d : DposSlot W} (hd : d.HeadOk) : RaceInv d [] (startRace d) where
  chain := hd.setOverride 0
  nonneg := le_rfl
  locked := fun _ h => h.elim
  pcs := fun _ => trivial
  head := rfl
  sorted := .singleton _
  phase := rfl
  fulfilled := by intro h₁ c T h₂ c' t h₃ h; simp at h

/-- A thread that does not hold the lock and checks no target depends on no timestamp. -/
theorem Pc.Ok.of_unlocked {pc : Pc} {d d' : DposSlot W} (h : pc.Ok d) (hl : ¬ pc.holdsLock) : pc.Ok d' := by
  cases pc <;> first | exact h | exact (hl trivial).elim

theorem raceBlocks_snoc_quiet (h : RaceHistory W) {c : Nat × Act W} {ev : RaceEvent} (hb : ev.isBlock = false) :
    raceBlocks (h ++ [(c, ev)]) = raceBlocks h := by
  unfold raceBlocks
  rw [List.filterMap_append]
  cases ev with
  | block => cases hb
  | accepted | answer | silent => simp

theorem raceBlocks_snoc_block (h : RaceHistory W) (c : Nat × Act W) (t : Int) :
    raceBlocks (h ++ [(c, .block t)]) = raceBlocks h ++ [t] := by
  simp [raceBlocks]

theorem Fulfilled.snoc {h : RaceHistory W} (hf : Fulfilled h) {c : Nat × Act W} {ev : RaceEvent}
    (he : ∀ T t, overridePhase h = .waiting T → ev = .block t → t = T) : Fulfilled (h ++ [(c, ev)]) := by
  intro h₁ c₁ T h₂ c₂ t h₃ heq hq
  rcases List.eq_nil_or_concat h₃ with rfl | ⟨h₃', e, rfl⟩
  · -- The block is the last event: the history before it ends waiting.
    rw [← List.cons_append, ← List.append_assoc] at heq
    obtain ⟨rfl, hev⟩ := List.append_inj' heq rfl
    obtain ⟨-, rfl⟩ : c = c₂ ∧ ev = .block t := by simpa using hev
    exact he T t (phase_accepted h₁ c₁ T hq) rfl
  · rw [List.concat_eq_append, ← List.cons_append, ← List.append_assoc, ← List.cons_append, ← List.append_assoc] at heq
    obtain ⟨rfl, -⟩ := List.append_inj' heq rfl
    exact hf h₁ c₁ T h₂ c₂ t h₃' (by simp) hq

/-! ## Steps -/

section
variable {rt : RaceRuntime} {d : DposSlot W} {h : RaceHistory W} {s : Race W} {i : Nat}

@[simp] theorem Race.goto_self (s : Race W) (i : Nat) (pc : Pc) : (s.goto i pc).threads i = pc := if_pos rfl

theorem Race.goto_ne (s : Race W) {i j : Nat} (pc : Pc) (h : j ≠ i) : (s.goto i pc).threads j = s.threads j := if_neg h

/-- The lock after a move of `i` is right if it is for `i` and nobody else lost it. -/
theorem RaceInv.locked_goto (hi : RaceInv d h s) (s' : Race W) {pc : Pc} (ht : s'.threads = s.threads)
    (hself : pc.holdsLock → s'.produceLock = some i)
    (hkeep : ∀ j, j ≠ i → s.produceLock = some j → s'.produceLock = some j) :
    ∀ j, ((s'.goto i pc).threads j).holdsLock → (s'.goto i pc).produceLock = some j := by
  intro j hj
  by_cases hij : j = i
  · subst hij
    rw [Race.goto_self] at hj
    exact hself hj
  · rw [Race.goto_ne _ _ hij, ht] at hj
    exact hkeep j hij (hi.locked j hj)

/-- A move of `i` that leaves the slots alone. -/
theorem RaceInv.move (hi : RaceInv d h s) (s' : Race W) {pc : Pc} {a : Act W} {ev : RaceEvent}
    (hev : ev.accepts = false ∧ ev.isBlock = false) (hd : s'.dposSlot = s.dposSlot) (ht : s'.threads = s.threads)
    (hself : pc.holdsLock → s'.produceLock = some i)
    (hkeep : ∀ j, j ≠ i → s.produceLock = some j → s'.produceLock = some j)
    (hok : pc.Ok s.dposSlot) (hclear : (s.threads i).clearing → pc.clearing) :
    RaceInv d (h ++ [((i, a), ev)]) (s'.goto i pc) where
  chain := by rw [Race.goto, hd]; exact hi.chain
  nonneg := by rw [Race.goto, hd]; exact hi.nonneg
  locked := hi.locked_goto s' ht hself hkeep
  pcs := by
    intro j
    show ((s'.goto i pc).threads j).Ok s'.dposSlot
    rw [hd]
    by_cases hij : j = i
    · subst hij
      rw [Race.goto_self]
      exact hok
    · rw [Race.goto_ne _ _ hij, ht]
      exact hi.pcs j
  head := by rw [raceBlocks_snoc_quiet h hev.2, ← hi.head, Race.goto, hd]
  sorted := by rw [raceBlocks_snoc_quiet h hev.2]; exact hi.sorted
  phase := by
    have hp := hi.phase
    rw [phase_snoc_quiet h _ hev]
    cases hph : overridePhase h with
    | fresh =>
      rw [hph] at hp
      show s'.dposSlot.NEXT_BLOCK_TIMESTAMP_OVERRIDE = 0
      rw [hd]
      exact hp
    | waiting T =>
      rw [hph] at hp
      show 0 < T ∧ s'.dposSlot.NEXT_BLOCK_TIMESTAMP_OVERRIDE = T ∧ s'.dposSlot.lbht < T
      rw [hd]
      exact hp
    | used k T =>
      rw [hph] at hp
      show s'.dposSlot.NEXT_BLOCK_TIMESTAMP_OVERRIDE = 0 ∨
        s'.dposSlot.NEXT_BLOCK_TIMESTAMP_OVERRIDE = s'.dposSlot.lbht ∧ ((s'.goto i pc).threads k).clearing
      rw [hd]
      rcases hp with h0 | ⟨hl, hc⟩
      · exact .inl h0
      · refine .inr ⟨hl, ?_⟩
        by_cases hk : k = i
        · subst hk
          rw [Race.goto_self]
          exact hclear hc
        · rw [Race.goto_ne _ _ hk, ht]
          exact hc
  fulfilled := hi.fulfilled.snoc fun _ _ _ hev' => by subst hev'; cases hev.2

/-- An assignment of 0 while nothing waits. -/
theorem RaceInv.clear (hi : RaceInv d h s) {pc : Pc} {a : Act W} {ev : RaceEvent}
    (hev : ev.accepts = false ∧ ev.isBlock = false) (hw : ¬ s.dposSlot.Waits)
    (hself : pc.holdsLock → s.produceLock = some i) (hok : ∀ d : DposSlot W, pc.Ok d) :
    RaceInv d (h ++ [((i, a), ev)]) ((s.setOverride 0).goto i pc) where
  chain := hi.chain.setOverride 0
  nonneg := le_rfl
  locked := hi.locked_goto (s.setOverride 0) rfl hself fun j _ hj => hj
  pcs := by
    intro j
    by_cases hij : j = i
    · subst hij
      rw [Race.goto_self]
      exact hok _
    · rw [Race.goto_ne _ _ hij]
      have hj := hi.pcs j
      -- A timestamp computed while something waited is still to come, against `hw`.
      cases hpc : s.threads j <;> simp only [Race.setOverride, hpc] at hj ⊢ <;>
        first | exact trivial | exact hj | skip
      · exact .inl rfl
      · exact .inl ⟨rfl, (hj.resolve_right fun h => hw h.1).2⟩
      · exact ⟨rfl, hj.2⟩
  head := by rw [raceBlocks_snoc_quiet h hev.2]; exact hi.head
  sorted := by rw [raceBlocks_snoc_quiet h hev.2]; exact hi.sorted
  phase := by
    have hp := hi.phase
    rw [phase_snoc_quiet h _ hev]
    cases hph : overridePhase h with
    | fresh => rfl
    | waiting T =>
      rw [hph] at hp
      obtain ⟨h0, ho, hl⟩ := hp
      exact (hw ⟨by omega, by omega⟩).elim
    | used k T => exact .inl rfl
  fulfilled := hi.fulfilled.snoc fun _ _ _ hev' => by subst hev'; cases hev.2

/-- A target that is written while it is above the head and no producer has its timestamp. -/
theorem RaceInv.accept (hi : RaceInv d h s) {T : Int} {a : Act W} (hpc : s.threads i = .setChecked T)
    (hl : s.dposSlot.lbht < T) (ht : ∀ j, ¬ (s.threads j).timed) :
    RaceInv d (h ++ [((i, a), .accepted T)]) ((s.setOverride T).goto i .idle) where
  chain := hi.chain.setOverride T
  nonneg := by
    have h0 := hi.pcs i
    rw [hpc] at h0
    exact Int.le_of_lt h0
  locked := hi.locked_goto (s.setOverride T) rfl (fun h => h.elim) fun j _ hj => hj
  pcs := by
    intro j
    by_cases hij : j = i
    · subst hij
      rw [Race.goto_self]
      trivial
    · rw [Race.goto_ne _ _ hij]
      have hj := hi.pcs j
      have htj := ht j
      cases hpc : s.threads j <;> simp only [Race.setOverride, hpc] at hj htj ⊢ <;>
        first | exact trivial | exact hj | exact (htj trivial).elim
  head := by rw [raceBlocks_snoc_quiet h rfl]; exact hi.head
  sorted := by rw [raceBlocks_snoc_quiet h rfl]; exact hi.sorted
  phase := by
    have h0 := hi.pcs i
    rw [hpc] at h0
    rw [phase_snoc]
    cases overridePhase h <;> exact ⟨h0, rfl, hl⟩
  fulfilled := hi.fulfilled.snoc fun _ _ _ h => by cases h

/-- A block whose timestamp is the waiting one, or above the head when none is set. -/
theorem RaceInv.block (hi : RaceInv d h s) {t : Int} {next : NextHead W} {a : Act W} {s' : Race W} {pc : Pc}
    (hd : s'.dposSlot = s.dposSlot.push t next) (hts : s'.threads = s.threads) (hlock : s.produceLock = some i)
    (hn : 0 ≤ next.maintenanceSkipSlots) (hself : pc.holdsLock → s'.produceLock = some i) (hok : ∀ d : DposSlot W, pc.Ok d)
    (ht : s.dposSlot.NEXT_BLOCK_TIMESTAMP_OVERRIDE = 0 ∧ s.dposSlot.lbht < t ∨
      s.dposSlot.Waits ∧ t = s.dposSlot.NEXT_BLOCK_TIMESTAMP_OVERRIDE ∧ pc.clearing) :
    RaceInv d (h ++ [((i, a), .block t)]) (s'.goto i pc) where
  chain := by rw [Race.goto, hd]; exact hi.chain.push t hn
  nonneg := by rw [Race.goto, hd]; exact hi.nonneg
  locked := by
    refine hi.locked_goto s' hts hself fun j hij hj => ?_
    rw [hlock] at hj
    exact (hij (Option.some.inj hj).symm).elim
  pcs := by
    intro j
    show ((s'.goto i pc).threads j).Ok s'.dposSlot
    by_cases hij : j = i
    · subst hij
      rw [Race.goto_self]
      exact hok _
    · rw [Race.goto_ne _ _ hij, hts]
      refine (hi.pcs j).of_unlocked fun hj => hij ?_
      have := hi.locked j hj
      rw [hlock] at this
      exact (Option.some.inj this).symm
  head := by
    rw [raceBlocks_snoc_block, headAfter_append, Race.goto, hd]
    rfl
  sorted := by
    have hlt : s.dposSlot.lbht < t := by
      rcases ht with ⟨-, hlt⟩ | ⟨hw, rfl, -⟩
      · exact hlt
      · exact hw.2
    rw [raceBlocks_snoc_block, isChain_append_headAfter, ← hi.head]
    exact ⟨hi.sorted, List.isChain_pair.2 hlt⟩
  phase := by
    have hp := hi.phase
    have ho : s'.dposSlot.NEXT_BLOCK_TIMESTAMP_OVERRIDE = s.dposSlot.NEXT_BLOCK_TIMESTAMP_OVERRIDE := by rw [hd]; rfl
    have hl : s'.dposSlot.lbht = t := by rw [hd]; rfl
    rw [phase_snoc]
    cases hph : overridePhase h with
    | fresh =>
      rw [hph] at hp
      exact ho.trans hp
    | waiting T =>
      show s'.dposSlot.NEXT_BLOCK_TIMESTAMP_OVERRIDE = 0 ∨
        s'.dposSlot.NEXT_BLOCK_TIMESTAMP_OVERRIDE = s'.dposSlot.lbht ∧ ((s'.goto i pc).threads i).clearing
      rw [ho, hl, Race.goto_self]
      rcases ht with ⟨h0, -⟩ | ⟨-, rfl, hc⟩
      · exact .inl h0
      · exact .inr ⟨rfl, hc⟩
    | used k T =>
      rw [hph] at hp
      show s'.dposSlot.NEXT_BLOCK_TIMESTAMP_OVERRIDE = 0
      rw [ho]
      rcases hp with h0 | ⟨hl, -⟩
      · exact h0
      · rcases ht with ⟨h0, -⟩ | ⟨hw, -, -⟩
        · exact h0
        · exact (Int.lt_irrefl _ (hl ▸ hw.2)).elim
  fulfilled := by
    apply hi.fulfilled.snoc
    rintro T t' hph ⟨⟩
    have hp := hi.phase
    rw [hph] at hp
    obtain ⟨h0, ho, hl⟩ := hp
    rcases ht with ⟨hz, -⟩ | ⟨-, rfl, -⟩
    · omega
    · exact ho

/-- `getTime` on a safe read: the waiting timestamp, if there is one. -/
theorem RaceInv.getTime_ok (hi : RaceInv d h s) (hs : s.dposSlot.NEXT_BLOCK_TIMESTAMP_OVERRIDE = 0 ∨ s.dposSlot.Waits)
    (slot : Int) : s.dposSlot.NEXT_BLOCK_TIMESTAMP_OVERRIDE = 0 ∨
      s.dposSlot.Waits ∧ s.dposSlot.getTime slot = s.dposSlot.NEXT_BLOCK_TIMESTAMP_OVERRIDE := by
  refine hs.imp_right fun hw => ⟨hw, DposSlot.getTime_override ?_ slot⟩
  have := hi.nonneg
  have := hw.1
  omega

theorem DposSlot.clamp_ok {d : DposSlot W} {t : Int} (h : d.NEXT_BLOCK_TIMESTAMP_OVERRIDE = 0 ∨
    d.Waits ∧ t = d.NEXT_BLOCK_TIMESTAMP_OVERRIDE) :
    d.NEXT_BLOCK_TIMESTAMP_OVERRIDE = 0 ∧ d.lbht < d.clamp t ∨
      d.Waits ∧ d.clamp t = d.NEXT_BLOCK_TIMESTAMP_OVERRIDE := by
  rcases h with h0 | ⟨hw, ht⟩
  · have := DposSlot.le_clamp h0 t
    exact .inl ⟨h0, by omega⟩
  · exact .inr ⟨hw, by rw [DposSlot.clamp_override hw.1, ht]⟩

theorem RaceInv.produce (hi : RaceInv d h s) {v : StepEnv W} (hv : v.produce.skipsForward) {t : Int} (returned : Pc)
    (threw : JavaException → Pc) (hlock : s.produceLock = some i)
    (hret : ∀ d : DposSlot W, returned.Ok d) (hthrew : ∀ e, ¬ (threw e).holdsLock ∧ ∀ d : DposSlot W, (threw e).Ok d)
    (hclear : ¬ (s.threads i).clearing)
    (ht : s.dposSlot.NEXT_BLOCK_TIMESTAMP_OVERRIDE = 0 ∧ s.dposSlot.lbht < t ∨
      s.dposSlot.Waits ∧ t = s.dposSlot.NEXT_BLOCK_TIMESTAMP_OVERRIDE ∧ returned.clearing ∧ ∀ e, (threw e).clearing)
    {a : Act W} : RaceInv d (h ++ [((i, a), (s.produce i v t returned threw).1)]) (s.produce i v t returned threw).2 := by
  unfold Race.produce
  have hkeep : ∀ j, j ≠ i → s.produceLock = some j → s.unlock.produceLock = some j := by
    intro j hij hj
    rw [hlock] at hj
    exact (hij (Option.some.inj hj).symm).elim
  cases hp : v.produce with
  | pushed next =>
    rw [hp] at hv
    exact hi.block rfl rfl hlock hv (fun _ => hlock) hret (ht.imp_right fun h => ⟨h.1, h.2.1, h.2.2.1⟩)
  | pushedThenThrew next e =>
    rw [hp] at hv
    exact hi.block rfl rfl hlock hv (fun hl => ((hthrew e).1 hl).elim) (hthrew e).2
      (ht.imp_right fun h => ⟨h.1, h.2.1, h.2.2.2 e⟩)
  | empty =>
    exact hi.move s ⟨rfl, rfl⟩ rfl rfl (fun _ => hlock) (fun _ _ hj => hj) (hret _) fun hc => (hclear hc).elim
  | threw e =>
    exact hi.move s.unlock ⟨rfl, rfl⟩ rfl rfl (fun hl => ((hthrew e).1 hl).elim) hkeep ((hthrew e).2 _)
      fun hc => (hclear hc).elim

/-- A move between two places of a thread, the lock as it was. -/
theorem RaceInv.stay (hi : RaceInv d h s) {pc pc' : Pc} (hpc : s.threads i = pc) {a : Act W} {ev : RaceEvent}
    {s' : Race W} (hev : ev.accepts = false ∧ ev.isBlock = false)
    (hsame : s'.dposSlot = s.dposSlot ∧ s'.threads = s.threads ∧ s'.produceLock = s.produceLock)
    (hlock : pc'.holdsLock → pc.holdsLock) (hok : pc'.Ok s.dposSlot) (hclear : pc.clearing → pc'.clearing) :
    RaceInv d (h ++ [((i, a), ev)]) (s'.goto i pc') := by
  obtain ⟨hd, ht, hl⟩ := hsame
  apply hi.move s' hev hd ht _ _ hok (by rwa [hpc])
  · intro hh
    rw [hl]
    exact hi.locked i (by rw [hpc]; exact hlock hh)
  · intro j _ hj
    rwa [hl]

/-- A move that leaves the monitor. -/
theorem RaceInv.release (hi : RaceInv d h s) {pc pc' : Pc} (hpc : s.threads i = pc) {a : Act W} {ev : RaceEvent}
    (hev : ev.accepts = false ∧ ev.isBlock = false) (hin : pc.holdsLock) (hout : ¬ pc'.holdsLock)
    (hok : pc'.Ok s.dposSlot) (hclear : pc.clearing → pc'.clearing) :
    RaceInv d (h ++ [((i, a), ev)]) (s.unlock.goto i pc') := by
  apply hi.move s.unlock hev rfl rfl (fun hh => (hout hh).elim) _ hok (by rwa [hpc])
  intro j hij hj
  rw [hi.locked i (by rwa [hpc])] at hj
  exact (hij (Option.some.inj hj).symm).elim

/-- A move that enters it. -/
theorem RaceInv.enter (hi : RaceInv d h s) {pc pc' : Pc} (hpc : s.threads i = pc) {a : Act W} {ev : RaceEvent}
    (hev : ev.accepts = false ∧ ev.isBlock = false) (hfree : ¬ s.produceLock.isSome = true) (hok : pc'.Ok s.dposSlot)
    (hclear : pc.clearing → pc'.clearing) : RaceInv d (h ++ [((i, a), ev)]) ((s.lock i).goto i pc') := by
  apply hi.move (s.lock i) hev rfl rfl (fun _ => rfl) _ hok (by rwa [hpc])
  intro j _ hj
  rw [hj] at hfree
  exact (hfree rfl).elim

/-- The next access of a thread keeps the invariant. -/
theorem RaceInv.go (hi : RaceInv d h s) {v : StepEnv W} (hv : v.produce.skipsForward) (hs : OverrideSafe s (s.threads i))
    {ev : RaceEvent} {s' : Race W} (hg : s.go rt i v (s.threads i) = some (ev, s')) :
    RaceInv d (h ++ [((i, .go v), ev)]) s' := by
  have hok := hi.pcs i
  have hlock := hi.locked i
  cases hpc : s.threads i with
  | idle =>
    rw [hpc] at hg
    cases hg
  | setChecked target =>
    rw [hpc] at hg hs
    cases hg
    exact hi.accept hpc hs.1 hs.2
  | mineCalled n =>
    simp only [hpc, Race.go] at hg
    split at hg
    · cases hg
      exact hi.stay hpc ⟨rfl, rfl⟩ ⟨rfl, rfl, rfl⟩ id trivial False.elim
    · split at hg <;> cases hg
      · exact hi.stay hpc ⟨rfl, rfl⟩ ⟨rfl, rfl, rfl⟩ id trivial False.elim
      · exact hi.stay hpc ⟨rfl, rfl⟩ ⟨rfl, rfl, rfl⟩ id trivial id
  | mineAdmitted n =>
    simp only [hpc, Race.go] at hg
    split at hg
    · cases hg
      exact hi.stay hpc ⟨rfl, rfl⟩ ⟨rfl, rfl, rfl⟩ id trivial False.elim
    · split at hg
      · cases hg
      · rename_i hfree
        cases hg
        exact hi.enter hpc ⟨rfl, rfl⟩ hfree trivial id
  | mineLoop left =>
    cases left with
    | zero =>
      rw [hpc] at hg
      cases hg
      exact hi.release hpc ⟨rfl, rfl⟩ trivial id trivial False.elim
    | succ left =>
      simp only [hpc, Race.go] at hg
      split at hg <;> cases hg <;> exact hi.stay hpc ⟨rfl, rfl⟩ ⟨rfl, rfl, rfl⟩ id trivial id
  | mineNoOverride left =>
    rw [hpc] at hg
    cases hg
    exact hi.stay hpc ⟨rfl, rfl⟩ ⟨rfl, rfl, rfl⟩ id trivial id
  | mineSlot left slot =>
    rw [hpc] at hs
    simp only [hpc, Race.go] at hg
    split at hg
    · cases hg
      exact hi.release hpc ⟨rfl, rfl⟩ trivial id trivial False.elim
    · split at hg <;> cases hg
      · exact hi.release hpc ⟨rfl, rfl⟩ trivial id trivial False.elim
      · exact hi.stay hpc ⟨rfl, rfl⟩ ⟨rfl, rfl, rfl⟩ id (hi.getTime_ok hs slot) id
  | mineTime left t =>
    rw [hpc] at hg hok
    cases hg
    exact hi.stay hpc ⟨rfl, rfl⟩ ⟨rfl, rfl, rfl⟩ id (DposSlot.clamp_ok hok) id
  | mineProduce left t =>
    rw [hpc] at hlock hg hok
    have hg := Option.some.inj hg
    have hp := hi.produce hv (.mineProduced left) (fun e => .mineLeaving (.error (.other e))) (hlock trivial)
      (fun _ => trivial) (fun _ => ⟨id, fun _ => trivial⟩) (by rw [hpc]; exact id)
      (hok.imp_right fun h => ⟨h.1, h.2, trivial, fun _ => trivial⟩) (a := .go v)
    rwa [hg] at hp
  | mineProduced left =>
    rw [hpc] at hlock hg hs
    cases hg
    exact hi.clear ⟨rfl, rfl⟩ hs (fun _ => hlock trivial) fun _ => trivial
  | mineLeaving result =>
    rw [hpc] at hg
    cases hg
    exact hi.stay hpc ⟨rfl, rfl⟩ ⟨rfl, rfl, rfl⟩ id trivial id
  | mineFinally result =>
    rw [hpc] at hg hs
    cases hg
    exact hi.clear ⟨rfl, rfl⟩ hs False.elim fun _ => trivial
  | nativeCalled =>
    simp only [hpc, Race.go] at hg
    split at hg
    · split at hg <;> cases hg <;> exact hi.stay hpc ⟨rfl, rfl⟩ ⟨rfl, rfl, rfl⟩ id trivial id
    · cases hg
      exact hi.stay hpc ⟨rfl, rfl⟩ ⟨rfl, rfl, rfl⟩ id trivial id
  | nativeAdmitted =>
    simp only [hpc, Race.go] at hg
    split at hg
    · cases hg
    · rename_i hfree
      cases hg
      exact hi.enter hpc ⟨rfl, rfl⟩ hfree trivial id
  | nativeLoop =>
    simp only [hpc, Race.go] at hg
    split at hg <;> cases hg
    · exact hi.stay hpc ⟨rfl, rfl⟩ ⟨rfl, rfl, rfl⟩ id (Int.zero_le_ofNat 1) id
    · exact hi.stay hpc ⟨rfl, rfl⟩ ⟨rfl, rfl, rfl⟩ id trivial id
  | nativeNoOverride =>
    rw [hpc] at hg
    cases hg
    exact hi.stay hpc ⟨rfl, rfl⟩ ⟨rfl, rfl, rfl⟩ id (s.dposSlot.slotAt_nonneg _) id
  | nativeSlot slot =>
    rw [hpc] at hs hok
    have h0 : s.dposSlot.NEXT_BLOCK_TIMESTAMP_OVERRIDE = 0 := hs
    simp only [hpc, Race.go] at hg
    split at hg
    · cases hg
      exact hi.release hpc ⟨rfl, rfl⟩ trivial id trivial id
    · rename_i hslot
      cases hg
      have hpos : 0 ≤ slot := hok
      exact hi.stay hpc ⟨rfl, rfl⟩ ⟨rfl, rfl, rfl⟩ id ⟨h0, hi.chain.lt_getTime h0.le (by omega)⟩ id
  | nativeProduce t =>
    rw [hpc] at hlock hg hok
    have hg := Option.some.inj hg
    have hp := hi.produce hv .nativeProduced (fun _ => .nativeLeaving) (hlock trivial) (fun _ => trivial)
      (fun _ => ⟨id, fun _ => trivial⟩) (by rw [hpc]; exact id) (.inl hok) (a := .go v)
    rwa [hg] at hp
  | nativeProduced =>
    rw [hpc] at hg
    cases hg
    exact hi.release hpc ⟨rfl, rfl⟩ trivial id trivial id
  | nativeLeaving =>
    rw [hpc] at hg
    cases hg
    exact hi.stay hpc ⟨rfl, rfl⟩ ⟨rfl, rfl, rfl⟩ id trivial id

theorem RaceInv.call (hi : RaceInv d h s) (hpc : s.threads i = .idle) (r : Request) :
    RaceInv d (h ++ [((i, .call r), (s.call i r).1)]) (s.call i r).2 := by
  have hstay : s.goto i .idle = s := by
    unfold Race.goto
    congr 1
    funext j
    split
    · rename_i hj
      rw [hj, hpc]
    · rfl
  have hrefused : ∀ e, RaceInv d (h ++ [((i, .call r), .answer (.error e))]) s := by
    intro e
    have hm : RaceInv d (h ++ [((i, .call r), .answer (.error e))]) (s.goto i .idle) :=
      hi.stay hpc ⟨rfl, rfl⟩ ⟨rfl, rfl, rfl⟩ id trivial id
    rwa [hstay] at hm
  cases r with
  | tre_setNextBlockTimestamp target =>
    simp only [Race.call]
    rcases setNextBlockTimestamp_cases target s.dposSlot with ⟨h0, -, he⟩ | ⟨e, he⟩
    · rw [he]
      exact hi.stay hpc ⟨rfl, rfl⟩ ⟨rfl, rfl, rfl⟩ id h0 id
    · rw [he]
      exact hrefused e
  | tre_mine n =>
    simp only [Race.call]
    split
    · exact hrefused _
    · exact hi.stay hpc ⟨rfl, rfl⟩ ⟨rfl, rfl, rfl⟩ id trivial id
  | produceBatch => exact hi.stay hpc ⟨rfl, rfl⟩ ⟨rfl, rfl, rfl⟩ id trivial id

theorem raceInv (hd : d.HeadOk) (hr : Run (Race.step rt) SafeStep (startRace d) h s) : RaceInv d h s := by
  refine Run.inv (RaceInv d) (raceInv_start hd) ?_ hr
  rintro h s ⟨i, a⟩ ev s' _ hi ⟨hchain, hsafe⟩ hst
  cases a with
  | call r =>
    cases hpc : s.threads i with
    | idle =>
      simp only [Race.step, hpc] at hst
      have hc := hi.call hpc r
      rwa [Option.some.inj hst] at hc
    | _ => simp [Race.step, hpc] at hst
  | go v => exact hi.go hchain hsafe hst

/-- **The override is one-shot** on every run whose steps stay off the defects. -/
theorem override_one_shot (hd : d.HeadOk) (hr : Run (Race.step rt) SafeStep (startRace d) h s) : OneShot h s := by
  have hi := raceInv hd hr
  refine ⟨?_, ?_⟩
  · rintro h₁ c T h₂ rfl hq
    have hp := hi.phase
    rw [phase_accepted h₁ c T hq] at hp
    exact hp.2.1
  · rintro h₁ c T h₂ j a t h₃ rfl hq
    obtain rfl := hi.fulfilled h₁ c T h₂ (j, a) t h₃ rfl hq
    refine ⟨rfl, ?_, fun hn => ?_⟩
    · -- The timestamps of the blocks increase, so none comes twice.
      have hnodup : (raceBlocks (h₁ ++ (c, .accepted t) :: (h₂ ++ ((j, a), .block t) :: h₃))).Nodup :=
        ((List.isChain_iff_pairwise.1 hi.sorted).of_cons).imp fun hlt => ne_of_lt hlt
      apply List.count_eq_one_of_mem hnodup
      simp [raceBlocks]
    · have hp := hi.phase
      rw [← List.cons_append, ← List.append_assoc] at hp
      unfold overridePhase at hp
      rw [List.foldl_append, List.foldl_cons] at hp
      have hw : (h₁ ++ (c, RaceEvent.accepted t) :: h₂).foldl phaseStep .fresh = .waiting t := phase_accepted h₁ c t hq
      rw [hw] at hp
      rcases phase_no_accept hn j t with hph | hph <;> simp only [phaseStep, hph] at hp
      · exact hp.imp_right And.right
      · exact .inl hp

end

/-! ## Runs with and without a defect -/

def atomicRuntime : RaceRuntime := { plainRuntime with atomicFlag := true }

/-- A step whose `produce` pushes its block. -/
def pushes : Act Unit := .go ⟨0, fun _ => true, .pushed ⟨false, 2, [()]⟩, none⟩

theorem oneWitness_headOk : oneWitness.HeadOk := ⟨by decide, by decide, by decide⟩

theorem pushes_keeps {s : Race Unit} {i : Nat} : ChainKeeps s (i, pushes) := show (0 : Int) ≤ 2 by decide

/-- A timestamp of 5 s is accepted and mined, with nobody in between. -/
theorem override_one_shot_mined : ∃ h s, Run (Race.step atomicRuntime) SafeStep (startRace oneWitness) h s ∧
    raceBlocks h = [5000] ∧ s.dposSlot.NEXT_BLOCK_TIMESTAMP_OVERRIDE = 0 ∧ OneShot h s := by
  have h₀ : Run (Race.step atomicRuntime) SafeStep (startRace oneWitness) _ _ := .nil
  have h₁ := h₀.snoc (0, Act.call (.tre_setNextBlockTimestamp 5000)) ⟨trivial, trivial⟩ rfl
  have h₂ := h₁.snoc (0, pushes) ⟨pushes_keeps, by decide, fun j => by
    by_cases hj : j = 0 <;> simp [hj, Race.goto, Pc.timed, startRace]⟩ rfl
  have h₃ := h₂.snoc (1, Act.call (.tre_mine 1)) ⟨trivial, trivial⟩ rfl
  have h₄ := h₃.snoc (1, pushes) ⟨pushes_keeps, trivial⟩ rfl
  have h₅ := h₄.snoc (1, pushes) ⟨pushes_keeps, trivial⟩ rfl
  have h₆ := h₅.snoc (1, pushes) ⟨pushes_keeps, trivial⟩ rfl
  -- `getTime` meets the timestamp above the head, the assignment after the block meets it used.
  have h₇ := h₆.snoc (1, pushes) ⟨pushes_keeps, .inr (by decide)⟩ rfl
  have h₈ := h₇.snoc (1, pushes) ⟨pushes_keeps, trivial⟩ rfl
  have h₉ := h₈.snoc (1, pushes) ⟨pushes_keeps, trivial⟩ rfl
  have h₁₀ := h₉.snoc (1, pushes) ⟨pushes_keeps, fun ⟨_, hlt⟩ => absurd hlt (by decide)⟩ rfl
  have h₁₁ := h₁₀.snoc (1, pushes) ⟨pushes_keeps, trivial⟩ rfl
  exact ⟨_, _, h₁₁, rfl, rfl, override_one_shot oneWitness_headOk h₁₁⟩

/-- Thread 0 is mining when thread 1 has 5 s accepted; the refused `tre_mine` of
thread 2 then clears the override, and no block has taken it. -/
theorem refused_mine_discards_timestamp :
    ¬ ∀ (rt : RaceRuntime) (d : DposSlot Unit) (h : RaceHistory Unit) (s : Race Unit), d.HeadOk →
      Run (Race.step rt) ChainKeeps (startRace d) h s → OneShot h s := by
  intro hall
  have hp : play (Race.step atomicRuntime) ChainKeeps (startRace oneWitness)
    [(0, .call (.tre_mine 1)), (0, pushes), (1, .call (.tre_setNextBlockTimestamp 5000)), (1, pushes),
      (2, .call (.tre_mine 1)), (2, pushes), (2, pushes)] = some (_, _) := rfl
  have hone := hall _ _ _ _ oneWitness_headOk (.of_play hp)
  have hkept := hone.pending [_, _, _] (1, pushes) 5000
    [((2, .call (.tre_mine 1)), .silent), ((2, pushes), .silent),
      ((2, pushes), .answer (.error (.internal "node is already manual mining")))] rfl
    (by simp [Quiescent, RaceEvent.accepts, RaceEvent.isBlock])
  exact absurd hkept (by decide)

/-- One `produceBatch` of thread `i`. -/
def nativeBlock (i : Nat) : List (Nat × Act Unit) := (i, .call .produceBatch) :: List.replicate 7 (i, pushes)

/-- Native production does not clear the override: its next block has the timestamp again. -/
theorem native_blocks_share_timestamp : ∃ h s, Run (Race.step atomicRuntime) ChainKeeps (startRace oneWitness) h s ∧
    raceBlocks h = [5000, 5000] := by
  have hp : play (Race.step atomicRuntime) ChainKeeps (startRace oneWitness)
    ([(0, .call (.tre_setNextBlockTimestamp 5000)), (0, pushes)] ++ nativeBlock 1 ++ nativeBlock 1) = some (_, _) := rfl
  exact ⟨_, _, .of_play hp, rfl⟩

end HardhatTron

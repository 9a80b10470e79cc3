import HardhatTron.Lib.Runs
import HardhatTron.Node.Slot
import Mathlib.Data.List.Chain
/-!
# Manual mining, one call at a time

`tre_mine` produces its blocks in a loop: each asks `DposSlot` for a slot and a
timestamp, hands the block to `BlockHandle.produce` and clears the override.
`MiningInv` ties the override to the calls so far: it is the timestamp waiting
for the next `tre_mine`, above the head, or it is 0.

The loop clears the override after a `produce` that returned without a block,
too. `mined_timestamps` covers the runs in which no pending override meets such
a call; `override_skipped` is one in which it does, and the timestamp is lost.
-/
namespace HardhatTron

open Lib

variable {W : Type}

/-! ## The calls -/

/-- What the loop of `mineWithBudget` throws: its own exception, or any other. -/
inductive Thrown where
  | jsonRpcInternal (message : String)
  | other (e : JavaException)

/-- The catch clauses of `mineWithBudget`. -/
def Thrown.toRpc : Thrown → RpcException
  | .jsonRpcInternal message => .internal message
  | .other e => .internal ("custom mine failed: " ++ e.className ++ ": " ++ e.message)

/-- The parts of the node that stay as they are over a run: how `TreUtil` reads a
parameter, and what the reflective lookups of `mineWithBudget` find. -/
structure TreRuntime where
  decodeInt : String → Except RpcException Int
  decodeLong : String → Except RpcException Int
  reflection : Except Thrown Unit
  outOfBounds : Int → JavaException

/-- What `BlockHandle.produce` does with a block. `empty` is a return without one. -/
inductive Produced (W : Type) where
  | pushed (next : NextHead W)
  | pushedThenThrew (next : NextHead W) (e : JavaException)
  | empty
  | threw (e : JavaException)

/-- What an iteration of the loop meets. -/
structure Turn (W : Type) where
  currentTimeMillis : Int
  miners : W → Bool
  produce : Produced W

/-- What a `tre_mine` call meets. -/
structure MineEnv (W : Type) where
  turns : Nat → Turn W
  setBlockWaitLock : Option JavaException
  releaseBlockWaitLock : Option JavaException

/-- The node, as far as mining reads it. -/
structure TreMiner (W : Type) where
  dposSlot : DposSlot W
  isManualMining : Bool

/-- What a call answers, and the timestamps of the blocks it added. -/
structure Mined (α : Type) where
  result : α
  blocks : List Int

/-- One iteration of the loop. -/
def mineBlock (rt : TreRuntime) (v : Turn W) (d : DposSlot W) : Mined (Except Thrown Unit) × DposSlot W :=
  let slot := d.getSlot (v.currentTimeMillis + 50)
  match d.getScheduledWitness rt.outOfBounds slot with
  | .error e => (⟨.error (.other e), []⟩, d)
  | .ok scheduled =>
    if !v.miners scheduled then (⟨.error (.jsonRpcInternal "no miner configured for scheduled witness"), []⟩, d)
    else
      let blockTime := d.clamp (d.getTime slot)
      match v.produce with
      | .pushed next => (⟨.ok (), [blockTime]⟩, (d.push blockTime next).setOverride 0)
      | .pushedThenThrew next e => (⟨.error (.other e), [blockTime]⟩, d.push blockTime next)
      -- The return value of `produce` is not looked at.
      | .empty => (⟨.ok (), []⟩, d.setOverride 0)
      | .threw e => (⟨.error (.other e), []⟩, d)

def mineBlocks (rt : TreRuntime) : List (Turn W) → DposSlot W → Mined (Except Thrown Unit) × DposSlot W
  | [], d => (⟨.ok (), []⟩, d)
  | v :: vs, d =>
    match mineBlock rt v d with
    | (⟨.error e, blocks⟩, d) => (⟨.error e, blocks⟩, d)
    | (⟨.ok (), blocks⟩, d) =>
      let rest := mineBlocks rt vs d
      (⟨rest.1.result, blocks ++ rest.1.blocks⟩, rest.2)

def mineWithBudget (rt : TreRuntime) (v : MineEnv W) (blocksToMine : Nat) (t : TreMiner W) :
    Mined (Except Thrown String) × TreMiner W :=
  match rt.reflection with
  | .error e => (⟨.error e, []⟩, t)
  | .ok () =>
    if t.isManualMining then (⟨.error (.jsonRpcInternal "node is already manual mining"), []⟩, t)
    else
      let mined : Mined (Except Thrown Unit) × DposSlot W := match v.setBlockWaitLock with
        | some e => (⟨.error (.other e), []⟩, t.dposSlot)
        | none => mineBlocks rt ((List.range blocksToMine).map v.turns) t.dposSlot
      let t := { dposSlot := mined.2, isManualMining := false }
      match v.releaseBlockWaitLock with
      | some e => (⟨.error (.other e), mined.1.blocks⟩, t)
      | none => (⟨mined.1.result.map fun _ => "0x0", mined.1.blocks⟩, t)

/-- The batch sizes `mineInternal` admits. -/
def admits (blocksToMine : Int) : Bool := 0 < blocksToMine && blocksToMine ≤ 100

def mineInternal (rt : TreRuntime) (v : MineEnv W) (blocksToMine : Int) (t : TreMiner W) :
    Mined (Except RpcException String) × TreMiner W :=
  if !admits blocksToMine then (⟨.error (.invalidParams "blocks should between (0, 100]"), []⟩, t)
  else
    let r := mineWithBudget rt v blocksToMine.toNat t
    -- The `finally`: whatever happened, the override is gone.
    (⟨r.1.result.mapError Thrown.toRpc, r.1.blocks⟩, { r.2 with dposSlot := r.2.dposSlot.setOverride 0 })

def setNextBlockTimestamp (target : Int) (d : DposSlot W) : Except RpcException Unit × DposSlot W :=
  if target ≤ 0 then (.error (.invalidParams "timestamp must be > 0"), d)
  else if target ≤ d.lbht then
    (.error (.invalidParams ("timestamp must be greater than current LBHT (" ++ toString d.lbht ++ " ms)")), d)
  else (.ok (), d.setOverride target)

def blockTime (n : Int) (d : DposSlot W) : Except RpcException Unit × DposSlot W :=
  if h : n < 0 ∨ n > 60 then (.error (.invalidParams "block time should between [0, 60] in second"), d)
  else if hn : n = 0 then
    (.ok (), { d with autoMine := false, BLOCK_PRODUCED_INTERVAL := 1, interval_pos := by omega })
  else
    (.ok (), { d with autoMine := true, BLOCK_PRODUCED_INTERVAL := n * 1000, interval_pos := by omega })

/-- A call. `tre_mine` without arguments mines one block. -/
inductive TreCall (W : Type) where
  | tre_setNextBlockTimestamp (timestampMsParam : String)
  | tre_blockTime (blockTimeParam : String)
  | tre_mine (blocks : Option String) (env : MineEnv W)

/-- The batch size of a `tre_mine`. -/
def blocksToMine (rt : TreRuntime) : Option String → Except RpcException Int
  | none => .ok 1
  | some blocks => rt.decodeInt blocks

def TreMiner.exec (rt : TreRuntime) (t : TreMiner W) : TreCall W → Mined (Except RpcException String) × TreMiner W
  | .tre_setNextBlockTimestamp p =>
    match rt.decodeLong p with
    | .error e => (⟨.error e, []⟩, t)
    | .ok target =>
      let r := setNextBlockTimestamp target t.dposSlot
      (⟨r.1.map fun _ => "true", []⟩, { t with dposSlot := r.2 })
  | .tre_blockTime p =>
    match rt.decodeInt p with
    | .error e => (⟨.error e, []⟩, t)
    | .ok n =>
      let r := HardhatTron.blockTime n t.dposSlot
      (⟨r.1.map fun _ => "true", []⟩, { t with dposSlot := r.2 })
  | .tre_mine blocks env =>
    match blocksToMine rt blocks with
    | .error e => (⟨.error e, []⟩, t)
    | .ok n => mineInternal rt env n t

/-- The override is 0 on a node that has just started. -/
def startMiner (d : DposSlot W) : TreMiner W := ⟨d.setOverride 0, false⟩

abbrev MiningHistory (W : Type) := List (TreCall W × Mined (Except RpcException String))

def MiningRun (rt : TreRuntime) (d : DposSlot W) : MiningHistory W → TreMiner W → Prop :=
  Run (fun t c => some (t.exec rt c)) (fun _ _ => True) (startMiner d)

/-! ## What a history says -/

/-- The timestamps of the blocks, in order. -/
def blocksOf (h : MiningHistory W) : List Int := h.flatMap (·.2.blocks)

/-- The timestamp a call had accepted. -/
def acceptedBy (rt : TreRuntime) : TreCall W × Mined (Except RpcException String) → Option Int
  | (.tre_setNextBlockTimestamp p, ⟨.ok _, _⟩) => (rt.decodeLong p).toOption
  | _ => none

/-- A `tre_mine` of an admitted size. -/
def admitted (rt : TreRuntime) : TreCall W → Bool
  | .tre_mine blocks _ =>
    match blocksToMine rt blocks with
    | .ok n => admits n
    | .error _ => false
  | _ => false

def waitingStep (rt : TreRuntime) (w : Option Int) (e : TreCall W × Mined (Except RpcException String)) : Option Int :=
  match acceptedBy rt e with
  | some target => some target
  | none => if admitted rt e.1 then none else w

/-- The last timestamp accepted, if no `tre_mine` was admitted since. -/
def waiting (rt : TreRuntime) (h : MiningHistory W) : Option Int := h.foldl (waitingStep rt) none

/-- The turns a call may take. -/
def TreCall.turns (rt : TreRuntime) : TreCall W → List (Turn W)
  | .tre_mine blocks env =>
    match blocksToMine rt blocks with
    | .ok n => if admits n then (List.range n.toNat).map env.turns else []
    | .error _ => []
  | _ => []

/-- The block gets onto the chain. -/
def Produced.pushes : Produced W → Prop
  | .pushed _ | .pushedThenThrew _ _ => True
  | .empty | .threw _ => False

/-- `produce` returns without a block, at least once, before it adds the first. -/
def SkipsFirst (vs : List (Turn W)) : Prop :=
  ∃ pre v post, vs = pre ++ v :: post ∧ pre ≠ [] ∧ (∀ u ∈ pre, u.produce = .empty) ∧ v.produce.pushes

/-- A call that meets an override does not skip its first block. -/
def KeepsOverride (rt : TreRuntime) (t : TreMiner W) (c : TreCall W) : Prop :=
  t.dposSlot.NEXT_BLOCK_TIMESTAMP_OVERRIDE ≠ 0 → ¬ SkipsFirst (c.turns rt)

/-- The first `produce` of a `tre_mine` adds its block or throws. -/
def TreCall.pushesOrThrows : TreCall W → Prop
  | .tre_mine _ env => (env.turns 0).produce ≠ .empty
  | _ => True

@[simp] theorem blocksOf_nil : blocksOf ([] : MiningHistory W) = [] := rfl

@[simp] theorem blocksOf_append (h₁ h₂ : MiningHistory W) : blocksOf (h₁ ++ h₂) = blocksOf h₁ ++ blocksOf h₂ := by
  simp [blocksOf]

@[simp] theorem blocksOf_cons (e : TreCall W × Mined (Except RpcException String)) (h : MiningHistory W) :
    blocksOf (e :: h) = e.2.blocks ++ blocksOf h := rfl

theorem waiting_snoc (rt : TreRuntime) (h : MiningHistory W) (e : TreCall W × Mined (Except RpcException String)) :
    waiting rt (h ++ [e]) = waitingStep rt (waiting rt h) e := by
  simp [waiting]

/-! ## What one block does -/

/-- The timestamp of the block an iteration hands to `produce`. -/
def Turn.blockTime (v : Turn W) (d : DposSlot W) : Int := d.clamp (d.getTime (d.getSlot (v.currentTimeMillis + 50)))

theorem Turn.blockTime_override {v : Turn W} {d : DposSlot W} (h : 0 < d.NEXT_BLOCK_TIMESTAMP_OVERRIDE) :
    v.blockTime d = d.NEXT_BLOCK_TIMESTAMP_OVERRIDE := by
  rw [Turn.blockTime, DposSlot.clamp_override h.ne', DposSlot.getTime_override h]

theorem Turn.le_blockTime {v : Turn W} {d : DposSlot W} (h : d.NEXT_BLOCK_TIMESTAMP_OVERRIDE = 0) :
    d.lbht + 1000 ≤ v.blockTime d := DposSlot.le_clamp h _

/-- The four ways an iteration ends. -/
inductive TurnEffect (v : Turn W) (d : DposSlot W) : Mined (Except Thrown Unit) × DposSlot W → Prop
  | failed (e : Thrown) : TurnEffect v d (⟨.error e, []⟩, d)
  | skipped (h : v.produce = .empty) : TurnEffect v d (⟨.ok (), []⟩, d.setOverride 0)
  | mined (next : NextHead W) (h : v.produce = .pushed next) :
      TurnEffect v d (⟨.ok (), [v.blockTime d]⟩, (d.push (v.blockTime d) next).setOverride 0)
  | minedThenFailed (next : NextHead W) (e : Thrown) (h : v.produce.pushes) :
      TurnEffect v d (⟨.error e, [v.blockTime d]⟩, d.push (v.blockTime d) next)

theorem mineBlock_effect (rt : TreRuntime) (v : Turn W) (d : DposSlot W) : TurnEffect v d (mineBlock rt v d) := by
  unfold mineBlock
  dsimp only
  split
  · exact .failed _
  · split
    · exact .failed _
    · split
      · exact .mined _ (by assumption)
      · rename_i hp
        exact .minedThenFailed _ _ (by rw [hp]; trivial)
      · exact .skipped (by assumption)
      · exact .failed _

/-! ## What a batch does -/

theorem mineBlocks_cons_ok {rt : TreRuntime} {v : Turn W} {vs : List (Turn W)} {d d₁ : DposSlot W} {bs : List Int}
    (h : mineBlock rt v d = (⟨.ok (), bs⟩, d₁)) :
    mineBlocks rt (v :: vs) d =
      (⟨(mineBlocks rt vs d₁).1.result, bs ++ (mineBlocks rt vs d₁).1.blocks⟩, (mineBlocks rt vs d₁).2) := by
  rw [mineBlocks, h]

theorem mineBlocks_cons_error {rt : TreRuntime} {v : Turn W} {vs : List (Turn W)} {d d₁ : DposSlot W} {bs : List Int}
    {e : Thrown} (h : mineBlock rt v d = (⟨.error e, bs⟩, d₁)) :
    mineBlocks rt (v :: vs) d = (⟨.error e, bs⟩, d₁) := by
  rw [mineBlocks, h]

/-- Each block is at least a second after the one before. -/
def SecondApart : List Int → Prop := List.IsChain fun a b => a + 1000 ≤ b

/-- The head after the blocks `bs` on top of the timestamp `t`. -/
def headAfter (t : Int) (bs : List Int) : Int := (t :: bs).getLast (List.cons_ne_nil _ _)

@[simp] theorem headAfter_nil (t : Int) : headAfter t [] = t := rfl

@[simp] theorem headAfter_cons (t b : Int) (bs : List Int) : headAfter t (b :: bs) = headAfter b bs :=
  List.getLast_cons (List.cons_ne_nil b bs)

/-- Chains join at the head of the first. -/
theorem isChain_append_headAfter {R : Int → Int → Prop} {t : Int} {bs cs : List Int} :
    (t :: (bs ++ cs)).IsChain R ↔ (t :: bs).IsChain R ∧ (headAfter t bs :: cs).IsChain R := by
  induction bs generalizing t with
  | nil => simp
  | cons b bs ih => simp [List.isChain_cons_cons, ih, and_assoc]

theorem headAfter_append (t : Int) (bs cs : List Int) : headAfter t (bs ++ cs) = headAfter (headAfter t bs) cs := by
  induction bs generalizing t with
  | nil => rfl
  | cons b bs ih => simpa using ih b

/-- Without an override every block is at least a second after the one before. -/
theorem mineBlocks_apart (rt : TreRuntime) (vs : List (Turn W)) {d : DposSlot W}
    (ho : d.NEXT_BLOCK_TIMESTAMP_OVERRIDE = 0) :
    SecondApart (d.lbht :: (mineBlocks rt vs d).1.blocks) ∧
      (mineBlocks rt vs d).2.lbht = headAfter d.lbht (mineBlocks rt vs d).1.blocks := by
  induction vs generalizing d with
  | nil => exact ⟨.singleton _, rfl⟩
  | cons v vs ih =>
    have he := mineBlock_effect rt v d
    have hb := Turn.le_blockTime (v := v) ho
    generalize hr : mineBlock rt v d = r at he
    cases he with
    | failed e =>
      rw [mineBlocks_cons_error hr]
      exact ⟨.singleton _, rfl⟩
    | skipped =>
      rw [mineBlocks_cons_ok hr]
      exact ih (d := d.setOverride 0) rfl
    | mined next =>
      obtain ⟨ha, hh⟩ := ih (d := (d.push (v.blockTime d) next).setOverride 0) rfl
      rw [mineBlocks_cons_ok hr]
      exact ⟨List.isChain_cons_cons.2 ⟨hb, ha⟩, by simpa using hh⟩
    | minedThenFailed next e =>
      rw [mineBlocks_cons_error hr]
      exact ⟨List.isChain_cons_cons.2 ⟨hb, .singleton _⟩, rfl⟩

theorem SkipsFirst.cons {v : Turn W} {vs : List (Turn W)} (hv : v.produce = .empty)
    (h : (∃ v' vs', vs = v' :: vs' ∧ v'.produce.pushes) ∨ SkipsFirst vs) : SkipsFirst (v :: vs) := by
  rcases h with ⟨v', vs', rfl, hp⟩ | ⟨pre, u, post, rfl, -, hpre, hp⟩
  · exact ⟨[v], v', vs', rfl, by simp, by simpa using hv, hp⟩
  · exact ⟨v :: pre, u, post, rfl, by simp, by simpa [hv] using hpre, hp⟩

/-- The first block of a batch is that of its first turn, or the turns before it
were skipped. -/
theorem mineBlocks_first (rt : TreRuntime) (vs : List (Turn W)) {d : DposSlot W}
    (hne : (mineBlocks rt vs d).1.blocks ≠ []) :
    (∃ v vs', vs = v :: vs' ∧ v.produce.pushes) ∨ SkipsFirst vs := by
  induction vs generalizing d with
  | nil => exact (hne rfl).elim
  | cons v vs ih =>
    have he := mineBlock_effect rt v d
    generalize hr : mineBlock rt v d = r at he
    cases he with
    | failed e => exact (hne (by rw [mineBlocks_cons_error hr])).elim
    | skipped hp =>
      rw [mineBlocks_cons_ok hr] at hne
      exact .inr (.cons hp (ih hne))
    | mined next hp => exact .inl ⟨v, vs, rfl, by rw [hp]; trivial⟩
    | minedThenFailed next e hp => exact .inl ⟨v, vs, rfl, hp⟩

/-- With an override above the head, the first block takes it, unless a turn before it
was skipped, and only that one. -/
theorem mineBlocks_override (rt : TreRuntime) (vs : List (Turn W)) {d : DposSlot W}
    (ho : 0 < d.NEXT_BLOCK_TIMESTAMP_OVERRIDE) (hlt : d.lbht < d.NEXT_BLOCK_TIMESTAMP_OVERRIDE) :
    (∀ b bs, (mineBlocks rt vs d).1.blocks = b :: bs → d.lbht < b ∧ SecondApart (b :: bs) ∧
        (¬ SkipsFirst vs → b = d.NEXT_BLOCK_TIMESTAMP_OVERRIDE)) ∧
      (mineBlocks rt vs d).2.lbht = headAfter d.lbht (mineBlocks rt vs d).1.blocks := by
  cases vs with
  | nil => exact ⟨fun b bs hbs => (List.cons_ne_nil _ _ hbs.symm).elim, rfl⟩
  | cons v vs =>
    have he := mineBlock_effect rt v d
    have hb := Turn.blockTime_override (v := v) ho
    generalize hr : mineBlock rt v d = r at he
    cases he with
    | failed e =>
      rw [mineBlocks_cons_error hr]
      exact ⟨fun b bs hbs => (List.cons_ne_nil _ _ hbs.symm).elim, rfl⟩
    | skipped hp =>
      -- The empty `produce` has cleared the override: the rest is a batch without one.
      obtain ⟨ha, hh⟩ := mineBlocks_apart rt vs (d := d.setOverride 0) rfl
      rw [mineBlocks_cons_ok hr, List.nil_append]
      refine ⟨fun b bs hbs => ?_, hh⟩
      have hskip : SkipsFirst (v :: vs) := .cons hp (mineBlocks_first rt vs (by rw [hbs]; simp))
      rw [hbs] at ha
      obtain ⟨hlb, ha⟩ := List.isChain_cons_cons.1 ha
      have hlb : d.lbht + 1000 ≤ b := hlb
      exact ⟨by omega, ha, fun h => (h hskip).elim⟩
    | mined next =>
      obtain ⟨ha, hh⟩ := mineBlocks_apart rt vs (d := (d.push (v.blockTime d) next).setOverride 0) rfl
      rw [mineBlocks_cons_ok hr]
      refine ⟨fun b bs hbs => ?_, by simpa using hh⟩
      obtain ⟨rfl, rfl⟩ := List.cons.inj hbs
      exact ⟨by rw [hb]; exact hlt, ha, fun _ => hb⟩
    | minedThenFailed next e =>
      rw [mineBlocks_cons_error hr]
      refine ⟨fun b bs hbs => ?_, rfl⟩
      obtain ⟨rfl, rfl⟩ := List.cons.inj hbs
      exact ⟨by rw [hb]; exact hlt, .singleton _, fun _ => hb⟩

/-! ## What a call does -/

theorem setNextBlockTimestamp_cases (T : Int) (d : DposSlot W) :
    (0 < T ∧ d.lbht < T ∧ setNextBlockTimestamp T d = (.ok (), d.setOverride T)) ∨
      ∃ e, setNextBlockTimestamp T d = (.error e, d) := by
  unfold setNextBlockTimestamp
  by_cases h0 : T ≤ 0
  · exact .inr ⟨_, if_pos h0⟩
  · rw [if_neg h0]
    by_cases hl : T ≤ d.lbht
    · exact .inr ⟨_, if_pos hl⟩
    · exact .inl ⟨by omega, by omega, if_neg hl⟩

theorem exec_setNextBlockTimestamp (rt : TreRuntime) (t : TreMiner W) (p : String) :
    (∃ T, rt.decodeLong p = .ok T ∧ 0 < T ∧ t.dposSlot.lbht < T ∧
        t.exec rt (.tre_setNextBlockTimestamp p) = (⟨.ok "true", []⟩, { t with dposSlot := t.dposSlot.setOverride T })) ∨
      ∃ e, t.exec rt (.tre_setNextBlockTimestamp p) = (⟨.error e, []⟩, t) := by
  simp only [TreMiner.exec]
  cases rt.decodeLong p with
  | error e => exact .inr ⟨e, rfl⟩
  | ok T =>
    rcases setNextBlockTimestamp_cases T t.dposSlot with ⟨h0, hl, he⟩ | ⟨e, he⟩
    · exact .inl ⟨T, rfl, h0, hl, by simp only [he]; rfl⟩
    · exact .inr ⟨e, by simp only [he]; rfl⟩

theorem blockTime_keeps (n : Int) (d : DposSlot W) : (blockTime n d).2.lbht = d.lbht ∧
    (blockTime n d).2.NEXT_BLOCK_TIMESTAMP_OVERRIDE = d.NEXT_BLOCK_TIMESTAMP_OVERRIDE := by
  unfold blockTime
  split
  · exact ⟨rfl, rfl⟩
  · split <;> exact ⟨rfl, rfl⟩

/-- `tre_blockTime` leaves the head and the override. -/
theorem exec_blockTime (rt : TreRuntime) (t : TreMiner W) (p : String) :
    (t.exec rt (.tre_blockTime p)).1.blocks = [] ∧
      (t.exec rt (.tre_blockTime p)).2.isManualMining = t.isManualMining ∧
      (t.exec rt (.tre_blockTime p)).2.dposSlot.lbht = t.dposSlot.lbht ∧
      (t.exec rt (.tre_blockTime p)).2.dposSlot.NEXT_BLOCK_TIMESTAMP_OVERRIDE =
        t.dposSlot.NEXT_BLOCK_TIMESTAMP_OVERRIDE := by
  simp only [TreMiner.exec]
  cases rt.decodeInt p with
  | error e => exact ⟨rfl, rfl, rfl, rfl⟩
  | ok n => exact ⟨rfl, rfl, blockTime_keeps n t.dposSlot⟩

/-- A call to `tre_mine` on an idle node enters its loop or fails before it, and
leaves it idle. An admitted one leaves no override. -/
theorem mineInternal_idle (rt : TreRuntime) (v : MineEnv W) (n : Int) {t : TreMiner W} (hf : t.isManualMining = false) :
    (admits n = false ∧ (mineInternal rt v n t).1.blocks = [] ∧ (mineInternal rt v n t).2 = t) ∨
      admits n = true ∧ ∃ vs, (vs = [] ∨ vs = (List.range n.toNat).map v.turns) ∧
        (mineInternal rt v n t).1.blocks = (mineBlocks rt vs t.dposSlot).1.blocks ∧
        (mineInternal rt v n t).2 = ⟨(mineBlocks rt vs t.dposSlot).2.setOverride 0, false⟩ := by
  cases ha : admits n with
  | false => exact .inl ⟨rfl, by simp [mineInternal, ha], by simp [mineInternal, ha]⟩
  | true =>
    refine .inr ⟨rfl, ?_⟩
    simp only [mineInternal, ha, Bool.not_true, Bool.false_eq_true, if_false]
    unfold mineWithBudget
    cases rt.reflection with
    | error e => exact ⟨[], .inl rfl, rfl, by simp [mineBlocks, ← hf]⟩
    | ok =>
      simp only [hf, Bool.false_eq_true, if_false]
      cases v.setBlockWaitLock with
      | some e =>
        exact ⟨[], .inl rfl, by cases v.releaseBlockWaitLock <;> rfl, by cases v.releaseBlockWaitLock <;> rfl⟩
      | none =>
        exact ⟨(List.range n.toNat).map v.turns, .inr rfl, by cases v.releaseBlockWaitLock <;> rfl,
          by cases v.releaseBlockWaitLock <;> rfl⟩

theorem exec_mine (rt : TreRuntime) (blocks : Option String) (v : MineEnv W) {t : TreMiner W}
    (hf : t.isManualMining = false) :
    (admitted rt (.tre_mine blocks v) = false ∧ (t.exec rt (.tre_mine blocks v)).1.blocks = [] ∧
        (t.exec rt (.tre_mine blocks v)).2 = t) ∨
      admitted rt (.tre_mine blocks v) = true ∧ ∃ vs, (vs = [] ∨ vs = (TreCall.tre_mine blocks v).turns rt) ∧
        (t.exec rt (.tre_mine blocks v)).1.blocks = (mineBlocks rt vs t.dposSlot).1.blocks ∧
        (t.exec rt (.tre_mine blocks v)).2 = ⟨(mineBlocks rt vs t.dposSlot).2.setOverride 0, false⟩ := by
  simp only [TreMiner.exec, admitted, TreCall.turns]
  cases blocksToMine rt blocks with
  | error e => exact .inl ⟨rfl, rfl, rfl⟩
  | ok n =>
    rcases mineInternal_idle rt v n hf with ⟨ha, hb, ht⟩ | ⟨ha, vs, hvs, hb, ht⟩
    · exact .inl ⟨ha, hb, ht⟩
    · exact .inr ⟨ha, vs, by simpa only [ha, if_true] using hvs, hb, ht⟩

/-- The blocks a call with the turns `vs` may add on top of the head `l`, with the
override `w` waiting. -/
structure BlocksOk (vs : List (Turn W)) (w : Option Int) (l : Int) (bs : List Int) : Prop where
  first : ∀ b bs', bs = b :: bs' → l < b ∧ SecondApart (b :: bs')
  late : w = none → SecondApart (l :: bs)
  override : ∀ b bs', bs = b :: bs' → ¬ SkipsFirst vs → ∀ T, w = some T → b = T

theorem BlocksOk.nil {vs : List (Turn W)} {w : Option Int} {l : Int} : BlocksOk vs w l [] where
  first := fun _ _ h => (List.cons_ne_nil _ _ h.symm).elim
  late := fun _ => .singleton _
  override := fun _ _ h => (List.cons_ne_nil _ _ h.symm).elim

theorem SecondApart.lt {l : List Int} (h : SecondApart l) : l.IsChain (· < ·) :=
  h.imp fun a b hab => by omega

theorem BlocksOk.lt {vs : List (Turn W)} {w : Option Int} {l : Int} {bs : List Int} (h : BlocksOk vs w l bs) :
    (l :: bs).IsChain (· < ·) := by
  cases bs with
  | nil => exact .singleton _
  | cons b bs' =>
    obtain ⟨hlt, ha⟩ := h.first b bs' rfl
    exact List.isChain_cons_cons.2 ⟨hlt, ha.lt⟩

/-! ## The run -/

/-- The override between two calls is the timestamp that waits, above the head. -/
structure MiningInv (rt : TreRuntime) (d : DposSlot W) (h : MiningHistory W) (t : TreMiner W) : Prop where
  idle : t.isManualMining = false
  head : t.dposSlot.lbht = headAfter d.lbht (blocksOf h)
  sorted : (d.lbht :: blocksOf h).IsChain (· < ·)
  override : t.dposSlot.NEXT_BLOCK_TIMESTAMP_OVERRIDE = (waiting rt h).getD 0
  above : ∀ T, waiting rt h = some T → 0 < T ∧ t.dposSlot.lbht < T

variable {rt : TreRuntime} {d : DposSlot W} {h : MiningHistory W} {t : TreMiner W}

theorem miningInv_start (rt : TreRuntime) (d : DposSlot W) : MiningInv rt d [] (startMiner d) where
  idle := rfl
  head := rfl
  sorted := .singleton _
  override := rfl
  above := by intro T hT; cases hT

/-- The blocks of a call, in the state it finds. -/
theorem MiningInv.blocksOk (hi : MiningInv rt d h t) (c : TreCall W) :
    BlocksOk (c.turns rt) (waiting rt h) t.dposSlot.lbht (t.exec rt c).1.blocks ∧
      (t.exec rt c).2.dposSlot.lbht = headAfter t.dposSlot.lbht (t.exec rt c).1.blocks := by
  cases c with
  | tre_setNextBlockTimestamp p =>
    rcases exec_setNextBlockTimestamp rt t p with ⟨T, -, -, -, he⟩ | ⟨e, he⟩ <;> rw [he] <;> exact ⟨.nil, rfl⟩
  | tre_blockTime p =>
    obtain ⟨hb, -, hl, -⟩ := exec_blockTime rt t p
    rw [hb, hl]
    exact ⟨.nil, rfl⟩
  | tre_mine blocks env =>
    rcases exec_mine rt blocks env hi.idle with ⟨-, hb, ht⟩ | ⟨-, vs, hvs, hb, ht⟩ <;> rw [hb, ht]
    · exact ⟨.nil, rfl⟩
    · cases hw : waiting rt h with
      | none =>
        have ho : t.dposSlot.NEXT_BLOCK_TIMESTAMP_OVERRIDE = 0 := by rw [hi.override, hw]; rfl
        obtain ⟨ha, hh⟩ := mineBlocks_apart rt vs ho
        refine ⟨⟨fun b bs' hbs => ?_, fun _ => ha, fun _ _ _ _ T hT => by cases hT⟩, hh⟩
        rw [hbs] at ha
        obtain ⟨hlb, ha⟩ := List.isChain_cons_cons.1 ha
        exact ⟨by omega, ha⟩
      | some T =>
        have ho : t.dposSlot.NEXT_BLOCK_TIMESTAMP_OVERRIDE = T := by rw [hi.override, hw]; rfl
        obtain ⟨hpos, hlt⟩ := hi.above T hw
        rw [← ho] at hpos hlt
        obtain ⟨hbs, hh⟩ := mineBlocks_override rt vs hpos hlt
        refine ⟨⟨fun b bs' h => ⟨(hbs b bs' h).1, (hbs b bs' h).2.1⟩, fun h => (by cases h), ?_⟩, hh⟩
        rintro b bs' h hs T' ⟨⟩
        rcases hvs with rfl | rfl
        · exact (List.cons_ne_nil b bs' h.symm).elim
        · rw [(hbs b bs' h).2.2 hs, ho]

/-- Between two calls the override is what waits. -/
theorem MiningInv.override_step (hi : MiningInv rt d h t) (c : TreCall W) :
    (t.exec rt c).2.isManualMining = false ∧
      (t.exec rt c).2.dposSlot.NEXT_BLOCK_TIMESTAMP_OVERRIDE =
        (waitingStep rt (waiting rt h) (c, (t.exec rt c).1)).getD 0 ∧
      ∀ T, waitingStep rt (waiting rt h) (c, (t.exec rt c).1) = some T → 0 < T ∧ (t.exec rt c).2.dposSlot.lbht < T := by
  cases c with
  | tre_setNextBlockTimestamp p =>
    rcases exec_setNextBlockTimestamp rt t p with ⟨T, hT, h0, hl, he⟩ | ⟨e, he⟩ <;> rw [he]
    · refine ⟨hi.idle, ?_, ?_⟩
      · simp [waitingStep, acceptedBy, hT, Except.toOption]
      · simp only [waitingStep, acceptedBy, hT, Except.toOption]
        rintro T' ⟨⟩
        exact ⟨h0, hl⟩
    · exact ⟨hi.idle, hi.override, hi.above⟩
  | tre_blockTime p =>
    obtain ⟨-, hf, hl, ho⟩ := exec_blockTime rt t p
    rw [hf, hl, ho]
    exact ⟨hi.idle, hi.override, hi.above⟩
  | tre_mine blocks env =>
    rcases exec_mine rt blocks env hi.idle with ⟨ha, -, ht⟩ | ⟨ha, vs, -, -, ht⟩ <;>
      simp only [waitingStep, acceptedBy, ha] <;> rw [ht]
    · exact ⟨hi.idle, hi.override, hi.above⟩
    · exact ⟨rfl, rfl, fun T hT => by cases hT⟩

theorem MiningInv.step (hi : MiningInv rt d h t) (c : TreCall W) :
    MiningInv rt d (h ++ [(c, (t.exec rt c).1)]) (t.exec rt c).2 := by
  obtain ⟨hbs, hhead⟩ := hi.blocksOk c
  obtain ⟨hf, ho, ha⟩ := hi.override_step c
  refine ⟨hf, ?_, ?_, by rw [waiting_snoc]; exact ho, by rw [waiting_snoc]; exact ha⟩
  · rw [hhead, hi.head, blocksOf_append, headAfter_append]
    simp
  · rw [blocksOf_append, isChain_append_headAfter, ← hi.head]
    exact ⟨hi.sorted, by simpa using hbs.lt⟩

theorem miningInv (hr : MiningRun rt d h t) : MiningInv rt d h t := by
  refine Run.inv (MiningInv rt d) (miningInv_start rt d) ?_ hr
  intro h t c r t' _ hi _ hst
  have hst : t.exec rt c = (r, t') := Option.some.inj hst
  have hi' := hi.step c
  rwa [hst] at hi'

/-- The blocks of a call are those of its turns, in the state the run has reached. -/
theorem MiningRun.blocksOk {h₁ h₂ : MiningHistory W} {c : TreCall W} {r : Mined (Except RpcException String)}
    (hr : MiningRun rt d (h₁ ++ (c, r) :: h₂) t) :
    BlocksOk (c.turns rt) (waiting rt h₁) (headAfter d.lbht (blocksOf h₁)) r.blocks := by
  obtain ⟨m, m', hr₁, -, hst, -⟩ := hr.at
  have hst : m.exec rt c = (r, m') := Option.some.inj hst
  have hi := miningInv hr₁
  obtain ⟨hok, -⟩ := hi.blocksOk c
  rwa [hst, hi.head] at hok

/-- What the timestamps of a history's blocks are to be. -/
structure TimestampsOk (rt : TreRuntime) (d : DposSlot W) (h : MiningHistory W) : Prop where
  increasing : (d.lbht :: blocksOf h).Pairwise (· < ·)
  override : ∀ h₁ c r h₂, h = h₁ ++ (c, r) :: h₂ → ∀ T, waiting rt h₁ = some T →
    ∀ b bs, r.blocks = b :: bs → b = T
  apart : ∀ h₁ c r h₂, h = h₁ ++ (c, r) :: h₂ → ∀ bs₁ b bs₂, r.blocks = bs₁ ++ b :: bs₂ →
    (bs₁ = [] → waiting rt h₁ = none) → headAfter d.lbht (blocksOf h₁ ++ bs₁) + 1000 ≤ b

/-- A block that no override has set is a second after its parent, whatever
`produce` does. -/
theorem MiningRun.apart (hr : MiningRun rt d h t) {h₁ : MiningHistory W} {c : TreCall W}
    {r : Mined (Except RpcException String)} {h₂ : MiningHistory W} (hh : h = h₁ ++ (c, r) :: h₂)
    {bs₁ : List Int} {b : Int} {bs₂ : List Int} (hbs : r.blocks = bs₁ ++ b :: bs₂)
    (hw : bs₁ = [] → waiting rt h₁ = none) : headAfter d.lbht (blocksOf h₁ ++ bs₁) + 1000 ≤ b := by
  subst hh
  have hok := hr.blocksOk
  rw [hbs] at hok
  rw [headAfter_append]
  cases bs₁ with
  | nil => exact (List.isChain_cons_cons.1 (hok.late (hw rfl))).1
  | cons b₁ bs₁ =>
    have ha := (hok.first b₁ _ rfl).2
    exact (List.isChain_cons_cons.1 (isChain_append_headAfter.1 ha).2).1

/-- **The timestamps `tre_mine` gives its blocks.** They strictly increase over the
run. The first block of the first admitted call after an accepted timestamp has that
timestamp, and every other block is at least a second after its parent. -/
theorem mined_timestamps
    (hr : Run (fun t c => some (t.exec rt c)) (KeepsOverride rt) (startMiner d) h t) : TimestampsOk rt d h := by
  have hall : MiningRun rt d h t := hr.mono fun _ _ _ => trivial
  refine ⟨List.isChain_iff_pairwise.1 (miningInv hall).sorted, ?_, fun h₁ c r h₂ hh bs₁ b bs₂ => hall.apart hh⟩
  rintro h₁ c r h₂ rfl T hT b bs hbs
  have hok := hall.blocksOk
  obtain ⟨m, m', hr₁, hkeeps, -, -⟩ := hr.at
  have hi : MiningInv rt d h₁ m := miningInv (hr₁.mono fun _ _ _ => trivial)
  have hpending : m.dposSlot.NEXT_BLOCK_TIMESTAMP_OVERRIDE ≠ 0 := by
    rw [hi.override, hT]
    exact (hi.above T hT).1.ne'
  exact hok.override b bs hbs (hkeeps hpending) T hT

/-! ## A run -/

/-- A chain at 1 s, with one witness and 3 s slots. -/
def oneWitness : DposSlot Unit where
  NEXT_BLOCK_TIMESTAMP_OVERRIDE := 0
  BLOCK_PRODUCED_INTERVAL := 3000
  autoMine := true
  genesisBlockTime := 0
  consensusDelegate := ⟨1, 1000, false, 2, [()]⟩
  interval_pos := by decide

/-- A node whose calls carry `"0x2"` blocks or the timestamp `"0x1388"`. -/
def plainRuntime : TreRuntime where
  decodeInt := fun p => if p = "0x2" then .ok 2 else .error (.invalidParams p)
  decodeLong := fun p => if p = "0x1388" then .ok 5000 else .error (.invalidParams p)
  reflection := .ok ()
  outOfBounds := fun i => ⟨"java.lang.ArrayIndexOutOfBoundsException", toString i⟩

/-- Both blocks go through, on a clock at 0. -/
def plainEnv : MineEnv Unit where
  turns := fun _ => ⟨0, fun _ => true, .pushed ⟨false, 2, [()]⟩⟩
  setBlockWaitLock := none
  releaseBlockWaitLock := none

def warpHistory : MiningHistory Unit :=
  [(.tre_setNextBlockTimestamp "0x1388", ⟨.ok "true", []⟩),
    (.tre_mine (some "0x2") plainEnv, ⟨.ok "0x0", [5000, 6000]⟩)]

theorem plainEnv_keeps (t : TreMiner Unit) (blocks : Option String) :
    KeepsOverride plainRuntime t (.tre_mine blocks plainEnv) := by
  rintro - ⟨pre, v, post, hvs, hpre, hempty, -⟩
  have hpushed : ∀ u ∈ (TreCall.tre_mine blocks plainEnv).turns plainRuntime, u.produce ≠ .empty := by
    simp only [TreCall.turns]
    split
    · split <;> simp [plainEnv]
    · simp
  obtain ⟨u, hu⟩ := List.exists_mem_of_ne_nil pre hpre
  exact hpushed u (by simp [hvs, hu]) (hempty u hu)

/-- A warp to 5 s, then a batch of two: 5 s for the first, and a second more. -/
theorem mined_timestamps_warp : TimestampsOk plainRuntime oneWitness warpHistory := by
  have h₁ : Run (fun t c => some (t.exec plainRuntime c)) (KeepsOverride plainRuntime) (startMiner oneWitness)
      (warpHistory.take 1) _ :=
    Run.snoc (TreCall.tre_setNextBlockTimestamp "0x1388") Run.nil (fun h => absurd rfl h) rfl
  exact mined_timestamps (Run.snoc (TreCall.tre_mine (some "0x2") plainEnv) h₁ (plainEnv_keeps _ _) rfl)

/-- The first `produce` of the batch returns without a block. -/
def skippingEnv : MineEnv Unit where
  turns := fun k => ⟨0, fun _ => true, if k = 0 then .empty else .pushed ⟨false, 2, [()]⟩⟩
  setBlockWaitLock := none
  releaseBlockWaitLock := none

/-- The warp is lost to the turn without a block: the next one is at 2 s. -/
theorem override_skipped :
    ∃ h t, MiningRun plainRuntime oneWitness h t ∧ ¬ TimestampsOk plainRuntime oneWitness h := by
  have h₁ : MiningRun plainRuntime oneWitness [(.tre_setNextBlockTimestamp "0x1388", ⟨.ok "true", []⟩)] _ :=
    Run.snoc (TreCall.tre_setNextBlockTimestamp "0x1388") Run.nil trivial rfl
  have h₂ : MiningRun plainRuntime oneWitness
      ([(.tre_setNextBlockTimestamp "0x1388", ⟨.ok "true", []⟩)] ++
        [(.tre_mine (some "0x2") skippingEnv, ⟨.ok "0x0", [2000]⟩)]) _ :=
    Run.snoc (TreCall.tre_mine (some "0x2") skippingEnv) h₁ trivial rfl
  refine ⟨_, _, h₂, fun hok => ?_⟩
  have h2000 : (2000 : Int) = 5000 := hok.override _ _ _ [] rfl 5000 rfl 2000 [] rfl
  exact absurd h2000 (by decide)

end HardhatTron

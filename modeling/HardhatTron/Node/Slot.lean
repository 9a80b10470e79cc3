import HardhatTron.Node.Snapshots
import Mathlib.Data.Int.Order.Basic
/-!
# Slots and the timestamp override

`DposSlot` turns a wall clock into a slot and a slot into a block timestamp. A
one-shot override, `NEXT_BLOCK_TIMESTAMP_OVERRIDE`, takes over from both while
it is positive.

Timestamps are milliseconds, as integers: `long` holds them exactly for the
next 290 million years. `/` and `%` of Java round toward zero, as `Int.tdiv` and
`Int.tmod` do.
-/
namespace HardhatTron

/-- A Java exception: its class and its message. -/
structure JavaException where
  className : String
  message : String
  deriving DecidableEq

/-- What the slots read of the chain through `ConsensusDelegate`. -/
structure ConsensusDelegate (W : Type) where
  latestBlockHeaderNumber : Int
  latestBlockHeaderTimestamp : Int
  lastHeadBlockIsMaintenance : Bool
  maintenanceSkipSlots : Int
  activeWitnesses : List W

/-- `DposSlot` with the static interval it divides by, which no setter makes 0. -/
structure DposSlot (W : Type) where
  NEXT_BLOCK_TIMESTAMP_OVERRIDE : Int
  BLOCK_PRODUCED_INTERVAL : Int
  autoMine : Bool
  genesisBlockTime : Int
  consensusDelegate : ConsensusDelegate W
  interval_pos : 0 < BLOCK_PRODUCED_INTERVAL

variable {W : Type}

/-- The latest block header timestamp. -/
def DposSlot.lbht (d : DposSlot W) : Int := d.consensusDelegate.latestBlockHeaderTimestamp

def DposSlot.getAbSlot (d : DposSlot W) (time : Int) : Int :=
  (time - d.genesisBlockTime).tdiv d.BLOCK_PRODUCED_INTERVAL

def DposSlot.getTime (d : DposSlot W) (slot : Int) : Int :=
  let override := d.NEXT_BLOCK_TIMESTAMP_OVERRIDE
  if override > 0 then override
  else
    let interval := d.BLOCK_PRODUCED_INTERVAL
    if d.consensusDelegate.latestBlockHeaderNumber = 0 then d.genesisBlockTime + slot * interval
    else
      let slot := if d.consensusDelegate.lastHeadBlockIsMaintenance then slot + d.consensusDelegate.maintenanceSkipSlots
        else slot
      let time := d.lbht
      let time := time - (time - d.genesisBlockTime).tmod interval
      time + interval * slot

/-- `getSlot` below its check of the override. -/
def DposSlot.slotAt (d : DposSlot W) (time : Int) : Int :=
  let firstSlotTime := d.getTime 0
  -- A clock behind the chain: the chain was warped forward.
  if time < firstSlotTime then 1 else (time - firstSlotTime).tdiv d.BLOCK_PRODUCED_INTERVAL

def DposSlot.getSlot (d : DposSlot W) (time : Int) : Int :=
  if d.NEXT_BLOCK_TIMESTAMP_OVERRIDE > 0 then 1 else d.slotAt time

/-- The witness of a slot. The cast to `int` comes before the `%`, so a slot from
`2 ^ 31` on can give a negative index, which `get` refuses. -/
def DposSlot.getScheduledWitness (outOfBounds : Int → JavaException) (d : DposSlot W) (slot : Int) :
    Except JavaException W :=
  let currentSlot := d.getAbSlot d.lbht + slot
  if currentSlot < 0 then .error ⟨"java.lang.RuntimeException", "current slot should be positive."⟩
  else
    let size := d.consensusDelegate.activeWitnesses.length
    if size ≤ 0 then .error ⟨"java.lang.RuntimeException", "active witnesses is null."⟩
    else
      let witnessIndex := (currentSlot.bmod (2 ^ 32)).tmod size
      if witnessIndex < 0 then .error (outOfBounds witnessIndex)
      else
        match d.consensusDelegate.activeWitnesses[witnessIndex.toNat]? with
        | some w => .ok w
        | none => .error (outOfBounds witnessIndex)

/-- The clamp of `mineWithBudget`: without an override, at least a second after the head. -/
def DposSlot.clamp (d : DposSlot W) (blockTime : Int) : Int :=
  if d.NEXT_BLOCK_TIMESTAMP_OVERRIDE = 0 then
    let minimum := d.lbht + 1000
    if blockTime < minimum then minimum else blockTime
  else blockTime

/-- What the chain's next head brings besides its number and timestamp. -/
structure NextHead (W : Type) where
  isMaintenance : Bool
  maintenanceSkipSlots : Int
  activeWitnesses : List W

/-- A block with this timestamp becomes the head. -/
def DposSlot.push (d : DposSlot W) (blockTime : Int) (next : NextHead W) : DposSlot W :=
  { d with consensusDelegate :=
      { latestBlockHeaderNumber := d.consensusDelegate.latestBlockHeaderNumber + 1
        latestBlockHeaderTimestamp := blockTime
        lastHeadBlockIsMaintenance := next.isMaintenance
        maintenanceSkipSlots := next.maintenanceSkipSlots
        activeWitnesses := next.activeWitnesses } }

def DposSlot.setOverride (d : DposSlot W) (target : Int) : DposSlot W :=
  { d with NEXT_BLOCK_TIMESTAMP_OVERRIDE := target }

@[simp] theorem DposSlot.push_lbht (d : DposSlot W) (t : Int) (next : NextHead W) : (d.push t next).lbht = t := rfl
@[simp] theorem DposSlot.push_override (d : DposSlot W) (t : Int) (next : NextHead W) :
    (d.push t next).NEXT_BLOCK_TIMESTAMP_OVERRIDE = d.NEXT_BLOCK_TIMESTAMP_OVERRIDE := rfl
@[simp] theorem DposSlot.setOverride_lbht (d : DposSlot W) (t : Int) : (d.setOverride t).lbht = d.lbht := rfl
@[simp] theorem DposSlot.setOverride_override (d : DposSlot W) (t : Int) :
    (d.setOverride t).NEXT_BLOCK_TIMESTAMP_OVERRIDE = t := rfl
@[simp] theorem DposSlot.setOverride_consensusDelegate (d : DposSlot W) (t : Int) :
    (d.setOverride t).consensusDelegate = d.consensusDelegate := rfl
@[simp] theorem DposSlot.setOverride_genesisBlockTime (d : DposSlot W) (t : Int) :
    (d.setOverride t).genesisBlockTime = d.genesisBlockTime := rfl
@[simp] theorem DposSlot.push_genesisBlockTime (d : DposSlot W) (t : Int) (next : NextHead W) :
    (d.push t next).genesisBlockTime = d.genesisBlockTime := rfl

/-! ## With and without an override -/

theorem DposSlot.getTime_override {d : DposSlot W} (h : 0 < d.NEXT_BLOCK_TIMESTAMP_OVERRIDE) (slot : Int) :
    d.getTime slot = d.NEXT_BLOCK_TIMESTAMP_OVERRIDE := by
  unfold DposSlot.getTime
  exact if_pos h

/-- A positive override passes through the clamp untouched. -/
theorem DposSlot.clamp_override {d : DposSlot W} (h : d.NEXT_BLOCK_TIMESTAMP_OVERRIDE ≠ 0) (blockTime : Int) :
    d.clamp blockTime = blockTime := by
  unfold DposSlot.clamp
  exact if_neg h

/-- Without one, the block is at least a second after the head. -/
theorem DposSlot.le_clamp {d : DposSlot W} (h : d.NEXT_BLOCK_TIMESTAMP_OVERRIDE = 0) (blockTime : Int) :
    d.lbht + 1000 ≤ d.clamp blockTime := by
  unfold DposSlot.clamp
  rw [if_pos h]
  dsimp only
  split
  · exact le_rfl
  · omega

theorem DposSlot.slotAt_nonneg (d : DposSlot W) (time : Int) : 0 ≤ d.slotAt time := by
  unfold DposSlot.slotAt
  dsimp only
  split
  · omega
  · exact Int.tdiv_nonneg (by omega) d.interval_pos.le

/-- What the chain guarantees of its head: heights and skipped slots are not
negative, and the genesis block has the genesis time. -/
structure DposSlot.HeadOk (d : DposSlot W) : Prop where
  height : 0 ≤ d.consensusDelegate.latestBlockHeaderNumber
  skip : 0 ≤ d.consensusDelegate.maintenanceSkipSlots
  genesis : d.consensusDelegate.latestBlockHeaderNumber = 0 → d.lbht = d.genesisBlockTime

theorem DposSlot.HeadOk.setOverride {d : DposSlot W} (h : d.HeadOk) (t : Int) : (d.setOverride t).HeadOk :=
  ⟨h.height, h.skip, h.genesis⟩

theorem DposSlot.HeadOk.push {d : DposSlot W} (h : d.HeadOk) (t : Int) {next : NextHead W}
    (hn : 0 ≤ next.maintenanceSkipSlots) : (d.push t next).HeadOk where
  height := Int.add_nonneg h.height (by decide)
  skip := hn
  genesis := by
    intro h0
    have := h.height
    have h0 : d.consensusDelegate.latestBlockHeaderNumber + 1 = 0 := h0
    omega

/-- A slot from 1 on is after the head, however the interval was set. -/
theorem DposSlot.lt_getTime {d : DposSlot W} (hskip : 0 ≤ d.consensusDelegate.maintenanceSkipSlots)
    (hgenesis : d.consensusDelegate.latestBlockHeaderNumber = 0 → d.lbht = d.genesisBlockTime)
    (ho : d.NEXT_BLOCK_TIMESTAMP_OVERRIDE ≤ 0) {slot : Int} (hs : 1 ≤ slot) : d.lbht < d.getTime slot := by
  have hi := d.interval_pos
  have hmul : ∀ k : Int, 1 ≤ k → d.BLOCK_PRODUCED_INTERVAL ≤ d.BLOCK_PRODUCED_INTERVAL * k := fun k hk =>
    le_mul_of_one_le_right hi.le hk
  unfold DposSlot.getTime
  rw [if_neg (by omega)]
  simp only
  split
  · rename_i hn
    have := hgenesis hn
    have := hmul slot hs
    rw [mul_comm] at this
    omega
  · have hrem : (d.lbht - d.genesisBlockTime).tmod d.BLOCK_PRODUCED_INTERVAL < d.BLOCK_PRODUCED_INTERVAL :=
      Int.tmod_lt_of_pos _ hi
    have := hmul (if d.consensusDelegate.lastHeadBlockIsMaintenance then slot + d.consensusDelegate.maintenanceSkipSlots
      else slot) (by split <;> omega)
    omega

theorem DposSlot.HeadOk.lt_getTime {d : DposSlot W} (h : d.HeadOk) (ho : d.NEXT_BLOCK_TIMESTAMP_OVERRIDE ≤ 0)
    {slot : Int} (hs : 1 ≤ slot) : d.lbht < d.getTime slot :=
  DposSlot.lt_getTime h.skip h.genesis ho hs

end HardhatTron

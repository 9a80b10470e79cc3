import HardhatTron.Lib.MachineInt
import HardhatTron.Node.Slot
/-!
# The index of a scheduled witness

`getScheduledWitness` with the `long` and `int` arithmetic it is written in:
`getScheduledWitnessLong`. The slot number is narrowed to 32 bits before the
remainder, so from `2 ^ 31` on (25 days of 1 ms slots) the index is off by the
multiple of `2 ^ 32` that narrowing takes away, or negative:
`reads_scheduled_iff` is when it is not.
-/
namespace HardhatTron

open Lib

variable {W : Type}

/-! ## In machine arithmetic -/

def DposSlot.getAbSlotLong (d : DposSlot W) (time : Int) : Int :=
  (toLong (time - d.genesisBlockTime)).tdiv d.BLOCK_PRODUCED_INTERVAL

def DposSlot.currentSlot (d : DposSlot W) (slot : Int) : Int := toLong (d.getAbSlotLong d.lbht + slot)

/-- `(int) currentSlot % (size * 1)`; the cast binds tighter than the `%`. -/
def DposSlot.witnessIndex (d : DposSlot W) (slot : Int) : Int :=
  (toInt (d.currentSlot slot)).tmod d.consensusDelegate.activeWitnesses.length

def DposSlot.getScheduledWitnessLong (outOfBounds : Int → JavaException) (d : DposSlot W) (slot : Int) :
    Except JavaException W :=
  if d.currentSlot slot < 0 then .error ⟨"java.lang.RuntimeException", "current slot should be positive."⟩
  else if d.consensusDelegate.activeWitnesses.length ≤ 0 then
    .error ⟨"java.lang.RuntimeException", "active witnesses is null."⟩
  else if d.witnessIndex slot < 0 then .error (outOfBounds (d.witnessIndex slot))
  else
    match d.consensusDelegate.activeWitnesses[(d.witnessIndex slot).toNat]? with
    | some w => .ok w
    | none => .error (outOfBounds (d.witnessIndex slot))

/-! ## What the schedule says -/

/-- The number of the slot, counted from genesis. -/
def DposSlot.slotNumber (d : DposSlot W) (slot : Int) : Int :=
  (d.lbht - d.genesisBlockTime) / d.BLOCK_PRODUCED_INTERVAL + slot

/-- The index read is the slot number modulo the number of witnesses, and the
result is the witness there. -/
def DposSlot.ReadsScheduled (outOfBounds : Int → JavaException) (d : DposSlot W) (slot : Int) : Prop :=
  d.witnessIndex slot = d.slotNumber slot % d.consensusDelegate.activeWitnesses.length ∧
  ∃ w, d.consensusDelegate.activeWitnesses[(d.slotNumber slot % d.consensusDelegate.activeWitnesses.length).toNat]? = some w ∧
    d.getScheduledWitnessLong outOfBounds slot = .ok w

/-- What the slot number loses if the time since genesis overflows a `long`,
which takes a genesis before 1970. -/
def DposSlot.lost (d : DposSlot W) : Int :=
  let time := d.lbht - d.genesisBlockTime
  if time < 2 ^ 63 then 0 else time / d.BLOCK_PRODUCED_INTERVAL + (2 ^ 64 - time) / d.BLOCK_PRODUCED_INTERVAL

/-- What overflow and narrowing take off the slot number is a multiple of the
number of witnesses; and where it leaves a negative number, so is the slot number. -/
def DposSlot.NarrowsToIndex (d : DposSlot W) (slot : Int) : Prop :=
  let size : Int := d.consensusDelegate.activeWitnesses.length
  let narrowed := 2 ^ 32 * ((d.slotNumber slot - d.lost + 2 ^ 31) / 2 ^ 32)
  d.lost ≤ d.slotNumber slot ∧ size ∣ d.lost + narrowed ∧ (d.slotNumber slot - d.lost < narrowed → size ∣ d.slotNumber slot)

section
variable {d : DposSlot W} {slot : Int}

/-- In particular below `2 ^ 31`. -/
theorem DposSlot.narrowsToIndex_of_lt (hg : d.genesisBlockTime ≤ d.lbht) (ht : d.lbht - d.genesisBlockTime < 2 ^ 63)
    (hs : 0 ≤ slot) (hlt : d.slotNumber slot < 2 ^ 31) : d.NarrowsToIndex slot := by
  have hlost : d.lost = 0 := if_pos ht
  have hnum : 0 ≤ d.slotNumber slot :=
    Int.add_nonneg (Int.ediv_nonneg (by omega) d.interval_pos.le) hs
  have hzero : (d.slotNumber slot + 2 ^ 31) / 2 ^ 32 = 0 := by omega
  simp only [DposSlot.NarrowsToIndex, hlost, Int.sub_zero, hzero]
  exact ⟨hnum, by simp, fun h => absurd hnum (by omega)⟩

/-- The `long` that `getScheduledWitness` counts with. -/
theorem DposSlot.currentSlot_eq (hg : d.genesisBlockTime ≤ d.lbht) (hlong : -2 ^ 63 ≤ d.genesisBlockTime ∧ d.lbht < 2 ^ 63)
    (hs : 0 ≤ slot) (hsum : d.slotNumber slot < 2 ^ 63) : d.currentSlot slot = d.slotNumber slot - d.lost := by
  have hi := d.interval_pos
  unfold DposSlot.currentSlot DposSlot.getAbSlotLong
  by_cases ht : d.lbht - d.genesisBlockTime < 2 ^ 63
  · have hlost : d.lost = 0 := if_pos ht
    have hnum := Int.ediv_nonneg (show 0 ≤ d.lbht - d.genesisBlockTime by omega) hi.le
    rw [toLong_of_mem (by omega) ht, Int.tdiv_eq_ediv_of_nonneg (by omega), hlost, Int.sub_zero]
    unfold DposSlot.slotNumber at hsum ⊢
    exact toLong_of_mem (by omega) hsum
  · have hlost : d.lost = (d.lbht - d.genesisBlockTime) / d.BLOCK_PRODUCED_INTERVAL +
        (2 ^ 64 - (d.lbht - d.genesisBlockTime)) / d.BLOCK_PRODUCED_INTERVAL := if_neg ht
    -- the difference wraps to a negative number, and its quotient rounds toward zero
    have hneg : (d.lbht - d.genesisBlockTime - 2 ^ 64).tdiv d.BLOCK_PRODUCED_INTERVAL =
        -((2 ^ 64 - (d.lbht - d.genesisBlockTime)) / d.BLOCK_PRODUCED_INTERVAL) := by
      rw [← Int.neg_sub, Int.neg_tdiv, Int.tdiv_eq_ediv_of_nonneg (by omega)]
    have hquot := Int.ediv_nonneg (show 0 ≤ d.lbht - d.genesisBlockTime by omega) hi.le
    have hrest := Int.ediv_nonneg (show 0 ≤ 2 ^ 64 - (d.lbht - d.genesisBlockTime) by omega) hi.le
    have hle : (2 ^ 64 - (d.lbht - d.genesisBlockTime)) / d.BLOCK_PRODUCED_INTERVAL ≤ 2 ^ 63 :=
      (Int.ediv_le_self _ (by omega)).trans (by omega)
    have hwrap : toLong (d.lbht - d.genesisBlockTime) = d.lbht - d.genesisBlockTime - 2 ^ 64 :=
      toLong_of_le (by omega) (by omega)
    rw [hwrap, hneg, hlost]
    unfold DposSlot.slotNumber at hsum ⊢
    rw [toLong_of_mem (by omega) (by omega)]
    omega

theorem DposSlot.witnessIndex_iff (hg : d.genesisBlockTime ≤ d.lbht)
    (hlong : -2 ^ 63 ≤ d.genesisBlockTime ∧ d.lbht < 2 ^ 63) (hs : 0 ≤ slot) (hsum : d.slotNumber slot < 2 ^ 63)
    (hne : d.consensusDelegate.activeWitnesses ≠ []) :
    (d.lost ≤ d.slotNumber slot ∧
      d.witnessIndex slot = d.slotNumber slot % d.consensusDelegate.activeWitnesses.length) ↔ d.NarrowsToIndex slot := by
  have hsize : (0 : Int) < d.consensusDelegate.activeWitnesses.length :=
    Int.natCast_pos.2 (List.length_pos_iff.2 hne)
  unfold DposSlot.witnessIndex DposSlot.NarrowsToIndex
  rw [currentSlot_eq hg hlong hs hsum, tmod_eq_emod_iff hsize, toInt_eq]
  apply and_congr_right'
  apply and_congr
  · rw [show d.slotNumber slot - (d.slotNumber slot - d.lost -
      2 ^ 32 * ((d.slotNumber slot - d.lost + 2 ^ 31) / 2 ^ 32)) =
      d.lost + 2 ^ 32 * ((d.slotNumber slot - d.lost + 2 ^ 31) / 2 ^ 32) by omega]
  · exact imp_congr_left (by omega)

/-- The index is read, and the witness there returned, if the slot is not negative for the code. -/
theorem DposSlot.readsScheduled_iff_index (outOfBounds : Int → JavaException) (hg : d.genesisBlockTime ≤ d.lbht)
    (hlong : -2 ^ 63 ≤ d.genesisBlockTime ∧ d.lbht < 2 ^ 63) (hs : 0 ≤ slot) (hsum : d.slotNumber slot < 2 ^ 63)
    (hne : d.consensusDelegate.activeWitnesses ≠ []) :
    d.ReadsScheduled outOfBounds slot ↔ d.lost ≤ d.slotNumber slot ∧
      d.witnessIndex slot = d.slotNumber slot % d.consensusDelegate.activeWitnesses.length := by
  have hlen := List.length_pos_iff.2 hne
  have hsize : (0 : Int) < d.consensusDelegate.activeWitnesses.length := Int.natCast_pos.2 hlen
  have hcur := currentSlot_eq hg hlong hs hsum
  have hnonneg := Int.emod_nonneg (d.slotNumber slot) hsize.ne'
  have hlt := Int.emod_lt_of_pos (d.slotNumber slot) hsize
  unfold DposSlot.ReadsScheduled DposSlot.getScheduledWitnessLong
  constructor
  · rintro ⟨hidx, w, -, hw⟩
    refine ⟨?_, hidx⟩
    by_contra hlost
    rw [if_pos (by omega)] at hw
    cases hw
  · rintro ⟨hle, hidx⟩
    refine ⟨hidx, ?_⟩
    rw [if_neg (by omega), if_neg (by omega), hidx, if_neg (by omega)]
    obtain ⟨w, hw⟩ : ∃ w, d.consensusDelegate.activeWitnesses[(d.slotNumber slot %
        d.consensusDelegate.activeWitnesses.length).toNat]? = some w := ⟨_, List.getElem?_eq_getElem (by omega)⟩
    rw [hw]
    exact ⟨w, rfl, rfl⟩

/-- **When the scheduled witness is read.** The genesis time and the head are
`long`s in order, and the slot number is one. -/
theorem reads_scheduled_iff (outOfBounds : Int → JavaException) (hg : d.genesisBlockTime ≤ d.lbht)
    (hlong : -2 ^ 63 ≤ d.genesisBlockTime ∧ d.lbht < 2 ^ 63) (hs : 0 ≤ slot) (hsum : d.slotNumber slot < 2 ^ 63)
    (hne : d.consensusDelegate.activeWitnesses ≠ []) :
    d.ReadsScheduled outOfBounds slot ↔ d.NarrowsToIndex slot :=
  (DposSlot.readsScheduled_iff_index outOfBounds hg hlong hs hsum hne).trans
    (DposSlot.witnessIndex_iff hg hlong hs hsum hne)

end

/-! ## 1 ms slots -/

def arrayIndexOutOfBounds (i : Int) : JavaException := ⟨"java.lang.ArrayIndexOutOfBoundsException", toString i⟩

/-- A node in manual mode with three witnesses, at this time after a genesis at 0. -/
def manualMode (lbht : Int) : DposSlot Nat where
  NEXT_BLOCK_TIMESTAMP_OVERRIDE := 0
  BLOCK_PRODUCED_INTERVAL := 1
  autoMine := false
  genesisBlockTime := 0
  consensusDelegate := ⟨1, lbht, false, 0, [0, 1, 2]⟩
  interval_pos := Int.zero_lt_one

/-- `reads_scheduled_iff` a day after genesis. -/
theorem reads_scheduled_first_day : (manualMode 86400000).ReadsScheduled arrayIndexOutOfBounds 1 :=
  (reads_scheduled_iff arrayIndexOutOfBounds (by decide) (by decide) (by decide) (by decide) (by decide)).2
    (DposSlot.narrowsToIndex_of_lt (by decide) (by decide) (by decide) (by decide))

/-- On the 25th day slot 1 narrows to `-2147483647`, whose remainder by 3 is -1. -/
theorem negative_witness_index :
    0 ≤ (manualMode (2 ^ 31)).lbht ∧ (manualMode (2 ^ 31)).slotNumber 1 < 2 ^ 63 ∧
      (manualMode (2 ^ 31)).consensusDelegate.activeWitnesses ≠ [] ∧
      (manualMode (2 ^ 31)).witnessIndex 1 = -1 ∧ ¬ (manualMode (2 ^ 31)).ReadsScheduled arrayIndexOutOfBounds 1 := by
  have hidx : (manualMode (2 ^ 31)).witnessIndex 1 = -1 := by decide
  refine ⟨by decide, by decide, by decide, hidx, ?_⟩
  rintro ⟨h, -⟩
  rw [hidx] at h
  revert h
  decide

end HardhatTron

import HardhatTron.Node.MiningSchedule
/-!
# The slot of a clock

A producer asks `getSlot` for the slot of the wall clock and `getTime` for the
start of that slot. `clock_slot_times`: a slot that can be produced in starts
after the head, wherever the clock stands, and from slot 1 on the clock lies
between the start of its slot and the next.
-/
namespace HardhatTron

open Lib

variable {W : Type}

/-- **Slots and times.** Without an override, whatever the interval, the skipped
slots and the clock. -/
theorem DposSlot.clock_slot_times {d : DposSlot W} (ho : d.NEXT_BLOCK_TIMESTAMP_OVERRIDE ≤ 0)
    (hgenesis : d.consensusDelegate.latestBlockHeaderNumber = 0 → d.lbht = d.genesisBlockTime)
    (hskip : 0 ≤ d.consensusDelegate.maintenanceSkipSlots) (t : Int) :
    (1 ≤ d.getSlot t → d.lbht < d.getTime (d.getSlot t)) ∧
    (d.getTime 1 ≤ t → d.getTime (d.getSlot t) ≤ t ∧ t < d.getTime (d.getSlot t + 1)) := by
  constructor
  · intro hs
    exact DposSlot.lt_getTime hskip hgenesis ho hs
  · intro ht
    rw [d.getTime_eq ho] at ht
    -- the clock is past slot 0, so the slot is not the one of a warped chain
    have hfirst : ¬ t < d.slots.first := by
      have hinterval := d.slots.interval_pos
      unfold Slots.time at ht
      omega
    rw [d.getTime_eq ho, d.getTime_eq ho, d.getSlot_eq ho, if_neg hfirst]
    exact ⟨Slots.time_slotOf_le t, Slots.lt_time_slotOf t⟩

theorem skipping_interval_pos : (0 : Int) < 3000 := by decide

/-- A head at 10 s in slots of 3 s, after a maintenance that skips two. -/
def skippingSlot : DposSlot Unit where
  NEXT_BLOCK_TIMESTAMP_OVERRIDE := 0
  BLOCK_PRODUCED_INTERVAL := 3000
  autoMine := false
  genesisBlockTime := 0
  consensusDelegate := ⟨7, 10000, true, 2, []⟩
  interval_pos := skipping_interval_pos

/-- A clock at 20 s is in slot 1, from 18 s to 21 s; for one at 5 s the chain was warped. -/
theorem clock_slot_times_skipping :
    (skippingSlot.lbht < skippingSlot.getTime (skippingSlot.getSlot 5000)) ∧
    skippingSlot.getTime (skippingSlot.getSlot 20000) ≤ 20000 ∧
    20000 < skippingSlot.getTime (skippingSlot.getSlot 20000 + 1) :=
  ⟨(DposSlot.clock_slot_times (d := skippingSlot) (by decide) (by decide) (by decide) 5000).1 (by decide),
    (DposSlot.clock_slot_times (d := skippingSlot) (by decide) (by decide) (by decide) 20000).2 (by decide)⟩

end HardhatTron

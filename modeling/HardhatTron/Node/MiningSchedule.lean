import HardhatTron.Lib.MachineInt
import HardhatTron.Lib.TimeSlots
import HardhatTron.Node.Mining
/-!
# Who a validator expects

`mineWithBudget` takes the witness of the slot the wall clock is in, and then
the timestamp of that slot, which the clamp may move to a second after the head.
A validator goes back from the timestamp to a slot and to its witness. The two
agree with an override, or while the clamp leaves the timestamp, or when the two
slots have the same witness: `mined_witness_iff`.
-/
namespace HardhatTron

open Lib

variable {W : Type}

/-! ## The blocks of a call -/

/-- A block handed to `produce`: the state it was made in, the clock, the
witness it was made for, and its timestamp. -/
structure Handed (W : Type) where
  state : DposSlot W
  currentTimeMillis : Int
  scheduled : W
  blockTime : Int

/-- The block of one iteration, if it comes to one. -/
def handedTurn (rt : TreRuntime) (v : Turn W) (d : DposSlot W) : Option (Handed W) :=
  match d.getScheduledWitness rt.outOfBounds (d.getSlot (v.currentTimeMillis + 50)) with
  | .error _ => none
  | .ok scheduled => if !v.miners scheduled then none else some ⟨d, v.currentTimeMillis, scheduled, v.blockTime d⟩

/-- The blocks of a batch, in order. -/
def handedBatch (rt : TreRuntime) : List (Turn W) → DposSlot W → List (Handed W)
  | [], _ => []
  | v :: vs, d =>
    let rest := match mineBlock rt v d with
      | (⟨.ok (), _⟩, d) => handedBatch rt vs d
      | (⟨.error _, _⟩, _) => []
    (handedTurn rt v d).toList ++ rest

/-- The blocks a call hands to `produce`. -/
def TreMiner.handed (rt : TreRuntime) (t : TreMiner W) : TreCall W → List (Handed W)
  | .tre_mine blocks env =>
    match blocksToMine rt blocks, rt.reflection, env.setBlockWaitLock with
    | .ok n, .ok (), none =>
      if admits n && !t.isManualMining then handedBatch rt ((List.range n.toNat).map env.turns) t.dposSlot else []
    | _, _, _ => []
  | _ => []

/-- Every block of an iteration was handed over. -/
theorem mineBlock_handed (rt : TreRuntime) (v : Turn W) (d : DposSlot W) :
    ∀ time ∈ (mineBlock rt v d).1.blocks, ∃ b ∈ handedTurn rt v d, b.blockTime = time := by
  intro time htime
  unfold mineBlock at htime
  dsimp only at htime
  split at htime
  · cases htime
  · split at htime
    · cases htime
    · rename_i scheduled hw hm
      have hturn : handedTurn rt v d = some ⟨d, v.currentTimeMillis, scheduled, v.blockTime d⟩ := by
        simp [handedTurn, hw, hm]
      refine ⟨⟨d, v.currentTimeMillis, scheduled, v.blockTime d⟩, by simp [hturn], ?_⟩
      split at htime
      · exact (List.mem_singleton.1 htime).symm
      · exact (List.mem_singleton.1 htime).symm
      · cases htime
      · cases htime

theorem mineBlocks_handed (rt : TreRuntime) (vs : List (Turn W)) (d : DposSlot W) :
    ∀ time ∈ (mineBlocks rt vs d).1.blocks, ∃ b ∈ handedBatch rt vs d, b.blockTime = time := by
  induction vs generalizing d with
  | nil => intro time h; cases h
  | cons v vs ih =>
    intro time htime
    have hone := mineBlock_handed rt v d
    unfold handedBatch
    generalize hr : mineBlock rt v d = r at hone
    obtain ⟨⟨res, bs⟩, d₁⟩ := r
    cases res with
    | error e =>
      rw [mineBlocks_cons_error hr] at htime
      obtain ⟨b, hb, rfl⟩ := hone time htime
      exact ⟨b, List.mem_append_left _ (Option.mem_toList.2 hb), rfl⟩
    | ok =>
      rw [mineBlocks_cons_ok hr] at htime
      rcases List.mem_append.1 htime with htime | htime
      · obtain ⟨b, hb, rfl⟩ := hone time htime
        exact ⟨b, List.mem_append_left _ (Option.mem_toList.2 hb), rfl⟩
      · obtain ⟨b, hb, rfl⟩ := ih d₁ time htime
        exact ⟨b, List.mem_append_right _ hb, rfl⟩

/-- The blocks a call adds are among those it hands over. -/
theorem exec_blocks_handed (rt : TreRuntime) (t : TreMiner W) (c : TreCall W) :
    ∀ time ∈ (t.exec rt c).1.blocks, ∃ b ∈ t.handed rt c, b.blockTime = time := by
  intro time htime
  cases c with
  | tre_setNextBlockTimestamp p =>
    rcases exec_setNextBlockTimestamp rt t p with ⟨T, -, -, -, he⟩ | ⟨e, he⟩ <;> rw [he] at htime <;> cases htime
  | tre_blockTime p =>
    rw [(exec_blockTime rt t p).1] at htime
    cases htime
  | tre_mine blocks env =>
    simp only [TreMiner.exec, TreMiner.handed] at htime ⊢
    cases hn : blocksToMine rt blocks with
    | error e =>
      rw [hn] at htime
      cases htime
    | ok n =>
      simp only [hn, mineInternal] at htime
      cases ha : admits n with
      | false =>
        simp only [ha, Bool.not_false, if_true] at htime
        cases htime
      | true =>
        simp only [ha, Bool.not_true, Bool.false_eq_true, if_false, mineWithBudget] at htime
        cases hrefl : rt.reflection with
        | error e =>
          rw [hrefl] at htime
          cases htime
        | ok =>
          rw [hrefl] at htime
          cases hm : t.isManualMining with
          | true =>
            simp only [hm, if_true] at htime
            cases htime
          | false =>
            simp only [hm, Bool.false_eq_true, if_false] at htime
            cases hl : env.setBlockWaitLock with
            | some e => cases hrel : env.releaseBlockWaitLock <;> rw [hl, hrel] at htime <;> cases htime
            | none =>
              have htime : time ∈ (mineBlocks rt ((List.range n.toNat).map env.turns) t.dposSlot).1.blocks := by
                cases hrel : env.releaseBlockWaitLock <;> rw [hl, hrel] at htime <;> exact htime
              simp only [ha, Bool.not_false, Bool.and_self, if_true]
              exact mineBlocks_handed rt _ _ time htime

/-! ## The schedule behind the code -/

/-- When slot 0 starts: the head's slot and the slots maintenance skips. -/
def DposSlot.firstSlotTime (d : DposSlot W) : Int :=
  if d.consensusDelegate.latestBlockHeaderNumber = 0 then d.genesisBlockTime
  else
    let skipped := if d.consensusDelegate.lastHeadBlockIsMaintenance then d.consensusDelegate.maintenanceSkipSlots else 0
    d.lbht - (d.lbht - d.genesisBlockTime).tmod d.BLOCK_PRODUCED_INTERVAL + d.BLOCK_PRODUCED_INTERVAL * skipped

/-- The slots after the head. -/
def DposSlot.slots (d : DposSlot W) : Slots := ⟨d.firstSlotTime, d.BLOCK_PRODUCED_INTERVAL, d.interval_pos⟩

theorem DposSlot.getTime_eq {d : DposSlot W} (h : d.NEXT_BLOCK_TIMESTAMP_OVERRIDE ≤ 0) (slot : Int) :
    d.getTime slot = d.slots.time slot := by
  unfold DposSlot.getTime Slots.time
  simp only [DposSlot.slots, DposSlot.firstSlotTime]
  rw [if_neg (by omega)]
  split
  · rw [mul_comm]
  · split
    · rw [mul_add]
      omega
    · rw [mul_zero]
      omega

theorem DposSlot.getSlot_eq {d : DposSlot W} (h : d.NEXT_BLOCK_TIMESTAMP_OVERRIDE ≤ 0) (time : Int) :
    d.getSlot time = if time < d.slots.first then 1 else d.slots.slotOf time := by
  have hfirst : d.getTime 0 = d.slots.first := by
    rw [d.getTime_eq h, Slots.time, mul_zero, add_zero]
  unfold DposSlot.getSlot DposSlot.slotAt
  rw [if_neg (by omega), hfirst]
  dsimp only
  split
  · rfl
  · exact Int.tdiv_eq_ediv_of_nonneg (by omega)

/-- The slot a producer takes from the clock. -/
def Handed.clockSlot (b : Handed W) : Int :=
  if b.currentTimeMillis + 50 < b.state.slots.first then 1 else b.state.slots.slotOf (b.currentTimeMillis + 50)

theorem Handed.clockSlot_nonneg (b : Handed W) : 0 ≤ b.clockSlot := by
  unfold Handed.clockSlot
  split
  · omega
  · exact Slots.slotOf_nonneg (by omega)

/-- The place of a slot in the list of witnesses. -/
def DposSlot.scheduleIndex (d : DposSlot W) (slot : Int) : Int :=
  (toInt (d.getAbSlot d.lbht + slot)).tmod d.consensusDelegate.activeWitnesses.length

/-- The same witness stands at the places of the two slots. -/
def DposSlot.SameWitness (d : DposSlot W) (slot slot' : Int) : Prop :=
  0 ≤ d.scheduleIndex slot ∧ 0 ≤ d.scheduleIndex slot' ∧
    d.consensusDelegate.activeWitnesses[(d.scheduleIndex slot).toNat]? =
      d.consensusDelegate.activeWitnesses[(d.scheduleIndex slot').toNat]?

theorem DposSlot.getScheduledWitness_eq_ok {outOfBounds : Int → JavaException} {d : DposSlot W} {slot : Int} {w : W} :
    d.getScheduledWitness outOfBounds slot = .ok w ↔ 0 ≤ d.getAbSlot d.lbht + slot ∧ 0 ≤ d.scheduleIndex slot ∧
      d.consensusDelegate.activeWitnesses[(d.scheduleIndex slot).toNat]? = some w := by
  unfold DposSlot.getScheduledWitness DposSlot.scheduleIndex toInt
  dsimp only
  constructor
  · intro h
    split at h
    · cases h
    · split at h
      · cases h
      · split at h
        · cases h
        · split at h
          · rename_i w' hw
            cases h
            exact ⟨by omega, by omega, hw⟩
          · cases h
  · rintro ⟨hslot, hidx, hw⟩
    have hlen := (List.getElem?_eq_some_iff.1 hw).1
    rw [if_neg (by omega), if_neg (by omega), if_neg (by omega), hw]

/-! ## The validator -/

/-- The schedule assigns the block's timestamp to its witness, in the state it was made in. -/
def Handed.Validates (outOfBounds : Int → JavaException) (b : Handed W) : Prop :=
  b.state.getScheduledWitness outOfBounds (b.state.getSlot b.blockTime) = .ok b.scheduled

/-- An override is pending; or the clock's slot starts at least a second after
the head; or that slot and the one a second after the head have the same witness. -/
def Handed.KeepsWitness (b : Handed W) : Prop :=
  b.state.NEXT_BLOCK_TIMESTAMP_OVERRIDE ≠ 0 ∨ b.state.lbht + 1000 ≤ b.state.slots.time b.clockSlot ∨
    b.state.SameWitness b.clockSlot (b.state.slots.slotOf (b.state.lbht + 1000))

theorem mem_handedTurn {rt : TreRuntime} {v : Turn W} {d : DposSlot W} {b : Handed W} (h : b ∈ handedTurn rt v d) :
    b.state = d ∧ b.currentTimeMillis = v.currentTimeMillis ∧ b.blockTime = v.blockTime d ∧
      d.getScheduledWitness rt.outOfBounds (d.getSlot (v.currentTimeMillis + 50)) = .ok b.scheduled := by
  unfold handedTurn at h
  split at h
  · cases h
  · rename_i w hw
    split at h
    · cases h
    · cases h
      exact ⟨rfl, rfl, rfl, hw⟩

/-- The slot a validator finds for the timestamp. -/
theorem Turn.getSlot_blockTime {v : Turn W} {d : DposSlot W} {b : Handed W} (hd : b.state = d)
    (hv : b.currentTimeMillis = v.currentTimeMillis) : d.getSlot (v.blockTime d) =
      if d.NEXT_BLOCK_TIMESTAMP_OVERRIDE = 0 ∧ d.slots.time b.clockSlot < d.lbht + 1000 then
        d.slots.slotOf (d.lbht + 1000)
      else d.getSlot (v.currentTimeMillis + 50) := by
  subst hd
  rcases lt_or_ge 0 b.state.NEXT_BLOCK_TIMESTAMP_OVERRIDE with ho | ho
  · rw [if_neg (by omega)]
    unfold DposSlot.getSlot
    rw [if_pos ho, if_pos ho]
  · have hslot : b.state.getSlot (v.currentTimeMillis + 50) = b.clockSlot := by
      rw [b.state.getSlot_eq ho, ← hv]
      rfl
    have hfirst : b.state.slots.first ≤ b.state.slots.time b.clockSlot := Slots.first_le_time b.clockSlot_nonneg
    have hback : b.state.getSlot (b.state.slots.time b.clockSlot) = b.clockSlot := by
      rw [b.state.getSlot_eq ho, if_neg (by omega), Slots.slotOf_time]
    unfold Turn.blockTime DposSlot.clamp
    rw [hslot, b.state.getTime_eq ho]
    dsimp only
    by_cases hz : b.state.NEXT_BLOCK_TIMESTAMP_OVERRIDE = 0
    · rw [if_pos hz]
      by_cases hlt : b.state.slots.time b.clockSlot < b.state.lbht + 1000
      · -- clamped: the timestamp has left the slot of the clock
        rw [if_pos hlt, if_pos ⟨hz, hlt⟩, b.state.getSlot_eq ho, if_neg (by omega)]
      · rw [if_neg hlt, if_neg (fun h => hlt h.2), hback]
    · rw [if_neg hz, if_neg (fun h => hz h.1), hback]

theorem handedTurn_validates {rt : TreRuntime} {v : Turn W} {d : DposSlot W} {b : Handed W}
    (h : b ∈ handedTurn rt v d) : b.Validates rt.outOfBounds ↔ b.KeepsWitness := by
  obtain ⟨hd, hv, htime, hw⟩ := mem_handedTurn h
  unfold Handed.Validates Handed.KeepsWitness
  rw [hd, htime, Turn.getSlot_blockTime hd hv]
  by_cases hz : d.NEXT_BLOCK_TIMESTAMP_OVERRIDE = 0
  · by_cases hlt : d.slots.time b.clockSlot < d.lbht + 1000
    · have hslot : d.getSlot (v.currentTimeMillis + 50) = b.clockSlot := by
        rw [d.getSlot_eq (by omega), ← hv, ← hd]
        rfl
      rw [hslot] at hw
      obtain ⟨hpos, hidx, hw⟩ := DposSlot.getScheduledWitness_eq_ok.1 hw
      -- the later slot is not negative either
      have hle : b.clockSlot ≤ d.slots.slotOf (d.lbht + 1000) := Slots.le_slotOf (by omega)
      rw [if_pos ⟨hz, hlt⟩, DposSlot.getScheduledWitness_eq_ok]
      unfold DposSlot.SameWitness
      rw [hw]
      constructor
      · rintro ⟨-, hidx', hw'⟩
        exact .inr (.inr ⟨hidx, hidx', hw'.symm⟩)
      · rintro (hne | hge | ⟨-, hidx', hw'⟩)
        · exact absurd hz hne
        · omega
        · exact ⟨by omega, hidx', hw'.symm⟩
    · rw [if_neg (fun h => hlt h.2)]
      exact iff_of_true hw (.inr (.inl (by omega)))
  · rw [if_neg (fun h => hz h.1)]
    exact iff_of_true hw (.inl hz)

theorem mem_handedBatch {rt : TreRuntime} {vs : List (Turn W)} {d : DposSlot W} {b : Handed W}
    (h : b ∈ handedBatch rt vs d) : ∃ v d', b ∈ handedTurn rt v d' := by
  induction vs generalizing d with
  | nil => cases h
  | cons v vs ih =>
    unfold handedBatch at h
    rcases List.mem_append.1 h with h | h
    · exact ⟨v, d, Option.mem_toList.1 h⟩
    · split at h
      · exact ih h
      · cases h

theorem mem_handed {rt : TreRuntime} {t : TreMiner W} {c : TreCall W} {b : Handed W} (h : b ∈ t.handed rt c) :
    ∃ v d, b ∈ handedTurn rt v d := by
  unfold TreMiner.handed at h
  split at h
  · split at h
    · split at h
      · exact mem_handedBatch h
      · cases h
    · cases h
  · cases h

/-- **The witness of a block.** In every `tre_mine` and every state of the
chain, each block handed to `produce` is one a validator accepts the witness of,
if and only if `KeepsWitness`. -/
theorem mined_witness_iff (rt : TreRuntime) (t : TreMiner W) (c : TreCall W) :
    ∀ b ∈ t.handed rt c, b.Validates rt.outOfBounds ↔ b.KeepsWitness := by
  intro b hb
  obtain ⟨v, d, hturn⟩ := mem_handed hb
  exact handedTurn_validates hturn

/-! ## The third case -/

/-- Where no witness is listed twice, the two slots have one place in the list. -/
theorem DposSlot.sameWitness_iff {d : DposSlot W} (hd : d.consensusDelegate.activeWitnesses.Nodup)
    (hne : d.consensusDelegate.activeWitnesses ≠ []) (slot slot' : Int) :
    d.SameWitness slot slot' ↔ 0 ≤ d.scheduleIndex slot ∧ d.scheduleIndex slot = d.scheduleIndex slot' := by
  have hsize : (0 : Int) < d.consensusDelegate.activeWitnesses.length :=
    Int.natCast_pos.2 (List.length_pos_iff.2 hne)
  have hlt : d.scheduleIndex slot < d.consensusDelegate.activeWitnesses.length := Int.tmod_lt_of_pos _ hsize
  constructor
  · rintro ⟨h, h', hw⟩
    refine ⟨h, ?_⟩
    have hidx := (List.getElem?_inj (by omega) hd).1 hw
    omega
  · rintro ⟨h, heq⟩
    exact ⟨h, heq ▸ h, by rw [heq]⟩

/-- With one witness every slot has the same. -/
theorem DposSlot.sameWitness_of_single {d : DposSlot W} (h : d.consensusDelegate.activeWitnesses.length = 1)
    (slot slot' : Int) : d.SameWitness slot slot' := by
  have hidx : ∀ slot, d.scheduleIndex slot = 0 := by
    intro slot
    rw [DposSlot.scheduleIndex, h]
    exact Int.tmod_one _
  unfold DposSlot.SameWitness
  rw [hidx slot, hidx slot']
  exact ⟨le_rfl, le_rfl, rfl⟩

/-! ## Two witnesses in 1 ms slots -/

/-- A node whose clock stands at 0, with its head at 1 s. -/
def twoWitnesses (interval : Int) (h : 0 < interval) : TreMiner Nat where
  dposSlot :=
    { NEXT_BLOCK_TIMESTAMP_OVERRIDE := 0
      BLOCK_PRODUCED_INTERVAL := interval
      autoMine := false
      genesisBlockTime := 0
      consensusDelegate := ⟨1, 1000, false, 0, [0, 1]⟩
      interval_pos := h }
  isManualMining := false

def bothMine : TreCall Nat := .tre_mine none ⟨fun _ => ⟨0, fun _ => true, .pushed ⟨false, 0, [0, 1]⟩⟩, none, none⟩

/-- With slots of a second, slot 1 starts a second after the head. -/
def secondSlots : TreMiner Nat := twoWitnesses 1000 (by decide)

/-- With slots of a millisecond, it is clamped to slot 1000. -/
def millisecondSlots : TreMiner Nat := twoWitnesses 1 (by decide)

theorem mined_witness_second_slots :
    Handed.Validates plainRuntime.outOfBounds ⟨secondSlots.dposSlot, 0, 0, 2000⟩ :=
  (mined_witness_iff plainRuntime secondSlots bothMine ⟨secondSlots.dposSlot, 0, 0, 2000⟩
    (List.mem_cons_self ..)).2 (.inr (.inl (by decide)))

/-- The block is made by witness 1, and a validator expects witness 0. -/
theorem mined_by_other_witness :
    ¬ ∀ b ∈ millisecondSlots.handed plainRuntime bothMine, b.Validates plainRuntime.outOfBounds := by
  intro h
  have hv := h ⟨millisecondSlots.dposSlot, 0, 1, 2000⟩ (List.mem_cons_self ..)
  have hexpected : millisecondSlots.dposSlot.getScheduledWitness plainRuntime.outOfBounds
      (millisecondSlots.dposSlot.getSlot 2000) = .ok 0 := rfl
  rw [Handed.Validates, hexpected] at hv
  cases hv

end HardhatTron

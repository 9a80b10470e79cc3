import HardhatTron.Node.Mining
/-!
# The chain as a client sees it

What `tre_setNextBlockTimestamp` and a one-block `tre_mine` do to the height, the
head's timestamp and the override. `TreMiner.mine_refines` and
`setNextBlockTimestamp_refines` say that the node does nothing else.
-/
namespace HardhatTron

variable {W : Type}

structure Chain where
  number : Int
  timestamp : Int
  override : Int

/-- How a one-block `tre_mine` ends. `extra` is the time its block is later than it
must be. -/
inductive MineOutcome where
  | mined (extra : Nat)
  | minedThenFailed (extra : Nat) (e : RpcException)
  | failed (e : RpcException)

def MineOutcome.adds : MineOutcome → Bool
  | .failed _ => false
  | _ => true

def MineOutcome.succeeds : MineOutcome → Bool
  | .mined _ => true
  | _ => false

/-- A block at the override, or a second or more after the head; the override is gone. -/
def Chain.seal (c : Chain) (extra : Nat) : Chain where
  number := c.number + 1
  timestamp := if 0 < c.override then c.override else c.timestamp + 1000 + extra
  override := 0

theorem Chain.seal_override {c : Chain} (h : 0 < c.override) (extra : Nat) :
    c.seal extra = ⟨c.number + 1, c.override, 0⟩ := by
  unfold Chain.seal
  rw [if_pos h]

theorem Chain.seal_free {c : Chain} (h : ¬ 0 < c.override) (extra : Nat) :
    c.seal extra = ⟨c.number + 1, c.timestamp + 1000 + extra, 0⟩ := by
  unfold Chain.seal
  rw [if_neg h]

def Chain.mine (c : Chain) : MineOutcome → Except RpcException String × Chain
  | .mined extra => (.ok "0x0", c.seal extra)
  | .minedThenFailed extra e => (.error e, c.seal extra)
  | .failed e => (.error e, { c with override := 0 })

def Chain.setNextBlockTimestamp (target : Int) (c : Chain) : Except RpcException Unit × Chain :=
  if target ≤ 0 then (.error (.invalidParams "timestamp must be > 0"), c)
  else if target ≤ c.timestamp then
    (.error (.invalidParams ("timestamp must be greater than current LBHT (" ++ toString c.timestamp ++ " ms)")), c)
  else (.ok (), { c with override := target })

theorem Chain.setNextBlockTimestamp_cases (target : Int) (c : Chain) :
    (0 < target ∧ c.timestamp < target ∧ c.setNextBlockTimestamp target = (.ok (), { c with override := target })) ∨
      ∃ e, c.setNextBlockTimestamp target = (.error e, c) := by
  unfold Chain.setNextBlockTimestamp
  by_cases h0 : target ≤ 0
  · exact .inr ⟨_, if_pos h0⟩
  · rw [if_neg h0]
    by_cases hl : target ≤ c.timestamp
    · exact .inr ⟨_, if_pos hl⟩
    · exact .inl ⟨by omega, by omega, if_neg hl⟩

theorem Chain.mine_succeeds {c : Chain} {o : MineOutcome} : (∃ r, (c.mine o).1 = .ok r) ↔ o.succeeds = true := by
  cases o with
  | mined => exact ⟨fun _ => rfl, fun _ => ⟨_, rfl⟩⟩
  | minedThenFailed | failed => exact ⟨fun ⟨_, h⟩ => (by cases h), fun h => (by cases h)⟩

/-! ## The node refines it -/

def DposSlot.chain (d : DposSlot W) : Chain := ⟨d.consensusDelegate.latestBlockHeaderNumber, d.lbht,
  d.NEXT_BLOCK_TIMESTAMP_OVERRIDE⟩

theorem setNextBlockTimestamp_refines (target : Int) (d : DposSlot W) :
    (HardhatTron.setNextBlockTimestamp target d).1 = (d.chain.setNextBlockTimestamp target).1 ∧
      (HardhatTron.setNextBlockTimestamp target d).2.chain = (d.chain.setNextBlockTimestamp target).2 := by
  unfold HardhatTron.setNextBlockTimestamp Chain.setNextBlockTimestamp
  by_cases h0 : target ≤ 0
  · rw [if_pos h0, if_pos h0]
    exact ⟨rfl, rfl⟩
  · rw [if_neg h0, if_neg h0]
    by_cases hl : target ≤ d.lbht
    · rw [if_pos hl, if_pos (show target ≤ d.chain.timestamp from hl)]
      exact ⟨rfl, rfl⟩
    · rw [if_neg hl, if_neg (show ¬ target ≤ d.chain.timestamp from hl)]
      exact ⟨rfl, rfl⟩

/-- A block of the node is a block of the chain. -/
theorem push_refines {d : DposSlot W} (ho : 0 ≤ d.NEXT_BLOCK_TIMESTAMP_OVERRIDE) (v : Turn W) (next : NextHead W) :
    ∃ extra, ((d.push (v.blockTime d) next).setOverride 0).chain = d.chain.seal extra := by
  by_cases hpos : 0 < d.NEXT_BLOCK_TIMESTAMP_OVERRIDE
  · refine ⟨0, ?_⟩
    rw [Chain.seal_override (c := d.chain) hpos, Turn.blockTime_override hpos]
    rfl
  · have hz : d.NEXT_BLOCK_TIMESTAMP_OVERRIDE = 0 := by omega
    have hle := Turn.le_blockTime (v := v) hz
    refine ⟨(v.blockTime d - (d.lbht + 1000)).toNat, ?_⟩
    rw [Chain.seal_free (c := d.chain) hpos]
    have heq : d.chain.timestamp + 1000 + ((v.blockTime d - (d.lbht + 1000)).toNat : Int) = v.blockTime d := by
      show d.lbht + 1000 + ((v.blockTime d - (d.lbht + 1000)).toNat : Int) = v.blockTime d
      omega
    rw [heq]
    rfl

/-- `tre_mine []` on an idle node is one of the outcomes. -/
theorem TreMiner.mine_refines (rt : TreRuntime) (env : MineEnv W) {t : TreMiner W} (hf : t.isManualMining = false)
    (ho : 0 ≤ t.dposSlot.NEXT_BLOCK_TIMESTAMP_OVERRIDE) (hp : (TreCall.tre_mine none env).pushesOrThrows) :
    ∃ o, (t.exec rt (.tre_mine none env)).1.result = (t.dposSlot.chain.mine o).1 ∧
      (t.exec rt (.tre_mine none env)).2.dposSlot.chain = (t.dposSlot.chain.mine o).2 := by
  show ∃ o, (mineInternal rt env 1 t).1.result = (t.dposSlot.chain.mine o).1 ∧
      (mineInternal rt env 1 t).2.dposSlot.chain = (t.dposSlot.chain.mine o).2
  unfold mineInternal mineWithBudget
  simp only [show admits 1 = true from rfl, Bool.not_true, Bool.false_eq_true, if_false]
  cases rt.reflection with
  | error e => exact ⟨.failed e.toRpc, rfl, rfl⟩
  | ok =>
    simp only [hf, Bool.false_eq_true, if_false]
    cases env.setBlockWaitLock with
    | some e =>
      cases env.releaseBlockWaitLock with
      | some e' => exact ⟨.failed (Thrown.other e').toRpc, rfl, rfl⟩
      | none => exact ⟨.failed (Thrown.other e).toRpc, rfl, rfl⟩
    | none =>
      simp only [show (List.range (Int.toNat 1)).map env.turns = [env.turns 0] from rfl]
      have he := mineBlock_effect rt (env.turns 0) t.dposSlot
      generalize hr : mineBlock rt (env.turns 0) t.dposSlot = r at he
      cases he with
      | failed e =>
        rw [mineBlocks_cons_error hr]
        cases env.releaseBlockWaitLock with
        | some e' => exact ⟨.failed (Thrown.other e').toRpc, rfl, rfl⟩
        | none => exact ⟨.failed e.toRpc, rfl, rfl⟩
      | skipped h => exact (hp h).elim
      | mined next =>
        obtain ⟨extra, hc⟩ := push_refines ho (env.turns 0) next
        rw [mineBlocks_cons_ok hr]
        cases env.releaseBlockWaitLock with
        | some e' => exact ⟨.minedThenFailed extra (Thrown.other e').toRpc, rfl, hc⟩
        | none => exact ⟨.mined extra, rfl, hc⟩
      | minedThenFailed next e =>
        obtain ⟨extra, hc⟩ := push_refines ho (env.turns 0) next
        rw [mineBlocks_cons_error hr]
        cases env.releaseBlockWaitLock with
        | some e' => exact ⟨.minedThenFailed extra (Thrown.other e').toRpc, rfl, hc⟩
        | none => exact ⟨.minedThenFailed extra e.toRpc, rfl, hc⟩

end HardhatTron

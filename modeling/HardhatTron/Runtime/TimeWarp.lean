import HardhatTron.Runtime.TimeFaults
/-!
# Warps to a whole second

`time.increase` and `time.increaseTo` count in seconds, the node in milliseconds.
`warps_exact`: with every request executed once, `increase` by a second or more is
accepted and lands on the second it returns, and `increaseTo` is accepted exactly
for a later second than the head's, wherever in its second the head is.
-/
namespace HardhatTron

open Lib

variable {W : Type}

/-! ## `increaseTo` -/

def TimeError.message : TimeError → String
  | .error m => m
  | .fetch e => e.message

/-- `/setNextBlockTimestamp/.test(e.message)` -/
def TimeError.namesSetNext (e : TimeError) : Bool :=
  decide ("setNextBlockTimestamp".toList <:+: e.message.toList)

/-- The error of `increaseTo`: a rejected warp is explained by the head's second, if
the head can be read. -/
def explained (rt : TimeRuntime) (currentBlock : Option FetchError) (targetTs : Int) (c : Chain) (e : TimeError) :
    TimeError :=
  if e.namesSetNext then
    match latest currentBlock c with
    | .error _ => e
    | .ok startTs =>
      if targetTs ≤ startTs then
        .error ("increaseTo: target " ++ rt.numberString targetTs ++ " must be greater than current " ++
          rt.numberString startTs)
      else e
  else e

def increaseTo (rt : TimeRuntime) (env : IncreaseEnv) (target : Numeric) (s : TimeState) :
    Except TimeError Unit × TimeState :=
  match target.integer with
  | none => (.error (.error ("increaseTo: invalid target " ++ target.text)), s)
  | some z =>
    let targetTs := jsNumber z
    match _supportsInstantWarp env.version s with
    | (false, s) => (.error (.error requiresPatchedJar), s)
    | (true, s) =>
      match _warpAndMine rt env.setNext env.mine targetTs s.chain with
      | (.ok (), c) => (.ok (), { s with chain := c })
      | (.error e, c) => (.error (explained rt env.currentBlock targetTs c e), { s with chain := c })

/-! ## A node that answers -/

/-- Every request is executed once and answered, and block production succeeds. -/
structure IncreaseEnv.Delivered (env : IncreaseEnv) : Prop where
  version : env.version.executedOnce = true
  currentBlock : env.currentBlock = none
  setNext : env.setNext.executedOnce = true
  mine : env.mine.attempts.executedOnce = true
  produces : env.mine.first.succeeds = true

/-- The node reads the numerals of integers below `2 ^ 53` as the numbers they are;
it may refuse a negative one. -/
structure TimeRuntime.ReadsNumerals (rt : TimeRuntime) : Prop where
  nonneg : ∀ n : Int, 0 ≤ n → n < 2 ^ 53 → rt.decodeLong (rt.numberString n) = .ok n
  neg : ∀ n : Int, n < 0 → -2 ^ 53 < n → ∀ m, rt.decodeLong (rt.numberString n) = .ok m → m = n

theorem Attempts.executedOnce_iff {a : Attempts} :
    a.executedOnce = true ↔ a.last = .answered ∧ a.executedThenRetried = false := by
  simp [Attempts.executedOnce]

theorem jsNumber_of_lt {z : Int} (hlo : -2 ^ 53 < z) (hhi : z < 2 ^ 53) : jsNumber z = z := by
  unfold jsNumber
  split <;> rw [toDouble_of_le (by omega)] <;> omega

section
variable {rt : TimeRuntime} {env : IncreaseEnv} {s : TimeState}

/-- A `tre_mine` that is executed once and succeeds seals one block at the override. -/
theorem IncreaseEnv.Delivered.mined (hd : env.Delivered) {c : Chain} (h0 : 0 < c.override) :
    env.mine.resolves = true ∧ (env.mine.rpcCall c).2 = ⟨c.number + 1, c.override, 0⟩ := by
  obtain ⟨hlast, honce⟩ := Attempts.executedOnce_iff.1 hd.mine
  have hfirst : env.mine.lastOutcome = env.mine.first := by
    unfold MineCall.lastOutcome MineCall.lost
    rw [honce]
    rfl
  have hres : env.mine.resolves = true := by
    unfold MineCall.resolves
    rw [hlast, hfirst, hd.produces]
    rfl
  obtain ⟨extra, hm⟩ := MineOutcome.mined_of_succeeds hd.produces
  have hbefore : env.mine.before c = c := by
    unfold MineCall.before MineCall.lost
    rw [honce]
    rfl
  refine ⟨hres, ?_⟩
  rw [(env.mine.rpcCall_resolves hres c).1, hbefore, hfirst, hm]
  exact Chain.seal_override h0 extra

/-- A warp to a later second than the head's is accepted and sealed. -/
theorem IncreaseEnv.Delivered.warped (hd : env.Delivered) (hr : rt.ReadsNumerals) {c : Chain} (hc : 0 ≤ c.timestamp)
    {t : Int} (hlt : c.timestamp / 1000 < t) (ht : 1000 * t < 2 ^ 53) :
    _warpAndMine rt env.setNext env.mine t c = (.ok (), ⟨c.number + 1, 1000 * t, 0⟩) := by
  have hms : jsNumber (t * 1000) = 1000 * t := by
    rw [jsNumber_of_lt (by omega) (by omega), Int.mul_comm]
  obtain ⟨hres, hsealed⟩ := hd.mined (show 0 < ({ c with override := 1000 * t } : Chain).override by
    show 0 < 1000 * t
    omega)
  rw [_warpAndMine_ok]
  refine ⟨(Attempts.executedOnce_iff.1 hd.setNext).1, hres, 1000 * t, ?_, by omega, by omega, hsealed.symm⟩
  rw [hms]
  exact hr.nonneg _ (by omega) ht

/-- Any other is refused, and nothing has changed. -/
theorem IncreaseEnv.Delivered.refused (hd : env.Delivered) (hr : rt.ReadsNumerals) {c : Chain} {t : Int}
    (hle : t ≤ c.timestamp / 1000) (hlo : -2 ^ 53 < 1000 * t) (hhi : 1000 * t < 2 ^ 53) :
    ∃ e, _warpAndMine rt env.setNext env.mine t c = (.error e, c) := by
  have hms : jsNumber (t * 1000) = 1000 * t := by
    rw [jsNumber_of_lt (by omega) (by omega), Int.mul_comm]
  have hset : ∃ e, treSetNextBlockTimestamp rt (rt.numberString (1000 * t)) c = (.error e, c) := by
    unfold treSetNextBlockTimestamp
    cases hread : rt.decodeLong (rt.numberString (1000 * t)) with
    | error e => exact ⟨e, rfl⟩
    | ok m =>
      have hm : m = 1000 * t := by
        rcases lt_or_ge (1000 * t) 0 with hneg | hnonneg
        · exact hr.neg _ hneg hlo m hread
        · rw [hr.nonneg _ hnonneg hhi] at hread
          exact (Except.ok.inj hread).symm
      dsimp only
      rcases Chain.setNextBlockTimestamp_cases m c with ⟨-, hgt, -⟩ | ⟨e, he⟩
      · omega
      · exact ⟨e, he⟩
  obtain ⟨e, he⟩ := hset
  refine ⟨.error ("tre_setNextBlockTimestamp failed: " ++ rt.errorJson e), ?_⟩
  unfold _warpAndMine
  dsimp only
  rw [hms, rpcCall_executedOnce hd.setNext, he]

/-- A node that is patched answers the probe so. -/
theorem IncreaseEnv.Delivered.supports (hd : env.Delivered) (hs : s._instantWarpSupported ≠ some false) :
    (_supportsInstantWarp env.version s).1 = true := by
  unfold _supportsInstantWarp
  split
  · rename_i b hb
    cases b with
    | false => exact absurd hb hs
    | true => rfl
  · rw [(Attempts.executedOnce_iff.1 hd.version).1]
    rfl

/-- **Warps to a whole second.** The head is at `s.chain.timestamp` milliseconds; `d` and
`t` are in seconds. -/
theorem warps_exact (hr : rt.ReadsNumerals) (hd : env.Delivered) (hs : s._instantWarpSupported ≠ some false)
    (h0 : 0 ≤ s.chain.timestamp) (hlt : s.chain.timestamp < 2 ^ 53) :
    (∀ (seconds : Numeric) (d : Int), seconds.integer = some d → 1 ≤ d → 1000 * (s.chain.timestamp / 1000 + d) < 2 ^ 53 →
      ∃ s', increase rt env seconds s = (.ok (s.chain.timestamp / 1000 + d), s') ∧
        s'.chain = ⟨s.chain.number + 1, 1000 * (s.chain.timestamp / 1000 + d), 0⟩) ∧
    ∀ (target : Numeric) (t : Int), target.integer = some t → -2 ^ 53 < 1000 * t → 1000 * t < 2 ^ 53 →
      if s.chain.timestamp / 1000 < t then
        ∃ s', increaseTo rt env target s = (.ok (), s') ∧ s'.chain = ⟨s.chain.number + 1, 1000 * t, 0⟩
      else ∃ e s', increaseTo rt env target s = (.error e, s') ∧ s'.chain = s.chain := by
  have hsupports := hd.supports hs
  constructor
  · intro seconds d hsec hd1 hbound
    have hnum : jsNumber d = d := jsNumber_of_lt (by omega) (by omega)
    have htarget : s.chain.timestamp / 1000 + d =
        jsNumber (jsNumber s.chain.timestamp / 1000 + jsNumber d) := by
      rw [hnum, jsNumber_of_lt (by omega) hlt, jsNumber_of_lt (by omega) (by omega)]
    exact (increase_ok hsec (by omega)).2 ⟨hsupports, hd.currentBlock, htarget, hd.warped hr h0 (by omega) hbound⟩
  · intro target t hint hlo hhi
    have hnum : jsNumber t = t := jsNumber_of_lt (by omega) (by omega)
    have hchain := _supportsInstantWarp_chain env.version s
    unfold increaseTo
    simp only [hint, hnum]
    generalize _supportsInstantWarp env.version s = r at hsupports hchain
    obtain ⟨b, s₁⟩ := r
    cases hsupports
    dsimp only at hchain ⊢
    rw [hchain]
    split
    · rename_i hlater
      rw [hd.warped hr h0 hlater hhi]
      exact ⟨_, rfl, rfl⟩
    · rename_i hearlier
      obtain ⟨e, he⟩ := hd.refused hr (c := s.chain) (by omega) hlo hhi
      rw [he]
      exact ⟨_, _, rfl, rfl⟩

end

/-! ## Half a second past a second -/

/-- Decimal numerals; the node refuses a sign. -/
def decimalNumerals : TimeRuntime where
  numberString := fun n => String.ofList (if n < 0 then '-' :: Nat.toDigits 10 n.natAbs else Nat.toDigits 10 n.natAbs)
  errorJson := RpcException.message
  decodeLong := fun p => if p.toList.head? = some '-' then .error (.invalidParams p)
    else .ok (Nat.ofDigitChars 10 p.toList 0)

theorem head?_toDigits_ne (n : Nat) : (Nat.toDigits 10 n).head? ≠ some '-' := by
  intro h
  have hdigit := Nat.isDigit_of_mem_toDigits (by decide) (by decide) (List.mem_of_mem_head? h)
  cases hdigit

theorem decimalNumerals_readsNumerals : decimalNumerals.ReadsNumerals where
  nonneg := by
    intro n hn _
    simp only [decimalNumerals, if_neg (show ¬ n < 0 by omega), String.toList_ofList,
      if_neg (head?_toDigits_ne n.natAbs), Nat.ofDigitChars_ten_toDigits]
    congr 1
    omega
  neg := by
    intro n hn _ m hm
    simp only [decimalNumerals, if_pos hn, String.toList_ofList, List.head?_cons, if_true] at hm
    cases hm

/-- Every request is answered, and the block is mined. -/
def allDelivered : IncreaseEnv :=
  ⟨.allAnswered, none, .allAnswered, ⟨.allAnswered, .mined 0, .mined 0⟩⟩

theorem allDelivered_delivered : allDelivered.Delivered := ⟨rfl, rfl, rfl, rfl, rfl⟩

/-- `warps_exact` from 1.5 s: one second more is 2 s, and to 1 s is refused. -/
theorem warps_exact_half_second :
    (∃ s', increase decimalNumerals allDelivered ⟨"1", some 1⟩ ⟨⟨1, 1500, 0⟩, none⟩ = (.ok 2, s') ∧
      s'.chain = ⟨2, 2000, 0⟩) ∧
      (∃ s', increaseTo decimalNumerals allDelivered ⟨"2", some 2⟩ ⟨⟨1, 1500, 0⟩, none⟩ = (.ok (), s') ∧
        s'.chain = ⟨2, 2000, 0⟩) ∧
      ∃ e s', increaseTo decimalNumerals allDelivered ⟨"1", some 1⟩ ⟨⟨1, 1500, 0⟩, none⟩ = (.error e, s') ∧
        s'.chain = ⟨1, 1500, 0⟩ := by
  obtain ⟨hinc, hto⟩ :=
    warps_exact (s := ⟨⟨1, 1500, 0⟩, none⟩) decimalNumerals_readsNumerals allDelivered_delivered (by simp)
      (by decide) (by decide)
  exact ⟨hinc ⟨"1", some 1⟩ 1 rfl (by decide) (by decide), hto ⟨"2", some 2⟩ 2 rfl (by decide) (by decide),
    hto ⟨"1", some 1⟩ 1 rfl (by decide) (by decide)⟩

/-! ## The node under the chain -/

/-- A node that accepts a timestamp and then answers `tre_mine` has sealed a block at
exactly that timestamp, whatever its slots, its witnesses and its clock. -/
theorem TreMiner.warp (rt : TreRuntime) (env : MineEnv W) {t t₁ : TreMiner W} (hf : t.isManualMining = false)
    {target : Int} (h0 : 0 < target) (hlt : t.dposSlot.lbht < target)
    (hp : (TreCall.tre_mine none env).pushesOrThrows) (ht₁ : t₁ = { t with dposSlot := t.dposSlot.setOverride target })
    {r : String} (hok : (t₁.exec rt (.tre_mine none env)).1.result = .ok r) :
    setNextBlockTimestamp target t.dposSlot = (.ok (), t₁.dposSlot) ∧
      (t₁.exec rt (.tre_mine none env)).2.dposSlot.chain =
        ⟨t.dposSlot.consensusDelegate.latestBlockHeaderNumber + 1, target, 0⟩ := by
  subst ht₁
  constructor
  · unfold setNextBlockTimestamp
    rw [if_neg (by omega), if_neg (by omega)]
  · obtain ⟨o, hres, hchain⟩ := TreMiner.mine_refines rt env (t := { t with dposSlot := t.dposSlot.setOverride target })
      hf h0.le hp
    rw [hchain]
    have hsucceeds : o.succeeds = true := Chain.mine_succeeds.1 ⟨r, hres.symm.trans hok⟩
    obtain ⟨extra, rfl⟩ := MineOutcome.mined_of_succeeds hsucceeds
    exact Chain.seal_override h0 extra

end HardhatTron

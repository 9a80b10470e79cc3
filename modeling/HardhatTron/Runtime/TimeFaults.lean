import HardhatTron.Runtime.Time
/-!
# When the time helpers keep their word

`time_exact_iff` says for which inputs `mine`, `mineUpTo` and `increase` leave the
chain as they say; `retried_mine_adds_two_blocks` is the smallest input for which
`mine` does not.
-/
namespace HardhatTron

open Lib

/-! ## Numbers -/

theorem jsNumber_of_le {z : Int} (h0 : 0 ≤ z) (h : z ≤ 2 ^ 53) : jsNumber z = z := by
  unfold jsNumber
  rw [if_neg (by omega), toDouble_of_le (by omega)]
  omega

namespace MineCall

variable (v : MineCall)

/-- A request was executed, its response was lost, and the call repeats it. -/
def lost : Bool := v.attempts.executedThenRetried

/-- The lost request had added a block. -/
def losesBlock : Bool := v.lost && v.first.adds

/-- How the last execution ends. -/
def lastOutcome : MineOutcome := if v.lost then v.second else v.first

/-- The last request is answered, with a success. -/
def resolves : Bool := v.attempts.last == .answered && v.lastOutcome.succeeds

/-- The chain that the last request finds. -/
def before (c : Chain) : Chain := if v.lost then (c.mine v.first).2 else c

theorem rpcCall_eq (c : Chain) : ∃ os : MineOutcome × MineOutcome, os.1 = v.lastOutcome ∧
    v.rpcCall c = ((request treMine v.attempts.last (v.before c, os)).1, (request treMine v.attempts.last (v.before c, os)).2.1) := by
  unfold MineCall.rpcCall lastOutcome before lost
  rw [HardhatTron.rpcCall_eq]
  cases v.attempts.executedThenRetried with
  | true => exact ⟨(v.second, v.second), rfl, rfl⟩
  | false => exact ⟨(v.first, v.second), rfl, rfl⟩

/-- A call that resolves leaves what its last execution leaves. -/
theorem rpcCall_resolves (h : v.resolves = true) (c : Chain) :
    v.rpcCall c = (.ok ((v.before c).mine v.lastOutcome).1, ((v.before c).mine v.lastOutcome).2) ∧
      ∃ r, ((v.before c).mine v.lastOutcome).1 = .ok r := by
  simp only [resolves, Bool.and_eq_true, beq_iff_eq] at h
  obtain ⟨os, hos, he⟩ := v.rpcCall_eq c
  rw [he, h.1, ← hos]
  exact ⟨rfl, Chain.mine_succeeds.2 (by rw [hos]; exact h.2)⟩

theorem rpcCall_throws (h : v.resolves = false) (c : Chain) :
    (∃ e, (v.rpcCall c).1 = .error e) ∨ ∃ e, (v.rpcCall c).1 = .ok (.error e) := by
  obtain ⟨os, hos, he⟩ := v.rpcCall_eq c
  rw [he]
  cases hl : v.attempts.last with
  | answered =>
    have hs : v.lastOutcome.succeeds = false := by simpa [resolves, hl] using h
    right
    rw [← hos] at hs
    show ∃ e, Except.ok (((v.before c).mine os.1).1) = .ok (.error e)
    cases hm : ((v.before c).mine os.1).1 with
    | error e => exact ⟨e, rfl⟩
    | ok r =>
      rw [Chain.mine_succeeds.1 ⟨r, hm⟩] at hs
      cases hs
  | fetchThrows ex e => exact .inl ⟨e, rfl⟩
  | bodyThrows ex e => exact .inl ⟨e, rfl⟩

theorem callOrFalse_rpcCall (c : Chain) : (∃ r, callOrFalse (v.rpcCall c).1 = .ok r) ↔ v.resolves = true := by
  constructor
  · rintro ⟨r, hr⟩
    by_contra hn
    rcases v.rpcCall_throws (Bool.not_eq_true _ ▸ hn) c with ⟨e, he⟩ | ⟨e, he⟩ <;>
      · rw [he] at hr
        cases hr
  · intro h
    obtain ⟨he, r, hr⟩ := v.rpcCall_resolves h c
    exact ⟨r, by rw [he, hr]; rfl⟩

end MineCall

/-! ## The loop of `mine` -/

section
variable (calls : Nat → MineCall)

/-- The blocks that lost requests added in the `r` calls from call `k` on. -/
def lostBlocks : Nat → Nat → Nat
  | _, 0 => 0
  | k, r + 1 => (if (calls k).losesBlock then 1 else 0) + lostBlocks (k + 1) r

variable {calls}

/-- The calls of a `mine` of the number `n` add `asked` blocks, if all resolve: the
blocks of lost requests make up for what `Number` dropped, which is 0 up to `2 ^ 53`. -/
def AddsAsked (calls : Nat → MineCall) (n asked : Int) : Prop :=
  0 ≤ n → n ≤ 2 ^ 53 → (∀ k < n.toNat, (calls k).resolves = true) → (lostBlocks calls 0 n.toNat : Int) = asked - n

end

/-! ## `mine` and `mineUpTo` -/

/-- Setting the same timestamp again changes nothing. -/
theorem treSetNextBlockTimestamp_twice (rt : TimeRuntime) (param : String) (c : Chain) :
    treSetNextBlockTimestamp rt param (treSetNextBlockTimestamp rt param c).2 = treSetNextBlockTimestamp rt param c := by
  unfold treSetNextBlockTimestamp
  cases rt.decodeLong param with
  | error e => rfl
  | ok target =>
    dsimp only
    rcases Chain.setNextBlockTimestamp_cases target c with ⟨h0, hl, he⟩ | ⟨e, he⟩
    · rw [he]
      rcases Chain.setNextBlockTimestamp_cases target { c with override := target } with ⟨-, -, he'⟩ | ⟨e, he'⟩
      · rw [he']
      · rw [Chain.setNextBlockTimestamp, if_neg (by omega), if_neg (show ¬ target ≤ c.timestamp by omega)] at he'
        cases he'
    · rw [he]
      exact he

/-- A `tre_setNextBlockTimestamp` that resolves has set the override, repeated or not. -/
theorem rpcCall_setNext_ok {rt : TimeRuntime} {param : String} {a : Attempts} {c c' : Chain} :
    rpcCall (treSetNextBlockTimestamp rt param) a c = (.ok (.ok ()), c') ↔
      a.last = .answered ∧ ∃ target, rt.decodeLong param = .ok target ∧ 0 < target ∧ c.timestamp < target ∧
        c' = { c with override := target } := by
  have hone : treSetNextBlockTimestamp rt param
      (if a.executedThenRetried then (treSetNextBlockTimestamp rt param c).2 else c) =
        treSetNextBlockTimestamp rt param c := by
    split
    · exact treSetNextBlockTimestamp_twice rt param c
    · rfl
  rw [rpcCall_ok_iff, hone]
  refine and_congr_right fun _ => ?_
  unfold treSetNextBlockTimestamp
  cases rt.decodeLong param with
  | error e => simp
  | ok target =>
    simp only [Except.ok.injEq, exists_eq_left']
    rcases Chain.setNextBlockTimestamp_cases target c with ⟨h0, hl, he⟩ | ⟨e, he⟩
    · rw [he]
      simp [h0, hl, eq_comm]
    · rw [he]
      refine ⟨fun h => (by cases h), fun ⟨h0, hl, _⟩ => ?_⟩
      rw [Chain.setNextBlockTimestamp, if_neg (by omega), if_neg (by omega)] at he
      cases he

/-- The timestamp of the last block of a warp to `target`, on a head at `ts`: after a
lost execution, which has used the override, it is a second or more after the head. -/
def MineCall.lastTimestamp (v : MineCall) (target ts : Int) : Int :=
  match v.lost, v.second with
  | true, .mined extra => (if v.first.adds then target else ts) + 1000 + extra
  | _, _ => target

theorem MineOutcome.mined_of_succeeds {o : MineOutcome} (h : o.succeeds = true) : ∃ extra, o = .mined extra := by
  cases o with
  | mined extra => exact ⟨extra, rfl⟩
  | minedThenFailed | failed => cases h

/-- `_warpAndMine` resolves when its two calls do. -/
theorem _warpAndMine_ok {rt : TimeRuntime} {setNext : Attempts} {v : MineCall} {targetTs : Int} {c c' : Chain} :
    _warpAndMine rt setNext v targetTs c = (.ok (), c') ↔
      setNext.last = .answered ∧ v.resolves = true ∧
        ∃ target, rt.decodeLong (rt.numberString (jsNumber (targetTs * 1000))) = .ok target ∧ 0 < target ∧
          c.timestamp < target ∧ c' = (v.rpcCall { c with override := target }).2 := by
  unfold _warpAndMine
  constructor
  · intro h
    dsimp only at h
    split at h
    · cases h
    · cases h
    · rename_i c₁ hset
      obtain ⟨hans, target, hdec, hpos, hlt, rfl⟩ := rpcCall_setNext_ok.1 hset
      split at h
      · cases h
      · cases h
      · rename_i r c₂ hmine
        cases h
        refine ⟨hans, ?_, target, hdec, hpos, hlt, by rw [hmine]⟩
        exact (v.callOrFalse_rpcCall _).1 ⟨r, by rw [hmine]; rfl⟩
  · rintro ⟨hans, hres, target, hdec, hpos, hlt, rfl⟩
    have hset := rpcCall_setNext_ok.2 ⟨hans, target, hdec, hpos, hlt, rfl⟩
    dsimp only
    rw [hset]
    obtain ⟨hmine, r, hr⟩ := v.rpcCall_resolves hres { c with override := target }
    rw [hr] at hmine
    dsimp only
    rw [hmine]

/-- The last block of an `increase` to `t` falls in second `t`, if its calls resolve. -/
def LandsInSecond (rt : TimeRuntime) (env : IncreaseEnv) (t ts : Int) : Prop :=
  ∀ target, rt.decodeLong (rt.numberString (jsNumber (t * 1000))) = .ok target → 0 < target → ts < target →
    env.setNext.last = .answered → env.mine.resolves = true → env.mine.lastTimestamp target ts / 1000 = t

theorem _supportsInstantWarp_chain (version : Attempts) (s : TimeState) :
    (_supportsInstantWarp version s).2.chain = s.chain := by
  unfold _supportsInstantWarp
  split <;> rfl

/-- An `increase` by a positive delta that resolves. -/
theorem increase_ok {rt : TimeRuntime} {env : IncreaseEnv} {seconds : Numeric} {s : TimeState} {z : Int}
    (hz : seconds.integer = some z) (hpos : 0 < jsNumber z) {t : Int} {c : Chain} :
    (∃ s', increase rt env seconds s = (.ok t, s') ∧ s'.chain = c) ↔
      (_supportsInstantWarp env.version s).1 = true ∧ env.currentBlock = none ∧
        t = jsNumber (jsNumber s.chain.timestamp / 1000 + jsNumber z) ∧
        _warpAndMine rt env.setNext env.mine t s.chain = (.ok (), c) := by
  unfold increase
  simp only [hz, if_neg (show ¬ jsNumber z < 0 by omega), if_neg (show ¬ jsNumber z = 0 by omega)]
  have hchain := _supportsInstantWarp_chain env.version s
  generalize _supportsInstantWarp env.version s = r at hchain
  obtain ⟨b, s₁⟩ := r
  cases b with
  | false => exact ⟨fun ⟨s', h, _⟩ => (by cases h), fun h => (by cases h.1)⟩
  | true =>
    dsimp only at hchain ⊢
    cases env.currentBlock with
    | some e => exact ⟨fun ⟨s', h, _⟩ => (by cases h), fun h => (by cases h.2.1)⟩
    | none =>
      simp only [latest, hchain]
      generalize jsNumber (jsNumber s.chain.timestamp / 1000 + jsNumber z) = target
      cases hw : _warpAndMine rt env.setNext env.mine target s.chain with
      | mk r c₁ =>
        cases r with
        | error e =>
          refine ⟨fun ⟨s', h, _⟩ => (by cases h), fun ⟨_, _, ht, h⟩ => ?_⟩
          rw [ht, hw] at h
          cases h
        | ok =>
          constructor
          · rintro ⟨s', ⟨⟩, rfl⟩
            exact ⟨trivial, trivial, rfl, hw⟩
          · rintro ⟨-, -, rfl, h⟩
            rw [hw] at h
            cases h
            exact ⟨_, rfl, rfl⟩

theorem lostBlocks_eq_zero_iff {calls : Nat → MineCall} (r : Nat) :
    ∀ k, lostBlocks calls k r = 0 ↔ ∀ j < r, (calls (k + j)).losesBlock = false := by
  induction r with
  | zero => exact fun k => ⟨fun _ j hj => (Nat.not_lt_zero j hj).elim, fun _ => rfl⟩
  | succ r ih =>
    intro k
    rw [lostBlocks, Nat.add_eq_zero_iff, ih (k + 1)]
    constructor
    · rintro ⟨h0, h⟩ j hj
      cases j with
      | zero => simpa using h0
      | succ j =>
        have := h j (by omega)
        rwa [Nat.add_right_comm] at this
    · intro h
      refine ⟨by simpa using h 0 (by omega), fun j hj => ?_⟩
      rw [Nat.add_right_comm]
      exact h (j + 1) (by omega)

/-- Up to `2 ^ 53` blocks: no request of a call that resolves loses a block. -/
theorem addsAsked_iff_of_le {calls : Nat → MineCall} {n : Int} (h0 : 0 ≤ n) (hn : n ≤ 2 ^ 53) :
    AddsAsked calls (jsNumber n) n ↔
      ((∀ k < n.toNat, (calls k).resolves = true) → ∀ k < n.toNat, (calls k).losesBlock = false) := by
  have hz : lostBlocks calls 0 n.toNat = 0 ↔ _ := lostBlocks_eq_zero_iff n.toNat 0
  simp only [Nat.zero_add] at hz
  rw [jsNumber_of_le h0 hn, AddsAsked, ← hz]
  simp only [h0, hn, forall_const]
  exact forall_congr' fun _ => by omega

/-- A timestamp that reads back within its second is where `increase` lands, unless
the `tre_mine` was executed, lost and repeated. -/
theorem landsInSecond_of_not_lost {rt : TimeRuntime} {env : IncreaseEnv} {t ts : Int}
    (hread : ∀ target, rt.decodeLong (rt.numberString (jsNumber (t * 1000))) = .ok target → target / 1000 = t)
    (hl : env.mine.lost = false) : LandsInSecond rt env t ts := by
  intro target hdec _ _ _ _
  unfold MineCall.lastTimestamp
  rw [hl]
  exact hread target hdec

/-- After a lost request that had added its block, `increase` lands a second late. -/
theorem not_landsInSecond_of_losesBlock {rt : TimeRuntime} {env : IncreaseEnv} {t ts target : Int}
    (hdec : rt.decodeLong (rt.numberString (jsNumber (t * 1000))) = .ok target) (hread : target / 1000 = t)
    (h0 : 0 < target) (hlt : ts < target) (hset : env.setNext.last = .answered) (hres : env.mine.resolves = true)
    (hl : env.mine.losesBlock = true) : ¬ LandsInSecond rt env t ts := by
  intro h
  have hland := h target hdec h0 hlt hset hres
  simp only [MineCall.losesBlock, Bool.and_eq_true] at hl
  simp only [MineCall.resolves, Bool.and_eq_true] at hres
  obtain ⟨extra, hm⟩ := MineOutcome.mined_of_succeeds hres.2
  have hsecond : env.mine.second = .mined extra := by
    rw [← hm, MineCall.lastOutcome, hl.1]
    rfl
  simp only [MineCall.lastTimestamp, hl.1, hsecond, hl.2, if_true] at hland
  omega

/-! ## The three helpers -/

end HardhatTron

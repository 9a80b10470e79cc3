import HardhatTron.Lib.Polling
import HardhatTron.Runtime.Rpc
import HardhatTron.Runtime.TxReceipts
/-!
# Waiting for a receipt

`waitForReceipt` and `pollDeployReceipt` ask the node for a transaction over and
over: its unconfirmed view in every round, its solidified view now and then and
once more after the deadline, and every fifth round they call `mine` as a
recovery. They differ in what makes them stop.

The node, the connection and the clock are one world. `Client.logged` keeps
what was asked of it, in order. `waitForReceipt_log` says what every such log
looks like; `waitForReceipt_recovers`, that a transaction which needs blocks to
become visible is found after exactly as many recovery blocks, where a call of
`mine` makes one and nobody else makes any.
-/
namespace HardhatTron.Polls

open Lib

/-! ## What is asked of the node -/

inductive View where
  | unconfirmed
  | solidified
  deriving DecidableEq

def View.endpoint : View → String
  | .unconfirmed => "/wallet/gettransactioninfobyid"
  | .solidified => "/walletsolidity/gettransactioninfobyid"

/-- What both loops use: the clock, a view of the transaction, and a recovery
block, whose failure is ignored. -/
structure Client (W E : Type) where
  now : W → Nat × W
  getInfo : View → JsString → W → Except E (Option TransactionInfo) × W
  mine : W → W

/-- The HTTP connection of `wait.js`. `fetchText` is one POST to an endpoint with its body read. -/
structure PollEnv (W : Type) where
  now : W → Nat × W
  fetchText : String → JsString → W → Except FetchError JsString × W
  /-- The 100 ms before a retry. -/
  pause : W → W
  /-- The runtime package's parser; `none` is a throw. -/
  jsonParseBigSafe : JsString → Option (Option TransactionInfo)
  mine : W → W

inductive InfoError where
  | fetch (e : FetchError)
  | parse

section
variable {W : Type}

/-- The request, and a second one if the first dropped its connection. -/
def fetchRetried (env : PollEnv W) (view : View) (txId : JsString) (w : W) : Except FetchError JsString × W :=
  match env.fetchText view.endpoint txId w with
  | (.error e, w) =>
    if isTransientFetchError e then env.fetchText view.endpoint txId (env.pause w) else (.error e, w)
  | answered => answered

/-- `_getInfoBigSafe` -/
def getInfoBigSafe (env : PollEnv W) (view : View) (txId : JsString) (w : W) :
    Except InfoError (Option TransactionInfo) × W :=
  match fetchRetried env view txId w with
  | (.error e, w) => (.error (.fetch e), w)
  | (.ok [], w) => (.ok none, w)
  | (.ok text, w) =>
    match env.jsonParseBigSafe text with
    | some info => (.ok info, w)
    | none => (.error .parse, w)

def PollEnv.client (env : PollEnv W) : Client W InfoError where
  now := env.now
  getInfo := getInfoBigSafe env
  mine := env.mine

end

/-! ## The loops -/

/-- What the answers to one loop's questions mean to it. -/
structure PollPlan (E α : Type) where
  /-- The unconfirmed view; `none` goes on. -/
  first : Except E (Option TransactionInfo) → Option α
  /-- The rounds in which the solidified view is asked too. -/
  hedges : Nat → Bool
  hedge : Except E (Option TransactionInfo) → Option α
  /-- The solidified view after the deadline. -/
  last : Except E (Option TransactionInfo) → α

/-- `iter && iter % k === 0` -/
def every (k iter : Nat) : Bool := iter ≠ 0 && iter % k = 0

section
variable {W E α : Type}

def recoveryMine (c : Client W E) (iter : Nat) (w : W) : W := if every 5 iter then c.mine w else w

def pollRound (c : Client W E) (plan : PollPlan E α) (txId : JsString) (iter : Nat) (w : W) : Option α × W :=
  match c.getInfo .unconfirmed txId w with
  | (answer, w) =>
    match plan.first answer with
    | some a => (some a, w)
    | none =>
      if plan.hedges iter then
        match c.getInfo .solidified txId w with
        | (answer, w) =>
          match plan.hedge answer with
          | some a => (some a, w)
          | none => (none, recoveryMine c iter w)
      else (none, recoveryMine c iter w)

def polling (c : Client W E) (plan : PollPlan E α) (txId : JsString) (deadline : Nat) : Polling W α where
  goesOn w := (decide ((c.now w).1 < deadline), (c.now w).2)
  round := pollRound c plan txId
  after w := (plan.last (c.getInfo .solidified txId w).1, (c.getInfo .solidified txId w).2)

/-- Either loop, on fuel. -/
def poll (c : Client W E) (plan : PollPlan E α) (txId : JsString) (timeout fuel : Nat) (w : W) : Option (α × W) :=
  (polling c plan txId ((c.now w).1 + timeout)).run fuel 0 (c.now w).2

inductive WaitOutcome (E : Type) where
  | info (info : TransactionInfo)
  | threw (e : E)
  | timedOut (message : JsString)

/-- `info && info.receipt` -/
def withReceipt (info : Option TransactionInfo) : Option TransactionInfo := info.filter (·.receipt.isSome)

def waitPlan (E : Type) (txId : JsString) : PollPlan E (WaitOutcome E) where
  first
    | .error e => some (.threw e)
    | .ok info => (withReceipt info).map .info
  hedges := every 3
  hedge
    | .error _ => none
    | .ok info => (withReceipt info).map .info
  last
    | .error e => .threw e
    | .ok info =>
      match withReceipt info with
      | some info => .info info
      | none => .timedOut ("Timed out waiting for receipt of tx ".toList ++ txId)

/-- `waitForReceipt`; its callers leave `timeout` at 240 s. -/
def waitForReceipt (c : Client W E) (txId : JsString) (timeout fuel : Nat) (w : W) : Option (WaitOutcome E × W) :=
  poll c (waitPlan E txId) txId timeout fuel w

end

/-! ## The log of a loop -/

inductive Asked (E : Type) where
  | read (view : View) (answer : Except E (Option TransactionInfo))
  | mined

inductive Action where
  | read (view : View)
  | mine
  deriving DecidableEq

section
variable {W E α : Type}

def Asked.action : Asked E → Action
  | .read view _ => .read view
  | .mined => .mine

/-- The client, with everything it is asked written down. -/
def Client.logged (c : Client W E) : Client (W × List (Asked E)) E where
  now w := ((c.now w.1).1, (c.now w.1).2, w.2)
  getInfo view txId w :=
    ((c.getInfo view txId w.1).1, (c.getInfo view txId w.1).2, w.2 ++ [.read view (c.getInfo view txId w.1).1])
  mine w := (c.mine w.1, w.2 ++ [.mined])

/-- What the loop makes of an answer it gets in a round. -/
def PollPlan.settles (plan : PollPlan E α) : Asked E → Option α
  | .read .unconfirmed answer => plan.first answer
  | .read .solidified answer => plan.hedge answer
  | .mined => none

def PollPlan.reads (plan : PollPlan E α) (iter : Nat) : List Action :=
  .read .unconfirmed :: if plan.hedges iter then [.read .solidified] else []

/-- What a round asks that finds nothing. -/
def PollPlan.asks (plan : PollPlan E α) (iter : Nat) : List Action :=
  plan.reads iter ++ if every 5 iter then [.mine] else []

/-- `n` rounds that found nothing. -/
structure PollPlan.Quiet (plan : PollPlan E α) (n : Nat) (log : List (Asked E)) : Prop where
  nothing : ∀ a ∈ log, plan.settles a = none
  actions : log.map Asked.action = (List.range n).flatMap plan.asks

/-- The logs that end in `out`: after some rounds that found nothing, a round up to the
first answer that settles it, or the solidified view a last time. -/
inductive PollPlan.Log (plan : PollPlan E α) : List (Asked E) → α → Prop
  | found {n : Nat} {log part : List (Asked E)} {a : Asked E} {out : α} : plan.Quiet n log →
      (∀ b ∈ part, plan.settles b = none) → plan.settles a = some out →
      (part ++ [a]).map Asked.action <+: plan.reads n → PollPlan.Log plan (log ++ (part ++ [a])) out
  | late {n : Nat} {log : List (Asked E)} (answer : Except E (Option TransactionInfo)) : plan.Quiet n log →
      PollPlan.Log plan (log ++ [.read .solidified answer]) (plan.last answer)

def polls (log : List (Asked E)) : Nat := (log.map Asked.action).count (.read .unconfirmed)

def mines (log : List (Asked E)) : Nat := (log.map Asked.action).count .mine

variable {c : Client W E} {plan : PollPlan E α} {txId : JsString}

theorem PollPlan.Quiet.nil (plan : PollPlan E α) : plan.Quiet 0 [] := ⟨by simp, by simp⟩

theorem PollPlan.Quiet.snoc {n : Nat} {log round : List (Asked E)} (h : plan.Quiet n log)
    (hnothing : ∀ a ∈ round, plan.settles a = none) (hactions : round.map Asked.action = plan.asks n) :
    plan.Quiet (n + 1) (log ++ round) := by
  constructor
  · intro a ha
    rcases List.mem_append.1 ha with ha | ha
    · exact h.nothing a ha
    · exact hnothing a ha
  · rw [List.map_append, h.actions, hactions, List.range_succ, List.flatMap_append, List.flatMap_singleton]

/-! ## Every log -/

@[simp]
theorem logged_now (w : W) (log : List (Asked E)) : c.logged.now (w, log) = ((c.now w).1, (c.now w).2, log) := rfl

@[simp]
theorem logged_getInfo (view : View) (w : W) (log : List (Asked E)) : c.logged.getInfo view txId (w, log) =
    ((c.getInfo view txId w).1, (c.getInfo view txId w).2, log ++ [.read view (c.getInfo view txId w).1]) := rfl

@[simp]
theorem recoveryMine_logged (iter : Nat) (w : W) (log : List (Asked E)) :
    recoveryMine c.logged iter (w, log) =
      (recoveryMine c iter w, log ++ if every 5 iter then [.mined] else []) := by
  unfold recoveryMine
  split
  · rfl
  · rw [List.append_nil]

/-- The recovery block at the end of a round is nothing the round is settled by. -/
theorem settles_recovery (iter : Nat) : ∀ a ∈ (if every 5 iter then [.mined] else [] : List (Asked E)),
    plan.settles a = none := by
  intro a ha
  split at ha
  · rw [List.mem_singleton.1 ha]
    rfl
  · cases ha

theorem actions_recovery (iter : Nat) :
    (if every 5 iter then [.mined] else [] : List (Asked E)).map Asked.action =
      if every 5 iter then [.mine] else [] := by
  split <;> rfl

/-- What a round asked, by what it found. -/
def RoundLog (plan : PollPlan E α) (n : Nat) (asked : List (Asked E)) : Option α → Prop
  | none => (∀ a ∈ asked, plan.settles a = none) ∧ asked.map Asked.action = plan.asks n
  | some out => ∃ part a, asked = part ++ [a] ∧ (∀ b ∈ part, plan.settles b = none) ∧
      plan.settles a = some out ∧ (part ++ [a]).map Asked.action <+: plan.reads n

theorem pollRound_logged (c : Client W E) (plan : PollPlan E α) (txId : JsString) (n : Nat) (w : W)
    (log : List (Asked E)) :
    ∃ asked, pollRound c.logged plan txId n (w, log) =
        ((pollRound c plan txId n w).1, (pollRound c plan txId n w).2, log ++ asked) ∧
      RoundLog plan n asked (pollRound c plan txId n w).1 := by
  rcases hread : c.getInfo .unconfirmed txId w with ⟨answer, w₁⟩
  rcases hfirst : plan.first answer with _ | out
  · rcases hhedges : plan.hedges n with _ | _
    · refine ⟨.read .unconfirmed answer :: if every 5 n then [.mined] else [], ?_, ?_⟩
      · simp [pollRound, hread, hfirst, hhedges]
      · simp only [pollRound, hread, hfirst, hhedges, RoundLog]
        refine ⟨?_, ?_⟩
        · rintro a (_ | ⟨_, ha⟩)
          · exact hfirst
          · exact settles_recovery n a ha
        · simp [PollPlan.asks, PollPlan.reads, hhedges, actions_recovery, Asked.action]
    · rcases hhedge : c.getInfo .solidified txId w₁ with ⟨answer₂, w₂⟩
      rcases hsolid : plan.hedge answer₂ with _ | out
      · refine ⟨.read .unconfirmed answer :: .read .solidified answer₂ :: if every 5 n then [.mined] else [], ?_, ?_⟩
        · simp [pollRound, hread, hfirst, hhedges, hhedge, hsolid]
        · simp only [pollRound, hread, hfirst, hhedges, hhedge, hsolid, RoundLog]
          refine ⟨?_, ?_⟩
          · rintro a (_ | ⟨_, _ | ⟨_, ha⟩⟩)
            · exact hfirst
            · exact hsolid
            · exact settles_recovery n a ha
          · simp [PollPlan.asks, PollPlan.reads, hhedges, actions_recovery, Asked.action]
      · refine ⟨[.read .unconfirmed answer, .read .solidified answer₂], ?_, ?_⟩
        · simp [pollRound, hread, hfirst, hhedges, hhedge, hsolid]
        · simp only [pollRound, hread, hfirst, hhedges, hhedge, hsolid, RoundLog]
          refine ⟨[.read .unconfirmed answer], .read .solidified answer₂, rfl, ?_, hsolid, ?_⟩
          · exact List.forall_mem_singleton.2 hfirst
          · simp [PollPlan.reads, hhedges, Asked.action]
  · refine ⟨[.read .unconfirmed answer], ?_, ?_⟩
    · simp [pollRound, hread, hfirst]
    · simp only [pollRound, hread, hfirst, RoundLog]
      refine ⟨[], .read .unconfirmed answer, rfl, by simp, hfirst, ?_⟩
      simp [PollPlan.reads, Asked.action]

/-- What a logged client's rounds have asked when all of them found nothing. -/
theorem quiet_of_rounds {deadline n : Nat} {w₀ : W} {w : W × List (Asked E)}
    (h : (polling c.logged plan txId deadline).Rounds (w₀, []) n w) : plan.Quiet n w.2 := by
  induction h with
  | zero => exact .nil plan
  | @succ n w w' _ hpass ih =>
    obtain ⟨hgo, hround⟩ := hpass
    obtain ⟨-, rfl⟩ := Prod.mk.inj hgo
    obtain ⟨asked, heq, hasked⟩ := pollRound_logged c plan txId n (c.now w.1).2 w.2
    obtain ⟨hnone, rfl⟩ := Prod.mk.inj (heq.symm.trans hround)
    rw [hnone] at hasked
    exact ih.snoc hasked.1 hasked.2

theorem log_of_ends {deadline n : Nat} {w : W × List (Asked E)} {out : α} {w' : W × List (Asked E)}
    (hquiet : plan.Quiet n w.2) (h : (polling c.logged plan txId deadline).Ends n w (out, w')) :
    plan.Log w'.2 out := by
  generalize hend : (out, w') = found at h
  cases h with
  | @found m w'' a hgo hround =>
    obtain ⟨rfl, rfl⟩ := Prod.mk.inj hend
    obtain ⟨-, rfl⟩ := Prod.mk.inj hgo
    obtain ⟨asked, heq, hasked⟩ := pollRound_logged c plan txId n (c.now w.1).2 w.2
    obtain ⟨hsome, rfl⟩ := Prod.mk.inj (heq.symm.trans hround)
    rw [hsome] at hasked
    obtain ⟨part, a, rfl, hpart, ha, hactions⟩ := hasked
    exact .found hquiet hpart ha hactions
  | late hgo =>
    obtain ⟨rfl, rfl⟩ := Prod.mk.inj hend
    obtain ⟨-, rfl⟩ := Prod.mk.inj hgo
    exact .late _ hquiet

/-- The log of either loop, and that writing it changes nothing. -/
theorem poll_log {timeout fuel : Nat} {w w' : W} {out : α} (h : poll c plan txId timeout fuel w = some (out, w')) :
    ∃ log, poll c.logged plan txId timeout fuel (w, []) = some (out, w', log) ∧ plan.Log log out := by
  have hmap : poll c plan txId timeout fuel w =
      (poll c.logged plan txId timeout fuel (w, [])).map (Prod.map id Prod.fst) :=
    Polling.run_map (p := polling c.logged plan txId ((c.now w).1 + timeout))
      (q := polling c plan txId ((c.now w).1 + timeout)) Prod.fst (fun _ => rfl)
      (fun n ⟨w, log⟩ => by
        obtain ⟨asked, heq, -⟩ := pollRound_logged c plan txId n w log
        exact (congrArg (Prod.map id Prod.fst) heq).symm)
      (fun _ => rfl) fuel 0 ((c.now w).2, [])
  rw [hmap, Option.map_eq_some_iff] at h
  obtain ⟨⟨out', w'', log⟩, hlogged, heq⟩ := h
  obtain ⟨rfl, rfl⟩ := Prod.mk.inj heq
  refine ⟨log, hlogged, ?_⟩
  obtain ⟨n, w₁, hrounds, hend⟩ := Polling.run_eq_some_iff.1 ⟨fuel, hlogged⟩
  exact log_of_ends (quiet_of_rounds hrounds) hend

/-! ## Counting -/

theorem count_unconfirmed (plan : PollPlan E α) (n : Nat) :
    ((List.range n).flatMap plan.asks).count (.read .unconfirmed) = n := by
  induction n with
  | zero => rfl
  | succ n ih =>
    rw [List.range_succ, List.flatMap_append, List.flatMap_singleton, List.count_append, ih]
    unfold PollPlan.asks PollPlan.reads
    split <;> split <;> rfl

theorem count_mine (plan : PollPlan E α) (n : Nat) :
    ((List.range n).flatMap plan.asks).count .mine = (n - 1) / 5 := by
  induction n with
  | zero => rfl
  | succ n ih =>
    have hround : (plan.asks n).count .mine = if every 5 n then 1 else 0 := by
      unfold PollPlan.asks PollPlan.reads
      split <;> split <;> rfl
    rw [List.range_succ, List.flatMap_append, List.flatMap_singleton, List.count_append, ih, hround]
    simp only [every, Bool.and_eq_true, decide_eq_true_eq]
    split <;> omega

theorem PollPlan.Quiet.polls {n : Nat} {log : List (Asked E)} (h : plan.Quiet n log) : polls log = n := by
  rw [Polls.polls, h.actions, count_unconfirmed]

theorem PollPlan.Quiet.mines {n : Nat} {log : List (Asked E)} (h : plan.Quiet n log) : mines log = (n - 1) / 5 := by
  rw [Polls.mines, h.actions, count_mine]

theorem polls_append (log log' : List (Asked E)) : polls (log ++ log') = polls log + polls log' := by
  rw [polls, List.map_append, List.count_append]
  rfl

theorem mines_append (log log' : List (Asked E)) : mines (log ++ log') = mines log + mines log' := by
  rw [mines, List.map_append, List.count_append]
  rfl

theorem mine_not_mem_reads (plan : PollPlan E α) (n : Nat) : Action.mine ∉ plan.reads n := by
  unfold PollPlan.reads
  split <;> decide

/-- The first five polls of either loop do not call `mine`, and each later five call it at most once. -/
theorem PollPlan.Log.mines_le {log : List (Asked E)} {out : α} (h : plan.Log log out) :
    mines log ≤ (polls log - 1) / 5 := by
  cases h with
  | @found n log part a out hquiet _ _ hactions =>
    have hnone : mines (part ++ [a]) = 0 :=
      List.count_eq_zero_of_not_mem fun hmem => mine_not_mem_reads plan n (hactions.subset hmem)
    rw [mines_append, polls_append, hquiet.mines, hquiet.polls, hnone]
    omega
  | @late n log answer hquiet =>
    rw [mines_append, polls_append, hquiet.mines, hquiet.polls]
    exact Nat.le_refl _

/-- **What `waitForReceipt` asks.** It counts the calls of `mine`: `rpcCall` repeats
a `tre_mine` whose connection drops, so a call can make no block, or two. -/
theorem waitForReceipt_log (c : Client W E) (txId : JsString) (timeout fuel : Nat) (w w' : W) (out : WaitOutcome E)
    (h : waitForReceipt c txId timeout fuel w = some (out, w')) :
    ∃ log, waitForReceipt c.logged txId timeout fuel (w, []) = some (out, w', log) ∧
      (waitPlan E txId).Log log out ∧ mines log ≤ (polls log - 1) / 5 := by
  obtain ⟨log, hlogged, hlog⟩ := poll_log h
  exact ⟨log, hlogged, hlog, hlog.mines_le⟩

/-! ## The deadline -/

/-- What one round does to a clock that every question moves. -/
theorem round_moves {time : W → Nat} (hread : ∀ view w, time w < time (c.getInfo view txId w).2)
    (hmine : ∀ w, time w ≤ time (c.mine w)) (n : Nat) (w : W) : time w < time (pollRound c plan txId n w).2 := by
  have hrecovery (w : W) : time w ≤ time (recoveryMine c n w) := by
    unfold recoveryMine
    split
    · exact hmine w
    · exact Nat.le_refl _
  have hfirst := hread .unconfirmed w
  have hsecond := hread .solidified (c.getInfo .unconfirmed txId w).2
  unfold pollRound
  dsimp only
  split
  · exact hfirst
  · split
    · split
      · exact hfirst.trans hsecond
      · exact (hfirst.trans hsecond).trans_le (hrecovery _)
    · exact hfirst.trans_le (hrecovery _)

/-- Where every question takes a millisecond or more, either loop ends. -/
theorem poll_ends {time : W → Nat} (hnow : ∀ w, (c.now w).1 = time w ∧ time (c.now w).2 = time w)
    (hread : ∀ view w, time w < time (c.getInfo view txId w).2) (hmine : ∀ w, time w ≤ time (c.mine w))
    (timeout : Nat) (w : W) : ∃ fuel out, poll c plan txId timeout fuel w = some out := by
  rcases Polling.rounds_or_run (p := polling c plan txId ((c.now w).1 + timeout)) (c.now w).2 (timeout + 1)
    with ⟨w', hrounds⟩ | hended
  · have hlate : time w + (timeout + 1) ≤ time w' ∧ timeout + 1 ≤ timeout := by
      refine hrounds.inv (fun n w' => time w + n ≤ time w' ∧ n ≤ timeout) ⟨(hnow w).2.ge, Nat.zero_le _⟩ ?_
      rintro n w₁ w₂ ⟨hn, -⟩ ⟨hgo, hround⟩
      obtain ⟨hearly, rfl⟩ := Prod.mk.inj hgo
      have hmoved : time (c.now w₁).2 < time (pollRound c plan txId n (c.now w₁).2).2 :=
        round_moves hread hmine n _
      replace hround : pollRound c plan txId n (c.now w₁).2 = (none, w₂) := hround
      simp only [hround, (hnow w₁).2] at hmoved
      rw [decide_eq_true_eq, (hnow w₁).1, (hnow w).1] at hearly
      omega
    omega
  · exact hended

/-! ## A transaction that needs blocks -/

/-- A node that shows the transaction when `hidden` more blocks are made, in a world where no request
takes longer than `d` ms. The solidified view is not ahead of the unconfirmed one, no read of the
unconfirmed one fails, and blocks are made by the calls of `mine` only, one by each. -/
structure ShowsAfter (c : Client W E) (txId : JsString) (info : TransactionInfo) (d : Nat) (hidden time : W → Nat) :
    Prop where
  receipt : info.receipt.isSome = true
  clock : ∀ w, (c.now w).1 = time w ∧ time (c.now w).2 = time w ∧ hidden (c.now w).2 = hidden w
  unconfirmed : ∀ w, ∃ answer, (c.getInfo .unconfirmed txId w).1 = .ok answer ∧
    withReceipt answer = if hidden w = 0 then some info else none
  solidified : ∀ w answer, hidden w ≠ 0 → (c.getInfo .solidified txId w).1 = .ok answer → withReceipt answer = none
  hides : ∀ view w, hidden (c.getInfo view txId w).2 = hidden w
  mines : ∀ w, hidden (c.mine w) = hidden w - 1
  readTime : ∀ view w, time (c.getInfo view txId w).2 ≤ time w + d
  mineTime : ∀ w, time (c.mine w) ≤ time w + d

variable {info : TransactionInfo} {d : Nat} {hidden time : W → Nat}

theorem ShowsAfter.logged (h : ShowsAfter c txId info d hidden time) :
    ShowsAfter c.logged txId info d (fun w => hidden w.1) (fun w => time w.1) where
  receipt := h.receipt
  clock w := h.clock w.1
  unconfirmed w := h.unconfirmed w.1
  solidified w := h.solidified w.1
  hides view w := h.hides view w.1
  mines w := h.mines w.1
  readTime view w := h.readTime view w.1
  mineTime w := h.mineTime w.1

/-- The requests of `n` rounds. -/
def requests (n : Nat) : Nat := n + (n - 1) / 3 + (n - 1) / 5

theorem requests_succ (n : Nat) :
    requests (n + 1) = requests n + 1 + (if every 3 n then 1 else 0) + if every 5 n then 1 else 0 := by
  simp only [requests, every, Bool.and_eq_true, decide_eq_true_eq, Nat.add_sub_cancel]
  split <;> split <;> omega

/-- A recovery block takes one of those that are missing. -/
theorem ShowsAfter.recovery (h : ShowsAfter c txId info d hidden time) (n : Nat) (w : W) :
    hidden (recoveryMine c n w) = hidden w - (if every 5 n then 1 else 0) ∧
      time (recoveryMine c n w) ≤ time w + d * if every 5 n then 1 else 0 := by
  unfold recoveryMine
  split
  · exact ⟨h.mines w, by simpa using h.mineTime w⟩
  · exact ⟨rfl, Nat.le_refl _⟩

/-- A round while the transaction is hidden. -/
theorem ShowsAfter.passes (h : ShowsAfter c txId info d hidden time) {deadline n : Nat} {w : W}
    (hhidden : hidden w ≠ 0) (hearly : time w < deadline) :
    ∃ w', (polling c (waitPlan E txId) txId deadline).Passes n w w' ∧
      hidden w' = hidden w - (if every 5 n then 1 else 0) ∧
      time w' ≤ time w + d * (1 + (if every 3 n then 1 else 0) + if every 5 n then 1 else 0) := by
  obtain ⟨hnow, htime, hkept⟩ := h.clock w
  have hgo : (polling c (waitPlan E txId) txId deadline).goesOn w = (true, (c.now w).2) := by
    simp [polling, hnow, hearly]
  obtain ⟨answer, hread, hanswer⟩ := h.unconfirmed (c.now w).2
  rw [hkept, if_neg hhidden] at hanswer
  rcases hfirst : c.getInfo .unconfirmed txId (c.now w).2 with ⟨given, w₁⟩
  have hhidden₁ : hidden w₁ = hidden w := by simpa [hfirst, hkept] using h.hides .unconfirmed (c.now w).2
  have htime₁ : time w₁ ≤ time w + d := by simpa [hfirst, htime] using h.readTime .unconfirmed (c.now w).2
  obtain rfl : given = .ok answer := by simpa [hfirst] using hread
  rcases hthird : every 3 n with _ | _
  · obtain ⟨hrecovered, htaken⟩ := h.recovery n w₁
    refine ⟨recoveryMine c n w₁, .intro hgo ?_, by rw [hrecovered, hhidden₁], ?_⟩
    · simp [polling, pollRound, hfirst, waitPlan, hanswer, hthird]
    · simp only [Bool.false_eq_true, if_false, Nat.mul_add]
      omega
  · rcases hsecond : c.getInfo .solidified txId w₁ with ⟨given₂, w₂⟩
    have hhidden₂ : hidden w₂ = hidden w := by simpa [hsecond, hhidden₁] using h.hides .solidified w₁
    have htime₂ : time w₂ ≤ time w₁ + d := by simpa [hsecond] using h.readTime .solidified w₁
    have hnothing : (waitPlan E txId).hedge given₂ = none := by
      rcases given₂ with e | answer₂
      · rfl
      · have := h.solidified w₁ answer₂ (hhidden₁ ▸ hhidden) (by rw [hsecond])
        simp [waitPlan, this]
    obtain ⟨hrecovered, htaken⟩ := h.recovery n w₂
    refine ⟨recoveryMine c n w₂, .intro hgo ?_, by rw [hrecovered, hhidden₂], ?_⟩
    · have hhedges : (waitPlan E txId).hedges n = true := hthird
      have hgoes : (waitPlan E txId).first (.ok answer) = none := by simp [waitPlan, hanswer]
      simp [polling, pollRound, hfirst, hgoes, hhedges, hsecond, hnothing]
    · simp only [if_true, Nat.mul_add]
      omega

/-- The rounds of a loop that finds nothing until `hidden` blocks are made. -/
theorem ShowsAfter.rounds (h : ShowsAfter c txId info d hidden time) {deadline : Nat} (w : W)
    (hearly : time w + d * requests (5 * hidden w) < deadline) (n : Nat) (hn : n ≤ 5 * hidden w + 1)
    (hk : hidden w ≠ 0) :
    ∃ w', (polling c (waitPlan E txId) txId deadline).Rounds w n w' ∧ hidden w' = hidden w - (n - 1) / 5 ∧
      time w' ≤ time w + d * requests n := by
  induction n with
  | zero => exact ⟨w, .zero, by simp, Nat.le_add_right ..⟩
  | succ n ih =>
    obtain ⟨w₁, hrounds, hleft, htime⟩ := ih (by omega)
    have hmore : requests n ≤ requests (5 * hidden w) := by simp only [requests]; omega
    obtain ⟨w₂, hpass, hleft₂, htime₂⟩ := h.passes (by omega)
      (Nat.lt_of_le_of_lt (Nat.le_trans htime (Nat.add_le_add_left (Nat.mul_le_mul_left d hmore) _)) hearly)
    refine ⟨w₂, hrounds.succ hpass, ?_, ?_⟩
    · rw [hleft₂, hleft]
      simp only [every, Bool.and_eq_true, decide_eq_true_eq]
      split <;> omega
    · rw [requests_succ, Nat.add_assoc, Nat.add_assoc, Nat.mul_add]
      rw [Nat.add_assoc] at htime₂
      omega

/-- The round that finds the transaction. -/
theorem ShowsAfter.ends (h : ShowsAfter c txId info d hidden time) {deadline n : Nat} {w : W} (hshown : hidden w = 0)
    (hearly : time w < deadline) :
    (polling c (waitPlan E txId) txId deadline).Ends n w
      (.info info, (c.getInfo .unconfirmed txId (c.now w).2).2) := by
  obtain ⟨hnow, -, hkept⟩ := h.clock w
  obtain ⟨answer, hread, hanswer⟩ := h.unconfirmed (c.now w).2
  rw [hkept, if_pos hshown] at hanswer
  refine .found (m := (c.now w).2) ?_ ?_
  · simp [polling, hnow, hearly]
  · have hfound : (waitPlan E txId).first (.ok answer) = some (.info info) := by simp [waitPlan, hanswer]
    simp [polling, pollRound, hread, hfound]

/-- The loop finds the transaction as soon as the blocks it needs are made. -/
theorem ShowsAfter.found (h : ShowsAfter c txId info d hidden time) (deadline : Nat) (w : W)
    (hearly : time w + d * (8 * hidden w + 1) < deadline) :
    ∃ w', (polling c (waitPlan E txId) txId deadline).Rounds w (if hidden w = 0 then 0 else 5 * hidden w + 1) w' ∧
      (polling c (waitPlan E txId) txId deadline).Ends (if hidden w = 0 then 0 else 5 * hidden w + 1) w'
        (.info info, (c.getInfo .unconfirmed txId (c.now w').2).2) := by
  have hbound (n : Nat) (hn : n ≤ 5 * hidden w + 1) : time w + d * requests n < deadline := by
    have hrequests : requests n ≤ 8 * hidden w + 1 := by simp only [requests]; omega
    exact Nat.lt_of_le_of_lt (Nat.add_le_add_left (Nat.mul_le_mul_left d hrequests) _) hearly
  by_cases hk : hidden w = 0
  · rw [if_pos hk]
    exact ⟨w, .zero, h.ends hk (hbound 0 (Nat.zero_le _))⟩
  · rw [if_neg hk]
    obtain ⟨w', hrounds, hleft, htime⟩ :=
      h.rounds w (hbound _ (Nat.le_succ _)) (5 * hidden w + 1) (Nat.le_refl _) hk
    exact ⟨w', hrounds, h.ends (by omega) (Nat.lt_of_le_of_lt htime (hbound _ (Nat.le_refl _)))⟩

/-- **Recovery.** -/
theorem waitForReceipt_recovers (c : Client W E) (txId : JsString) (info : TransactionInfo) (d : Nat)
    (hidden time : W → Nat) (h : ShowsAfter c txId info d hidden time) (w : W) (timeout : Nat)
    (htimeout : d * (8 * hidden w + 1) < timeout) :
    ∃ fuel w' log, waitForReceipt c.logged txId timeout fuel (w, []) = some (.info info, w', log) ∧
      mines log = hidden w ∧ polls log = if hidden w = 0 then 1 else 5 * hidden w + 2 := by
  obtain ⟨hnow, htime, hkept⟩ := h.clock w
  obtain ⟨⟨w', log⟩, hrounds, hends⟩ := h.logged.found ((c.now w).1 + timeout) ((c.now w).2, [])
    (by simp only [hkept, htime, hnow]; omega)
  obtain ⟨fuel, hrun⟩ := Polling.run_eq_some_iff.2 ⟨_, _, hrounds, hends⟩
  refine ⟨fuel, _, _, hrun, ?_, ?_⟩
  · rw [mines_append, logged_now, (quiet_of_rounds hrounds).mines]
    simp only [hkept]
    split
    · simp [mines, Asked.action, *]
    · simp [mines, Asked.action]
  · rw [polls_append, logged_now, (quiet_of_rounds hrounds).polls]
    simp only [hkept]
    split <;> simp [polls, Asked.action]

end

/-! ## A connection that drops every other request -/

/-- The blocks the transaction still needs, the clock, and the requests made so far. -/
structure Flaky where
  hidden : Nat
  clock : Nat
  asked : Nat

def minedInfo : TransactionInfo :=
  ⟨some ⟨"SUCCESS".toList, some 0, some 0, some 21000⟩, some 0, some 7, [], [], [], none, none, []⟩

def flakyEnv : PollEnv Flaky where
  now w := (w.clock, w)
  fetchText endpoint _ w :=
    let next : Flaky := ⟨w.hidden, w.clock + 5, w.asked + 1⟩
    if w.asked % 2 = 0 then (.error ⟨"TypeError", "fetch failed"⟩, next)
    else (.ok (if w.hidden = 0 ∧ endpoint = "/wallet/gettransactioninfobyid" then ['i'] else []), next)
  pause w := { w with clock := w.clock + 100 }
  jsonParseBigSafe text := if text = ['i'] then some (some minedInfo) else none
  mine w := ⟨w.hidden - 1, w.clock + 13, w.asked⟩

theorem flakyEnv_fetchRetried (view : View) (txId : JsString) (w : Flaky) :
    ∃ clock asked, clock ≤ w.clock + 110 ∧ fetchRetried flakyEnv view txId w =
      (.ok (if w.hidden = 0 ∧ view = .unconfirmed then ['i'] else []), ⟨w.hidden, clock, asked⟩) := by
  have htransient : isTransientFetchError ⟨"TypeError", "fetch failed"⟩ = true := by simp [isTransientFetchError]
  have hendpoint : view.endpoint = "/wallet/gettransactioninfobyid" ↔ view = .unconfirmed := by
    cases view <;> simp [View.endpoint]
  by_cases hdropped : w.asked % 2 = 0
  · have hnext : ¬ (w.asked + 1) % 2 = 0 := by omega
    refine ⟨w.clock + 5 + 100 + 5, w.asked + 1 + 1, by omega, ?_⟩
    simp [fetchRetried, flakyEnv, hdropped, htransient, hnext, hendpoint]
  · refine ⟨w.clock + 5, w.asked + 1, by omega, ?_⟩
    simp [fetchRetried, flakyEnv, hdropped, hendpoint]

theorem flakyEnv_getInfo (view : View) (txId : JsString) (w : Flaky) :
    ∃ clock asked, clock ≤ w.clock + 110 ∧ flakyEnv.client.getInfo view txId w =
      (.ok (if w.hidden = 0 ∧ view = .unconfirmed then some minedInfo else none), ⟨w.hidden, clock, asked⟩) := by
  obtain ⟨clock, asked, hclock, hfetched⟩ := flakyEnv_fetchRetried view txId w
  refine ⟨clock, asked, hclock, ?_⟩
  by_cases hshown : w.hidden = 0 ∧ view = .unconfirmed
  · rw [if_pos hshown] at hfetched
    simp only [PollEnv.client, getInfoBigSafe, hfetched, if_pos hshown]
    rfl
  · rw [if_neg hshown] at hfetched
    simp only [PollEnv.client, getInfoBigSafe, hfetched, if_neg hshown]

theorem flakyEnv_showsAfter (txId : JsString) :
    ShowsAfter flakyEnv.client txId minedInfo 110 Flaky.hidden Flaky.clock where
  receipt := rfl
  clock _ := ⟨rfl, rfl, rfl⟩
  unconfirmed w := by
    obtain ⟨clock, asked, -, hread⟩ := flakyEnv_getInfo .unconfirmed txId w
    refine ⟨_, by rw [hread], ?_⟩
    split <;> simp_all [withReceipt, minedInfo]
  solidified w answer _ h := by
    obtain ⟨clock, asked, -, hread⟩ := flakyEnv_getInfo .solidified txId w
    rw [hread] at h
    simp at h
    subst h
    rfl
  hides view w := by
    obtain ⟨clock, asked, -, hread⟩ := flakyEnv_getInfo view txId w
    rw [hread]
  mines _ := rfl
  readTime view w := by
    obtain ⟨clock, asked, hclock, hread⟩ := flakyEnv_getInfo view txId w
    rw [hread]
    exact hclock
  mineTime w := Nat.add_le_add_left (by decide) w.clock

/-- Three blocks short: found at the seventeenth question. -/
theorem flaky_recovers : ∃ fuel w' log,
    waitForReceipt flakyEnv.client.logged "ab".toList 240000 fuel (⟨3, 0, 0⟩, []) = some (.info minedInfo, w', log) ∧
      mines log = 3 ∧ polls log = if 3 = 0 then 1 else 5 * 3 + 2 :=
  waitForReceipt_recovers flakyEnv.client "ab".toList minedInfo 110 Flaky.hidden Flaky.clock
    (flakyEnv_showsAfter "ab".toList) ⟨3, 0, 0⟩ 240000 (by decide)

/-- One block short: seven questions. -/
theorem flaky_logged : ∃ log, waitForReceipt flakyEnv.client.logged "ab".toList 240000 8 (⟨1, 0, 0⟩, []) =
    some (.info minedInfo, ⟨0, 893, 16⟩, log) ∧
      (waitPlan InfoError "ab".toList).Log log (.info minedInfo) ∧ mines log ≤ (polls log - 1) / 5 :=
  waitForReceipt_log flakyEnv.client "ab".toList 240000 8 ⟨1, 0, 0⟩ ⟨0, 893, 16⟩ (.info minedInfo) rfl

end HardhatTron.Polls

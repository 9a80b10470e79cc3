import Mathlib.Data.List.Infix
/-!
# `rpcCall` over a connection that fails

One `rpcCall` makes one HTTP request to the node's `/tre` endpoint, and a second
one 100 ms later if the first `fetch` threw a transient error. A connection can
fail before the node executed the request or after, and then the client cannot
tell which: the retry executes the method again.
-/
namespace HardhatTron

/-- What `fetch` or `res.json()` throws. -/
structure FetchError where
  name : String
  message : String
  deriving DecidableEq

def includesIgnoreCase (s part : String) : Bool :=
  decide (part.toList.map Char.toLower <:+: s.toList.map Char.toLower)

def isTransientFetchError (e : FetchError) : Bool :=
  if e.name = "AbortError" ∨ e.name = "TypeError" then true
  else
    let msg := if e.message = "" then e.name else e.message
    ["fetch failed", "socket hang up", "ECONNRESET", "ECONNREFUSED", "ETIMEDOUT", "UND_ERR"].any
      (includesIgnoreCase msg)

/-- The fate of one HTTP request: answered; `fetch` throws, before or after the
node executed it; or `fetch` resolves but `res.json()` throws. -/
inductive Attempt where
  | answered
  | fetchThrows (executed : Bool) (e : FetchError)
  | bodyThrows (executed : Bool) (e : FetchError)
  deriving DecidableEq

/-- The requests of one `rpcCall`; the second is made only if the first `fetch` threw. -/
structure Attempts where
  first : Attempt
  retry : Attempt
  deriving DecidableEq

section
variable {N A : Type}

/-- One request to a node that answers with `exec`. -/
def request (exec : N → A × N) (a : Attempt) (n : N) : Except FetchError A × N :=
  match a with
  | .answered => (.ok (exec n).1, (exec n).2)
  | .fetchThrows executed e => (.error e, if executed then (exec n).2 else n)
  | .bodyThrows executed e => (.error e, if executed then (exec n).2 else n)

/-- `res.json()` is returned without being awaited, so what it throws is not caught. -/
def rpcCall (exec : N → A × N) (a : Attempts) (n : N) : Except FetchError A × N :=
  match a.first with
  | .fetchThrows executed e =>
    if isTransientFetchError e then request exec a.retry (request exec (.fetchThrows executed e) n).2
    else (.error e, (request exec (.fetchThrows executed e) n).2)
  | first => request exec first n

end

namespace Attempts

/-- The first `fetch` threw an error that `rpcCall` retries. -/
def retried (a : Attempts) : Bool :=
  match a.first with
  | .fetchThrows _ e => isTransientFetchError e
  | _ => false

/-- The request whose outcome `rpcCall` returns. -/
def last (a : Attempts) : Attempt := if a.retried then a.retry else a.first

def executed : Attempt → Bool
  | .answered => true
  | .fetchThrows ex _ => ex
  | .bodyThrows ex _ => ex

/-- The first request was executed although `rpcCall` makes a second one. -/
def executedThenRetried (a : Attempts) : Bool := a.retried && executed a.first

/-- No request of the call reached the node. -/
def neverExecuted (a : Attempts) : Bool := !executed a.last && !a.executedThenRetried

/-- The node executed one request, and its answer arrived. -/
def executedOnce (a : Attempts) : Bool := a.last == .answered && !a.executedThenRetried

def allAnswered : Attempts := ⟨.answered, .answered⟩

end Attempts

section
variable {N A : Type} {f : N → A × N} {a : Attempts} {n : N}

/-- `rpcCall` in two steps: the lost execution, if any, then the last request. -/
theorem rpcCall_eq (f : N → A × N) (a : Attempts) (n : N) :
    rpcCall f a n = request f a.last (if a.executedThenRetried then (f n).2 else n) := by
  obtain ⟨first, retry⟩ := a
  cases first with
  | answered => rfl
  | bodyThrows ex e => rfl
  | fetchThrows ex e =>
    by_cases ht : isTransientFetchError e
    · simp [rpcCall, ht, Attempts.last, Attempts.retried, Attempts.executedThenRetried, Attempts.executed, request]
    · simp [rpcCall, ht, Attempts.last, Attempts.retried, Attempts.executedThenRetried, request]

theorem rpcCall_neverExecuted (h : a.neverExecuted = true) : ∃ e, rpcCall f a n = (.error e, n) := by
  simp only [Attempts.neverExecuted, Bool.and_eq_true, Bool.not_eq_true'] at h
  rw [rpcCall_eq, h.2]
  cases hl : a.last with
  | answered => simp [hl, Attempts.executed] at h
  | fetchThrows ex e => simp_all [Attempts.executed, request]
  | bodyThrows ex e => simp_all [Attempts.executed, request]

theorem rpcCall_executedOnce (h : a.executedOnce = true) : rpcCall f a n = (.ok (f n).1, (f n).2) := by
  simp only [Attempts.executedOnce, Bool.and_eq_true, Bool.not_eq_true', beq_iff_eq] at h
  rw [rpcCall_eq, h.1, h.2]
  rfl

/-- An answered call returns what the node says in the state the lost execution left. -/
theorem rpcCall_ok_iff {r : A} {n' : N} : rpcCall f a n = (.ok r, n') ↔
    a.last = .answered ∧ f (if a.executedThenRetried then (f n).2 else n) = (r, n') := by
  rw [rpcCall_eq]
  cases a.last with
  | answered => simp [request, Prod.ext_iff]
  | fetchThrows ex e => simp [request]
  | bodyThrows ex e => simp [request]

/-- Any other call executed the method once or twice. -/
theorem rpcCall_executed (h : a.neverExecuted = false) :
    (rpcCall f a n).2 = (f n).2 ∨ (rpcCall f a n).2 = (f (f n).2).2 := by
  rw [rpcCall_eq]
  unfold Attempts.neverExecuted at h
  cases hx : a.executedThenRetried with
  | false =>
    rw [hx, Bool.not_false, Bool.and_true, Bool.not_eq_false'] at h
    left
    cases hl : a.last with
    | answered => rfl
    | fetchThrows ex e => rw [hl] at h; cases h; rfl
    | bodyThrows ex e => rw [hl] at h; cases h; rfl
  | true =>
    cases a.last with
    | answered => exact .inr rfl
    | fetchThrows ex e => cases ex; exacts [.inl rfl, .inr rfl]
    | bodyThrows ex e => cases ex; exacts [.inl rfl, .inr rfl]

/-- The node ends where some number of executions leave it. -/
theorem rpcCall_state (I : N → Prop) (hI : ∀ n, I n → I (f n).2) (h : I n) : I (rpcCall f a n).2 := by
  rw [rpcCall_eq]
  have hn : I (if a.executedThenRetried then (f n).2 else n) := by
    split
    · exact hI n h
    · exact h
  cases a.last with
  | answered => exact hI _ hn
  | fetchThrows ex e => simp only [request]; split; exacts [hI _ hn, hn]
  | bodyThrows ex e => simp only [request]; split; exacts [hI _ hn, hn]

end

end HardhatTron

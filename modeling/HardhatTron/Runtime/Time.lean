import HardhatTron.Lib.Number
import HardhatTron.Node.Chain
import HardhatTron.Runtime.Rpc
/-!
# Blocks and time over a connection that fails

`time.mine`, `mineUpTo` and `increase` are written on `rpcCall`, which repeats a
request whose connection dropped. A `tre_mine` that the node had executed before
the drop is then executed twice. `time_exact_iff` says for which inputs the three
helpers still do what they return.
-/
namespace HardhatTron

open Lib

/-! ## Numbers and errors -/

/-- `Number(z)` of an integer. -/
def jsNumber (z : Int) : Int := if z < 0 then -(toDouble z.natAbs : Int) else toDouble z.natAbs

/-- An argument: what `${x}` prints, and its value if it is a finite integer. -/
structure Numeric where
  text : String
  integer : Option Int

/-- What the helpers throw. -/
inductive TimeError where
  | error (message : String)
  | fetch (e : FetchError)

def RpcException.message : RpcException → String
  | .invalidParams m => m
  | .internal m => m

/-- `String(x)` of a number, `JSON.stringify` of an error, and the node's reading of a parameter. -/
structure TimeRuntime where
  numberString : Int → String
  errorJson : RpcException → String
  decodeLong : String → Except RpcException Int

/-! ## The calls to the node -/

/-- A `tre_mine` of the client: the fate of its requests, and how its first and its
second execution end, if the node comes to them. -/
structure MineCall where
  attempts : Attempts
  first : MineOutcome
  second : MineOutcome

/-- Each execution takes the next outcome. -/
def treMine (x : Chain × MineOutcome × MineOutcome) :
    Except RpcException String × Chain × MineOutcome × MineOutcome :=
  ((x.1.mine x.2.1).1, (x.1.mine x.2.1).2, x.2.2, x.2.2)

def MineCall.rpcCall (v : MineCall) (c : Chain) : Except FetchError (Except RpcException String) × Chain :=
  let r := HardhatTron.rpcCall treMine v.attempts (c, v.first, v.second)
  (r.1, r.2.1)

/-- `callOrFalse`: the result, or the reason why there is none. -/
def callOrFalse {A : Type} : Except FetchError (Except RpcException A) → Except String A
  | .error e => .error e.message
  | .ok (.error e) => .error e.message
  | .ok (.ok a) => .ok a

def treSetNextBlockTimestamp (rt : TimeRuntime) (param : String) (c : Chain) : Except RpcException Unit × Chain :=
  match rt.decodeLong param with
  | .error e => (.error e, c)
  | .ok target => c.setNextBlockTimestamp target

/-! ## `mine` and `mineUpTo` -/

/-- The loop of `mine`: `i` is the counter, `k` the number of calls made so far. -/
def mineFrom (calls : Nat → MineCall) (n : Int) : Nat → Nat → Int → Chain → Option (Except TimeError Unit × Chain)
  | 0, _, _, _ => none
  | fuel + 1, k, i, c =>
    if i < n then
      match (calls k).rpcCall c with
      | (r, c) =>
        match callOrFalse r with
        | .error reason => some (.error (.error ("tre_mine failed: " ++ reason)), c)
        | .ok _ => mineFrom calls n fuel (k + 1) (jsNumber (i + 1)) c
    else some (.ok (), c)

/-- `mine` of a number. `none` is a call that has not settled. -/
def mineNumber (calls : Nat → MineCall) (fuel : Nat) (text : String) (n : Int) (c : Chain) :
    Option (Except TimeError Unit × Chain) :=
  if n < 0 then some (.error (.error ("mine: invalid block count " ++ text)), c) else mineFrom calls n fuel 0 0 c

def mine (calls : Nat → MineCall) (fuel : Nat) (blocks : Option Numeric) (c : Chain) :
    Option (Except TimeError Unit × Chain) :=
  match blocks with
  | none => mineNumber calls fuel "1" 1 c
  | some b =>
    match b.integer with
    | none => some (.error (.error ("mine: invalid block count " ++ b.text)), c)
    | some z => mineNumber calls fuel b.text (jsNumber z) c

/-- What one `increase` meets. -/
structure IncreaseEnv where
  version : Attempts
  currentBlock : Option FetchError
  setNext : Attempts
  mine : MineCall

/-- The chain, and the module's memory of the probe. -/
structure TimeState where
  chain : Chain
  _instantWarpSupported : Option Bool

/-- The latest timestamp in seconds. The quotient is a double with the floor of the
exact one. -/
def latest (currentBlock : Option FetchError) (c : Chain) : Except TimeError Int :=
  match currentBlock with
  | some e => .error (.fetch e)
  | none => .ok (jsNumber c.timestamp / 1000)

/-- The probe of `tre_version`, whose answer has the `oz-tron` suffix. -/
def _supportsInstantWarp (version : Attempts) (s : TimeState) : Bool × TimeState :=
  match s._instantWarpSupported with
  | some b => (b, s)
  | none =>
    let b := version.last == .answered
    (b, { s with _instantWarpSupported := some b })

/-- The message of `_requireInstantWarp`. -/
def requiresPatchedJar : String :=
  "time-warp requires the patched FullNode.jar (tre_version with `-oz-tron` suffix). " ++
    "Build it via the docker pipeline and start a fresh container with the jar mounted. " ++
    "Stock tronbox/tre:dev does not expose `tre_setNextBlockTimestamp`; the wall-clock " ++
    "fallback was intentionally not included because multi-day warps would cost real " ++
    "wall-clock time and defeat the point."

def _warpAndMine (rt : TimeRuntime) (setNext : Attempts) (mine : MineCall) (targetTs : Int) (c : Chain) :
    Except TimeError Unit × Chain :=
  let targetMs := rt.numberString (jsNumber (targetTs * 1000))
  match rpcCall (treSetNextBlockTimestamp rt targetMs) setNext c with
  | (.error e, c) => (.error (.fetch e), c)
  | (.ok (.error e), c) => (.error (.error ("tre_setNextBlockTimestamp failed: " ++ rt.errorJson e)), c)
  | (.ok (.ok ()), c) =>
    match mine.rpcCall c with
    | (.error e, c) => (.error (.fetch e), c)
    | (.ok (.error e), c) => (.error (.error ("tre_mine failed after warp: " ++ rt.errorJson e)), c)
    | (.ok (.ok _), c) => (.ok (), c)

def increase (rt : TimeRuntime) (env : IncreaseEnv) (seconds : Numeric) (s : TimeState) :
    Except TimeError Int × TimeState :=
  match seconds.integer with
  | none => (.error (.error ("increase: invalid delta " ++ seconds.text)), s)
  | some z =>
    let delta := jsNumber z
    if delta < 0 then (.error (.error ("increase: invalid delta " ++ seconds.text)), s)
    else if delta = 0 then (latest env.currentBlock s.chain, s)
    else
      match _supportsInstantWarp env.version s with
      | (false, s) => (.error (.error requiresPatchedJar), s)
      | (true, s) =>
        match latest env.currentBlock s.chain with
        | .error e => (.error e, s)
        | .ok startTs =>
          let target := jsNumber (startTs + delta)
          match _warpAndMine rt env.setNext env.mine target s.chain with
          | (.error e, c) => (.error e, { s with chain := c })
          | (.ok (), c) => (.ok target, { s with chain := c })

end HardhatTron

import HardhatTron.Lib.Number
import HardhatTron.Lib.Runs
import Mathlib.Logic.Function.Basic
/-!
# `instanceId` and its resolutions

`instanceId(url)` answers from the cache, joins the resolution in flight, or
starts one. A resolution probes the node (two attempts), falls back to docker
and then to the genesis hash, and writes the cache unless the url was evicted
meanwhile. It suspends at every `await`, so the machine has one step per
segment between two awaits, and one for the `finally` of its promise.

Docker is outside the repository: `Docker` is what the two lookups found. A
promise that was awaited may resume at any later time, so every order of
microtasks is a run.
-/
namespace HardhatTron

open Lib

/-! ## Probing the node -/

/-- What one `fetch` of `tre_instanceId` meets: it throws an error of this name,
or a response comes, whose body is read or throws. `none` is a body without a
string `result`. -/
inductive ProbeReply where
  | throws (name : String)
  | response (status : Nat) (body : Except String (Option String))

/-- `/^0x[0-9a-f]{64}$/` -/
def isServedId (id : String) : Bool :=
  match id.toList with
  | '0' :: 'x' :: ds => ds.length == 64 && ds.all fun c => ('0' ≤ c ∧ c ≤ '9') ∨ ('a' ≤ c ∧ c ≤ 'f')
  | _ => false

/-- The id an attempt returns, or the name of the error it throws. -/
def fetchNodeServedInstanceId : ProbeReply → Except String (Option String)
  | .throws name => .error name
  | .response status body =>
    if status = 408 ∨ status = 429 ∨ status ≥ 500 then .error "Error"
    else
      match body with
      | .error name => .error name
      | .ok id => .ok (id.filter isServedId)

def isDefinitiveProbeError (name : String) : Bool := name == "SyntaxError"

structure Probe where
  id : Option String
  definitive : Bool
  deriving DecidableEq

/-! ## The module's state -/

/-- A provisional cache entry; re-probes count down in the object itself. -/
structure Provisional where
  id : String
  reprobesLeft : Int
  deriving DecidableEq

/-- An entry of `_instanceIdCache`; a provisional one is a reference to its object. -/
inductive CacheEntry where
  | committed (id : String)
  | provisional (ref : Nat)
  deriving DecidableEq

/-- Where a resolution is suspended. -/
inductive Phase where
  | probing (attempt : Nat)
  | sleeping (attempt : Nat)
  | probed (probe : Probe)
  | genesis (probe : Probe)
  | settled (result : Except String String)
  | cleaned

/-- A call of `resolveInstanceId`; `cached` is the provisional entry it saw. -/
structure Resolution where
  url : String
  gen : Nat
  cached : Option Nat
  phase : Phase

/-- The maps of the module, the provisional entries ever made, and the resolutions ever started. -/
structure IdState where
  _instanceIdCache : String → Option CacheEntry
  _inflight : String → Option Nat
  _evictGen : String → Nat
  objects : List Provisional
  resolutions : List Resolution

/-- The module right after it was loaded. -/
def loadedModule : IdState := ⟨fun _ => none, fun _ => none, fun _ => 0, [], []⟩

def MAX_PROVISIONAL_REPROBES : Int := 2

/-! ## The segments of a resolution -/

/-- What the docker tiers give: the container this process launched and its
identity, and the identity of a foreign container serving the url. -/
structure Docker where
  ownedName : Option String
  owned : Except String String
  found : Option String

/-- What the read of block 0 gives: an error of `provider.request`, or the block's hash. -/
inductive GenesisReply where
  | throws (message : String)
  | hash (h : Option String)

/-- A write to the url's entry. -/
inductive CacheWrite where
  | commit (id : String)
  | provisional (id : String)
  deriving DecidableEq

/-- How a resolution ends: its result, whether it counted down `reprobesLeft`,
what it wrote, whether it resolved the fallback tiers, and its warning. -/
structure Verdict where
  result : Except String String
  decrement : Bool
  write : Option CacheWrite
  tiers : Bool
  warning : Option String

/-- The end of a first resolution that has its id. -/
def finish (evicted : Bool) (probe : Probe) (id : String) (tiers : Bool) : Verdict :=
  if evicted then ⟨.ok id, false, none, tiers, none⟩
  else if probe.definitive then ⟨.ok id, false, some (.commit id), tiers, none⟩
  else ⟨.ok id, false, some (.provisional id), tiers, none⟩

def ownedMessage (url ownedName failure : String) : String :=
  "hardhat-tron launched the TRE container \"" ++ ownedName ++ "\" for " ++ url ++
    " but could not read its docker identity: " ++ failure ++
    ". Check that docker is still reachable, or remove the container and rerun."

def genesisMessage (url : String) : String :=
  "Could not read the genesis block hash from " ++ url ++ " to derive a TRE instance id."

def settlingWarning (url : String) : String :=
  "[hardhat-tron] the tre_instanceId probe for " ++ url ++ " never got an answer; " ++
    "settling on the fallback instance id. If this node runs the patched TRE jar, " ++
    "other processes may key their upgrades manifest differently."

/-- The segment after the probe of a resolution that saw the provisional entry `cached`. -/
def afterReprobe (url : String) (evicted : Bool) (cached : Provisional) (probe : Probe) : Verdict :=
  let id := probe.id.getD cached.id
  if evicted then ⟨.ok id, false, none, false, none⟩
  else if probe.definitive then ⟨.ok id, false, some (.commit id), false, none⟩
  else if cached.reprobesLeft - 1 > 0 then ⟨.ok cached.id, true, none, false, none⟩
  else ⟨.ok cached.id, true, some (.commit cached.id), false, some (settlingWarning url)⟩

/-- The segment after the first probe; `none` when it goes on to read the genesis block. -/
def afterProbe (url : String) (evicted : Bool) (probe : Probe) (docker : Docker) : Option Verdict :=
  match probe.id with
  | some id => some (finish evicted probe id false)
  | none =>
    match docker.ownedName.filter (· ≠ "") with
    | some ownedName =>
      match docker.owned with
      | .error failure => some ⟨.error (ownedMessage url ownedName failure), false, none, true, none⟩
      | .ok id => some (finish evicted probe id true)
    | none =>
      match docker.found with
      | some id => some (finish evicted probe id true)
      | none => none

/-- The segment after the read of the genesis block. -/
def afterGenesis (url : String) (evicted : Bool) (probe : Probe) : GenesisReply → Verdict
  | .throws message => ⟨.error message, false, none, true, none⟩
  | .hash h =>
    match h.filter (· ≠ "") with
    | none => ⟨.error (genesisMessage url), false, none, true, none⟩
    | some hash => finish evicted probe hash true

/-! ## Steps -/

/-- What happens next: a call, the end of something a resolution awaits, or an eviction. -/
inductive IdEvent where
  | call (url : String)
  | respond (rid : Nat) (reply : ProbeReply)
  | wake (rid : Nat)
  | resume (rid : Nat) (docker : Docker)
  | genesis (rid : Nat) (reply : GenesisReply)
  | cleanup (rid : Nat)
  | evict (url : String)

inductive IdOutput where
  | returned (id : String)
  | joined (rid : Nat)
  | started (rid : Nat)
  | answered (id : Option String)
  | retrying
  | unanswered
  | woken
  | readsGenesis
  | settled (v : Verdict)
  | done

namespace IdState

def setPhase (s : IdState) (rid : Nat) (phase : Phase) : IdState :=
  { s with resolutions := s.resolutions.modify rid fun r => { r with phase } }

/-- The generation at the start of `r` is no longer the url's. -/
def evicted (s : IdState) (r : Resolution) : Bool := s._evictGen r.url != r.gen

def write (s : IdState) (url : String) : Option CacheWrite → IdState
  | none => s
  | some (.commit id) => { s with _instanceIdCache := Function.update s._instanceIdCache url (some (.committed id)) }
  | some (.provisional id) =>
    { s with
      objects := s.objects ++ [⟨id, MAX_PROVISIONAL_REPROBES⟩]
      _instanceIdCache := Function.update s._instanceIdCache url (some (.provisional s.objects.length)) }

/-- `--cached.reprobesLeft` -/
def countDown (s : IdState) (cached : Option Nat) (decrement : Bool) : IdState :=
  match cached, decrement with
  | some ref, true =>
    { s with objects := s.objects.modify ref fun o => { o with reprobesLeft := o.reprobesLeft - 1 } }
  | _, _ => s

/-- The last segment of the resolution `rid`. -/
def settle (s : IdState) (rid : Nat) (r : Resolution) (v : Verdict) : IdState :=
  ((s.countDown r.cached v.decrement).write r.url v.write).setPhase rid (.settled v.result)

/-- `resolveInstanceId` up to its first `await`. -/
def resolveInstanceId (s : IdState) (url : String) : Resolution :=
  match s._instanceIdCache url with
  | some (.committed id) => ⟨url, s._evictGen url, none, .settled (.ok id)⟩
  | some (.provisional ref) => ⟨url, s._evictGen url, some ref, .probing 0⟩
  | none => ⟨url, s._evictGen url, none, .probing 0⟩

/-- A new resolution, in flight. -/
def start (s : IdState) (url : String) : IdState :=
  { s with
    resolutions := s.resolutions ++ [s.resolveInstanceId url]
    _inflight := Function.update s._inflight url (some s.resolutions.length) }

end IdState

def instanceId (s : IdState) (url : String) : IdOutput × IdState :=
  match s._instanceIdCache url with
  | some (.committed id) => (.returned id, s)
  | _ =>
    match s._inflight url with
    | some rid => (.joined rid, s)
    | none => (.started s.resolutions.length, s.start url)

/-- `nodeServedInstanceId` when its attempt ends. -/
def nodeServedInstanceId (attempt : Nat) (reply : ProbeReply) : IdOutput × Phase :=
  match fetchNodeServedInstanceId reply with
  | .ok id => (.answered id, .probed ⟨id, true⟩)
  | .error name =>
    if isDefinitiveProbeError name then (.answered none, .probed ⟨none, true⟩)
    else if attempt ≥ 1 then (.unanswered, .probed ⟨none, false⟩)
    else (.retrying, .sleeping attempt)

/-- JavaScript's `(n || 0) + 1` on a double. -/
def evictInstanceId (s : IdState) (url : String) : IdState :=
  { s with
    _instanceIdCache := Function.update s._instanceIdCache url none
    _inflight := Function.update s._inflight url none
    _evictGen := Function.update s._evictGen url (toDouble (s._evictGen url + 1)) }

/-- The resolution `r` goes on after its probe. -/
def resume (s : IdState) (rid : Nat) (r : Resolution) (probe : Probe) (docker : Docker) : IdOutput × IdState :=
  match r.cached.bind (s.objects[·]?) with
  | some cached =>
    let v := afterReprobe r.url (s.evicted r) cached probe
    (.settled v, s.settle rid r v)
  | none =>
    match afterProbe r.url (s.evicted r) probe docker with
    | some v => (.settled v, s.settle rid r v)
    | none => (.readsGenesis, s.setPhase rid (.genesis probe))

def idStep (s : IdState) : IdEvent → Option (IdOutput × IdState)
  | .call url => some (instanceId s url)
  | .evict url => some (.done, evictInstanceId s url)
  | .respond rid reply =>
    match s.resolutions[rid]? with
    | some ⟨_, _, _, .probing attempt⟩ =>
      let (out, phase) := nodeServedInstanceId attempt reply
      some (out, s.setPhase rid phase)
    | _ => none
  | .wake rid =>
    match s.resolutions[rid]? with
    | some ⟨_, _, _, .sleeping attempt⟩ => some (.woken, s.setPhase rid (.probing (attempt + 1)))
    | _ => none
  | .resume rid docker =>
    match s.resolutions[rid]? with
    | some ⟨url, gen, cached, .probed probe⟩ => some (resume s rid ⟨url, gen, cached, .probed probe⟩ probe docker)
    | _ => none
  | .genesis rid reply =>
    match s.resolutions[rid]? with
    | some ⟨url, gen, cached, .genesis probe⟩ =>
      let r : Resolution := ⟨url, gen, cached, .genesis probe⟩
      let v := afterGenesis url (s.evicted r) probe reply
      some (.settled v, s.settle rid r v)
    | _ => none
  | .cleanup rid =>
    match s.resolutions[rid]? with
    | some ⟨url, _, _, .settled _⟩ =>
      some (.done, { s.setPhase rid .cleaned with _inflight := Function.update s._inflight url none })
    | _ => none

/-- The runs of the module whose events satisfy `ok`. -/
def IdRun (ok : IdState → IdEvent → Prop) : List (IdEvent × IdOutput) → IdState → Prop :=
  Run idStep ok loadedModule

end HardhatTron

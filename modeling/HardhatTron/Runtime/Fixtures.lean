import HardhatTron.Node.SnapshotRuns
import HardhatTron.Runtime.Rpc
/-!
# `loadFixture`

The first `loadFixture(fn)` runs `fn` and records its data with a fresh snapshot;
later calls revert to that snapshot, take a new one in its place and return the
recorded data. Reverting discards every newer snapshot on the node, so the
entries that hold one are evicted from the list.

`fn` is test code: it may write to the stores, call `loadFixture` on other
fixtures, and return or throw. So a process is a machine: a call of
`loadFixture` runs up to `await fn()`, and what `fn` does follows as further
events, with the fixtures whose `fn` is running kept on a stack.
-/
namespace HardhatTron

open Lib

variable {S F D : Type}

/-! ## The process and its node -/

/-- An entry of `_fixtureSnapshots`; `snapshotId` is the live id of its restorer. -/
structure FixtureSnapshot (F D : Type) where
  snapshotId : String
  fixture : F
  data : D

/-- A fixture whose `fn()` is awaited; `record` when its result will be recorded. -/
structure Frame (F : Type) where
  fixture : F
  record : Bool

/-- The node and the module state of the test process. `sentDrops` are the ids of
the fire-and-forget `tre_dropSnapshot` calls made so far. -/
structure Process (S F D : Type) where
  node : TreNode S
  _fixtureSnapshots : List (FixtureSnapshot F D)
  _snapshotSupported : Option Bool
  _cachedSigners : Bool
  running : List (Frame F)
  sentDrops : List String

/-- What `loadFixture` throws. -/
inductive FixtureError where
  | anonymous
  | signers (message : String)
  | fetch (e : FetchError)
  | revertFailed (e : RpcException)
  | snapshotFailed (r : NodeReply)
  | fixture (message : String)

/-- What one wave of `tre_setAccountBalance` calls did: the accounts written, and
the error of a call that failed. -/
structure Funding where
  writes : List (Bytes × Bytes)
  error : Option String

/-- What the calls of one `loadFixture` meet. -/
structure LoadEnv where
  makeSigners : Funding
  version : Attempts
  refundSigners : Funding
  revert : Attempts
  snapshot : Attempts

def fund (db : IRevokingDB S) (f : Funding) (n : TreNode S) : Option String × TreNode S :=
  (f.error, f.writes.foldl (fun n w => (exec db n (.put .accountStore w.1 w.2)).2) n)

/-- `makeSigners`: derive and fund the signers once per process. -/
def makeSigners (db : IRevokingDB S) (f : Funding) (b : Process S F D) :
    Except FixtureError Unit × Process S F D :=
  if b._cachedSigners then (.ok (), b)
  else
    match fund db f b.node with
    | (some e, node) => (.error (.signers e), { b with node })
    | (none, node) => (.ok (), { b with node, _cachedSigners := true })

def refundSigners (db : IRevokingDB S) (f : Funding) (b : Process S F D) :
    Except FixtureError Unit × Process S F D :=
  if !b._cachedSigners then (.ok (), b)
  else
    match fund db f b.node with
    | (some e, node) => (.error (.signers e), { b with node })
    | (none, node) => (.ok (), { b with node })

/-- What the patched node answers to `tre_version`. -/
def version : String := "v2.0.0-oz-tron"

/-- `/oz-tron/.test(v)`. -/
def isPatched (v : String) : Bool := decide ("oz-tron".toList <:+: v.toList)

/-- `_supportsSnapshot`: probed once; a probe that fails counts as unsupported. -/
def _supportsSnapshot (a : Attempts) (b : Process S F D) : Bool × Process S F D :=
  match b._snapshotSupported with
  | some s => (s, b)
  | none =>
    let s := match (rpcCall (fun n => (version, n)) a b.node).1 with
      | .ok v => isPatched v
      | .error _ => false
    (s, { b with _snapshotSupported := some s })

def _takeSnapshot (db : IRevokingDB S) (a : Attempts) (n : TreNode S) : Except FixtureError String × TreNode S :=
  match rpcCall (fun n => exec db n .tre_snapshot) a n with
  | (.error e, n) => (.error (.fetch e), n)
  | (.ok (.id i), n) => (.ok i, n)
  | (.ok r, n) => (.error (.snapshotFailed r), n)

/-- `restore` of a restorer with the id `snapshotId`: revert, then take a new snapshot. -/
def restore (db : IRevokingDB S) (env : LoadEnv) (snapshotId : String) (n : TreNode S) :
    Except FixtureError String × TreNode S :=
  match rpcCall (fun n => exec db n (.tre_revert (some snapshotId))) env.revert n with
  | (.error e, n) => (.error (.fetch e), n)
  | (.ok (.error e), n) => (.error (.revertFailed e), n)
  | (.ok _, n) => _takeSnapshot db env.snapshot n

/-- What a step returns to its caller. -/
inductive Outcome (F D : Type) where
  | entered (fn : F)
  | restored (fn : F) (data : D)
  | recorded (fn : F) (data : D)
  | unrecorded (fn : F) (data : D)
  | threw (fn : F) (e : FixtureError)
  | silent

section
variable [DecidableEq F]

/-- The list after `fn`'s entry was restored under `newId`: its own place is kept,
and the others stay if `Number(id) <= oldId`. -/
def keptEntries (fn : F) (newId : String) (l : List (FixtureSnapshot F D)) : List (FixtureSnapshot F D) :=
  match l.dropWhile (·.fixture ≠ fn) with
  | [] => l
  | snapshot :: after =>
    let oldId := numberOfHex snapshot.snapshotId
    let keep := fun s : FixtureSnapshot F D => numberLe (numberOfHex s.snapshotId) oldId
    (l.takeWhile (·.fixture ≠ fn)).filter keep ++ { snapshot with snapshotId := newId } :: after.filter keep

/-- The evicted entries: the others with `Number(id) > oldId`. -/
def evictedEntries (fn : F) (l : List (FixtureSnapshot F D)) : List (FixtureSnapshot F D) :=
  match l.dropWhile (·.fixture ≠ fn) with
  | [] => []
  | snapshot :: after =>
    let oldId := numberOfHex snapshot.snapshotId
    (l.takeWhile (·.fixture ≠ fn) ++ after).filter fun s => numberGt (numberOfHex s.snapshotId) oldId

/-- `loadFixture(fn)` up to `await fn()`, or to its return when `fn` is not run. -/
def loadFixture (db : IRevokingDB S) (name : F → String) (fn : F) (env : LoadEnv) (b : Process S F D) :
    Outcome F D × Process S F D :=
  if name fn = "" then (.threw fn .anonymous, b)
  else
    match makeSigners db env.makeSigners b with
    | (.error e, b) => (.threw fn e, b)
    | (.ok (), b) =>
      match _supportsSnapshot env.version b with
      | (false, b) => (.entered fn, { b with running := ⟨fn, false⟩ :: b.running })
      | (true, b) =>
        match b._fixtureSnapshots.find? (·.fixture = fn) with
        | none =>
          match refundSigners db env.refundSigners b with
          | (.error e, b) => (.threw fn e, b)
          | (.ok (), b) => (.entered fn, { b with running := ⟨fn, true⟩ :: b.running })
        | some snapshot =>
          match restore db env snapshot.snapshotId b.node with
          | (.error e, node) => (.threw fn e, { b with node })
          | (.ok newId, node) =>
            (.restored fn snapshot.data,
              { b with
                node
                _fixtureSnapshots := keptEntries fn newId b._fixtureSnapshots
                sentDrops := b.sentDrops ++ (evictedEntries fn b._fixtureSnapshots).map (·.snapshotId) })

/-- The rest of `loadFixture` once `fn()` resolved with `data`. -/
def fnReturns (db : IRevokingDB S) (f : Frame F) (data : D) (a : Attempts) (b : Process S F D) :
    Outcome F D × Process S F D :=
  if !f.record then (.unrecorded f.fixture data, b)
  else
    match _takeSnapshot db a b.node with
    | (.error e, node) => (.threw f.fixture e, { b with node })
    | (.ok id, node) =>
      (.recorded f.fixture data, { b with node, _fixtureSnapshots := b._fixtureSnapshots ++ [⟨id, f.fixture, data⟩] })

/-! ## Its runs -/

inductive FixtureEvent (F D : Type) where
  | loadFixture (fn : F) (env : LoadEnv)
  | fnReturns (data : D) (snapshot : Attempts)
  | fnThrows (message : String)
  | put (name : StoreName) (k v : Bytes)
  | delete (name : StoreName) (k : Bytes)
  | dropArrives (id : String)

/-- The innermost running `fn` returns or throws; a sent drop may arrive at any
later time, and more than once if it is retried. -/
def fixtureStep (db : IRevokingDB S) (name : F → String) (b : Process S F D) :
    FixtureEvent F D → Option (Outcome F D × Process S F D)
  | .loadFixture fn env => some (loadFixture db name fn env b)
  | .fnReturns data a =>
    match b.running with
    | [] => none
    | f :: running => some (fnReturns db f data a { b with running })
  | .fnThrows message =>
    match b.running with
    | [] => none
    | f :: running => some (.threw f.fixture (.fixture message), { b with running })
  | .put name k v => some (.silent, { b with node := (exec db b.node (.put name k v)).2 })
  | .delete name k => some (.silent, { b with node := (exec db b.node (.delete name k)).2 })
  | .dropArrives id =>
    if id ∈ b.sentDrops then some (.silent, { b with node := (exec db b.node (.tre_dropSnapshot (some id))).2 })
    else none

/-- A fresh test process beside a node that has just started. -/
def startProcess (st : Stores S) : Process S F D := ⟨startNode st, [], none, false, [], []⟩

/-- The runs of a test process whose events satisfy `ok`. -/
def FixtureRun (db : IRevokingDB S) (name : F → String) (st : Stores S)
    (ok : Process S F D → FixtureEvent F D → Prop) :
    List (FixtureEvent F D × Outcome F D) → Process S F D → Prop :=
  Run (fixtureStep db name) ok (startProcess st)

end

end HardhatTron

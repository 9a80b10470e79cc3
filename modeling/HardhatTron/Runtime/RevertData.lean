import HardhatTron.Runtime.AbiTypes
import HardhatTron.Runtime.AddressArgs
import HardhatTron.Runtime.CreateMappings
/-!
# What a failed call shows

A transaction that fails often says nothing about why, so the bridge simulates the
call again, and where the simulator says nothing either it may put in one of two
selectors that the contract's code contains. All that a test can match is the data
of the error that comes out.

`call_explained` goes through every route of a facade's method and every answer of
the node: a failed transaction always throws with data, the data is never invented,
and an error without data has one of the causes in `WithoutData`. What a call leaves in the registries is in
`Runtime.TxReceipts` and `Runtime.CreateMappings`.
-/
namespace HardhatTron.RevertData

open Lib

/-! ## Requests and answers -/

/-- A function of an ABI: its name and inputs, its mutability and the types of its outputs. -/
structure MethodAbi where
  abi : AbiFunction
  fn : FnAbi

/-- The body of `/wallet/triggerconstantcontract`; there is no value in it. -/
structure TriggerRequest where
  owner_address : JsString
  contract_address : JsString
  function_selector : JsString
  parameter : JsString

/-- `result.code`, `result.message` and `constant_result[0]` of the answer. -/
structure TriggerAnswer where
  code : JsString
  message : JsString
  constantResult : JsString

def TriggerAnswer.reverted (t : TriggerAnswer) : Bool := !t.code.isEmpty || !t.message.isEmpty

/-- `constant_result[0]` with its prefix, or `0x`. -/
def TriggerAnswer.raw (t : TriggerAnswer) : JsString := "0x".toList ++ t.constantResult

/-- The codecs; `none` is a throw, and what they throw has no data. -/
structure CallEnv (V : Type) where
  ethers : Ethers
  codec : AddressCodec
  encodeFunctionData : AbiFunction → List JsValue → Option JsString
  /-- `decodeReturn(iface.decodeFunctionResult(fragment, raw), outputs)` -/
  decodeFunctionResult : MethodAbi → JsString → Option V

/-- What the node answers during one call; `none` is a request that fails. -/
structure NodeAnswers (V : Type) where
  triggerconstantcontract : TriggerRequest → Option TriggerAnswer
  /-- The bytecode that `getContract` gives to the simulation. -/
  simulatedCode : JsString → Option JsString
  /-- The bytecode that `getContract` gives after the simulation. -/
  code : JsString → Option JsString
  /-- TronWeb's own `call()`, decoded. -/
  call : Option V

/-- Who calls which contract. -/
structure Endpoint where
  owner : JsString
  /-- `tronWeb._impersonatedFrom` is the owner. -/
  impersonated : Bool
  address : JsString
  evmToTvm : EvmToTvm

/-! ## The simulation -/

/-- The address of an argument, in lowercase hex. -/
def argumentHex (codec : AddressCodec) : JsValue → Option JsString
  | .str s =>
    if "0x".toList.isPrefixOf s && s.length == 42 then some (s.map Char.toLower)
    else if isTronAddress s then (codec.toHex s).map fun hex => "0x".toList ++ (hex.drop 2).map Char.toLower
    else none
  | _ => none

/-- `/^0x0{39}[4-9a]$/i.test(hex)` -/
def isMissingPrecompile (hex : JsString) : Bool :=
  hex.take 41 == "0x".toList ++ List.replicate 39 '0' &&
    match hex.drop 41 with
    | [c] => "456789aA".toList.contains c
    | _ => false

def hasTvmUnsupportedPrecompileArg (codec : AddressCodec) (args : List JsValue) (inputs : List AbiInput) : Bool :=
  (args.zip inputs).any fun e => e.2.type == "address".toList && (argumentHex codec e.1).any isMissingPrecompile

/-- `FailedDeployment()` -/
def failedDeployment : JsString := "0xb06ebf3d".toList

/-- `FailedCall()` -/
def failedCall : JsString := "0xd6bda275".toList

/-- `outputs.length > 0 && outputs[0].type === 'address'` -/
def addressFirst (fn : FnAbi) : Bool := fn.outputs.head?.any (· == "address".toList)

def synthSelector (fn : FnAbi) : JsString := if addressFirst fn then failedDeployment else failedCall

/-- `code.includes(selector.slice(2))` -/
def includesSelector (code selector : JsString) : Bool :=
  ("0x".toList ++ code.map Char.toLower).tails.any fun rest => (selector.drop 2).isPrefixOf rest

inductive Simulated (V : Type) where
  /-- `none` is `undefined`. -/
  | returned (v : Option V)
  /-- Zeros, for an answer that java-tron cannot give. -/
  | recovered (v : V)
  | threw (data reason : Option JsString)

section

variable {V : Type} (env : CallEnv V) (m : MethodAbi) (e : Endpoint)

/-- The request, unless an encoder throws. -/
def simulationRequest (normalized : List JsValue) : Option TriggerRequest := do
  let coerced ← normalized.zipIdx.mapM fun v => coerceForEthers env.codec v.1 m.abi.inputs[v.2]?
  let calldata ← env.encodeFunctionData m.abi coerced
  let owner ← env.codec.toHex e.owner
  let contract ← env.codec.toHex (contractAddrForCall env.codec e.evmToTvm e.address)
  return ⟨owner, contract, canonicalSig m.abi, calldata.drop 10⟩

/-- Two zero words for every output. -/
def zeroResult : JsString := "0x".toList ++ List.replicate (128 * max 1 m.fn.outputs.length) '0'

/-- What is made of an answer that reverted. -/
def simulatedRevert (a : NodeAnswers V) (normalized : List JsValue) (raw : JsString) : Simulated V :=
  let recovered := if raw == "0x".toList && hasTvmUnsupportedPrecompileArg env.codec normalized m.abi.inputs then
    env.decodeFunctionResult m (zeroResult m) else none
  match recovered with
  | some v => .recovered v
  | none =>
    let code := a.simulatedCode (contractAddrForCall env.codec e.evmToTvm e.address)
    if raw == "0x".toList && code.any (includesSelector · (synthSelector m.fn)) then
      .threw (some (synthSelector m.fn)) none
    else .threw (some raw) (revertReason env.ethers raw)

def staticCallWithRevertData (a : NodeAnswers V) (normalized : List JsValue) : Simulated V :=
  match (simulationRequest env m e normalized).bind a.triggerconstantcontract with
  | none => .threw none none
  | some res =>
    if !res.reverted then
      if res.raw == "0x".toList && m.fn.outputs.isEmpty then .returned none
      else
        match env.decodeFunctionResult m res.raw with
        | some v => .returned (some v)
        | none => .threw none none
    else simulatedRevert env m e a normalized res.raw

/-! ## The routes -/

/-- How the broadcast of a call ends. -/
inductive Broadcasted where
  /-- TronWeb's `send`, or a request of the other routes, throws. -/
  | failed (message : JsString)
  /-- Nothing was sent, or no receipt came. -/
  | aborted
  | mined (txId : JsString) (info : Option TransactionInfo) (given : TxMeta)

inductive CallOutcome (V : Type) where
  | returned (v : Option V)
  | gas (estimate : Nat)
  | response (r : TxResponse)
  | threw (data reason : Option JsString)

def Simulated.simulation {V : Type} : Simulated V → Simulation
  | .returned _ => .returned
  | .recovered _ => .returned
  | .threw data reason => .threw data reason

def hasTupleInput : Bool := m.abi.inputs.any fun i => i.type == "tuple".toList || "tuple[".toList.isPrefixOf i.type

/-- `/Not enough energy|OUT_OF_ENERGY|REVERT/.test(message)` -/
def isRetried (message : JsString) : Bool :=
  message.tails.any fun rest => "Not enough energy".toList.isPrefixOf rest || "OUT_OF_ENERGY".toList.isPrefixOf rest ||
    "REVERT".toList.isPrefixOf rest

/-- `buildRevertErrorWithSim`, up to the registry. -/
def resimulation (a : NodeAnswers V) (normalized : List JsValue) : Resimulation :=
  ⟨(staticCallWithRevertData env m e a normalized).simulation,
    addressFirst m.fn && (a.code e.address).any (includesSelector · failedDeployment)⟩

/-- The `catch` of TronWeb's `send`, for an error that names a revert. -/
def afterSendError (a : NodeAnswers V) (normalized : List JsValue) : CallOutcome V :=
  let synthesized := (a.code e.address).any (includesSelector · (synthSelector m.fn))
  match staticCallWithRevertData env m e a normalized with
  | .threw none reason => .threw none reason
  | .threw (some data) reason =>
    if data ≠ "0x".toList then .threw (some data) reason
    else if synthesized then .threw (some (synthSelector m.fn)) none
    else .threw (some data) reason
  | _ => if synthesized then .threw (some (synthSelector m.fn)) none else .threw none none

def CallOutcome.ofReply {V : Type} : TxReply → CallOutcome V
  | .response r => .response r
  | .reverted err => .threw (some err.data) err.reason
  | .threw => .threw none none

/-- A call that changes state. -/
def invokeWrite (a : NodeAnswers V) (knownReceipts : KnownReceipts) (normalized : List JsValue) :
    Broadcasted → CallOutcome V
  | .aborted => .threw none none
  | .mined txId info given =>
    .ofReply (finishInvoke env.ethers knownReceipts txId info given (resimulation env m e a normalized)).1
  | .failed message =>
    if !e.impersonated && !hasTupleInput m && isRetried message then afterSendError env m e a normalized
    else .threw none none

/-- TronWeb's `call()`, which is for view and pure methods only. -/
def viewCall (a : NodeAnswers V) : CallOutcome V :=
  if m.fn.isView then a.call.elim (.threw none none) fun v => .returned (some v) else .threw none none

/-- A call that reads: TronWeb's `call()` if the simulation fails without data. -/
def invokeView (a : NodeAnswers V) (normalized : List JsValue) : CallOutcome V :=
  match staticCallWithRevertData env m e a normalized with
  | .returned v => .returned v
  | .recovered v => .returned (some v)
  | .threw (some data) reason => .threw (some data) reason
  | .threw none _ => viewCall m a

def estimateGas (a : NodeAnswers V) (normalized : List JsValue) : CallOutcome V :=
  match staticCallWithRevertData env m e a normalized with
  | .threw data reason => .threw data reason
  | _ => .gas (if m.fn.isView then 21000 else 50000)

def staticCall (a : NodeAnswers V) (normalized : List JsValue) : CallOutcome V :=
  if m.fn.stateMutability = .payable then
    match staticCallWithRevertData env m e a normalized with
    | .returned v => .returned v
    | .recovered v => .returned (some v)
    | .threw data reason => .threw data reason
  else viewCall m a

/-- What is done with a method; `invoke` simulates or broadcasts. -/
inductive MethodUse (m : MethodAbi) where
  | view (rawArgs : List JsValue) (isRead : m.fn.isView = true)
  | broadcast (rawArgs : List JsValue) (isWrite : m.fn.isView = false) (b : Broadcasted)
  | estimateGas (args : List JsValue)
  | staticCall (rawArgs : List JsValue)

def normalizeArgs (args : List JsValue) : Option (List JsValue) :=
  args.zipIdx.mapM fun v => normalizeArg env.codec e.evmToTvm v.1 m.abi.inputs[v.2]? false

/-- The arguments without overrides. -/
def MethodUse.args {m : MethodAbi} : MethodUse m → List JsValue
  | .view rawArgs _ => (splitOverrides rawArgs (some m.abi.inputs.length)).args
  | .broadcast rawArgs _ _ => (splitOverrides rawArgs (some m.abi.inputs.length)).args
  | .estimateGas args => args
  | .staticCall rawArgs => (splitOverrides rawArgs (some m.abi.inputs.length)).args

def MethodUse.run {m : MethodAbi} (a : NodeAnswers V) (knownReceipts : KnownReceipts) (u : MethodUse m) : CallOutcome V :=
  match normalizeArgs env m e u.args with
  | none => .threw none none
  | some normalized =>
    match u with
    | .view _ _ => invokeView env m e a normalized
    | .broadcast _ _ b => invokeWrite env m e a knownReceipts normalized b
    | .estimateGas _ => HardhatTron.RevertData.estimateGas env m e a normalized
    | .staticCall _ => HardhatTron.RevertData.staticCall env m e a normalized

end

/-! ## Where data and values come from -/

/-- If there was a transaction, it left no data. -/
def NoTransactionData {m : MethodAbi} (u : MethodUse m) : Prop :=
  ∀ rawArgs isWrite txId info given, u = .broadcast rawArgs isWrite (.mined txId info given) → revertData info = "0x".toList

section

variable {V : Type} (env : CallEnv V) (m : MethodAbi) (e : Endpoint) (a : NodeAnswers V) (u : MethodUse m)
  (normalized : List JsValue)

/-- What the simulator answers to the call with these arguments. -/
def simulatorAnswer : Option TriggerAnswer := (simulationRequest env m e normalized).bind a.triggerconstantcontract

/-- The simulator did not answer, or with a value that does not decode. -/
def SimulationFailed : Prop :=
  ∀ res, simulatorAnswer env m e a normalized = some res → res.reverted = false ∧ env.decodeFunctionResult m res.raw = none

/-- If the simulator reverted, it gave no data. -/
def NoSimulationData : Prop :=
  ∀ res, simulatorAnswer env m e a normalized = some res → res.reverted = true → res.raw = "0x".toList

/-- A selector that the node's copy of the contract contains. -/
def InCode (selector : JsString) : Prop :=
  ∃ code, (a.simulatedCode (contractAddrForCall env.codec e.evmToTvm e.address) = some code ∨
    a.code e.address = some code) ∧ includesSelector code selector = true

/-- The transaction's own data comes first, then the simulator's, then a selector. -/
inductive Provenance (data : JsString) : Prop
  | transaction {rawArgs : List JsValue} {isWrite : m.fn.isView = false} {txId : JsString} {info : Option TransactionInfo}
    {given : TxMeta} (hu : u = .broadcast rawArgs isWrite (.mined txId info given)) (hfailed : succeeded info = false)
    (hdata : revertData info = data) (hne : data ≠ "0x".toList)
  | simulation {res : TriggerAnswer} (hres : simulatorAnswer env m e a normalized = some res) (hreverted : res.reverted = true)
    (hdata : res.raw = data) (hne : data ≠ "0x".toList) (htx : NoTransactionData u)
  | selector (hdata : data = synthSelector m.fn) (hcode : InCode env e a data) (htx : NoTransactionData u)
    (hsim : NoSimulationData env m e a normalized)
  | nothing (hdata : data = "0x".toList) (htx : NoTransactionData u) (hsim : NoSimulationData env m e a normalized)

/-- The decoded answer, or zeros for an argument that names a precompile the node does not have. -/
inductive SimulatedValue (v : Option V) : Prop
  | decoded {res : TriggerAnswer} (hres : simulatorAnswer env m e a normalized = some res) (hok : res.reverted = false)
    (hv : v = none ∧ res.raw = "0x".toList ∧ m.fn.outputs = [] ∨ v ≠ none ∧ v = env.decodeFunctionResult m res.raw)
  | zeros {res : TriggerAnswer} (hres : simulatorAnswer env m e a normalized = some res) (hreverted : res.reverted = true)
    (hraw : res.raw = "0x".toList) (harg : hasTvmUnsupportedPrecompileArg env.codec normalized m.abi.inputs = true)
    (hv : v ≠ none ∧ v = env.decodeFunctionResult m (zeroResult m))

/-- TronWeb's answer, to a method that may use its `call()`; `invoke` asks for it where the
simulation failed. -/
structure CalledValue (v : Option V) : Prop where
  isView : m.fn.isView = true
  value : v ≠ none ∧ v = a.call
  simulated : ∀ rawArgs isRead, u = .view rawArgs isRead → SimulationFailed env m e a normalized

/-- Why an error has no data. -/
inductive WithoutData : Prop
  | view {rawArgs isRead} (hu : u = .view rawArgs isRead) (hsim : SimulationFailed env m e a normalized)
      (hcall : a.call = none)
  | estimateGas {args} (hu : u = .estimateGas args) (hsim : SimulationFailed env m e a normalized)
  | staticCall {rawArgs} (hu : u = .staticCall rawArgs) (hpayable : m.fn.stateMutability = .payable)
      (hsim : SimulationFailed env m e a normalized)
  | tronWebCall {rawArgs} (hu : u = .staticCall rawArgs) (hpayable : m.fn.stateMutability ≠ .payable)
      (hcall : m.fn.isView = true → a.call = none)
  | notSent {rawArgs isWrite} (hu : u = .broadcast rawArgs isWrite .aborted)
  | sendFailed {rawArgs isWrite message} (hu : u = .broadcast rawArgs isWrite (.failed message))
      (hroute : e.impersonated = true ∨ hasTupleInput m = true ∨ isRetried message = false)
  /-- The failed send is simulated, and the simulation has nothing to say of it. -/
  | sendSimulated {rawArgs isWrite message} (hu : u = .broadcast rawArgs isWrite (.failed message))
      (hsim : SimulationFailed env m e a normalized ∨ (∃ v, SimulatedValue env m e a normalized v) ∧
        ∀ code, a.code e.address = some code → includesSelector code (synthSelector m.fn) = false)
  /-- The transaction succeeded, and an address of the response does not respell. -/
  | respelling {rawArgs isWrite txId info given} (hu : u = .broadcast rawArgs isWrite (.mined txId info given))
      (hsucceeded : succeeded info = true)
      (haddress : projected env.ethers given.fromBase58 = none ∨ projected env.ethers given.toBase58 = none)

/-- What an outcome tells of the node's answers. -/
def Explained : CallOutcome V → Prop
  | .returned v =>
    ((∃ rawArgs isRead, u = .view rawArgs isRead) ∨ ∃ rawArgs, u = .staticCall rawArgs) ∧
      (SimulatedValue env m e a normalized v ∨ CalledValue env m e a u normalized v)
  | .gas _ => (∃ args, u = .estimateGas args) ∧ ∃ v, SimulatedValue env m e a normalized v
  | .response _ =>
    ∃ rawArgs isWrite txId info given, u = .broadcast rawArgs isWrite (.mined txId info given) ∧ succeeded info = true
  | .threw (some data) reason => Provenance env m e a u normalized data ∧ reason = revertReason env.ethers data
  | .threw none reason => WithoutData env m e a u normalized ∧ reason = none

/-- How a simulation ends, with what the node answered. -/
inductive SimulationEffect : Simulated V → Prop
  | returned (v : Option V) (hv : SimulatedValue env m e a normalized v) : SimulationEffect (.returned v)
  | recovered (v : V) (hv : SimulatedValue env m e a normalized (some v)) : SimulationEffect (.recovered v)
  | failed (hsim : SimulationFailed env m e a normalized) : SimulationEffect (.threw none none)
  | data (res : TriggerAnswer) (hres : simulatorAnswer env m e a normalized = some res) (hreverted : res.reverted = true)
    (hne : res.raw ≠ "0x".toList) : SimulationEffect (.threw (some res.raw) (revertReason env.ethers res.raw))
  | selector (hcode : InCode env e a (synthSelector m.fn)) (hsim : NoSimulationData env m e a normalized) :
    SimulationEffect (.threw (some (synthSelector m.fn)) none)
  | empty (hsim : NoSimulationData env m e a normalized) : SimulationEffect (.threw (some "0x".toList) none)

end

section

variable {V : Type} {env : CallEnv V} {m : MethodAbi} {e : Endpoint} {a : NodeAnswers V} {u : MethodUse m}
  {normalized : List JsValue}

theorem revertReason_empty (ethers : Ethers) : revertReason ethers "0x".toList = none := if_neg (by decide)

theorem revertReason_synthSelector (ethers : Ethers) (fn : FnAbi) : revertReason ethers (synthSelector fn) = none := by
  unfold synthSelector
  split
  · exact if_neg (by decide)
  · exact if_neg (by decide)

theorem synthSelector_ne (fn : FnAbi) : synthSelector fn ≠ "0x".toList := by
  unfold synthSelector
  split <;> decide

theorem NoSimulationData.of_answer {res : TriggerAnswer} (hres : simulatorAnswer env m e a normalized = some res)
    (h : res.reverted = true → res.raw = "0x".toList) : NoSimulationData env m e a normalized := by
  intro res' hres' hreverted
  obtain rfl := Option.some.inj (hres.symm.trans hres')
  exact h hreverted

theorem SimulationFailed.noData (h : SimulationFailed env m e a normalized) : NoSimulationData env m e a normalized := by
  intro res hres hreverted
  rw [(h res hres).1] at hreverted
  cases hreverted

/-- A simulation with a value has no data. -/
theorem SimulatedValue.noData {v : Option V} (h : SimulatedValue env m e a normalized v) :
    NoSimulationData env m e a normalized := by
  cases h with
  | decoded hres hok _ => exact .of_answer hres fun hreverted => by simp [hok] at hreverted
  | zeros hres _ hraw _ _ => exact .of_answer hres fun _ => hraw

theorem simulatedRevert_effect {res : TriggerAnswer} (hres : simulatorAnswer env m e a normalized = some res)
    (hreverted : res.reverted = true) :
    SimulationEffect env m e a normalized (simulatedRevert env m e a normalized res.raw) := by
  unfold simulatedRevert
  by_cases hraw : res.raw = "0x".toList
  · have hsim : NoSimulationData env m e a normalized := .of_answer hres fun _ => hraw
    simp only [hraw, beq_self_eq_true, Bool.true_and]
    split
    · rename_i v hv
      split at hv
      · rename_i harg
        exact .recovered v (.zeros hres hreverted hraw harg ⟨by simp, hv.symm⟩)
      · cases hv
    · split
      · rename_i hcode
        obtain ⟨code, hcode, hincludes⟩ := (Option.any_eq_true _ _).1 hcode
        exact .selector ⟨code, .inl hcode, hincludes⟩ hsim
      · rw [revertReason_empty]
        exact .empty hsim
  · have hbeq : (res.raw == "0x".toList) = false := by simpa using hraw
    simp only [hbeq, Bool.false_and, Bool.false_eq_true, if_false]
    exact .data res hres hreverted hraw

theorem staticCallWithRevertData_effect :
    SimulationEffect env m e a normalized (staticCallWithRevertData env m e a normalized) := by
  unfold staticCallWithRevertData
  split
  · rename_i hnone
    refine .failed fun res hres => ?_
    rw [simulatorAnswer, hnone] at hres
    cases hres
  · rename_i res hres
    split
    · rename_i hok
      have hok : res.reverted = false := by simpa using hok
      split
      · rename_i hempty
        simp only [Bool.and_eq_true, beq_iff_eq, List.isEmpty_iff] at hempty
        exact .returned none (.decoded hres hok (.inl ⟨rfl, hempty⟩))
      · split
        · rename_i v hv
          exact .returned (some v) (.decoded hres hok (.inr ⟨by simp, hv.symm⟩))
        · rename_i hnone
          refine .failed fun res' hres' => ?_
          obtain rfl := Option.some.inj (Eq.trans (Eq.symm hres) hres')
          exact ⟨hok, hnone⟩
    · rename_i hreverted
      exact simulatedRevert_effect hres (by simpa using hreverted)

/-! ### The routes -/

theorem SimulationEffect.explained {s : Simulated V} (h : SimulationEffect env m e a normalized s)
    (htx : NoTransactionData u) {data : JsString} {reason : Option JsString} (hs : s = .threw (some data) reason) :
    Explained env m e a u normalized (.threw (some data) reason) := by
  cases h with
  | returned | recovered | failed => cases hs
  | data res hres hreverted hne =>
    cases hs
    exact ⟨.simulation hres hreverted rfl hne htx, rfl⟩
  | selector hcode hsim =>
    cases hs
    exact ⟨.selector rfl hcode htx hsim, (revertReason_synthSelector _ _).symm⟩
  | empty hsim =>
    cases hs
    exact ⟨.nothing rfl htx hsim, (revertReason_empty _).symm⟩

theorem SimulationEffect.of_none {reason : Option JsString}
    (h : SimulationEffect env m e a normalized (.threw none reason)) :
    reason = none ∧ SimulationFailed env m e a normalized := by
  cases h with
  | failed hsim => exact ⟨rfl, hsim⟩

/-- TronWeb's `call()`, where it may be asked: it has a value or fails. -/
theorem viewCall_cases (hview : m.fn.isView = true) :
    (∃ v, a.call = some v ∧ viewCall m a = .returned (some v)) ∨ (a.call = none ∧ viewCall m a = .threw none none) := by
  unfold viewCall
  rw [if_pos hview]
  cases a.call with
  | none => exact .inr ⟨rfl, rfl⟩
  | some v => exact .inl ⟨v, rfl, rfl⟩

theorem invokeView_explained {rawArgs : List JsValue} {isRead : m.fn.isView = true} (hu : u = .view rawArgs isRead) :
    Explained env m e a u normalized (invokeView env m e a normalized) := by
  have htx : NoTransactionData u := by
    rintro _ _ _ _ _ hu'
    rw [hu] at hu'
    cases hu'
  have hreads : (∃ rawArgs isRead, u = .view rawArgs isRead) ∨ ∃ rawArgs, u = .staticCall rawArgs :=
    .inl ⟨rawArgs, isRead, hu⟩
  have heffect : SimulationEffect env m e a normalized _ := staticCallWithRevertData_effect
  unfold invokeView
  split
  · rename_i v hs
    rw [hs] at heffect
    cases heffect with
    | returned _ hv => exact ⟨hreads, .inl hv⟩
  · rename_i v hs
    rw [hs] at heffect
    cases heffect with
    | recovered _ hv => exact ⟨hreads, .inl hv⟩
  · rename_i data reason hs
    exact heffect.explained htx hs
  · rename_i hs
    rw [hs] at heffect
    have hsim := heffect.of_none.2
    rcases viewCall_cases (a := a) isRead with ⟨v, hcall, hv⟩ | ⟨hcall, hv⟩ <;> rw [hv]
    · exact ⟨hreads, .inr ⟨isRead, ⟨by simp, hcall.symm⟩, fun _ _ _ => hsim⟩⟩
    · exact ⟨.view hu hsim hcall, rfl⟩

theorem estimateGas_explained {args : List JsValue} (hu : u = .estimateGas args) :
    Explained env m e a u normalized (estimateGas env m e a normalized) := by
  have htx : NoTransactionData u := by
    rintro _ _ _ _ _ hu'
    rw [hu] at hu'
    cases hu'
  have heffect : SimulationEffect env m e a normalized _ := staticCallWithRevertData_effect
  unfold estimateGas
  split
  · rename_i data reason hs
    cases data with
    | some data => exact heffect.explained htx hs
    | none =>
      rw [hs] at heffect
      exact ⟨.estimateGas hu heffect.of_none.2, heffect.of_none.1⟩
  · rename_i hvalue
    generalize staticCallWithRevertData env m e a normalized = s at heffect hvalue
    cases heffect with
    | returned v hv => exact ⟨⟨args, hu⟩, v, hv⟩
    | recovered v hv => exact ⟨⟨args, hu⟩, some v, hv⟩
    | failed | data | selector | empty => exact absurd rfl (hvalue _ _)

theorem staticCall_explained {rawArgs : List JsValue} (hu : u = .staticCall rawArgs) :
    Explained env m e a u normalized (staticCall env m e a normalized) := by
  have htx : NoTransactionData u := by
    rintro _ _ _ _ _ hu'
    rw [hu] at hu'
    cases hu'
  have hreads : (∃ rawArgs isRead, u = .view rawArgs isRead) ∨ ∃ rawArgs, u = .staticCall rawArgs :=
    .inr ⟨rawArgs, hu⟩
  have heffect : SimulationEffect env m e a normalized _ := staticCallWithRevertData_effect
  unfold staticCall
  split
  · rename_i hpayable
    split
    · rename_i v hs
      rw [hs] at heffect
      cases heffect with
      | returned _ hv => exact ⟨hreads, .inl hv⟩
    · rename_i v hs
      rw [hs] at heffect
      cases heffect with
      | recovered _ hv => exact ⟨hreads, .inl hv⟩
    · rename_i data reason hs
      cases data with
      | some data => exact heffect.explained htx hs
      | none =>
        rw [hs] at heffect
        exact ⟨.staticCall hu hpayable heffect.of_none.2, heffect.of_none.1⟩
  · rename_i hpayable
    cases hview : m.fn.isView with
    | false =>
      have hrefused : viewCall m a = .threw none none := by simp [viewCall, hview]
      rw [hrefused]
      exact ⟨.tronWebCall hu hpayable fun h => absurd h (by simp [hview]), rfl⟩
    | true =>
      rcases viewCall_cases (a := a) hview with ⟨v, hcall, hv⟩ | ⟨hcall, hv⟩ <;> rw [hv]
      · refine ⟨hreads, .inr ⟨hview, ⟨by simp, hcall.symm⟩, fun rawArgs' isRead' hu' => ?_⟩⟩
        rw [hu] at hu'
        cases hu'
      · exact ⟨.tronWebCall hu hpayable fun _ => hcall, rfl⟩

theorem afterSendError_explained {rawArgs : List JsValue} {isWrite : m.fn.isView = false} {message : JsString}
    (hu : u = .broadcast rawArgs isWrite (.failed message)) :
    Explained env m e a u normalized (afterSendError env m e a normalized) := by
  have htx : NoTransactionData u := by
    rintro _ _ _ _ _ hu'
    rw [hu] at hu'
    cases hu'
  have heffect : SimulationEffect env m e a normalized _ := staticCallWithRevertData_effect
  have hselector : (a.code e.address).any (includesSelector · (synthSelector m.fn)) = true →
      NoSimulationData env m e a normalized →
      Explained env m e a u normalized (.threw (some (synthSelector m.fn)) none) := by
    intro hcode hsim
    obtain ⟨code, hcode, hincludes⟩ := (Option.any_eq_true _ _).1 hcode
    exact ⟨.selector rfl ⟨code, .inr hcode, hincludes⟩ htx hsim, (revertReason_synthSelector _ _).symm⟩
  unfold afterSendError
  dsimp only
  generalize staticCallWithRevertData env m e a normalized = s at heffect
  -- a simulation with a value, and no selector to put in
  have hsilent : ∀ v, SimulatedValue env m e a normalized v →
      ¬ (a.code e.address).any (includesSelector · (synthSelector m.fn)) = true →
      Explained env m e a u normalized (.threw none none) := by
    intro v hv hcode
    refine ⟨.sendSimulated hu (.inr ⟨⟨v, hv⟩, fun code hc => ?_⟩), rfl⟩
    simpa [hc] using hcode
  cases heffect with
  | returned v hv =>
    dsimp only
    split
    · exact hselector ‹_› hv.noData
    · exact hsilent v hv ‹_›
  | recovered v hv =>
    dsimp only
    split
    · exact hselector ‹_› hv.noData
    · exact hsilent (some v) hv ‹_›
  | failed hsim => exact ⟨.sendSimulated hu (.inl hsim), rfl⟩
  | data res hres hreverted hne =>
    dsimp only
    rw [if_pos hne]
    exact ⟨.simulation hres hreverted rfl hne htx, rfl⟩
  | selector hcode hsim =>
    dsimp only
    rw [if_pos (synthSelector_ne _)]
    exact ⟨.selector rfl hcode htx hsim, (revertReason_synthSelector _ _).symm⟩
  | empty hsim =>
    dsimp only
    rw [if_neg (not_not.2 rfl)]
    split
    · exact hselector ‹_› hsim
    · exact ⟨.nothing rfl htx hsim, (revertReason_empty _).symm⟩

/-- An error of a transaction, after the simulation. -/
theorem recoverData_explained {rawArgs : List JsValue} {isWrite : m.fn.isView = false} {txId : JsString}
    {info : Option TransactionInfo} {given : TxMeta} (hu : u = .broadcast rawArgs isWrite (.mined txId info given))
    (hfailed : succeeded info = false) {err : RevertError}
    (hdata : err.data = revertData info) (hreason : err.reason = revertReason env.ethers err.data) :
    Explained env m e a u normalized (.threw (some (recoverData err (resimulation env m e a normalized)).data)
      (recoverData err (resimulation env m e a normalized)).reason) := by
  unfold recoverData
  split
  · rename_i hne
    exact ⟨.transaction hu hfailed hdata.symm hne, hreason⟩
  · rename_i hempty
    rw [not_not] at hempty
    have htx : NoTransactionData u := by
      intro rawArgs' isWrite' txId' info' given' hu'
      obtain ⟨-, hb⟩ := MethodUse.broadcast.inj (hu.symm.trans hu')
      obtain ⟨-, rfl, -⟩ := Broadcasted.mined.inj hb
      exact hdata.symm.trans hempty
    have hnone : err.reason = none := by rw [hreason, hempty, revertReason_empty]
    have heffect : SimulationEffect env m e a normalized _ := staticCallWithRevertData_effect
    unfold resimulation
    dsimp only
    generalize staticCallWithRevertData env m e a normalized = s at heffect
    have hnothing : NoSimulationData env m e a normalized →
        Explained env m e a u normalized (.threw (some err.data) err.reason) := by
      intro hsim
      exact ⟨.nothing hempty htx hsim, hreason⟩
    -- the simulator gives a value for what the transaction could not create
    have hcreated : NoSimulationData env m e a normalized → ∀ err' : RevertError,
        err' = (if addressFirst m.fn && (a.code e.address).any (includesSelector · failedDeployment) then
          { err with data := failedDeployment } else err) →
        Explained env m e a u normalized (.threw (some err'.data) err'.reason) := by
      rintro hsim err' rfl
      split
      · rename_i hcode
        obtain ⟨haddress, hcode⟩ := Bool.and_eq_true_iff.1 hcode
        obtain ⟨code, hcode, hincludes⟩ := (Option.any_eq_true _ _).1 hcode
        have hselector : failedDeployment = synthSelector m.fn := (if_pos haddress).symm
        refine ⟨.selector hselector ⟨code, .inr hcode, hincludes⟩ htx hsim, ?_⟩
        dsimp only
        rw [hselector, revertReason_synthSelector, hnone]
      · exact hnothing hsim
    cases heffect with
    | returned v hv | recovered v hv => exact hcreated hv.noData _ rfl
    | failed hsim => exact hnothing hsim.noData
    | data res hres hreverted hne =>
      have hor : ∀ reason : Option JsString, (reason <|> none) = reason := by
        intro reason
        cases reason <;> rfl
      simp only [Simulated.simulation, if_pos hne, hnone, hor]
      exact ⟨.simulation hres hreverted rfl hne htx, rfl⟩
    | selector hcode hsim =>
      simp only [Simulated.simulation, if_pos (synthSelector_ne m.fn), hnone]
      exact ⟨.selector rfl hcode htx hsim, (revertReason_synthSelector _ _).symm⟩
    | empty hsim => exact hnothing hsim

theorem invokeWrite_explained {knownReceipts : KnownReceipts} {rawArgs : List JsValue}
    {isWrite : m.fn.isView = false} {b : Broadcasted} (hu : u = .broadcast rawArgs isWrite b) :
    Explained env m e a u normalized (invokeWrite env m e a knownReceipts normalized b) := by
  cases b with
  | aborted => exact ⟨.notSent hu, rfl⟩
  | failed message =>
    unfold invokeWrite
    dsimp only
    split
    · exact afterSendError_explained hu
    · rename_i hroute
      refine ⟨.sendFailed hu ?_, rfl⟩
      simp only [Bool.and_eq_true, Bool.not_eq_true', not_and, Bool.not_eq_true] at hroute
      cases himpersonated : e.impersonated with
      | true => exact .inl rfl
      | false =>
        cases htuple : hasTupleInput m with
        | true => exact .inr (.inl rfl)
        | false => exact .inr (.inr (hroute ⟨himpersonated, htuple⟩))
  | mined txId info given =>
    unfold invokeWrite finishInvoke
    dsimp only
    split
    · rename_i hsucceeded
      unfold makeTxResponse
      dsimp only
      split
      · exact ⟨rawArgs, isWrite, txId, info, given, hu, hsucceeded⟩
      · rename_i haddress
        refine ⟨.respelling hu hsucceeded ?_, rfl⟩
        cases hsender : projected env.ethers given.fromBase58 with
        | none => exact .inl rfl
        | some sender =>
          cases hrecipient : projected env.ethers given.toBase58 with
          | none => exact .inr rfl
          | some recipient => exact (haddress sender recipient hsender hrecipient).elim
    · rename_i hfailed
      exact recoverData_explained hu (by simpa using hfailed) rfl rfl

/-- A failed transaction is told of by an error with data. -/
theorem Explained.of_failed {outcome : CallOutcome V} (h : Explained env m e a u normalized outcome)
    {rawArgs : List JsValue} {isWrite : m.fn.isView = false} {txId : JsString} {info : Option TransactionInfo}
    {given : TxMeta} (hu : u = .broadcast rawArgs isWrite (.mined txId info given)) (hfailed : succeeded info = false) :
    ∃ data reason, outcome = .threw (some data) reason := by
  subst hu
  have hsame : ∀ {rawArgs' isWrite' txId' info' given'},
      (MethodUse.broadcast rawArgs isWrite (.mined txId info given) : MethodUse m) =
        .broadcast rawArgs' isWrite' (.mined txId' info' given') → succeeded info' = false := by
    intro _ _ _ _ _ hu'
    obtain ⟨-, hb⟩ := MethodUse.broadcast.inj hu'
    obtain ⟨-, rfl, -⟩ := Broadcasted.mined.inj hb
    exact hfailed
  cases outcome with
  | returned v =>
    obtain ⟨⟨_, _, hu'⟩ | ⟨_, hu'⟩, -⟩ := h
    · cases hu'
    · cases hu'
  | gas estimate =>
    obtain ⟨⟨_, hu'⟩, -⟩ := h
    cases hu'
  | response r =>
    obtain ⟨_, _, _, info', _, hu', hsucceeded⟩ := h
    rw [hsame hu'] at hsucceeded
    cases hsucceeded
  | threw data reason =>
    cases data with
    | some data => exact ⟨data, reason, rfl⟩
    | none =>
      obtain ⟨hcause, -⟩ := h
      cases hcause with
      | view hu' | estimateGas hu' | staticCall hu' | tronWebCall hu' | notSent hu' | sendFailed hu'
      | sendSimulated hu' => cases hu'
      | respelling hu' hsucceeded =>
        rw [hsame hu'] at hsucceeded
        cases hsucceeded

theorem run_explained (knownReceipts : KnownReceipts) (h : normalizeArgs env m e u.args = some normalized) :
    Explained env m e a u normalized (u.run env e a knownReceipts) := by
  rw [MethodUse.run, h]
  cases u with
  | view rawArgs isRead => exact invokeView_explained rfl
  | broadcast rawArgs isWrite b => exact invokeWrite_explained rfl
  | estimateGas args => exact estimateGas_explained rfl
  | staticCall rawArgs => exact staticCall_explained rfl

/-- **Nothing is invented.** Whatever the node answers to a use of a method: a response
means that the transaction succeeded, and a value is the decoded answer of a node or
the zeros for a missing precompile. A failed transaction is an error with data. The
data of an error is the failed transaction's own; where it has none, the simulator's;
where that has none, a selector in the contract's code or nothing. The reason is the
one that the data spells. -/
theorem call_explained (env : CallEnv V) (m : MethodAbi) (e : Endpoint) (a : NodeAnswers V) (knownReceipts : KnownReceipts)
    (u : MethodUse m) :
    normalizeArgs env m e u.args = none ∧ u.run env e a knownReceipts = .threw none none ∨
      ∃ normalized, normalizeArgs env m e u.args = some normalized ∧
        Explained env m e a u normalized (u.run env e a knownReceipts) ∧
        ∀ rawArgs isWrite txId info given, u = .broadcast rawArgs isWrite (.mined txId info given) →
          succeeded info = false → ∃ data reason, u.run env e a knownReceipts = .threw (some data) reason := by
  cases hnormalized : normalizeArgs env m e u.args with
  | none => exact .inl ⟨rfl, by rw [MethodUse.run, hnormalized]⟩
  | some normalized =>
    have hexplained := run_explained (a := a) knownReceipts hnormalized
    exact .inr ⟨normalized, rfl, hexplained, fun _ _ _ _ _ hu hfailed => hexplained.of_failed hu hfailed⟩

end

end HardhatTron.RevertData

import HardhatTron.Lib.OrderedMap
import HardhatTron.Lib.Runs
import HardhatTron.Lib.Separated
import HardhatTron.Runtime.JsValue
/-!
# Stashed deployments

`signer.predictAddress(name, args)` builds and signs a deployment and stashes
it under `prebuildCacheKey(deployer, name, args)`. The next `deployContract`
with that key broadcasts the stashed transaction; every other one normalises
its arguments and builds a transaction of its own.

Each call is one step, taken where it touches the cache: `predictAddress` when
it stores the transaction, `deployContract` when it looks the key up. The codec
of the runtime package and TronWeb's are outside the repository.
-/
namespace HardhatTron

open Lib

/-! ## Addresses -/

def base58Alphabet : JsString := "123456789ABCDEFGHJKLMNPQRSTUVWXYZabcdefghijkmnopqrstuvwxyz".toList

/-- `toBase58Address` and `TronWeb.address`; `none` is a throw. -/
structure AddressCodec where
  toBase58Address : JsString → Option JsString
  toHex : JsString → Option JsString
  fromHex : JsString → Option JsString
  base58 : ∀ {a b}, toBase58Address a = some b → ∀ c ∈ b, c ∈ base58Alphabet

/-- Where `toBase58Address` always throws there is nothing to spell. -/
theorem base58_of_throws {a b : JsString} (h : (fun _ : JsString => (none : Option JsString)) a = some b) :
    ∀ c ∈ b, c ∈ base58Alphabet := by
  cases h

/-- A signer's `tronAddress`. -/
structure TronAddress where
  text : JsString
  base58 : ∀ c ∈ text, c ∈ base58Alphabet

def isTronAddress (s : JsString) : Bool := s.head? = some 'T' && s.length = 34

/-- `/^0x[0-9a-f]{40}$/i` -/
def isEvmHex : JsString → Bool
  | '0' :: x :: ds => (x = 'x' || x = 'X') && ds.length = 40 && ds.all isHexDigit
  | _ => false

/-- `/^41[0-9a-f]{40}$/i` -/
def isTronHex : JsString → Bool
  | '4' :: '1' :: ds => ds.length = 40 && ds.all isHexDigit
  | _ => false

/-- `/^0x41[0-9a-f]{40}$/i` -/
def isPrefixedTronHex : JsString → Bool
  | '0' :: x :: ds => (x = 'x' || x = 'X') && isTronHex ds
  | _ => false

def toTronBase58Text (codec : AddressCodec) (addr : JsString) : Option JsString :=
  if isTronAddress addr then some addr
  else if ("0x".toList <+: addr ∧ addr.length = 42) ∨ isTronHex addr then codec.toBase58Address addr
  else some addr

def toTronBase58 (codec : AddressCodec) : JsValue → Option JsValue
  | .obj fs =>
    match stringField fs "tronAddress", stringField fs "target", stringField fs "address" with
    | some a, _, _ => some (.str a)
    | none, some a, _ => (toTronBase58Text codec a).map .str
    | none, none, some a => (toTronBase58Text codec a).map .str
    | none, none, none => some (.obj fs)
  | .str addr => (toTronBase58Text codec addr).map .str
  | v => some v

mutual
def asAddressString : JsValue → JsValue
  | .obj fs =>
    match stringField fs "type", (addressStrings fs).lookup "value".toList with
    | some _, some v => v
    | _, _ =>
      match stringField fs "address" with
      | some a => .str a
      | none => .obj fs
  | v => v

/-- `asAddressString` of every field. -/
def addressStrings : List (JsString × JsValue) → List (JsString × JsValue)
  | [] => []
  | (k, v) :: fs => (k, asAddressString v) :: addressStrings fs
end

def normalizeAddrText (codec : AddressCodec) (s : JsString) : JsString :=
  if isTronHex s then "0x".toList ++ (s.drop 2).map Char.toLower
  else if isPrefixedTronHex s then "0x".toList ++ (s.drop 4).map Char.toLower
  else if isEvmHex s then s.map Char.toLower
  else if isTronAddress s then
    match codec.toHex s with
    | some hex => "0x".toList ++ (hex.drop 2).map Char.toLower
    | none => []
  else []

/-- `_normalizeAddrToEvmHex`; the empty string is no address. -/
def normalizeAddrToEvmHex (codec : AddressCodec) : JsValue → JsString
  | .obj fs =>
    match stringField fs "target", stringField fs "tronAddress", stringField fs "address" with
    | some a, _, _ => normalizeAddrText codec a
    | none, some a, _ => normalizeAddrText codec a
    | none, none, some a => normalizeAddrText codec a
    | none, none, none => []
  | .str s => normalizeAddrText codec s
  | _ => []

/-- `_evmToTvm`: predicted EVM addresses and where the contract really is. -/
abbrev EvmToTvm := JsString → Option JsString

def lookupTvmActualBase58 (codec : AddressCodec) (evmToTvm : EvmToTvm) (any : JsValue) : Option JsString :=
  match normalizeAddrToEvmHex codec any with
  | [] => none
  | k =>
    match evmToTvm k with
    | none => none
    | some [] => none
    | some actual => codec.fromHex ("41".toList ++ actual.drop 2)

/-! ## Arguments -/

structure AbiInput where
  type : JsString
  name : JsString
  components : Option (List AbiInput)

/-- An argument already met by `normalizeArg`, awaiting its input and `nested`. -/
abbrev Normalizer := Option AbiInput → Bool → Option JsValue

/-- An `address` argument. -/
def normalizeAddress (codec : AddressCodec) (evmToTvm : EvmToTvm) (nested : Bool) (value : JsValue) :
    Option JsValue :=
  let addrStr := asAddressString value
  let finalStr : JsValue :=
    match lookupTvmActualBase58 codec evmToTvm addrStr with
    | some (c :: cs) => .str (c :: cs)
    | _ => addrStr
  if nested then
    match finalStr with
    | .str s => if isTronAddress s then (codec.toHex s).map fun hex => .str ("0x".toList ++ hex.drop 2) else some finalStr
    | _ => some finalStr
  else toTronBase58 codec finalStr

/-- `out[name] = v` -/
def setField (out : Fields) (name : JsString) (v : JsValue) : Fields :=
  if (out.lookup name).isSome then out.map fun f => if f.1 = name then (name, v) else f
  else out ++ [(name, v)]

/-- The object form of a struct: the components the object has, by name. -/
def normalizeStruct (fields : List (JsString × Normalizer)) (components : List AbiInput) : Option JsValue :=
  let out := components.foldlM (fun (out : Fields) comp =>
    match fields.lookup comp.name with
    | some norm => if comp.name = [] then some out else (norm (some comp) true).map (setField out comp.name)
    | none => some out) []
  out.map .obj

/-- An argument that is neither an array nor an object. -/
def normalizeLeaf (codec : AddressCodec) (evmToTvm : EvmToTvm) (value : JsValue) : Normalizer
  | none, _ => some value
  | some input, nested =>
    if input.type = "address".toList then normalizeAddress codec evmToTvm nested value
    else if input.type = "address[]".toList then some value
    else if "tuple[".toList <+: input.type ∧ input.components.isSome then some value
    else
      match value with
      | .bigint i => some (.str (decimal i))
      | v => some v

mutual
def normalizeArg (codec : AddressCodec) (evmToTvm : EvmToTvm) : JsValue → Normalizer
  | .obj fs => fun input nested =>
    let inner := normalizeFields codec evmToTvm fs
    match input with
    | none => some (.obj fs)
    | some input =>
      if (stringField fs "type").isSome && hasField fs "_typedSymbol" then
        match inner.lookup "value".toList with
        | some norm => norm (some input) nested
        | none => normalizeLeaf codec evmToTvm .undefined (some input) nested
      else if input.type = "address".toList then normalizeAddress codec evmToTvm nested (.obj fs)
      else if input.type = "tuple".toList then
        match input.components with
        | some components => normalizeStruct inner components
        | none => some (.obj fs)
      else some (.obj fs)
  | .arr vs => fun input nested =>
    let inner := normalizeAll codec evmToTvm vs
    match input with
    | none => some (.arr vs)
    | some input =>
      if input.type = "address".toList then normalizeAddress codec evmToTvm nested (.arr vs)
      else if input.type = "address[]".toList then (vs.mapM (normalizeAddress codec evmToTvm nested)).map .arr
      else
        match input.components with
        | none => some (.arr vs)
        | some components =>
          if input.type = "tuple".toList then
            (inner.zipIdx.mapM fun (e : Normalizer × Nat) => e.1 components[e.2]? true).map .arr
          else if "tuple[".toList <+: input.type then
            let tuple : AbiInput := ⟨"tuple".toList, [], some components⟩
            (inner.mapM fun (norm : Normalizer) => norm (some tuple) true).map .arr
          else some (.arr vs)
  | v => normalizeLeaf codec evmToTvm v

def normalizeAll (codec : AddressCodec) (evmToTvm : EvmToTvm) : List JsValue → List Normalizer
  | [] => []
  | v :: vs => normalizeArg codec evmToTvm v :: normalizeAll codec evmToTvm vs

def normalizeFields (codec : AddressCodec) (evmToTvm : EvmToTvm) :
    List (JsString × JsValue) → List (JsString × Normalizer)
  | [] => []
  | (k, v) :: fs => (k, normalizeArg codec evmToTvm v) :: normalizeFields codec evmToTvm fs
end

/-! ## The cache key -/

/-- The address `stringify` names an object by, with its tag. -/
def namedBy (fs : Fields) : Option (Char × JsString) :=
  match stringField fs "target", stringField fs "address" with
  | some a, _ => some ('T', a)
  | none, some a => some ('A', a)
  | none, none => none

mutual
def stringify (codec : AddressCodec) : JsValue → Option JsString
  | .bigint i => some ("BI:".toList ++ decimal i)
  | .obj fs =>
    match namedBy fs with
    | some (tag, a) => (toTronBase58Text codec a).map fun b => tag :: ':' :: b
    | none => (stringifyFields codec fs).map fun texts =>
        bracketed '{' ',' '}' ((sortFields texts).map fun f => f.1 ++ '=' :: f.2)
  | .arr vs => (stringifyAll codec vs).map (bracketed '[' ',' ']')
  | .str s => some ("S:".toList ++ s)
  | .num n => some n.text
  | .bool true => some "true".toList
  | .bool false => some "false".toList
  | .null => some "null".toList
  | .undefined => some "undefined".toList
  | .typedSymbol => some "Symbol(_ethers_typed)".toList

def stringifyAll (codec : AddressCodec) : List JsValue → Option (List JsString)
  | [] => some []
  | v :: vs => (stringify codec v).bind fun s => (stringifyAll codec vs).map (s :: ·)

def stringifyFields (codec : AddressCodec) : List (JsString × JsValue) → Option (List (JsString × JsString))
  | [] => some []
  | (k, v) :: fs => (stringify codec v).bind fun s => (stringifyFields codec fs).map ((k, s) :: ·)
end

def prebuildCacheKey (codec : AddressCodec) (deployerBase58 name : JsString) (args : List JsValue) : Option JsString :=
  (stringify codec (.arr args)).map fun s => deployerBase58 ++ '|' :: (name ++ '|' :: s)

/-! ## Constructor calls -/

inductive JsThrown where
  | artifactNotFound
  | invalidAddress
  | notABigInt
  | error (message : JsString)
  | deployFailed

/-- The part of an artifact a deployment reads: its constructor's inputs. -/
structure Artifact where
  ctor : Option (List AbiInput)

/-- `overrides` and the arguments before it. -/
structure Split where
  overrides : JsValue
  args : List JsValue

def overrideKeys : List String :=
  ["value", "gasLimit", "gasPrice", "nonce", "from", "maxFeePerGas", "maxPriorityFeePerGas"]

def splitOverrides (args : List JsValue) (expectedInputCount : Option Nat) : Split :=
  match args.getLast? with
  | some (.obj last) =>
    if stringField last "type" = some "overrides".toList && hasField last "_typedSymbol" then
      let value := (JsValue.obj last).get "value"
      ⟨if value.truthy then value else .obj [], args.dropLast⟩
    else if expectedInputCount.any (args.length = · + 1) && !hasField last "_typedSymbol"
        && overrideKeys.any (hasField last) then
      ⟨.obj last, args.dropLast⟩
    else ⟨.obj [], args⟩
  | _ => ⟨.obj [], args⟩

/-- The split `predictAddress` makes for itself. -/
def predictSplit (args : List JsValue) (ctorInputCount : Nat) : Split :=
  match args.getLast? with
  | some (.obj trailing) =>
    if overrideKeys.any (hasField trailing) && ctorInputCount < args.length then ⟨.obj trailing, args.dropLast⟩
    else ⟨.obj [], args⟩
  | _ => ⟨.obj [], args⟩

structure DeployOpts where
  parameters : Option (List JsValue)
  callValue : Option JsString
  feeLimit : Option Int

/-- `BigInt(overrides[name])`, when the override is there. -/
def bigIntOverride (overrides : JsValue) (name : String) : Except JsThrown (Option Int) :=
  let v := overrides.get name
  if v.isNullish then .ok none
  else
    match toBigInt v with
    | some i => .ok (some i)
    | none => .error .notABigInt

def deployOpts (parameters : Option (List JsValue)) (overrides : JsValue) : Except JsThrown DeployOpts := do
  let value ← bigIntOverride overrides "value"
  let gasLimit ← bigIntOverride overrides "gasLimit"
  return ⟨parameters, value.map decimal, gasLimit.map fun g => max 1 (min 1000000000 (g * 100))⟩

/-- `ctor.inputs.map((input, i) => normalizeArg(ctorArgs[i], input))` -/
def ctorParameters (codec : AddressCodec) (evmToTvm : EvmToTvm) (inputs : List AbiInput) (ctorArgs : List JsValue) :
    Except JsThrown (Option (List JsValue)) :=
  match inputs.zipIdx.mapM fun (e : AbiInput × Nat) =>
      normalizeArg codec evmToTvm (ctorArgs[e.2]?.getD .undefined) (some e.1) false with
  | some ps => .ok (some ps)
  | none => .error .invalidAddress

/-! ## The bridge -/

structure BridgeEnv where
  codec : AddressCodec
  loadArtifact : JsString → Except JsThrown Artifact
  /-- `hre.tre.makeTronWeb().address` -/
  defaultDeployer : TronAddress

/-- What a call meets besides its arguments: the address map, and whether the
node lets the transaction through. -/
structure Moment where
  evmToTvm : EvmToTvm
  reachable : Bool

/-- Arguments of a call, canonical. -/
structure Args where
  values : List JsValue
  canonical : JsValue.canonicalAll values = true

def Args.snoc (args : Args) (v : JsValue) (h : v.canonical = true) : Args where
  values := args.values ++ [v]
  canonical := by
    rw [JsValue.canonicalAll_iff]
    intro w hw
    rcases List.mem_append.1 hw with hw | hw
    · exact (JsValue.canonicalAll_iff _).1 args.canonical w hw
    · rw [List.mem_singleton.1 hw]; exact h

structure ConstructorCall where
  deployer : TronAddress
  name : JsString
  opts : DeployOpts

/-- A signed deployment; `serial` counts the builds, as each gives a new txID. -/
structure SignedTx where
  serial : Nat
  call : ConstructorCall

structure Bridge where
  prebuildCache : OrderedMap JsString SignedTx
  built : Nat

def Bridge.init : Bridge := ⟨.empty, 0⟩

/-- The third argument of `hre.ethers.deployContract`. -/
inductive SignerOrOpts where
  | none
  | signer (tronAddress : TronAddress)
  | opts (fields : Fields) (canonical : (JsValue.obj fields).canonical = true)

inductive BridgeCall where
  | predictAddress (signer : TronAddress) (name : JsString) (args : Args) (now : Moment)
  | deployContract (name : JsString) (args : Args) (signerOrOpts : SignerOrOpts) (now : Moment)

inductive BridgeReply where
  | stashed (tx : SignedTx)
  | broadcast (tx : SignedTx)
  | built (tx : SignedTx)
  | threw (e : JsThrown)

/-- The deployment `predictAddress` prebuilds. -/
def predictedCall (env : BridgeEnv) (now : Moment) (signer : TronAddress) (name : JsString) (args : Args) :
    Except JsThrown ConstructorCall := do
  let artifact ← env.loadArtifact name
  let split := predictSplit args.values ((artifact.ctor.map List.length).getD 0)
  let parameters ←
    match artifact.ctor with
    | some inputs =>
      if split.args.length > 0 then ctorParameters env.codec now.evmToTvm inputs split.args else .ok none
    | none => .ok none
  let opts ← deployOpts parameters split.overrides
  return ⟨signer, name, opts⟩

def predictAddress (env : BridgeEnv) (s : Bridge) (signer : TronAddress) (name : JsString) (args : Args)
    (now : Moment) : BridgeReply × Bridge :=
  match predictedCall env now signer name args with
  | .error e => (.threw e, s)
  | .ok call =>
    if now.reachable then
      match prebuildCacheKey env.codec signer.text name args.values with
      | none => (.threw .invalidAddress, { s with built := s.built + 1 })
      | some key => (.stashed ⟨s.built, call⟩, ⟨s.prebuildCache.put key ⟨s.built, call⟩, s.built + 1⟩)
    else (.threw .deployFailed, s)

/-- The deployment `deployViaFacade` builds without a stashed one. -/
def deployedCall (env : BridgeEnv) (now : Moment) (deployer : TronAddress) (name : JsString) (args : Args) :
    Except JsThrown ConstructorCall := do
  let artifact ← env.loadArtifact name
  let split := splitOverrides args.values (some ((artifact.ctor.map List.length).getD 0))
  let parameters ←
    if split.args.length > 0 then
      match artifact.ctor with
      | none => .error (.error (name ++ " has no constructor but ".toList ++ Nat.toDigits 10 split.args.length
          ++ " arg(s) were passed".toList))
      | some inputs => ctorParameters env.codec now.evmToTvm inputs split.args
    else .ok none
  let opts ← deployOpts parameters split.overrides
  return ⟨deployer, name, opts⟩

/-- A stashed transaction goes to `submitPrebuilt`, used up whether or not the node takes it. -/
def deployViaFacade (env : BridgeEnv) (s : Bridge) (name : JsString) (args : Args) (deployer : TronAddress)
    (now : Moment) : BridgeReply × Bridge :=
  match env.loadArtifact name with
  | .error e => (.threw e, s)
  | .ok _ =>
    match prebuildCacheKey env.codec deployer.text name args.values with
    | none => (.threw .invalidAddress, s)
    | some key =>
      match s.prebuildCache.get? key with
      | some tx => (.broadcast tx, { s with prebuildCache := s.prebuildCache.remove key })
      | none =>
        match deployedCall env now deployer name args with
        | .error e => (.threw e, s)
        | .ok call =>
          if now.reachable then (.built ⟨s.built, call⟩, { s with built := s.built + 1 })
          else (.threw .deployFailed, s)

/-- Who deploys, and with which arguments: an overrides object in third place
is routed into the arguments. -/
def route (env : BridgeEnv) (args : Args) : SignerOrOpts → TronAddress × Args
  | .none => (env.defaultDeployer, args)
  | .signer a => (a, args)
  | .opts fs h =>
    if overrideKeys.any (hasField fs) then (env.defaultDeployer, args.snoc (.obj fs) h)
    else (env.defaultDeployer, args)

def Bridge.step (env : BridgeEnv) (s : Bridge) : BridgeCall → Option (BridgeReply × Bridge)
  | .predictAddress signer name args now => some (predictAddress env s signer name args now)
  | .deployContract name args third now =>
    let (deployer, args) := route env args third
    some (deployViaFacade env s name args deployer now)

/-! ## The two splits -/

/-- With at most one argument too many, and not an `ethers.Typed` wrapper, both
functions take the same overrides off the arguments. -/
theorem predictSplit_eq {args : List JsValue} {n : Nat} (hlen : args.length ≤ n + 1)
    (htyped : ∀ last, args.getLast? = some (.obj last) → hasField last "_typedSymbol" = false) :
    predictSplit args n = splitOverrides args (some n) := by
  unfold predictSplit splitOverrides
  cases hlast : args.getLast? with
  | none => rfl
  | some v =>
    cases v with
    | obj last =>
      have hcount : decide (n < args.length) = decide (args.length = n + 1) := by
        apply decide_eq_decide.2
        omega
      simp only [htyped last hlast, Bool.and_false, Bool.false_eq_true, if_false, Bool.not_false, Bool.and_true,
        Option.any_some, hcount]
      rw [Bool.and_comm]
    | _ => rfl

/-! ## What the calls write -/

/-- `predictAddress` throws, leaving the cache, or stashes a transaction of its own under the key. -/
theorem predictAddress_cases {env : BridgeEnv} {s s' : Bridge} {signer : TronAddress} {name : JsString} {args : Args}
    {now : Moment} {r : BridgeReply} (h : predictAddress env s signer name args now = (r, s')) :
    (∃ e, r = .threw e ∧ s'.prebuildCache = s.prebuildCache ∧ s.built ≤ s'.built) ∨
    ∃ key call, predictedCall env now signer name args = .ok call ∧
      prebuildCacheKey env.codec signer.text name args.values = some key ∧
      r = .stashed ⟨s.built, call⟩ ∧
      s' = ⟨s.prebuildCache.put key ⟨s.built, call⟩, s.built + 1⟩ := by
  unfold predictAddress at h
  split at h
  · obtain ⟨rfl, rfl⟩ := Prod.mk.inj h
    exact .inl ⟨_, rfl, rfl, le_rfl⟩
  · rename_i call hcall
    split at h
    · split at h
      · obtain ⟨rfl, rfl⟩ := Prod.mk.inj h
        exact .inl ⟨_, rfl, rfl, Nat.le_succ _⟩
      · rename_i key hkey
        obtain ⟨rfl, rfl⟩ := Prod.mk.inj h
        exact .inr ⟨key, call, hcall, hkey, rfl, rfl⟩
    · obtain ⟨rfl, rfl⟩ := Prod.mk.inj h
      exact .inl ⟨_, rfl, rfl, le_rfl⟩

theorem predictedCall_loads {env : BridgeEnv} {now : Moment} {signer : TronAddress} {name : JsString} {args : Args}
    {call : ConstructorCall} (h : predictedCall env now signer name args = .ok call) :
    ∃ artifact, env.loadArtifact name = .ok artifact := by
  unfold predictedCall at h
  cases ha : env.loadArtifact name with
  | error e => rw [ha] at h; cases h
  | ok artifact => exact ⟨artifact, rfl⟩

/-- The reply of a deployment that finds no stashed transaction. -/
def freshReply (env : BridgeEnv) (now : Moment) (deployer : TronAddress) (name : JsString) (args : Args)
    (serial : Nat) : BridgeReply :=
  match env.loadArtifact name, prebuildCacheKey env.codec deployer.text name args.values with
  | .error e, _ => .threw e
  | .ok _, none => .threw .invalidAddress
  | .ok _, some _ =>
    match deployedCall env now deployer name args with
    | .error e => .threw e
    | .ok call => if now.reachable then .built ⟨serial, call⟩ else .threw .deployFailed

theorem deployViaFacade_hit {env : BridgeEnv} {s : Bridge} {deployer : TronAddress} {name : JsString} {args : Args}
    {now : Moment} {artifact : Artifact} {key : JsString} {tx : SignedTx}
    (ha : env.loadArtifact name = .ok artifact)
    (hk : prebuildCacheKey env.codec deployer.text name args.values = some key)
    (hc : s.prebuildCache.get? key = some tx) :
    deployViaFacade env s name args deployer now =
      (.broadcast tx, { s with prebuildCache := s.prebuildCache.remove key }) := by
  simp only [deployViaFacade, ha, hk, hc]

/-- A deployment broadcasts the transaction under its key and drops it, or
leaves the cache alone and replies like a fresh one. -/
theorem deployViaFacade_cases {env : BridgeEnv} {s s' : Bridge} {deployer : TronAddress} {name : JsString}
    {args : Args} {now : Moment} {r : BridgeReply} (h : deployViaFacade env s name args deployer now = (r, s')) :
    (∃ key tx, prebuildCacheKey env.codec deployer.text name args.values = some key ∧
      s.prebuildCache.get? key = some tx ∧ r = .broadcast tx ∧
      s' = { s with prebuildCache := s.prebuildCache.remove key }) ∨
    (r = freshReply env now deployer name args s.built ∧ s'.prebuildCache = s.prebuildCache ∧
      s.built ≤ s'.built ∧ (∀ tx, r ≠ .broadcast tx) ∧ (∀ tx, r ≠ .stashed tx) ∧
      ∀ tx, r = .built tx → tx.serial < s'.built) := by
  unfold deployViaFacade at h
  unfold freshReply
  cases ha : env.loadArtifact name with
  | error e =>
    rw [ha] at h
    obtain ⟨rfl, rfl⟩ := Prod.mk.inj h
    right
    simp
  | ok artifact =>
    cases hk : prebuildCacheKey env.codec deployer.text name args.values with
    | none =>
      rw [ha, hk] at h
      obtain ⟨rfl, rfl⟩ := Prod.mk.inj h
      right
      simp
    | some key =>
      simp only [ha, hk] at h
      cases hc : s.prebuildCache.get? key with
      | some tx =>
        rw [hc] at h
        obtain ⟨rfl, rfl⟩ := Prod.mk.inj h
        exact .inl ⟨key, tx, rfl, hc, rfl, rfl⟩
      | none =>
        right
        simp only [hc] at h
        cases hd : deployedCall env now deployer name args with
        | error e =>
          rw [hd] at h
          obtain ⟨rfl, rfl⟩ := Prod.mk.inj h
          simp
        | ok call =>
          simp only [hd] at h
          cases hr : now.reachable <;> simp only [hr, if_true, Bool.false_eq_true, if_false] at h <;>
            obtain ⟨rfl, rfl⟩ := Prod.mk.inj h <;> simp

end HardhatTron

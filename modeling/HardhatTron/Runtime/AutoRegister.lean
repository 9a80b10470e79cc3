import HardhatTron.Lib.HexBytes
import HardhatTron.Node.NodeView
import HardhatTron.Runtime.Rpc
import HardhatTron.Runtime.ValueFlow
/-!
# Calls to contracts the node does not know

A contract made by another contract has code in the `CodeStore` and no entry in
the `ContractStore`, and the node refuses to trigger it. `sendCallTx` then
registers the address with `tre_setAccountCode` and triggers once more.
`_autoRegisteredAddresses` holds the addresses it did this for. It lives as
long as the process; a revert takes the entry away and leaves the address in it.

`recovers_iff_first_found`: a call recovers exactly when no call before it
found the same address in this state. A call is awaited before the next.
-/
namespace HardhatTron

open Lib

/-! ## Requests and answers -/

/-- The body of `/wallet/triggersmartcontract`. -/
structure TriggerBody where
  owner_address : JsString
  contract_address : JsString
  data : JsValue
  fee_limit : Int
  call_value : Int
  visible : Bool

/-- Its answer: the raw transaction, and `code` and `message` of the result, empty if missing. -/
structure TriggerJson where
  transaction : Option Bytes
  code : JsString
  message : JsString
  deriving DecidableEq

def TriggerJson.failed (t : TriggerJson) : Bool := t.transaction.isNone || t.code ≠ []

/-- `CONTRACT_VALIDATE_ERROR` with the message for a missing entry. The pattern is ASCII, so
bytes are read as characters of their own. -/
def TriggerJson.noContract (t : TriggerJson) : Bool :=
  t.code = "CONTRACT_VALIDATE_ERROR".toList && t.message ≠ [] &&
    includesIgnoreCase (String.ofList ((bytesOfHex t.message).map fun b => Char.ofNat b.toNat))
      "No contract or not a valid smart contract"

structure SignedCall where
  txID : JsString
  raw : Bytes

/-- The answer of `/wallet/broadcasttransaction`, and its text. -/
structure BroadcastJson where
  result : Bool
  code : JsString
  message : JsString
  txid : JsString
  text : JsString

/-- `ByteArray.toJsonHex` -/
def toJsonHex (b : Bytes) : JsString := '0' :: 'x' :: hexOfBytes b

inductive SendError where
  /-- An address or the value does not convert. -/
  | request
  | fetch (e : FetchError)
  /-- `triggersmartcontract failed: …` -/
  | triggersmartcontract (triggerJson : TriggerJson)
  | sign (message : String)
  /-- `broadcast failed: …`, with or without the hint at impersonation. -/
  | broadcast (code : JsString) (hint : Bool)

/-- TronWeb's codec, and the node's handlers outside the repository. -/
structure CallHandlers where
  codec : AddressCodec
  rt : Capsules Bytes Bytes
  triggersmartcontract : TriggerBody → StoreContents → TriggerJson
  /-- `result`, empty if missing. -/
  eth_getCode : JsString → StoreContents → JsString

/-! ## `sendCallTx` -/

/-- The arguments; a fee limit is an integer. -/
structure CallTx where
  fromBase58 : AddressText
  toBase58 : AddressText
  data : JsValue
  value : JsValue
  multisig : Bool
  feeLimit : Option Int

/-- What becomes of the call's requests. The broadcast changes the stores. -/
structure CallFates where
  trigger : Option FetchError
  getCode : Option FetchError
  setAccountCode : Attempts
  retrigger : Option FetchError
  sign : Bool → Bytes → Except String SignedCall
  broadcast : SignedCall → Except FetchError BroadcastJson × (StoreContents → StoreContents)

/-- The process and its node. -/
structure Session where
  autoRegisteredAddresses : List JsString
  node : NodeView

def dataHex : JsValue → JsValue
  | .str ('0' :: 'x' :: rest) => .str rest
  | data => if data.truthy then data else .str []

def triggerBody (codec : AddressCodec) (c : CallTx) (toBase58 : JsString) : Option TriggerBody := do
  let owner_address ← codec.toHex c.fromBase58.text
  let contract_address ← codec.toHex toBase58
  let call_value ← valueToCallValue c.value
  return ⟨owner_address, contract_address, dataHex c.data, (c.feeLimit.map jsNumber).getD 1000000000, call_value, false⟩

def CheatcodeOutcome.isAnswered {Account SmartContract : Type} : CheatcodeOutcome Account SmartContract → Bool
  | .answered => true
  | _ => false

/-- `tre_setAccountCode`, between two requests of the session. -/
def NodeView.setAccountCode (rt : Capsules Bytes Bytes) (addressParam codeParam : JsString) (t : NodeView) :
    CheatcodeOutcome Bytes Bytes × NodeView :=
  let done := (HardhatTron.setAccountCode rt (some (String.ofList addressParam))
    (some (String.ofList codeParam))).exec t.stores
  (done.2, { t with stores := done.1 })

section

variable (T : CallHandlers)

/-- The bytecode is there: add the address and register it. -/
def Session.register (toBase58 bytecode : JsString) (f : CallFates) (s : Session) : Except SendError Bool × Session :=
  let called := rpcCall (NodeView.setAccountCode T.rt toBase58 bytecode) f.setAccountCode s.node
  let s := ⟨toBase58 :: s.autoRegisteredAddresses, called.2⟩
  match called.1 with
  | .error e => (.error (.fetch e), s)
  | .ok r => (.ok r.isAnswered, s)

def Session.maybeAutoRegisterContract (toBase58 : JsString) (triggerJson : TriggerJson) (f : CallFates) (s : Session) :
    Except SendError Bool × Session :=
  if !triggerJson.noContract then (.ok false, s)
  else if toBase58 ∈ s.autoRegisteredAddresses then (.ok false, s)
  else
    match T.codec.toHex toBase58 with
    | none => (.error .request, s)
    | some hex =>
      if f.getCode.isSome then (.ok false, s)
      else
        let bytecode := T.eth_getCode ('0' :: 'x' :: hex.drop 2) s.node.stores
        if bytecode = [] ∨ bytecode = "0x".toList ∨ bytecode = "0x0".toList then (.ok false, s)
        else s.register T toBase58 bytecode f

/-- The answer to go on with: the first, or that of the retry. -/
def Session.triggered (toBase58 : JsString) (body : TriggerBody) (f : CallFates) (s : Session) :
    Except SendError TriggerJson × Session :=
  let triggerJson := T.triggersmartcontract body s.node.stores
  if triggerJson.failed then
    match s.maybeAutoRegisterContract T toBase58 triggerJson f with
    | (.error e, s) => (.error e, s)
    | (.ok false, s) => (.ok triggerJson, s)
    | (.ok true, s) =>
      match f.retrigger with
      | some e => (.error (.fetch e), s)
      | none => (.ok (T.triggersmartcontract body s.node.stores), s)
  else (.ok triggerJson, s)

end

def broadcastError (json : BroadcastJson) : SendError :=
  let code := if json.code ≠ [] then json.code else if json.message ≠ [] then json.message else json.text
  .broadcast code
    (includesIgnoreCase (String.ofList code) "SIGERROR" || includesIgnoreCase (String.ofList code) "signature")

def Session.signAndBroadcast (multisig : Bool) (transaction : Bytes) (f : CallFates) (s : Session) :
    Except SendError JsString × Session :=
  match f.sign multisig transaction with
  | .error message => (.error (.sign message), s)
  | .ok signed =>
    let (answer, change) := f.broadcast signed
    let s := { s with node := { s.node with stores := change s.node.stores } }
    match answer with
    | .error e => (.error (.fetch e), s)
    | .ok json =>
      if json.result then (.ok (if signed.txID ≠ [] then signed.txID else json.txid), s)
      else (.error (broadcastError json), s)

/-- `sendCallTx` from the answer on that it does not retry. -/
def Session.finish (multisig : Bool) (triggerJson : TriggerJson) (f : CallFates) (s : Session) :
    Except SendError JsString × Session :=
  match triggerJson.failed, triggerJson.transaction with
  | false, some transaction => s.signAndBroadcast multisig transaction f
  | _, _ => (.error (.triggersmartcontract triggerJson), s)

def Session.sendCallTx (T : CallHandlers) (evmToTvm : EvmToTvm) (c : CallTx) (f : CallFates) (s : Session) :
    Except SendError JsString × Session :=
  let toBase58 := (remapped T.codec evmToTvm c.toBase58).text
  match triggerBody T.codec c toBase58, f.trigger with
  | none, _ => (.error .request, s)
  | some _, some e => (.error (.fetch e), s)
  | some body, none =>
    match s.triggered T toBase58 body f with
    | (.error e, s) => (.error e, s)
    | (.ok triggerJson, s) => s.finish c.multisig triggerJson f

/-! ## Sessions -/

inductive SessionCall where
  | sendCallTx (evmToTvm : EvmToTvm) (c : CallTx) (f : CallFates)
  /-- A request of a fixture or of a test, or the chain writing to a store. -/
  | node (c : NodeCall)

inductive SessionReply where
  | sent (r : Except SendError JsString)
  | node (r : NodeReply)

def Session.step (T : CallHandlers) (s : Session) : SessionCall → Option (SessionReply × Session)
  | .sendCallTx evmToTvm c f => some (.sent (s.sendCallTx T evmToTvm c f).1, (s.sendCallTx T evmToTvm c f).2)
  | .node c => some (.node (s.node.exec c).1, { s with node := (s.node.exec c).2 })

/-! ## What a call finds and does -/

def codeOf (stores : StoreContents) (address : Bytes) : Option Bytes := stores (.code address)

def contractOf (stores : StoreContents) (address : Bytes) : Option Bytes := stores (.contract address)

theorem codeOf_restored (entry : StoreDump Bytes Bytes) (stores : StoreContents) :
    codeOf (restored entry stores) = entry.codes :=
  rfl

theorem contractOf_restored (entry : StoreDump Bytes Bytes) (stores : StoreContents) :
    contractOf (restored entry stores) = entry.contracts :=
  rfl

/-- An entry that `tre_setAccountCode` makes for `address`; it has no ABI. -/
inductive CheatcodeEntry (rt : Capsules Bytes Bytes) (address : Bytes) : Bytes → Prop where
  | newContract : CheatcodeEntry rt address (rt.newContract address 100)
  | setCodeHash {entry : Bytes} (codeHash : Bytes) :
    CheatcodeEntry rt address entry → CheatcodeEntry rt address (rt.setCodeHash entry codeHash)

/-- `tre_setAccountCode` has registered the address. -/
def Registered (rt : Capsules Bytes Bytes) (stores : StoreContents) (address : Bytes) : Prop :=
  ∃ entry, contractOf stores address = some entry ∧ CheatcodeEntry rt address entry

/-- `eth_getCode` reads the `CodeStore`, hex reads back as it was written, a trigger is refused
with the no-contract message for a missing entry only, and then accepted once the address is registered. -/
structure CallHandlers.Lawful (T : CallHandlers) : Prop where
  getCode : ∀ {a hex}, T.codec.toHex a = some hex → ∀ {stores code}, codeOf stores (bytesOfHex hex) = some code →
    T.eth_getCode ('0' :: 'x' :: hex.drop 2) stores = toJsonHex code
  getCode_missing : ∀ {a hex}, T.codec.toHex a = some hex → ∀ {stores}, codeOf stores (bytesOfHex hex) = none →
    T.eth_getCode ('0' :: 'x' :: hex.drop 2) stores = [] ∨ T.eth_getCode ('0' :: 'x' :: hex.drop 2) stores = "0x".toList
  decodeHex : ∀ code, T.rt.decodeHex (some (String.ofList (toJsonHex code))) = .ok code
  noContract : ∀ {body stores}, (T.triggersmartcontract body stores).noContract = true →
    contractOf stores (bytesOfHex body.contract_address) = none
  triggersmartcontract : ∀ {body stores stores'}, (T.triggersmartcontract body stores).noContract = true →
    Registered T.rt stores' (bytesOfHex body.contract_address) → (T.triggersmartcontract body stores').failed = false

section

variable (T : CallHandlers) (evmToTvm : EvmToTvm) (c : CallTx) (f : CallFates)

/-- The text the call goes to. -/
def target : JsString := (remapped T.codec evmToTvm c.toBase58).text

/-- The call's requests other than the first trigger succeed; the node reads the address as it is spelled. -/
structure RpcsSucceed : Prop where
  trigger : f.trigger = none
  getCode : f.getCode = none
  setAccountCode : f.setAccountCode.last = .answered
  decodeAddress : ∀ hex, T.codec.toHex (target T evmToTvm c) = some hex →
    T.rt.decodeAddress (some (String.ofList (target T evmToTvm c))) = .ok (bytesOfHex hex)
  retrigger : f.retrigger = none

/-- The contract has code and no entry, and the node refuses the call for it. -/
structure FindsUnregistered (s : Session) (body : TriggerBody) : Prop where
  sends : triggerBody T.codec c (target T evmToTvm c) = some body
  code : ∃ code, codeOf s.node.stores (bytesOfHex body.contract_address) = some code ∧ code ≠ []
  contract : contractOf s.node.stores (bytesOfHex body.contract_address) = none
  refused : (T.triggersmartcontract body s.node.stores).noContract = true

/-- The session after the refused call was looked at. -/
def attempted (s : Session) (body : TriggerBody) : Except SendError Bool × Session :=
  s.maybeAutoRegisterContract T (target T evmToTvm c) (T.triggersmartcontract body s.node.stores) f

/-- The call registers the contract, the retry is accepted, and the call does not end with the refusal. -/
structure Recovers (s : Session) (body : TriggerBody) : Prop where
  registers : (attempted T evmToTvm c f s body).1 = .ok true
  entry : contractOf (attempted T evmToTvm c f s body).2.node.stores (bytesOfHex body.contract_address) ≠ none
  accepted : (T.triggersmartcontract body (attempted T evmToTvm c f s body).2.node.stores).failed = false
  notRefused : ∀ t, (s.sendCallTx T evmToTvm c f).1 ≠ .error (.triggersmartcontract t)

end

/-! ## Registration -/

theorem Registered.entry {rt : Capsules Bytes Bytes} {stores : StoreContents} {address : Bytes}
    (h : Registered rt stores address) : contractOf stores address ≠ none := by
  obtain ⟨entry, hentry, -⟩ := h
  simp [hentry]

/-- What comes after `createContractAccountIfNotExist` runs on stores where the address has an entry:
the one it had, or a new one. -/
theorem createContractAccountIfNotExist_exec (rt : Capsules Bytes Bytes) (address : Bytes) (stores : StoreContents) :
    ∃ stores', contractOf stores' address = some ((contractOf stores address).getD (rt.newContract address 100)) ∧
      ∀ k, (createContractAccountIfNotExist rt address k).exec stores = k.exec stores' := by
  let withAccount : StoreContents :=
    Function.update stores (.account address) (some (contractAccount rt address (stores (.account address))))
  have hread : withAccount (.contract address) = stores (.contract address) := Function.update_of_ne (by simp) _ _
  have hkept : contractOf withAccount address = contractOf stores address := hread
  refine ⟨Function.update withAccount (.contract address)
    (some ((contractOf withAccount address).getD (rt.newContract address 100))), ?_, fun k => rfl⟩
  rw [← hkept]
  exact Function.update_self _ _ _

/-- `tre_setAccountCode` succeeds on any stores, and registers an address without a foreign entry. -/
theorem setAccountCode_exec {rt : Capsules Bytes Bytes} {addressParam codeParam : Option String} {address code : Bytes}
    (ha : rt.decodeAddress addressParam = .ok address) (hc : rt.decodeHex codeParam = .ok code)
    {stores : StoreContents} (h : contractOf stores address = none ∨ Registered rt stores address) :
    ∃ stores', (setAccountCode rt addressParam codeParam).exec stores = (stores', .answered) ∧
      Registered rt stores' address := by
  obtain ⟨created, hentry, hcreate⟩ := createContractAccountIfNotExist_exec rt address stores
  have hmade : CheatcodeEntry rt address ((contractOf stores address).getD (rt.newContract address 100)) := by
    rcases h with hnone | ⟨entry, hsome, hmade⟩
    · rw [hnone]
      exact .newContract
    · rw [hsome]
      exact hmade
  generalize (contractOf stores address).getD (rt.newContract address 100) = entry at hentry hmade
  let written : StoreContents := Function.update created (.code address) (some code)
  have hread : written (.contract address) = created (.contract address) := Function.update_of_ne (by simp) _ _
  refine ⟨Function.update written (.contract address) (some (rt.setCodeHash entry (rt.sha3 code))), ?_, ?_⟩
  · simp only [setAccountCode, ha, hc, orThrow, hcreate, forceWrite]
    apply (Program.exec_write _ _ _ _).trans
    exact (Program.exec_read_of (hread.trans hentry) _).trans rfl
  · exact ⟨_, Function.update_self _ _ _, .setCodeHash _ hmade⟩

theorem NodeView.setAccountCode_eq {rt : Capsules Bytes Bytes} {addressParam codeParam : JsString}
    {address code : Bytes} (ha : rt.decodeAddress (some (String.ofList addressParam)) = .ok address)
    (hc : rt.decodeHex (some (String.ofList codeParam)) = .ok code) {t : NodeView}
    (h : contractOf t.stores address = none ∨ Registered rt t.stores address) :
    (t.setAccountCode rt addressParam codeParam).1 = .answered ∧
      Registered rt (t.setAccountCode rt addressParam codeParam).2.stores address := by
  obtain ⟨stores', hexec, hentry⟩ := setAccountCode_exec ha hc h
  simp only [NodeView.setAccountCode, hexec, true_and]
  exact hentry

/-- Whether or not `rpcCall` sends it twice. -/
theorem Session.register_ok {T : CallHandlers} {toBase58 bytecode : JsString} {address code : Bytes} {f : CallFates}
    (ha : T.rt.decodeAddress (some (String.ofList toBase58)) = .ok address)
    (hc : T.rt.decodeHex (some (String.ofList bytecode)) = .ok code) (hlast : f.setAccountCode.last = .answered)
    {s : Session} (hnone : contractOf s.node.stores address = none) :
    ∃ s', s.register T toBase58 bytecode f = (.ok true, s') ∧
      s'.autoRegisteredAddresses = toBase58 :: s.autoRegisteredAddresses ∧ Registered T.rt s'.node.stores address := by
  let sent := if f.setAccountCode.executedThenRetried then
    (NodeView.setAccountCode T.rt toBase58 bytecode s.node).2 else s.node
  have hsent : contractOf sent.stores address = none ∨ Registered T.rt sent.stores address := by
    by_cases htwice : f.setAccountCode.executedThenRetried = true
    · simp only [sent, htwice, if_true]
      exact .inr (NodeView.setAccountCode_eq ha hc (.inl hnone)).2
    · simp only [sent, htwice]
      exact .inl hnone
  obtain ⟨hr, hentry⟩ := NodeView.setAccountCode_eq ha hc hsent
  have hcalled : rpcCall (NodeView.setAccountCode T.rt toBase58 bytecode) f.setAccountCode s.node =
      (.ok (sent.setAccountCode T.rt toBase58 bytecode).1, (sent.setAccountCode T.rt toBase58 bytecode).2) :=
    rpcCall_ok_iff.2 ⟨hlast, rfl⟩
  refine ⟨⟨toBase58 :: s.autoRegisteredAddresses, _⟩, ?_, rfl, hentry⟩
  simp only [Session.register, hcalled, hr, CheatcodeOutcome.isAnswered]

/-! ## What an attempt does -/

theorem TriggerJson.failed_of_noContract {t : TriggerJson} (h : t.noContract = true) : t.failed = true := by
  simp only [noContract, Bool.and_eq_true, decide_eq_true_eq] at h
  simp [failed, h.1.1]

/-- The bytecodes that do not count are those of an empty code. -/
theorem toJsonHex_missing_iff (code : Bytes) :
    (toJsonHex code = [] ∨ toJsonHex code = "0x".toList ∨ toJsonHex code = "0x0".toList) ↔ code = [] := by
  constructor
  · intro h
    have hlength : (toJsonHex code).length = 2 + 2 * code.length := by
      simp only [toJsonHex, List.length_cons, length_hexOfBytes]
      omega
    rcases h with h | h | h
    · simp [toJsonHex] at h
    · rw [h] at hlength
      exact List.length_eq_zero_iff.1 (by simpa using hlength)
    · rw [h] at hlength
      simp at hlength
      omega
  · rintro rfl
    exact .inr (.inl rfl)

section

variable {T : CallHandlers} {evmToTvm : EvmToTvm} {c : CallTx} {f : CallFates} {s : Session} {body : TriggerBody}

theorem triggerBody_contract_address {codec : AddressCodec} {toBase58 : JsString}
    (h : triggerBody codec c toBase58 = some body) : codec.toHex toBase58 = some body.contract_address := by
  simp only [triggerBody, bind, Option.bind_eq_some_iff] at h
  obtain ⟨owner, -, hex, hhex, value, -, h⟩ := h
  cases h
  exact hhex

/-- The first call to find an address unregistered registers it; any other call leaves the session alone. -/
theorem attempted_cases (hT : T.Lawful) (hf : RpcsSucceed T evmToTvm c f)
    (hbody : triggerBody T.codec c (target T evmToTvm c) = some body) :
    (FindsUnregistered T evmToTvm c s body ∧ target T evmToTvm c ∉ s.autoRegisteredAddresses ∧
      ∃ s', attempted T evmToTvm c f s body = (.ok true, s') ∧
        s'.autoRegisteredAddresses = target T evmToTvm c :: s.autoRegisteredAddresses ∧
        Registered T.rt s'.node.stores (bytesOfHex body.contract_address)) ∨
    ((FindsUnregistered T evmToTvm c s body → target T evmToTvm c ∈ s.autoRegisteredAddresses) ∧
      attempted T evmToTvm c f s body = (.ok false, s)) := by
  have hhex := triggerBody_contract_address hbody
  by_cases hrefused : (T.triggersmartcontract body s.node.stores).noContract = true
  · by_cases hmem : target T evmToTvm c ∈ s.autoRegisteredAddresses
    · right
      exact ⟨fun _ => hmem, by simp [attempted, Session.maybeAutoRegisterContract, hrefused, hmem]⟩
    · obtain ⟨bytecode, hbytecode⟩ :
          ∃ bytecode, T.eth_getCode ('0' :: 'x' :: body.contract_address.drop 2) s.node.stores = bytecode := ⟨_, rfl⟩
      have hattempt : attempted T evmToTvm c f s body =
          if bytecode = [] ∨ bytecode = "0x".toList ∨ bytecode = "0x0".toList then (.ok false, s)
          else s.register T (target T evmToTvm c) bytecode f := by
        simp only [attempted, Session.maybeAutoRegisterContract, hrefused, hmem, hhex, hf.getCode, hbytecode,
          Bool.not_true, if_false, Option.isSome_none, Bool.false_eq_true]
      cases hcode : codeOf s.node.stores (bytesOfHex body.contract_address) with
      | none =>
        right
        constructor
        · intro hfound
          obtain ⟨code, hsome, -⟩ := hfound.code
          simp [hcode] at hsome
        · have hmissing := hT.getCode_missing hhex hcode
          rw [hbytecode] at hmissing
          rw [hattempt, if_pos (hmissing.imp_right .inl)]
      | some code =>
        obtain rfl : bytecode = toJsonHex code := hbytecode.symm.trans (hT.getCode hhex hcode)
        simp only [toJsonHex_missing_iff] at hattempt
        by_cases hne : code = []
        · right
          refine ⟨fun hfound => ?_, by rw [hattempt, if_pos hne]⟩
          obtain ⟨code', hsome, hne'⟩ := hfound.code
          rw [hcode, hne, Option.some.injEq] at hsome
          exact absurd hsome.symm hne'
        · left
          have hnone := hT.noContract hrefused
          refine ⟨⟨hbody, ⟨code, hcode, hne⟩, hnone, hrefused⟩, hmem, ?_⟩
          rw [hattempt, if_neg hne]
          exact Session.register_ok (hf.decodeAddress _ hhex) (hT.decodeHex code) hf.setAccountCode hnone
  · right
    refine ⟨fun hfound => absurd hfound.refused hrefused, ?_⟩
    rw [attempted, Session.maybeAutoRegisterContract, if_pos (by simpa using hrefused)]

/-! ## What a call does -/

theorem Session.finish_autoRegisteredAddresses (multisig : Bool) (t : TriggerJson) (f : CallFates) (s : Session) :
    (s.finish multisig t f).2.autoRegisteredAddresses = s.autoRegisteredAddresses := by
  unfold finish signAndBroadcast
  repeat' split
  all_goals rfl

/-- An accepted trigger is signed and broadcast. -/
theorem Session.finish_accepted {t : TriggerJson} (h : t.failed = false) (multisig : Bool) (f : CallFates) (s : Session)
    (t' : TriggerJson) : (s.finish multisig t f).1 ≠ .error (.triggersmartcontract t') := by
  obtain ⟨transaction, htx⟩ : ∃ transaction, t.transaction = some transaction := by
    simp only [TriggerJson.failed, Bool.or_eq_false_iff] at h
    cases htx : t.transaction with
    | none => simp [htx] at h
    | some transaction => exact ⟨transaction, rfl⟩
  simp only [finish, h, htx, signAndBroadcast]
  repeat' split
  all_goals simp [broadcastError]

theorem sendCallTx_registered (hf : RpcsSucceed T evmToTvm c f)
    (hfound : FindsUnregistered T evmToTvm c s body) {s' : Session}
    (h : attempted T evmToTvm c f s body = (.ok true, s')) :
    s.sendCallTx T evmToTvm c f = s'.finish c.multisig (T.triggersmartcontract body s'.node.stores) f := by
  have hbody : triggerBody T.codec c (remapped T.codec evmToTvm c.toBase58).text = some body := hfound.sends
  have hattempt : s.maybeAutoRegisterContract T (remapped T.codec evmToTvm c.toBase58).text
      (T.triggersmartcontract body s.node.stores) f = (.ok true, s') := h
  have hfailed := TriggerJson.failed_of_noContract hfound.refused
  simp only [Session.sendCallTx, hbody, hf.trigger, Session.triggered, hfailed, if_true, hattempt, hf.retrigger]

theorem sendCallTx_left (hf : RpcsSucceed T evmToTvm c f)
    (hbody : triggerBody T.codec c (target T evmToTvm c) = some body)
    (h : attempted T evmToTvm c f s body = (.ok false, s)) :
    s.sendCallTx T evmToTvm c f = s.finish c.multisig (T.triggersmartcontract body s.node.stores) f := by
  have hbody' : triggerBody T.codec c (remapped T.codec evmToTvm c.toBase58).text = some body := hbody
  have hattempt : s.maybeAutoRegisterContract T (remapped T.codec evmToTvm c.toBase58).text
      (T.triggersmartcontract body s.node.stores) f = (.ok false, s) := h
  have htriggered : s.triggered T (remapped T.codec evmToTvm c.toBase58).text body f =
      (.ok (T.triggersmartcontract body s.node.stores), s) := by
    simp only [Session.triggered, hattempt, ite_self]
  simp only [Session.sendCallTx, hbody', hf.trigger, htriggered]

/-- A call to an address in the memo that is not registered fails with the node's refusal. -/
theorem sendCallTx_refused (hf : RpcsSucceed T evmToTvm c f) (hfound : FindsUnregistered T evmToTvm c s body)
    (h : attempted T evmToTvm c f s body = (.ok false, s)) :
    s.sendCallTx T evmToTvm c f = (.error (.triggersmartcontract (T.triggersmartcontract body s.node.stores)), s) := by
  rw [sendCallTx_left hf hfound.sends h]
  simp only [Session.finish, TriggerJson.failed_of_noContract hfound.refused]

/-- The call recovers exactly when the memo does not have its target. -/
theorem recovers_iff_not_mem (hT : T.Lawful) (hf : RpcsSucceed T evmToTvm c f)
    (hfound : FindsUnregistered T evmToTvm c s body) :
    Recovers T evmToTvm c f s body ↔ target T evmToTvm c ∉ s.autoRegisteredAddresses := by
  rcases attempted_cases (s := s) hT hf hfound.sends with ⟨-, hmem, s', hattempt, -, hentry⟩ | ⟨hmem, hattempt⟩
  · refine iff_of_true ⟨?_, ?_, ?_, ?_⟩ hmem
    · rw [hattempt]
    · rw [hattempt]
      exact hentry.entry
    · rw [hattempt]
      exact hT.triggersmartcontract hfound.refused hentry
    · rw [sendCallTx_registered hf hfound hattempt]
      exact Session.finish_accepted (hT.triggersmartcontract hfound.refused hentry) _ _ _
  · refine iff_of_false ?_ (not_not_intro (hmem hfound))
    intro hrecovers
    exact hrecovers.notRefused _ (by rw [sendCallTx_refused hf hfound hattempt])

/-- The memo gains the target of a call that finds it unregistered, and nothing else. -/
theorem mem_sendCallTx (hT : T.Lawful) (hf : RpcsSucceed T evmToTvm c f) (text : JsString) :
    text ∈ (s.sendCallTx T evmToTvm c f).2.autoRegisteredAddresses ↔
      text ∈ s.autoRegisteredAddresses ∨
        target T evmToTvm c = text ∧ ∃ body, FindsUnregistered T evmToTvm c s body := by
  cases hbody : triggerBody T.codec c (target T evmToTvm c) with
  | none =>
    have hbody' : triggerBody T.codec c (remapped T.codec evmToTvm c.toBase58).text = none := hbody
    have hnot : ¬∃ body, FindsUnregistered T evmToTvm c s body := by
      rintro ⟨body, hfound⟩
      rw [hfound.sends] at hbody
      cases hbody
    simp [Session.sendCallTx, hbody', hnot]
  | some body =>
    rcases attempted_cases (s := s) hT hf hbody with ⟨hfound, hmem, s', hattempt, hs', -⟩ | ⟨hmem, hattempt⟩
    · rw [sendCallTx_registered hf hfound hattempt, Session.finish_autoRegisteredAddresses, hs', List.mem_cons]
      constructor
      · rintro (rfl | h)
        · exact .inr ⟨rfl, body, hfound⟩
        · exact .inl h
      · rintro (h | ⟨rfl, -⟩)
        · exact .inr h
        · exact .inl rfl
    · rw [sendCallTx_left hf hbody hattempt, Session.finish_autoRegisteredAddresses]
      constructor
      · exact .inl
      · rintro (h | ⟨rfl, body', hfound⟩)
        · exact h
        · obtain rfl : body = body' := Option.some.inj (hbody.symm.trans hfound.sends)
          exact hmem hfound

end

/-! ## Runs -/

section

variable (T : CallHandlers)

/-- Every call of the run has its other requests answered. -/
def CallsSucceed (_ : Session) : SessionCall → Prop
  | .sendCallTx evmToTvm c f => RpcsSucceed T evmToTvm c f
  | .node _ => True

/-- The runs of a process that starts on the node `n`. -/
abbrev SessionRun (n : NodeView) (h : List (SessionCall × SessionReply)) (s : Session) : Prop :=
  Run (Session.step T) (CallsSucceed T) ⟨[], n⟩ h s

/-- A call in the history found the address `text` unregistered. -/
def FoundBefore (n : NodeView) (h : List (SessionCall × SessionReply)) (text : JsString) : Prop :=
  ∃ h₁ evmToTvm c f r h₂ s body, h = h₁ ++ (.sendCallTx evmToTvm c f, r) :: h₂ ∧ SessionRun T n h₁ s ∧
    target T evmToTvm c = text ∧ FindsUnregistered T evmToTvm c s body

end

section

variable {T : CallHandlers} {n : NodeView} {h : List (SessionCall × SessionReply)} {s : Session}

theorem FoundBefore.append {text : JsString} (hf : FoundBefore T n h text) (g : List (SessionCall × SessionReply)) :
    FoundBefore T n (h ++ g) text := by
  obtain ⟨h₁, evmToTvm, c, f, r, h₂, s, body, rfl, hr, ht, hfound⟩ := hf
  exact ⟨h₁, evmToTvm, c, f, r, h₂ ++ g, s, body, by simp, hr, ht, hfound⟩

/-- The last call of a history, or one before it. -/
theorem foundBefore_snoc (hr : SessionRun T n h s) {e : SessionCall} {r : SessionReply} {text : JsString}
    (hf : FoundBefore T n (h ++ [(e, r)]) text) : FoundBefore T n h text ∨
      ∃ evmToTvm c f, e = .sendCallTx evmToTvm c f ∧ target T evmToTvm c = text ∧
        ∃ body, FindsUnregistered T evmToTvm c s body := by
  obtain ⟨h₁, evmToTvm, c, f, r', h₂, s', body, heq, hr', ht, hfound⟩ := hf
  rcases List.eq_nil_or_concat h₂ with rfl | ⟨h₂', x, rfl⟩
  · obtain ⟨rfl, hlast⟩ := List.append_inj' heq rfl
    obtain ⟨rfl, rfl⟩ : e = .sendCallTx evmToTvm c f ∧ r = r' := by simpa using hlast
    obtain rfl := hr.unique hr'
    exact .inr ⟨evmToTvm, c, f, rfl, ht, body, hfound⟩
  · rw [List.concat_eq_append, ← List.cons_append, ← List.append_assoc] at heq
    obtain ⟨rfl, -⟩ := List.append_inj' heq rfl
    exact .inl ⟨h₁, evmToTvm, c, f, r', h₂', s', body, rfl, hr', ht, hfound⟩

/-- The memo is what the run's calls found unregistered. -/
theorem mem_autoRegisteredAddresses (hT : T.Lawful) (hr : SessionRun T n h s) (text : JsString) :
    text ∈ s.autoRegisteredAddresses ↔ FoundBefore T n h text := by
  induction hr generalizing text with
  | nil =>
    apply iff_of_false (List.not_mem_nil)
    rintro ⟨h₁, evmToTvm, c, f, r, h₂, s, body, heq, -⟩
    simp at heq
  | @snoc h s s' r e hr hok hst ih =>
    cases e with
    | sendCallTx evmToTvm c f =>
      obtain ⟨rfl, rfl⟩ : SessionReply.sent (s.sendCallTx T evmToTvm c f).1 = r ∧
          (s.sendCallTx T evmToTvm c f).2 = s' := by simpa [Session.step] using hst
      rw [mem_sendCallTx hT hok, ih]
      constructor
      · rintro (hf | ⟨ht, body, hfound⟩)
        · exact hf.append _
        · exact ⟨h, evmToTvm, c, f, _, [], s, body, rfl, hr, ht, hfound⟩
      · intro hf
        rcases foundBefore_snoc hr hf with hf | ⟨evmToTvm', c', f', heq, ht, hfound⟩
        · exact .inl hf
        · cases heq
          exact .inr ⟨ht, hfound⟩
    | node c =>
      obtain ⟨rfl, rfl⟩ : SessionReply.node (s.node.exec c).1 = r ∧ { s with node := (s.node.exec c).2 } = s' := by
        simpa [Session.step] using hst
      rw [show text ∈ ({ s with node := (s.node.exec c).2 } : Session).autoRegisteredAddresses ↔ _ from ih text]
      constructor
      · intro hf
        exact hf.append _
      · intro hf
        rcases foundBefore_snoc hr hf with hf | ⟨evmToTvm', c', f', heq, -⟩
        · exact hf
        · cases heq

end

/-- In every run, a call that finds its contract unregistered recovers exactly if
no call before it found the same address so. -/
theorem recovers_iff_first_found (T : CallHandlers) (hT : T.Lawful) (n : NodeView)
    {h : List (SessionCall × SessionReply)} {s : Session} (hr : SessionRun T n h s) {evmToTvm : EvmToTvm} {c : CallTx}
    {f : CallFates} (hf : RpcsSucceed T evmToTvm c f) {body : TriggerBody}
    (hfound : FindsUnregistered T evmToTvm c s body) :
    Recovers T evmToTvm c f s body ↔ ¬FoundBefore T n h (target T evmToTvm c) := by
  rw [recovers_iff_not_mem hT hf hfound, mem_autoRegisteredAddresses hT hr]

/-! ## A call, a revert and the call again -/

section

variable (T : CallHandlers) (f : CallFates)

theorem Session.maybeAutoRegisterContract_SNAPSHOTS (toBase58 : JsString) (t : TriggerJson) (s : Session) :
    (s.maybeAutoRegisterContract T toBase58 t f).2.node.SNAPSHOTS = s.node.SNAPSHOTS := by
  have hregister : ∀ bytecode, (s.register T toBase58 bytecode f).2.node.SNAPSHOTS = s.node.SNAPSHOTS := by
    intro bytecode
    have hcalled : (rpcCall (NodeView.setAccountCode T.rt toBase58 bytecode) f.setAccountCode s.node).2.SNAPSHOTS =
        s.node.SNAPSHOTS :=
      rpcCall_state (fun t : NodeView => t.SNAPSHOTS = s.node.SNAPSHOTS) (fun _ h => h) rfl
    simp only [register]
    split
    · exact hcalled
    · exact hcalled
  simp only [maybeAutoRegisterContract]
  repeat' split
  all_goals first | rfl | exact hregister _

theorem Session.finish_SNAPSHOTS (multisig : Bool) (t : TriggerJson) (s : Session) :
    (s.finish multisig t f).2.node.SNAPSHOTS = s.node.SNAPSHOTS := by
  unfold finish signAndBroadcast
  repeat' split
  all_goals rfl

/-- A call takes no snapshot and drops none. -/
theorem Session.sendCallTx_SNAPSHOTS (evmToTvm : EvmToTvm) (c : CallTx) (s : Session) :
    (s.sendCallTx T evmToTvm c f).2.node.SNAPSHOTS = s.node.SNAPSHOTS := by
  have htriggered : ∀ toBase58 body, (s.triggered T toBase58 body f).2.node.SNAPSHOTS = s.node.SNAPSHOTS := by
    intro toBase58 body
    have hattempt := Session.maybeAutoRegisterContract_SNAPSHOTS T f toBase58 (T.triggersmartcontract body s.node.stores) s
    simp only [triggered]
    split
    · split
      · rename_i heq
        rwa [heq] at hattempt
      · rename_i heq
        rwa [heq] at hattempt
      · rename_i heq
        rw [heq] at hattempt
        split
        · exact hattempt
        · exact hattempt
    · rfl
  simp only [sendCallTx]
  split
  · rfl
  · rfl
  · rename_i body _ _
    have hbody := htriggered (remapped T.codec evmToTvm c.toBase58).text body
    split
    · rename_i heq
      rwa [heq] at hbody
    · rename_i heq
      rw [heq] at hbody
      rw [Session.finish_SNAPSHOTS, hbody]

/-- A process that has asked the node for a snapshot. -/
def Session.snapshotted (n : NodeView) : Session := ⟨[], (n.exec .tre_snapshot).2⟩

/-- A call between a snapshot and the revert to it. -/
theorem rolled_back (evmToTvm : EvmToTvm) (c : CallTx) (hf : RpcsSucceed T evmToTvm c f) (n : NodeView) :
    ∃ h s, SessionRun T n h s ∧
      s.node.stores = restored (dumpOf n.stores) ((Session.snapshotted n).sendCallTx T evmToTvm c f).2.node.stores ∧
      ∀ body, FindsUnregistered T evmToTvm c (.snapshotted n) body → FoundBefore T n h (target T evmToTvm c) := by
  have h₁ : SessionRun T n [(.node .tre_snapshot, .node (n.exec .tre_snapshot).1)] (.snapshotted n) :=
    Run.nil.snoc (SessionCall.node .tre_snapshot) trivial rfl
  have h₂ := h₁.snoc (SessionCall.sendCallTx evmToTvm c f) hf rfl
  have h₃ := h₂.snoc (SessionCall.node (.tre_revert (some (snapshotId (n.SNAPSHOT_COUNTER + 1))))) trivial rfl
  refine ⟨_, _, h₃, ?_, ?_⟩
  · apply NodeView.exec_revert_stores
    rw [Session.sendCallTx_SNAPSHOTS]
    simp [Session.snapshotted, NodeView.exec]
  · intro body hfound
    exact FoundBefore.append ⟨_, evmToTvm, c, f, _, [], _, body, rfl, h₁, rfl, hfound⟩ _

end

/-! ### A proxy -/

def proxy : AddressText := ⟨"TD5gsCwxykWsLN9aPrq2TAfNjByuZKYp4E".toList, by decide⟩

def hexOfAddress (a : JsString) : Option JsString :=
  if a = payer.text then some ("41".toList ++ payerEvm.drop 2)
  else if a = proxy.text then some ("41".toList ++ contractEvm.drop 2)
  else none

/-- Capsules that are bytes; `TreUtil` knows the two addresses and hex. -/
def byteCapsules : Capsules Bytes Bytes where
  decodeAddress p :=
    match p.bind fun a => hexOfAddress a.toList with
    | some hex => .ok (bytesOfHex hex)
    | none => .error (.rpc (.invalidParams "invalid address"))
  decodeLong _ := .ok 0
  decodeDataWord _ := .ok []
  decodeHex p :=
    match p.map String.toList with
    | some ('0' :: 'x' :: digits) => .ok (bytesOfHex digits)
    | _ => .error (.rpc (.invalidParams "invalid hex"))
  compose slot address _ := slot ++ address
  sha3 := id
  getAllowMultiSign _ := .ok 0
  getLatestBlockHeaderTimestamp _ := .ok 0
  newAccount address _ _ _ _ := .ok address
  newNamedAccount address _ _ := address
  setBalance account _ := account
  getType _ := .Contract
  updateAccountType account _ := account
  clearOwnerPermission := id
  clearWitnessPermission := id
  clearActivePermission := id
  newContract address _ := address
  getContractVersion _ := 0
  setCodeHash contract _ := contract

theorem byteCapsules_decodeAddress {a hex : JsString} (h : hexOfAddress a = some hex) :
    byteCapsules.decodeAddress (some (String.ofList a)) = .ok (bytesOfHex hex) := by
  simp [byteCapsules, h]

/-- What the node answers for a missing entry. -/
def refusal : TriggerJson where
  transaction := none
  code := "CONTRACT_VALIDATE_ERROR".toList
  message := hexOfBytes ("Contract validate error : No contract or not a valid smart contract".toList.map
    fun c => UInt8.ofNat c.toNat)

def proxyHandlers : CallHandlers where
  codec :=
    { toBase58Address := fun _ => none
      toHex := hexOfAddress
      fromHex := fun _ => none
      base58 := @base58_of_throws }
  rt := byteCapsules
  triggersmartcontract body stores :=
    if contractOf stores (bytesOfHex body.contract_address) = none then refusal else ⟨some [0x0a], [], []⟩
  eth_getCode param stores := toJsonHex ((codeOf stores (bytesOfHex ("41".toList ++ param.drop 2))).getD [])

theorem refusal_noContract : refusal.noContract = true := by
  have hcode : refusal.code = "CONTRACT_VALIDATE_ERROR".toList := rfl
  have hmessage : bytesOfHex refusal.message = _ := bytesOfHex_hexOfBytes _
  simp only [TriggerJson.noContract, hcode, hmessage, includesIgnoreCase, String.toList_ofList]
  decide +kernel

theorem hexOfAddress_tronHex {a hex : JsString} (h : hexOfAddress a = some hex) : "41".toList ++ hex.drop 2 = hex := by
  unfold hexOfAddress at h
  split at h
  · cases h
    rfl
  · split at h
    · cases h
      rfl
    · cases h

theorem proxyHandlers_getCode {a hex : JsString} (h : hexOfAddress a = some hex) (stores : StoreContents) :
    proxyHandlers.eth_getCode ('0' :: 'x' :: hex.drop 2) stores =
      toJsonHex ((codeOf stores (bytesOfHex hex)).getD []) := by
  show toJsonHex ((codeOf stores (bytesOfHex ("41".toList ++ hex.drop 2))).getD []) = _
  rw [hexOfAddress_tronHex h]

theorem proxyHandlers_lawful : proxyHandlers.Lawful where
  getCode := by
    intro a hex h stores code hcode
    rw [proxyHandlers_getCode h, hcode, Option.getD_some]
  getCode_missing := by
    intro a hex h stores hcode
    right
    rw [proxyHandlers_getCode h, hcode]
    rfl
  decodeHex := by
    intro code
    simp [proxyHandlers, byteCapsules, toJsonHex, bytesOfHex_hexOfBytes]
  noContract := by
    intro body stores h
    by_contra hentry
    simp [proxyHandlers, hentry, TriggerJson.noContract] at h
  triggersmartcontract := by
    intro body stores stores' _ hregistered
    simp [proxyHandlers, hregistered.entry, TriggerJson.failed]

/-- The proxy's code, and no contract. -/
def proxyStores : StoreContents
  | .code address => if address = bytesOfHex ("41".toList ++ contractEvm.drop 2) then some [0x36, 0x3d] else none
  | .account _ => none
  | .contract _ => none
  | .storageRow _ => none
  | .dynamicProperty _ => none

def proxyNode : NodeView := ⟨proxyStores, .empty, 0⟩

/-- A call to the proxy, and requests that all succeed. -/
def proxyCall : CallTx := ⟨payer, proxy, .str "0x5c60da1b".toList, .undefined, false, none⟩

def answeredFates : CallFates where
  trigger := none
  getCode := none
  setAccountCode := .allAnswered
  retrigger := none
  sign _ raw := .ok ⟨"c0ffee".toList, raw⟩
  broadcast _ := (.ok ⟨true, [], [], [], []⟩, id)

theorem proxyCall_rpcsSucceed : RpcsSucceed proxyHandlers (fun _ => none) proxyCall answeredFates where
  trigger := rfl
  getCode := rfl
  setAccountCode := rfl
  decodeAddress := fun _ h => byteCapsules_decodeAddress h
  retrigger := rfl

/-- The call's request. -/
def proxyBody : TriggerBody where
  owner_address := "41".toList ++ payerEvm.drop 2
  contract_address := "41".toList ++ contractEvm.drop 2
  data := .str "5c60da1b".toList
  fee_limit := 1000000000
  call_value := 0
  visible := false

theorem proxyCall_finds {s : Session} (hcode : codeOf s.node.stores = codeOf proxyStores)
    (hcontract : contractOf s.node.stores = fun _ => none) :
    FindsUnregistered proxyHandlers (fun _ => none) proxyCall s proxyBody where
  sends := by rfl
  code := ⟨[0x36, 0x3d], by rw [hcode]; rfl, by simp⟩
  contract := by rw [hcontract]
  refused := by
    simp only [proxyHandlers, hcontract, if_true]
    exact refusal_noContract

/-- The first call to the proxy recovers. -/
theorem recovers_iff_first_found_proxy :
    FindsUnregistered proxyHandlers (fun _ => none) proxyCall ⟨[], proxyNode⟩ proxyBody ∧
      (Recovers proxyHandlers (fun _ => none) proxyCall answeredFates ⟨[], proxyNode⟩ proxyBody ↔
        ¬FoundBefore proxyHandlers proxyNode [] (target proxyHandlers (fun _ => none) proxyCall)) :=
  ⟨proxyCall_finds rfl rfl, recovers_iff_first_found proxyHandlers proxyHandlers_lawful proxyNode .nil
    proxyCall_rpcsSucceed (proxyCall_finds rfl rfl)⟩

/-- After a revert to before its registration the proxy cannot be called. -/
theorem reverted_registration_lost : ¬∀ (T : CallHandlers), T.Lawful → ∀ (n : NodeView)
    (h : List (SessionCall × SessionReply)) (s : Session), SessionRun T n h s → ∀ (evmToTvm : EvmToTvm) (c : CallTx)
    (f : CallFates), RpcsSucceed T evmToTvm c f → ∀ body, FindsUnregistered T evmToTvm c s body →
    Recovers T evmToTvm c f s body := by
  intro hall
  obtain ⟨h, s, hr, hstores, hbefore⟩ :=
    rolled_back proxyHandlers answeredFates (fun _ => none) proxyCall proxyCall_rpcsSucceed proxyNode
  have hfound : FindsUnregistered proxyHandlers (fun _ => none) proxyCall s proxyBody := by
    apply proxyCall_finds
    · rw [hstores, codeOf_restored]
      rfl
    · rw [hstores, contractOf_restored]
      rfl
  have hrecovers := hall _ proxyHandlers_lawful _ _ _ hr _ _ _ proxyCall_rpcsSucceed _ hfound
  rw [recovers_iff_not_mem proxyHandlers_lawful proxyCall_rpcsSucceed hfound,
    mem_autoRegisteredAddresses proxyHandlers_lawful hr] at hrecovers
  exact hrecovers (hbefore proxyBody (proxyCall_finds rfl rfl))

end HardhatTron

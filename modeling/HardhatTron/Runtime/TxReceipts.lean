import HardhatTron.Runtime.Prebuild
/-!
# Receipts of transactions

What the bridge and the signers make of a transaction the node has answered
for: the translated receipt, the registry `knownReceipts` it is stored in, and
the response or the revert error the caller is handed.

`ethers`, the runtime package's address codec and TronWeb are outside the
repository. A text that is missing from the node's answer is the empty one, as
the code tells them apart nowhere. Decoded event arguments are left out.
-/
namespace HardhatTron

open Lib

/-! ## What the node reports -/

structure CallValueInfo where
  callValue : Option Int
  tokenId : JsString

structure InternalTransaction where
  note : JsString
  caller_address : JsString
  transferTo_address : JsString
  callValueInfo : List CallValueInfo
  rejected : Bool

structure InfoReceipt where
  result : JsString
  energy_fee : Option Nat
  net_fee : Option Nat
  energy_usage_total : Option Nat

structure InfoLog where
  address : JsString
  topics : List JsString
  data : JsString

structure TransactionInfo where
  receipt : Option InfoReceipt
  fee : Option Nat
  blockNumber : Option Nat
  blockHash : JsString
  log : List InfoLog
  contractResult : List JsString
  internal_transactions : Option (List InternalTransaction)
  internalTransactions : Option (List InternalTransaction)
  contract_address : JsString

/-- `info && info.receipt && info.receipt.result` -/
def receiptResult (info : Option TransactionInfo) : JsString :=
  ((info.bind (·.receipt)).map (·.result)).getD []

/-- `info && info.receipt && info.receipt.result === 'SUCCESS'` -/
def succeeded (info : Option TransactionInfo) : Bool := receiptResult info = "SUCCESS".toList

def energyFee (info : Option TransactionInfo) : Nat := ((info.bind (·.receipt)).bind (·.energy_fee)).getD 0

def netFee (info : Option TransactionInfo) : Nat := ((info.bind (·.receipt)).bind (·.net_fee)).getD 0

/-! ## Receipts -/

structure Log where
  address : Option JsString
  topics : List JsString
  data : JsString
  logIndex : Nat
  transactionHash : JsString
  blockNumber : Option Nat

structure Receipt where
  hash : JsString
  status : Nat
  blockNumber : Option Nat
  gasUsed : Option Nat
  blockHash : Option JsString
  feeSun : Nat
  logs : List Log
  internalTransactions : List InternalTransaction
  contractAddress : Option JsString

def hashOf (txId : JsString) : JsString := "0x".toList ++ txId

/-- `s.startsWith('0x') ? s : '0x' + s` -/
def with0x (s : JsString) : JsString := if "0x".toList <+: s then s else "0x".toList ++ s

def translateLog (txId : JsString) (info : TransactionInfo) (l : InfoLog) (i : Nat) : Log where
  address := if l.address = [] then none else some ("0x".toList ++ l.address)
  topics := l.topics.map with0x
  data := if l.data = [] then "0x".toList else with0x l.data
  logIndex := i
  transactionHash := hashOf txId
  blockNumber := info.blockNumber

def translateReceipt (txId : JsString) (info : Option TransactionInfo) : Receipt where
  hash := hashOf txId
  status := if succeeded info then 1 else 0
  blockNumber := info.bind (·.blockNumber)
  gasUsed := some (((info.bind (·.receipt)).bind (·.energy_usage_total)).getD 0)
  blockHash := info.bind fun info => if info.blockHash = [] then none else some (with0x info.blockHash)
  feeSun := ((info.bind (·.fee)).map toDouble).getD (energyFee info + netFee info)
  logs := (info.map fun info => info.log.mapIdx fun i l => translateLog txId info l i).getD []
  internalTransactions := (info.bind (·.internal_transactions)).getD []
  contractAddress := info.map (·.contract_address)

/-- The receipt `sendTransaction` builds by hand, in both kinds of signer. -/
def sentReceipt (txId : JsString) (info : Option TransactionInfo) (succeeded : Bool) : Receipt where
  hash := hashOf txId
  status := if succeeded then 1 else 0
  blockNumber := info.bind (·.blockNumber)
  gasUsed := none
  blockHash := none
  feeSun :=
    match (info.bind (·.fee)).getD 0 with
    | 0 => energyFee info + netFee info
    | fee => fee
  logs := []
  internalTransactions := (info.bind (·.internal_transactions)).getD []
  contractAddress := none

/-! ## The registry -/

abbrev KnownReceipts := OrderedMap JsString Receipt

/-- `_KNOWN_RECEIPTS_MAX` -/
def knownReceiptsMax : Nat := 2000

/-- The entries past three quarters of the limit are dropped, oldest key first. -/
def rememberReceipt (knownReceipts : KnownReceipts) (hash : JsString) (receipt : Receipt) : KnownReceipts :=
  let stored := knownReceipts.put hash receipt
  if stored.size > knownReceiptsMax then
    let dropCount := stored.size - knownReceiptsMax * 3 / 4
    (stored.keys.take dropCount).foldl (fun m k => m.remove k) stored
  else stored

/-- `stubProvider.getTransactionReceipt` -/
def getTransactionReceipt (knownReceipts : KnownReceipts) (hash : JsString) : Option Receipt := knownReceipts.get? hash

/-! ## Responses and errors -/

/-- The functions of other packages the responses go through; `none` is a throw. -/
structure Ethers where
  /-- `toEvmAddress` of the runtime package -/
  toEvmAddress : JsString → Option JsString
  /-- `ethers.getAddress`: the checksummed spelling -/
  getAddress : JsString → Option JsString
  /-- The reason in the data of `Error(string)`. -/
  decodeReason : JsString → Option JsString

def tronToHex (ethers : Ethers) (addr : JsString) : Option JsString :=
  if addr = [] then some [] else (ethers.toEvmAddress addr).bind ethers.getAddress

/-- `from`, `to` and `valueSun` are missing from the response to a deployment. -/
structure TxResponse where
  hash : JsString
  blockNumber : Option Nat
  sender : Option JsString
  recipient : Option JsString
  valueSun : Option Int
  feeSun : Option Nat
  internalTransactions : Option (List InternalTransaction)
  logs : Option (List Log)
  receipt : Receipt

structure RevertError where
  message : JsString
  data : JsString
  reason : Option JsString
  txHash : JsString
  receipt : Receipt

inductive TxReply where
  | response (r : TxResponse)
  | reverted (e : RevertError)
  | threw

def revertData (info : Option TransactionInfo) : JsString :=
  match info.map (·.contractResult) with
  | some ((c :: cs) :: _) => "0x".toList ++ c :: cs
  | _ => "0x".toList

def revertReason (ethers : Ethers) (data : JsString) : Option JsString :=
  if "0x08c379a0".toList <+: data then ethers.decodeReason (data.drop 10) else none

def revertMessage (info : Option TransactionInfo) : Option JsString → JsString
  | some (c :: cs) => "transaction reverted with reason: ".toList ++ c :: cs
  | _ =>
    let result := if receiptResult info = [] then "unknown".toList else receiptResult info
    "transaction reverted (result=".toList ++ result ++ ", data=".toList ++ revertData info ++ ")".toList

def buildRevertError (ethers : Ethers) (m : KnownReceipts) (txId : JsString) (info : Option TransactionInfo) :
    RevertError × KnownReceipts :=
  let data := revertData info
  let reason := revertReason ethers data
  let receipt := translateReceipt txId info
  (⟨revertMessage info reason, data, reason, hashOf txId, receipt⟩, rememberReceipt m (hashOf txId) receipt)

/-- How `staticCallWithRevertData` ends when the call is simulated again. -/
inductive Simulation where
  | returned
  | threw (data reason : Option JsString)

/-- What `buildRevertErrorWithSim` finds out about a revert without data; `failedDeployment` is
whether the function returns an address and the contract's code holds that selector. -/
structure Resimulation where
  simulation : Simulation
  failedDeployment : Bool

def recoverData (e : RevertError) (sim : Resimulation) : RevertError :=
  if e.data ≠ "0x".toList then e
  else
    match sim.simulation with
    | .threw (some data) reason =>
      if data ≠ "0x".toList then { e with data := data, reason := reason <|> e.reason } else e
    | .threw none _ => e
    | .returned => if sim.failedDeployment then { e with data := "0xb06ebf3d".toList } else e

/-- `buildRevertErrorWithSim` -/
def buildRevertErrorWithSim (ethers : Ethers) (m : KnownReceipts) (txId : JsString) (info : Option TransactionInfo)
    (sim : Resimulation) : RevertError × KnownReceipts :=
  let (e, m) := buildRevertError ethers m txId info
  (recoverData e sim, m)

/-- The `meta` argument of `makeTxResponse`, with `callValueSun` after `Number`. -/
structure TxMeta where
  fromBase58 : JsString
  toBase58 : JsString
  valueSun : Int

/-- `addr ? tronToHex(addr) : undefined` -/
def projected (ethers : Ethers) (addr : JsString) : Option (Option JsString) :=
  if addr = [] then some none else (tronToHex ethers addr).map some

def makeTxResponse (ethers : Ethers) (m : KnownReceipts) (txId : JsString) (info : Option TransactionInfo)
    (given : TxMeta) : TxReply × KnownReceipts :=
  let receipt := translateReceipt txId info
  let m := rememberReceipt m (hashOf txId) receipt
  match projected ethers given.fromBase58, projected ethers given.toBase58 with
  | some sender, some recipient =>
    (.response ⟨hashOf txId, info.bind (·.blockNumber), sender, recipient, some given.valueSun,
      some receipt.feeSun, some receipt.internalTransactions, some receipt.logs, receipt⟩, m)
  | _, _ => (.threw, m)

/-! ## The ends of the transactions -/

/-- `invoke` after the broadcast, on each of its three routes. -/
def finishInvoke (ethers : Ethers) (m : KnownReceipts) (txId : JsString) (info : Option TransactionInfo)
    (given : TxMeta) (sim : Resimulation) : TxReply × KnownReceipts :=
  if succeeded info then makeTxResponse ethers m txId info given
  else
    let (e, m) := buildRevertErrorWithSim ethers m txId info sim
    (.reverted e, m)

/-- The response both kinds of signer return. -/
def sentResponse (ethers : Ethers) (receipt : Receipt) (given : TxMeta) : TxReply :=
  match tronToHex ethers given.fromBase58, tronToHex ethers given.toBase58 with
  | some sender, some recipient =>
    .response ⟨receipt.hash, receipt.blockNumber, some sender, some recipient, some given.valueSun,
      some receipt.feeSun, some receipt.internalTransactions, none, receipt⟩
  | _, _ => .threw

/-- A signer's `sendTransaction` after the broadcast. The signer stores its receipt by itself. -/
def finishSend (ethers : Ethers) (m : KnownReceipts) (txId : JsString) (hasDataField : Bool)
    (info : Option TransactionInfo) (given : TxMeta) : TxReply × KnownReceipts :=
  let receipt := sentReceipt txId info (if hasDataField then succeeded info else true)
  let m := m.put receipt.hash receipt
  if hasDataField ∧ receipt.status = 0 then
    let (e, m) := buildRevertError ethers m txId info
    (.reverted e, m)
  else (sentResponse ethers receipt given, m)

/-- An impersonating signer's `sendTransaction` after the broadcast. -/
def finishImpersonatedSend (ethers : Ethers) (m : KnownReceipts) (txId : JsString) (hasDataField : Bool)
    (info : Option TransactionInfo) (given : TxMeta) : TxReply × KnownReceipts :=
  let receipt := sentReceipt txId info (if hasDataField then succeeded info else true)
  let m := rememberReceipt m receipt.hash receipt
  if hasDataField ∧ receipt.status = 0 then
    let (e, m) := buildRevertError ethers m txId info
    (.reverted e, m)
  else (sentResponse ethers receipt given, m)

/-- The first answer in which `pollDeployReceipt` sees a contract address. -/
inductive DeployPoll where
  | unconfirmed (info : TransactionInfo) (created : info.contract_address ≠ [])
  | solidified (info : TransactionInfo) (created : info.contract_address ≠ [])
  | timeout

/-- `result === 'SUCCESS' || !result` -/
def deploySucceeded (info : TransactionInfo) : Bool :=
  succeeded (some info) || receiptResult (some info) = []

/-- `deployContract`, with or without a stashed transaction, after the broadcast. -/
def finishDeploy (ethers : Ethers) (m : KnownReceipts) (txId : JsString) (poll : DeployPoll) : TxReply × KnownReceipts :=
  let deployed (info : TransactionInfo) : TxReply × KnownReceipts :=
    let receipt := translateReceipt txId (some info)
    (.response ⟨hashOf txId, info.blockNumber, none, none, none, none, none, some receipt.logs, receipt⟩,
      rememberReceipt m (hashOf txId) receipt)
  match poll with
  | .unconfirmed info _ =>
    if deploySucceeded info then deployed info
    else
      let (e, m) := buildRevertError ethers m txId (some info)
      (.reverted e, m)
  | .solidified info _ => if deploySucceeded info then deployed info else (.threw, m)
  | .timeout => (.threw, m)

end HardhatTron

import HardhatTron.Runtime.ReceiptPolling
/-!
# Deployments that are polled for

`submitPrebuilt` broadcasts a signed deployment and polls until the node names
the contract; `deployContract` builds and signs one first. The node names it for
a constructor that reverted too, so the result decides: what the facade hands
its caller is `finishDeploy` of the first answer that names a contract.
-/
namespace HardhatTron.Polls

open Lib

/-! ## The poll -/

inductive DeployOutcome (E : Type) where
  | deployed (address txId : JsString) (info : TransactionInfo)
  /-- `buildRevertError` is thrown. -/
  | reverted (info : TransactionInfo)
  | threw (e : E)
  | failed (message : JsString)

/-- `info && info.contract_address` -/
def withContract (info : Option TransactionInfo) : Option TransactionInfo := info.filter fun info => info.contract_address ≠ []

def deployTimeoutMessage (txId : JsString) : JsString :=
  "deploy timeout — no contract_address for tx ".toList ++ txId

/-- `jsonStringify` is `JSON.stringify` of an answer. -/
def deployRevertedMessage (jsonStringify : TransactionInfo → JsString) (txId : JsString) (info : TransactionInfo) :
    JsString :=
  "deploy reverted (".toList ++ receiptResult (some info) ++ ") tx ".toList ++ txId ++ ": ".toList ++
    jsonStringify info

def deployed (E : Type) (txId : JsString) (info : TransactionInfo) : DeployOutcome E :=
  .deployed info.contract_address txId info

def deployPlan (E : Type) (jsonStringify : TransactionInfo → JsString) (txId : JsString) :
    PollPlan E (DeployOutcome E) where
  first
    | .error e => some (.threw e)
    | .ok info => (withContract info).map fun info =>
      if deploySucceeded info then deployed E txId info else .reverted info
  hedges _ := false
  hedge _ := none
  last
    | .error e => .threw e
    | .ok info =>
      match withContract info with
      | some info =>
        if deploySucceeded info then deployed E txId info
        else .failed (deployRevertedMessage jsonStringify txId info)
      | none => .failed (deployTimeoutMessage txId)

section
variable {W E : Type}

/-- `pollDeployReceipt`; the facade leaves `timeout` at 180 s. -/
def pollDeployReceipt (c : Client W E) (jsonStringify : TransactionInfo → JsString) (txId : JsString)
    (timeout fuel : Nat) (w : W) : Option (DeployOutcome E × W) :=
  poll c (deployPlan E jsonStringify txId) txId timeout fuel w

/-! ## The broadcast -/

structure SignedTx where
  txID : JsString

/-- The node's answer to a broadcast, and its `JSON.stringify`. -/
structure Sent where
  result : Bool
  txid : JsString
  transactionTxID : JsString
  json : JsString

/-- `sent.txid || (sent.transaction && sent.transaction.txID) || signed.txID` -/
def sentTxId (sent : Sent) (signed : SignedTx) : JsString :=
  if sent.txid ≠ [] then sent.txid else if sent.transactionTxID ≠ [] then sent.transactionTxID else signed.txID

def deployFailedMessage (sent : Sent) : JsString := "deploy failed: ".toList ++ sent.json

/-- TronWeb and the node, for a deployment. -/
structure DeployEnv (W E : Type) where
  client : Client W E
  /-- `prebuildDeploy` of the artifact and the options: built and signed by TronWeb. -/
  prebuildDeploy : W → Except E SignedTx × W
  sendRawTransaction : SignedTx → W → Except E Sent × W
  jsonStringify : TransactionInfo → JsString

def DeployEnv.logged (env : DeployEnv W E) : DeployEnv (W × List (Asked E)) E where
  client := env.client.logged
  prebuildDeploy w := ((env.prebuildDeploy w.1).1, (env.prebuildDeploy w.1).2, w.2)
  sendRawTransaction signed w :=
    ((env.sendRawTransaction signed w.1).1, (env.sendRawTransaction signed w.1).2, w.2)
  jsonStringify := env.jsonStringify

def submitPrebuilt (env : DeployEnv W E) (signed : SignedTx) (timeout fuel : Nat) (w : W) :
    Option (DeployOutcome E × W) :=
  match env.sendRawTransaction signed w with
  | (.error e, w) => some (.threw e, w)
  | (.ok sent, w) =>
    if sent.result then pollDeployReceipt env.client env.jsonStringify (sentTxId sent signed) timeout fuel w
    else some (.failed (deployFailedMessage sent), w)

def deployContract (env : DeployEnv W E) (timeout fuel : Nat) (w : W) : Option (DeployOutcome E × W) :=
  match env.prebuildDeploy w with
  | (.error e, w) => some (.threw e, w)
  | (.ok signed, w) => submitPrebuilt env signed timeout fuel w

/-- `deployViaFacade` after the broadcast. -/
def deployReply (ethers : Ethers) (m : KnownReceipts) (txId : JsString) : DeployOutcome E → TxReply × KnownReceipts
  | .deployed _ txId info =>
    let receipt := translateReceipt txId (some info)
    (.response ⟨hashOf txId, info.blockNumber, none, none, none, none, none, some receipt.logs, receipt⟩,
      rememberReceipt m (hashOf txId) receipt)
  | .reverted info =>
    let (e, m) := buildRevertError ethers m txId (some info)
    (.reverted e, m)
  | .threw _ => (.threw, m)
  | .failed _ => (.threw, m)

/-! ## The first answer that names a contract -/

variable {stringify : TransactionInfo → JsString} {txId : JsString}

/-- How a poll for a deployment ends, by the first answer that names a contract. -/
inductive PollEffect (txId : JsString) : DeployPoll → DeployOutcome E → Prop
  | unconfirmed {info : TransactionInfo} (hnamed : info.contract_address ≠ []) : deploySucceeded info = true →
      PollEffect txId (.unconfirmed info hnamed) (.deployed info.contract_address txId info)
  | reverted {info : TransactionInfo} (hnamed : info.contract_address ≠ []) : deploySucceeded info = false →
      PollEffect txId (.unconfirmed info hnamed) (.reverted info)
  | solidified {info : TransactionInfo} (hnamed : info.contract_address ≠ []) : deploySucceeded info = true →
      PollEffect txId (.solidified info hnamed) (.deployed info.contract_address txId info)
  | revertedLate {info : TransactionInfo} {message : JsString} (hnamed : info.contract_address ≠ []) :
      deploySucceeded info = false → PollEffect txId (.solidified info hnamed) (.failed message)
  | threw (e : E) : PollEffect txId .timeout (.threw e)
  | timeout (message : JsString) : PollEffect txId .timeout (.failed message)

section
variable {poll : DeployPoll} {out : DeployOutcome E}

/-- The facade's reply to what the poll ended in is that to what the poll was shown. -/
theorem PollEffect.reply (h : PollEffect txId poll out) (ethers : Ethers) (m : KnownReceipts) :
    deployReply ethers m txId out = finishDeploy ethers m txId poll := by
  cases h with
  | unconfirmed _ hsucceeded => simp [deployReply, finishDeploy, hsucceeded]
  | reverted _ hreverted => simp [deployReply, finishDeploy, hreverted]
  | solidified _ hsucceeded => simp [deployReply, finishDeploy, hsucceeded]
  | revertedLate _ hreverted => simp [deployReply, finishDeploy, hreverted]
  | threw e => rfl
  | timeout message => rfl

/-- A deployment that is reported as made. -/
structure Made (txId address id : JsString) (info : TransactionInfo) : Prop where
  id_eq : id = txId
  address_eq : address = info.contract_address
  named : address ≠ []
  succeeded : deploySucceeded info = true

/-- A constructor that reverted is never reported as a deployment. -/
theorem PollEffect.made {address id : JsString} {info : TransactionInfo}
    (h : PollEffect (E := E) txId poll (.deployed address id info)) : Made txId address id info := by
  cases h with
  | unconfirmed hnamed hsucceeded => exact ⟨rfl, rfl, hnamed, hsucceeded⟩
  | solidified hnamed hsucceeded => exact ⟨rfl, rfl, hnamed, hsucceeded⟩

end

end

end HardhatTron.Polls

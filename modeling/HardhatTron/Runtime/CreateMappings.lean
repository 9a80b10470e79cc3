import HardhatTron.Runtime.TxReceipts
import Mathlib.Data.List.DropRight
/-!
# Predicted and actual addresses of created contracts

The node's simulator and its transactions derive the address of a created
contract differently. The addresses that simulated calls return are queued by
contract, and an internal CREATE in a receipt pairs the contract's newest one
with the address the new contract really has. From then on every send and read
that names the former goes to the latter.
-/
namespace HardhatTron

open Lib

/-! ## The queue and the map -/

/-- An entry of `_pendingStaticReturns`. -/
structure StaticReturn where
  callerTronHex : JsString
  returnedEvmHex : JsString
  deriving DecidableEq

/-- `_PENDING_LIMIT` -/
def pendingLimit : Nat := 256

/-- `_evmToTvm` and `_pendingStaticReturns`, the latter oldest first. -/
structure CreateMaps where
  evmToTvm : EvmToTvm
  pendingStaticReturns : List StaticReturn
  bounded : pendingStaticReturns.length ≤ pendingLimit

def CreateMaps.init : CreateMaps := ⟨fun _ => none, [], by simp⟩

/-- The caller's contract as 21-byte hex, or the empty string. -/
def callerTronHex (codec : AddressCodec) (s : JsString) : JsString :=
  if isTronHex s then s.map Char.toLower
  else if isPrefixedTronHex s then (s.drop 2).map Char.toLower
  else if isTronAddress s then ((codec.toHex s).getD []).map Char.toLower
  else []

def returnedText (codec : AddressCodec) (s : JsString) : JsString :=
  if isEvmHex s then s.map Char.toLower
  else if isTronAddress s then
    match codec.toHex s with
    | some hex => "0x".toList ++ (hex.drop 2).map Char.toLower
    | none => []
  else []

/-- The returned address as lowercase EVM hex, or the empty string. -/
def returnedEvmHex (codec : AddressCodec) : JsValue → JsString
  | .str s => returnedText codec s
  | .obj fs =>
    let t := if (JsValue.get "target" (.obj fs)).truthy then JsValue.get "target" (.obj fs)
      else JsValue.get "address" (.obj fs)
    match t with
    | .str (c :: cs) => returnedText codec (c :: cs)
    | _ => []
  | _ => []

/-- The entry a returned address is queued as, if it is queued. -/
def staticReturn (codec : AddressCodec) (caller : JsString) (returned : JsValue) : Option StaticReturn :=
  if callerTronHex codec caller = [] ∨ returnedEvmHex codec returned = [] then none
  else some ⟨callerTronHex codec caller, returnedEvmHex codec returned⟩

/-- `push`, then `shift` past the limit. -/
def CreateMaps.queue (s : CreateMaps) (e : StaticReturn) : CreateMaps where
  evmToTvm := s.evmToTvm
  pendingStaticReturns :=
    let pending := s.pendingStaticReturns ++ [e]
    if pending.length > pendingLimit then pending.tail else pending
  bounded := by
    have := s.bounded
    dsimp only
    split
    · rw [List.length_tail, List.length_append, List.length_singleton]; omega
    · omega

def recordStaticReturnAddress (codec : AddressCodec) (s : CreateMaps) (caller : JsString) (returned : JsValue) :
    CreateMaps :=
  match staticReturn codec caller returned with
  | some e => s.queue e
  | none => s

/-- The address queued last for a contract. -/
def newestReturn (pending : List StaticReturn) (caller : JsString) : Option JsString :=
  (pending.reverse.find? fun e => e.callerTronHex = caller).map (·.returnedEvmHex)

/-- An internal transaction that creates a contract: `note` is "create" in hex, both addresses are there. -/
def InternalTransaction.isCreate (itx : InternalTransaction) : Bool :=
  itx.note.map Char.toLower = "637265617465".toList ∧ itx.caller_address ≠ [] ∧ itx.transferTo_address ≠ []

def InternalTransaction.callerHex (itx : InternalTransaction) : JsString := itx.caller_address.map Char.toLower

/-- The created contract, as it enters the map. -/
def InternalTransaction.actualEvm (itx : InternalTransaction) : JsString :=
  ("0x".toList ++ (itx.transferTo_address.map Char.toLower).drop 2).map Char.toLower

/-- One round of the loop. The newest entry of the caller is taken out to be paired, and the sweep
takes out the older ones of that caller. -/
def CreateMaps.registerCreate (s : CreateMaps) (itx : InternalTransaction) : CreateMaps :=
  if itx.isCreate then
    match newestReturn s.pendingStaticReturns itx.callerHex with
    | some returned =>
      { evmToTvm := Function.update s.evmToTvm returned (some itx.actualEvm)
        pendingStaticReturns := s.pendingStaticReturns.filter fun e => e.callerTronHex ≠ itx.callerHex
        bounded := (List.length_filter_le _ _).trans s.bounded }
    | none => s
  else s

/-- `info.internal_transactions || info.internalTransactions`; without it, nothing happens. -/
def internalTransactionsOf (info : Option TransactionInfo) : List InternalTransaction :=
  (info.bind fun info => info.internal_transactions <|> info.internalTransactions).getD []

def registerCreateMappingsFromReceipt (s : CreateMaps) (info : Option TransactionInfo) : CreateMaps :=
  (internalTransactionsOf info).foldl CreateMaps.registerCreate s

/-! ## The calls of a facade -/

inductive Mutability where
  | pure
  | view
  | nonpayable
  | payable
  deriving DecidableEq

/-- What the routes look at in a function's ABI: its mutability and its output types. -/
structure FnAbi where
  stateMutability : Mutability
  outputs : List JsString

def FnAbi.isView (fn : FnAbi) : Bool := fn.stateMutability = .view ∨ fn.stateMutability = .pure

def FnAbi.returnsAddress (fn : FnAbi) : Bool := fn.outputs = ["address".toList]

/-- How a simulated call ends; `recovered` is the zero value made up for a missing precompile. -/
inductive SimAnswer where
  | returned (decoded : JsValue)
  | recovered (decoded : JsValue)
  | threw

/-- `lookupTvmActualBase58(tronContract.address) || tronContract.address` -/
def contractAddrForCall (codec : AddressCodec) (evmToTvm : EvmToTvm) (address : JsString) : JsString :=
  match lookupTvmActualBase58 codec evmToTvm (.str address) with
  | some (c :: cs) => c :: cs
  | _ => address

/-- The address in a single decoded output. -/
def returnedAddress : JsValue → JsValue
  | .str (c :: cs) => .str (c :: cs)
  | .arr (v :: _) => v
  | _ => .undefined

/-- What a simulated call does to the queue. -/
def staticCallWithRevertData (codec : AddressCodec) (s : CreateMaps) (fn : FnAbi) (address : JsString) :
    SimAnswer → CreateMaps
  | .returned decoded =>
    if fn.returnsAddress && (returnedAddress decoded).truthy then
      recordStaticReturnAddress codec s (contractAddrForCall codec s.evmToTvm address) (returnedAddress decoded)
    else s
  | _ => s

/-- The entry a simulated call queues, if it queues one. -/
def simulatedReturn (codec : AddressCodec) (evmToTvm : EvmToTvm) (fn : FnAbi) (address : JsString) :
    SimAnswer → Option StaticReturn
  | .returned decoded =>
    if fn.returnsAddress && (returnedAddress decoded).truthy then
      staticReturn codec (contractAddrForCall codec evmToTvm address) (returnedAddress decoded)
    else none
  | _ => none

theorem staticCallWithRevertData_eq (codec : AddressCodec) (s : CreateMaps) (fn : FnAbi) (address : JsString)
    (answer : SimAnswer) : staticCallWithRevertData codec s fn address answer =
      (simulatedReturn codec s.evmToTvm fn address answer).elim s s.queue := by
  cases answer with
  | returned decoded =>
    rw [staticCallWithRevertData, simulatedReturn]
    split
    · rw [recordStaticReturnAddress]
      split
      · rename_i e he
        rw [he]
        rfl
      · rename_i he
        rw [he]
        rfl
    · rfl
  | recovered decoded => rfl
  | threw => rfl

/-- TronWeb's `call()`. A method that is neither view nor pure "must use send()". -/
def FnAbi.tronWebCall (fn : FnAbi) (answer : SimAnswer) : SimAnswer := if fn.isView then answer else .threw

/-- What `invoke.staticCall` gives the test: TronWeb's own `call()` unless the function is payable. -/
def FnAbi.staticAnswer (fn : FnAbi) (answer : SimAnswer) : SimAnswer :=
  if fn.stateMutability = .payable then answer else fn.tronWebCall answer

/-- What `invoke.staticCall` does to the queue. -/
def staticCall (codec : AddressCodec) (s : CreateMaps) (fn : FnAbi) (address : JsString) (answer : SimAnswer) :
    CreateMaps :=
  if fn.stateMutability = .payable then staticCallWithRevertData codec s fn address answer else s

/-- How the broadcast of a state-changing call ends: with an info, or with an error of TronWeb's that
does or does not name a revert or a lack of energy. `sim` is the simulation that may follow. -/
inductive Broadcast where
  | mined (info : Option TransactionInfo) (sim : SimAnswer)
  | sendErr (retried : Bool) (sim : SimAnswer)

/-- The part of `invoke` after a broadcast. -/
def settle (codec : AddressCodec) (s : CreateMaps) (fn : FnAbi) (address : JsString) : Broadcast → CreateMaps
  | .mined info sim =>
    let s := registerCreateMappingsFromReceipt s info
    if succeeded info then s
    else if revertData info ≠ "0x".toList then s
    else staticCallWithRevertData codec s fn address sim
  | .sendErr retried sim => if retried then staticCallWithRevertData codec s fn address sim else s

/-- What a test does that reaches the queue or the map. -/
inductive FacadeCall where
  | view (fn : FnAbi) (address : JsString) (isRead : fn.isView = true) (answer : SimAnswer)
  | estimateGas (fn : FnAbi) (address : JsString) (answer : SimAnswer)
  | staticCall (fn : FnAbi) (address : JsString) (answer : SimAnswer)
  | broadcast (fn : FnAbi) (address : JsString) (isWrite : fn.isView = false) (outcome : Broadcast)
  /-- `sendTransaction` of a signer or an impersonating signer, or a deployment. -/
  | send (info : Option TransactionInfo)

def FacadeCall.run (codec : AddressCodec) (s : CreateMaps) : FacadeCall → CreateMaps
  | .view fn address _ answer => staticCallWithRevertData codec s fn address answer
  | .estimateGas fn address answer => staticCallWithRevertData codec s fn address answer
  | .staticCall fn address answer => HardhatTron.staticCall codec s fn address answer
  | .broadcast fn address _ outcome => settle codec s fn address outcome
  | .send info => registerCreateMappingsFromReceipt s info

/-- The state after a list of calls. -/
def mapsAfter (codec : AddressCodec) (calls : List FacadeCall) : CreateMaps :=
  calls.foldl (FacadeCall.run codec) .init

theorem mapsAfter_snoc (codec : AddressCodec) (calls : List FacadeCall) (call : FacadeCall) :
    mapsAfter codec (calls ++ [call]) = call.run codec (mapsAfter codec calls) :=
  List.foldl_append

/-! ## The queue -/

@[simp] theorem CreateMaps.queue_evmToTvm (s : CreateMaps) (e : StaticReturn) :
    (s.queue e).evmToTvm = s.evmToTvm := rfl

theorem CreateMaps.ext_of {s t : CreateMaps} (hm : s.evmToTvm = t.evmToTvm)
    (hp : s.pendingStaticReturns = t.pendingStaticReturns) : s = t := by
  obtain ⟨m, p, _⟩ := s
  obtain ⟨m', p', _⟩ := t
  obtain rfl : m = m' := hm
  obtain rfl : p = p' := hp
  rfl

/-- The queue keeps the last 256 entries. -/
theorem CreateMaps.queue_pending (s : CreateMaps) (e : StaticReturn) :
    (s.queue e).pendingStaticReturns = (s.pendingStaticReturns ++ [e]).rtake pendingLimit := by
  have hlen : (s.pendingStaticReturns ++ [e]).length ≤ pendingLimit + 1 := by
    rw [List.length_append, List.length_singleton]
    exact Nat.succ_le_succ s.bounded
  unfold queue List.rtake
  dsimp only
  split
  · rename_i h
    rw [show (s.pendingStaticReturns ++ [e]).length - pendingLimit = 1 by omega, List.drop_one]
  · rename_i h
    rw [show (s.pendingStaticReturns ++ [e]).length - pendingLimit = 0 by omega, List.drop_zero]

theorem staticCallWithRevertData_evmToTvm (codec : AddressCodec) (s : CreateMaps) (fn : FnAbi) (address : JsString)
    (answer : SimAnswer) : (staticCallWithRevertData codec s fn address answer).evmToTvm = s.evmToTvm := by
  rw [staticCallWithRevertData_eq]
  cases simulatedReturn codec s.evmToTvm fn address answer <;> rfl

/-! ## Receipts -/

theorem newestReturn_eq_none_iff {pending : List StaticReturn} {caller : JsString} :
    newestReturn pending caller = none ↔ ∀ e ∈ pending, e.callerTronHex ≠ caller := by
  simp [newestReturn]

/-- Taking out one contract's entries leaves the others' newest. -/
theorem newestReturn_filter (pending : List StaticReturn) (caller caller' : JsString) :
    newestReturn (pending.filter fun e => e.callerTronHex ≠ caller) caller' =
      if caller' = caller then none else newestReturn pending caller' := by
  split
  · rename_i h
    rw [newestReturn_eq_none_iff, h]
    intro e he
    simpa using (List.mem_filter.1 he).2
  · rename_i h
    rw [newestReturn, ← List.filter_reverse, List.find?_filter, newestReturn]
    congr 2
    funext e
    by_cases he : e.callerTronHex = caller'
    · simp [he, h]
    · simp [he]

/-- A round that pairs. -/
def CreateMaps.Pairs (s : CreateMaps) (itx : InternalTransaction) (returned : JsString) : Prop :=
  itx.isCreate = true ∧ newestReturn s.pendingStaticReturns itx.callerHex = some returned

theorem CreateMaps.registerCreate_of_pairs {s : CreateMaps} {itx : InternalTransaction} {returned : JsString}
    (h : s.Pairs itx returned) :
    (s.registerCreate itx).evmToTvm = Function.update s.evmToTvm returned (some itx.actualEvm) ∧
    (s.registerCreate itx).pendingStaticReturns =
      s.pendingStaticReturns.filter fun e => e.callerTronHex ≠ itx.callerHex := by
  unfold registerCreate
  rw [if_pos h.1]
  split
  · rename_i returned' hr
    obtain rfl : returned' = returned := Option.some.inj (hr.symm.trans h.2)
    exact ⟨rfl, rfl⟩
  · rename_i hr
    rw [h.2] at hr
    cases hr

theorem CreateMaps.registerCreate_of_not_pairs {s : CreateMaps} {itx : InternalTransaction}
    (h : ∀ returned, ¬ s.Pairs itx returned) : s.registerCreate itx = s := by
  unfold registerCreate
  split
  · rename_i hc
    split
    · rename_i returned hr
      exact absurd ⟨hc, hr⟩ (h returned)
    · rfl
  · rfl

/-- A round leaves alone the newest entries of the contracts that create nothing in it. -/
theorem CreateMaps.newestReturn_registerCreate (s : CreateMaps) (itx : InternalTransaction) (caller : JsString) :
    newestReturn (s.registerCreate itx).pendingStaticReturns caller =
      if itx.isCreate = true ∧ itx.callerHex = caller then none else newestReturn s.pendingStaticReturns caller := by
  by_cases h : ∃ returned, s.Pairs itx returned
  · obtain ⟨returned, hp⟩ := h
    rw [(registerCreate_of_pairs hp).2, newestReturn_filter]
    simp [hp.1, eq_comm]
  · rw [registerCreate_of_not_pairs (not_exists.1 h)]
    split
    · rename_i hc
      cases hn : newestReturn s.pendingStaticReturns caller with
      | none => rfl
      | some returned => exact absurd ⟨returned, hc.1, by rw [hc.2]; exact hn⟩ h
    · rfl

/-- In the loop, a contract's newest entry waits for the first CREATE of that contract. -/
theorem newestReturn_registerCreates (s : CreateMaps) (itxs : List InternalTransaction) (caller : JsString) :
    newestReturn (itxs.foldl CreateMaps.registerCreate s).pendingStaticReturns caller =
      if ∃ itx ∈ itxs, itx.isCreate = true ∧ itx.callerHex = caller then none
      else newestReturn s.pendingStaticReturns caller := by
  induction itxs generalizing s with
  | nil => simp
  | cons itx itxs ih =>
    rw [List.foldl_cons, ih, CreateMaps.newestReturn_registerCreate]
    by_cases h : itx.isCreate = true ∧ itx.callerHex = caller
    · simp [h]
    · by_cases hr : ∃ itx ∈ itxs, itx.isCreate = true ∧ itx.callerHex = caller
      · rw [if_pos hr, if_pos]
        obtain ⟨itx', hm, hc⟩ := hr
        exact ⟨itx', List.mem_cons_of_mem itx hm, hc⟩
      · rw [if_neg hr, if_neg h, if_neg]
        rintro ⟨itx', hm, hc⟩
        rcases List.mem_cons.1 hm with rfl | hm
        · exact h hc
        · exact hr ⟨itx', hm, hc⟩

/-- What a receipt redirects: what was redirected, and the newest return of every contract with a CREATE in it. -/
theorem registered_iff (s : CreateMaps) (itxs : List InternalTransaction) (key : JsString) :
    (itxs.foldl CreateMaps.registerCreate s).evmToTvm key ≠ none ↔
      s.evmToTvm key ≠ none ∨ ∃ itx ∈ itxs, s.Pairs itx key := by
  induction itxs generalizing s with
  | nil => simp
  | cons itx itxs ih =>
    rw [List.foldl_cons, ih]
    by_cases hp : ∃ returned, s.Pairs itx returned
    · obtain ⟨returned, hp⟩ := hp
      have hpairs : ∀ itx', (s.registerCreate itx).Pairs itx' key ↔
          s.Pairs itx' key ∧ itx'.callerHex ≠ itx.callerHex := by
        intro itx'
        rw [CreateMaps.Pairs, CreateMaps.newestReturn_registerCreate, CreateMaps.Pairs]
        by_cases hc : itx.callerHex = itx'.callerHex
        · simp [hp.1, hc]
        · simp [hp.1, hc, Ne.symm hc]
      rw [(CreateMaps.registerCreate_of_pairs hp).1]
      by_cases hk : key = returned
      · subst hk
        apply iff_of_true
        · left; simp
        · right; exact ⟨itx, by simp, hp⟩
      · rw [Function.update_of_ne hk]
        apply or_congr_right
        constructor
        · rintro ⟨itx', hm, h'⟩
          exact ⟨itx', List.mem_cons_of_mem itx hm, ((hpairs itx').1 h').1⟩
        · rintro ⟨itx', hm, h'⟩
          have hne : itx'.callerHex ≠ itx.callerHex := by
            intro he
            have := h'.2
            rw [he, hp.2] at this
            exact hk (Option.some.inj this).symm
          rcases List.mem_cons.1 hm with rfl | hm
          · exact absurd rfl hne
          · exact ⟨itx', hm, (hpairs itx').2 ⟨h', hne⟩⟩
    · rw [CreateMaps.registerCreate_of_not_pairs (not_exists.1 hp)]
      apply or_congr_right
      constructor
      · rintro ⟨itx', hm, h'⟩
        exact ⟨itx', List.mem_cons_of_mem itx hm, h'⟩
      · rintro ⟨itx', hm, h'⟩
        rcases List.mem_cons.1 hm with rfl | hm
        · exact absurd ⟨key, h'⟩ hp
        · exact ⟨itx', hm, h'⟩

end HardhatTron

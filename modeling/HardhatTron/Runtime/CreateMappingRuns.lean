import HardhatTron.Runtime.CreateMappings
/-!
# Which addresses are redirected

* `redirects_predicted`: what is redirected was returned by a simulated
  state-changing call, as long as no receipt pairs with a getter's return.
* `creates_pair_iff`: when only CREATEs that took effect use up predictions.
* `prediction_reaches_iff`: when the address a static call returned leads to
  the contract the next broadcast created.
-/
namespace HardhatTron

open Lib

/-! ## Predictions -/

/-- The simulated calls made, with their functions. -/
def FacadeCall.simulations : FacadeCall → List (FnAbi × SimAnswer)
  | .view fn _ _ answer => [(fn, answer)]
  | .estimateGas fn _ answer => [(fn, answer)]
  | .staticCall fn _ answer => [(fn, fn.staticAnswer answer)]
  | .broadcast fn _ _ (.mined info sim) => if succeeded info ∨ revertData info ≠ "0x".toList then [] else [(fn, sim)]
  | .broadcast fn _ _ (.sendErr retried sim) => if retried then [(fn, sim)] else []
  | .send _ => []

/-- The receipts registered; a transfer has none to register. -/
def FacadeCall.receipt : FacadeCall → Option TransactionInfo
  | .broadcast _ _ _ (.mined info _) => info
  | .send info => info
  | _ => none

/-- A simulated call of a state-changing function returned the address. -/
def Predicted (codec : AddressCodec) (calls : List FacadeCall) (key : JsString) : Prop :=
  ∃ call ∈ calls, ∃ fn decoded, (fn, SimAnswer.returned decoded) ∈ call.simulations ∧ fn.isView = false ∧
    returnedEvmHex codec (returnedAddress decoded) = key

/-- The receipt of a call, if it has one, pairs with predictions only. -/
def PairsPredictions (codec : AddressCodec) (past : List FacadeCall) (call : FacadeCall) : Prop :=
  ∀ itx ∈ internalTransactionsOf call.receipt, ∀ key, (mapsAfter codec past).Pairs itx key →
    Predicted codec (past ++ [call]) key

/-- The map after a call is the map after registering its receipt. -/
theorem FacadeCall.run_evmToTvm (codec : AddressCodec) (s : CreateMaps) (call : FacadeCall) :
    (call.run codec s).evmToTvm = (registerCreateMappingsFromReceipt s call.receipt).evmToTvm := by
  cases call with
  | view fn address _ answer => exact staticCallWithRevertData_evmToTvm codec s fn address answer
  | estimateGas fn address answer => exact staticCallWithRevertData_evmToTvm codec s fn address answer
  | staticCall fn address answer =>
    simp only [run, HardhatTron.staticCall, receipt]
    split
    · exact staticCallWithRevertData_evmToTvm codec s fn address answer
    · rfl
  | broadcast fn address _ outcome =>
    cases outcome with
    | mined info sim =>
      simp only [run, settle, receipt]
      split
      · rfl
      · split
        · rfl
        · exact staticCallWithRevertData_evmToTvm codec _ fn address sim
    | sendErr retried sim =>
      simp only [run, settle, receipt]
      split
      · exact staticCallWithRevertData_evmToTvm codec s fn address sim
      · rfl
  | send info => rfl

theorem Predicted.mono {codec : AddressCodec} {past calls : List FacadeCall} {key : JsString} (hp : past <+: calls)
    (h : Predicted codec past key) : Predicted codec calls key := by
  obtain ⟨call, hm, rest⟩ := h
  exact ⟨call, hp.subset hm, rest⟩

/-- Everything redirected was predicted, at every moment of a run, exactly when every receipt pairs with
predictions only. -/
theorem redirects_iff (codec : AddressCodec) (calls : List FacadeCall) :
    (∀ past, past <+: calls → ∀ key, (mapsAfter codec past).evmToTvm key ≠ none → Predicted codec past key) ↔
      ∀ past call, past ++ [call] <+: calls → PairsPredictions codec past call := by
  constructor
  · intro h past call hp itx hm key hpairs
    apply h (past ++ [call]) hp
    rw [mapsAfter_snoc, FacadeCall.run_evmToTvm]
    exact (registered_iff _ _ key).2 (.inr ⟨itx, hm, hpairs⟩)
  · intro h past
    induction past using List.reverseRecOn with
    | nil => intro _ key hk; exact absurd rfl hk
    | append_singleton past call ih =>
      intro hp key hk
      rw [mapsAfter_snoc, FacadeCall.run_evmToTvm] at hk
      rcases (registered_iff _ _ key).1 hk with hold | ⟨itx, hm, hpairs⟩
      · exact (ih ((List.prefix_append past [call]).trans hp) key hold).mono (List.prefix_append past [call])
      · exact h past call hp itx hm key hpairs

theorem redirected_of_lookup {codec : AddressCodec} {evmToTvm : EvmToTvm} {x : JsValue}
    (h : lookupTvmActualBase58 codec evmToTvm x ≠ none) : evmToTvm (normalizeAddrToEvmHex codec x) ≠ none := by
  intro hk
  apply h
  rw [lookupTvmActualBase58]
  split
  · rfl
  · rw [hk]

/-- In a run whose receipts pair with predictions only, an address that is redirected was predicted. -/
theorem redirects_predicted (codec : AddressCodec) (calls : List FacadeCall)
    (hcalls : ∀ past call, past ++ [call] <+: calls → PairsPredictions codec past call)
    (past : List FacadeCall) (hp : past <+: calls) (x : JsValue)
    (h : lookupTvmActualBase58 codec (mapsAfter codec past).evmToTvm x ≠ none) :
    Predicted codec past (normalizeAddrToEvmHex codec x) :=
  (redirects_iff codec calls).2 hcalls past hp _ (redirected_of_lookup h)

/-! ## A factory, on concrete addresses -/

def factory : JsString := "411111111111111111111111111111111111111111".toList

def actual : JsString := "412222222222222222222222222222222222222222".toList

def actualBase58 : JsString := "TD5gsCwxykWsLN9aPrq2TAfNjByuZKYp4E".toList

/-- An account, or the address the simulator predicts. -/
def predicted : JsString := "0x3333333333333333333333333333333333333333".toList

/-- TronWeb's conversions of `actual`; the base58 of other addresses is left as hex. -/
def actualCodec : AddressCodec where
  toBase58Address := fun _ => none
  toHex := fun a => if a = actualBase58 then some actual else if isTronHex a then some a else none
  fromHex := fun h => if h = actual then some actualBase58 else if isTronHex h then some h else none
  base58 := @base58_of_throws

def creation (rejected : Bool) : InternalTransaction :=
  ⟨"637265617465".toList, factory, actual, [], rejected⟩

/-- The answer for a call that creates a contract at `actual`, with its result. -/
def creationInfo (result : String) (rejected : Bool) : TransactionInfo :=
  { receipt := some ⟨result.toList, none, none, none⟩, fee := none, blockNumber := some 1, blockHash := [], log := []
    contractResult := [], internal_transactions := some [creation rejected], internalTransactions := none
    contract_address := [] }

def addressFn (m : Mutability) : FnAbi := ⟨m, ["address".toList]⟩

/-- `owner()` returns an account, and later the contract creates another one. -/
def getterThenCreate : List FacadeCall :=
  [.view (addressFn .view) factory rfl (.returned (.str predicted)), .send (some (creationInfo "SUCCESS" false))]

/-- A prediction and its broadcast. -/
def predictThenCreate : List FacadeCall :=
  [.staticCall (addressFn .payable) factory (.returned (.str predicted)),
   .broadcast (addressFn .payable) factory rfl (.mined (some (creationInfo "SUCCESS" false)) .threw)]

/-- An account that only a getter returned is redirected to a contract. -/
theorem owner_redirected : ¬ ∀ (codec : AddressCodec) (calls past : List FacadeCall) (x : JsValue), past <+: calls →
    lookupTvmActualBase58 codec (mapsAfter codec past).evmToTvm x ≠ none →
    Predicted codec past (normalizeAddrToEvmHex codec x) := by
  intro h
  obtain ⟨call, hm, fn, decoded, hs, hv, -⟩ := h actualCodec getterThenCreate getterThenCreate (.str predicted)
    (List.prefix_refl _) (by decide)
  simp only [getterThenCreate, List.mem_cons, List.not_mem_nil, or_false] at hm
  rcases hm with rfl | rfl
  · simp only [FacadeCall.simulations, List.mem_singleton, Prod.mk.injEq] at hs
    rw [hs.1] at hv
    cases hv
  · cases hs

theorem predictThenCreate_pairs (past : List FacadeCall) (call : FacadeCall)
    (h : past ++ [call] <+: predictThenCreate) : PairsPredictions actualCodec past call := by
  obtain ⟨rest, hrest⟩ := h
  cases past with
  | nil =>
    obtain ⟨rfl, -⟩ := List.cons.inj hrest
    intro itx hm
    cases hm
  | cons first past =>
    obtain ⟨rfl, htail⟩ := List.cons.inj hrest
    cases past with
    | nil =>
      obtain ⟨rfl, -⟩ := List.cons.inj htail
      intro itx hm key hpairs
      obtain rfl : itx = creation false := by simpa [internalTransactionsOf, FacadeCall.receipt, creationInfo] using hm
      obtain rfl : predicted = key := Option.some.inj hpairs.2
      exact ⟨_, List.mem_cons_self, addressFn .payable, .str predicted, List.mem_singleton_self _, rfl, by decide⟩
    | cons second past => simp at htail

/-- The redirection of a prediction. -/
theorem redirects_predicted_once : Predicted actualCodec predictThenCreate predicted :=
  redirects_predicted actualCodec predictThenCreate predictThenCreate_pairs predictThenCreate (List.prefix_refl _)
    (.str predicted) (by decide)

/-! ## CREATEs that took effect -/

/-- Not undone, in a transaction that succeeded. -/
def TookEffect (info : Option TransactionInfo) (itx : InternalTransaction) : Prop :=
  itx.rejected = false ∧ succeeded info = true

/-- The rounds of a receipt that change the map or the queue are for CREATEs that took effect, and
a call that reverts leaves both as they are. -/
structure CreatesOnly (codec : AddressCodec) (s : CreateMaps) (call : FacadeCall) : Prop where
  rounds : ∀ pre itx post, internalTransactionsOf call.receipt = pre ++ itx :: post →
    (pre.foldl CreateMaps.registerCreate s).registerCreate itx ≠ pre.foldl CreateMaps.registerCreate s →
    TookEffect call.receipt itx
  reverted : ∀ info, call.receipt = some info → succeeded (some info) = false → call.run codec s = s

/-- The entry queued by the simulation that follows a revert without data. -/
def FacadeCall.resimulated (codec : AddressCodec) (evmToTvm : EvmToTvm) : FacadeCall → Option StaticReturn
  | .broadcast fn address _ (.mined info sim) =>
    if revertData info = "0x".toList then simulatedReturn codec evmToTvm fn address sim else none
  | _ => none

/-- For every contract with a queued return, its first CREATE in the receipt took effect; and a call
that reverts queues nothing new, unless the queue already is 256 copies of that entry. -/
structure CreatesFit (codec : AddressCodec) (s : CreateMaps) (call : FacadeCall) : Prop where
  first : ∀ pre itx post returned, internalTransactionsOf call.receipt = pre ++ itx :: post → s.Pairs itx returned →
    (∀ itx' ∈ pre, itx'.isCreate = true → itx'.callerHex ≠ itx.callerHex) → TookEffect call.receipt itx
  quiet : ∀ info, call.receipt = some info → succeeded (some info) = false →
    ∀ e, call.resimulated codec s.evmToTvm = some e →
      s.pendingStaticReturns = List.replicate pendingLimit e

/-- A round changes something exactly when it pairs. -/
theorem CreateMaps.registerCreate_ne_iff (s : CreateMaps) (itx : InternalTransaction) :
    s.registerCreate itx ≠ s ↔ ∃ returned, s.Pairs itx returned := by
  constructor
  · intro h
    by_contra hp
    exact h (registerCreate_of_not_pairs (not_exists.1 hp))
  · rintro ⟨returned, hp⟩ heq
    have hnew := newestReturn_registerCreate s itx itx.callerHex
    rw [if_pos ⟨hp.1, rfl⟩, heq, hp.2] at hnew
    cases hnew

/-- In the loop, a round pairs exactly when it is the first of its contract and a return is queued. -/
theorem pairs_registerCreates_iff (s : CreateMaps) (pre : List InternalTransaction) (itx : InternalTransaction)
    (returned : JsString) : (pre.foldl CreateMaps.registerCreate s).Pairs itx returned ↔
      s.Pairs itx returned ∧ ∀ itx' ∈ pre, itx'.isCreate = true → itx'.callerHex ≠ itx.callerHex := by
  rw [CreateMaps.Pairs, newestReturn_registerCreates, CreateMaps.Pairs]
  split
  · rename_i h
    obtain ⟨itx', hm, hc, hcaller⟩ := h
    apply iff_of_false
    · simp
    · intro h
      exact h.2 itx' hm hc hcaller
  · rename_i h
    constructor
    · intro hp
      exact ⟨hp, fun itx' hm hc hcaller => h ⟨itx', hm, hc, hcaller⟩⟩
    · intro hp
      exact hp.1

theorem append_singleton_eq_cons_iff {α : Type} (l : List α) (a e : α) :
    l ++ [e] = a :: l ↔ a = e ∧ ∀ x ∈ l, x = e := by
  induction l generalizing a with
  | nil => simp [eq_comm]
  | cons b l ih =>
    rw [List.cons_append, List.cons.injEq, ih]
    constructor
    · rintro ⟨rfl, rfl, h⟩
      exact ⟨rfl, by simpa using h⟩
    · rintro ⟨rfl, h⟩
      simp only [List.mem_cons, forall_eq_or_imp] at h
      exact ⟨h.1, h.1, h.2⟩

/-- Queueing changes the queue, except when it already is 256 copies of the entry. -/
theorem CreateMaps.queue_eq_self_iff (s : CreateMaps) (e : StaticReturn) :
    s.queue e = s ↔ s.pendingStaticReturns = List.replicate pendingLimit e := by
  have hpend : (s.queue e).pendingStaticReturns =
      if (s.pendingStaticReturns ++ [e]).length > pendingLimit then (s.pendingStaticReturns ++ [e]).tail
      else s.pendingStaticReturns ++ [e] := rfl
  constructor
  · intro h
    rw [h] at hpend
    split at hpend
    · rename_i hlen
      have hb := s.bounded
      rw [List.length_append, List.length_singleton] at hlen
      cases hp : s.pendingStaticReturns with
      | nil => rw [hp] at hlen; simp [pendingLimit] at hlen
      | cons a l =>
        rw [hp, List.cons_append, List.tail_cons] at hpend
        obtain ⟨rfl, hall⟩ := (append_singleton_eq_cons_iff l a e).1 hpend.symm
        rw [hp] at hlen hb
        rw [List.eq_replicate_iff]
        exact ⟨by omega, by simpa using hall⟩
    · have := congrArg List.length hpend
      simp at this
  · intro h
    apply ext_of (queue_evmToTvm s e)
    obtain ⟨n, hn⟩ : ∃ n, pendingLimit = n + 1 := ⟨255, rfl⟩
    rw [hpend, h, if_pos (by simp), hn, List.replicate_succ, List.cons_append, List.tail_cons,
      append_singleton_eq_cons_iff]
    exact ⟨rfl, fun x hx => List.eq_of_mem_replicate hx⟩

theorem registerCreates_eq_self {s : CreateMaps} {itxs : List InternalTransaction}
    (h : ∀ pre itx post, itxs = pre ++ itx :: post →
      (pre.foldl CreateMaps.registerCreate s).registerCreate itx = pre.foldl CreateMaps.registerCreate s) :
    itxs.foldl CreateMaps.registerCreate s = s := by
  induction itxs using List.reverseRecOn with
  | nil => rfl
  | append_singleton itxs itx ih =>
    rw [List.foldl_append, List.foldl_cons, List.foldl_nil, h itxs itx [] rfl]
    apply ih
    intro pre itx' post he
    exact h pre itx' (post ++ [itx]) (by rw [he]; simp)

/-- A call that reverts registers its receipt, and queues what it simulates again. -/
theorem FacadeCall.run_of_reverted {codec : AddressCodec} {call : FacadeCall} {info : TransactionInfo}
    (hr : call.receipt = some info) (hf : succeeded (some info) = false) (s : CreateMaps)
    (hs : registerCreateMappingsFromReceipt s call.receipt = s) :
    call.run codec s = (call.resimulated codec s.evmToTvm).elim s s.queue := by
  cases call with
  | broadcast fn address _ outcome =>
    cases outcome with
    | mined info' sim =>
      simp only [receipt] at hr hs
      subst hr
      simp only [run, settle, hs, hf, resimulated, Bool.false_eq_true, if_false]
      by_cases hd : revertData (some info) = "0x".toList
      · rw [if_neg (not_not.2 hd), if_pos hd, staticCallWithRevertData_eq]
      · rw [if_pos hd, if_neg hd]
        rfl
    | sendErr retried sim => cases hr
  | send info' => exact hs
  | view fn address _ answer => cases hr
  | estimateGas fn address answer => cases hr
  | staticCall fn address answer => cases hr

/-- One call uses up predictions for CREATEs that took effect only, exactly when it fits. -/
theorem createsOnly_iff (codec : AddressCodec) (s : CreateMaps) (call : FacadeCall) :
    CreatesOnly codec s call ↔ CreatesFit codec s call := by
  have hrounds : (∀ pre itx post, internalTransactionsOf call.receipt = pre ++ itx :: post →
      (pre.foldl CreateMaps.registerCreate s).registerCreate itx ≠ pre.foldl CreateMaps.registerCreate s →
      TookEffect call.receipt itx) ↔
      ∀ pre itx post returned, internalTransactionsOf call.receipt = pre ++ itx :: post → s.Pairs itx returned →
        (∀ itx' ∈ pre, itx'.isCreate = true → itx'.callerHex ≠ itx.callerHex) → TookEffect call.receipt itx := by
    constructor
    · intro h pre itx post returned he hp hfirst
      exact h pre itx post he ((CreateMaps.registerCreate_ne_iff _ _).2
        ⟨returned, (pairs_registerCreates_iff s pre itx returned).2 ⟨hp, hfirst⟩⟩)
    · intro h pre itx post he hne
      obtain ⟨returned, hp⟩ := (CreateMaps.registerCreate_ne_iff _ _).1 hne
      obtain ⟨hp, hfirst⟩ := (pairs_registerCreates_iff s pre itx returned).1 hp
      exact h pre itx post returned he hp hfirst
  have hunchanged : (∀ pre itx post, internalTransactionsOf call.receipt = pre ++ itx :: post →
      (pre.foldl CreateMaps.registerCreate s).registerCreate itx ≠ pre.foldl CreateMaps.registerCreate s →
      TookEffect call.receipt itx) → ∀ info, call.receipt = some info → succeeded (some info) = false →
      call.run codec s = (call.resimulated codec s.evmToTvm).elim s s.queue := by
    intro h info hr hf
    apply FacadeCall.run_of_reverted hr hf
    apply registerCreates_eq_self
    intro pre itx post he
    by_contra hne
    have heff := (h pre itx post he hne).2
    rw [hr, hf] at heff
    cases heff
  constructor
  · intro h
    refine ⟨hrounds.1 h.rounds, ?_⟩
    intro info hr hf e he
    have hrun := hunchanged h.rounds info hr hf
    rw [h.reverted info hr hf, he, Option.elim_some] at hrun
    exact (CreateMaps.queue_eq_self_iff s e).1 hrun.symm
  · intro h
    have hall := hrounds.2 h.first
    refine ⟨hall, ?_⟩
    intro info hr hf
    rw [hunchanged hall info hr hf]
    cases he : call.resimulated codec s.evmToTvm with
    | none => rfl
    | some e => exact (CreateMaps.queue_eq_self_iff s e).2 (h.quiet info hr hf e he)

/-- Along a run, predictions go to CREATEs that took effect only, exactly when every call fits. -/
theorem creates_pair_iff (codec : AddressCodec) (calls : List FacadeCall) :
    (∀ past call, past ++ [call] <+: calls → CreatesOnly codec (mapsAfter codec past) call) ↔
      ∀ past call, past ++ [call] <+: calls → CreatesFit codec (mapsAfter codec past) call := by
  apply forall_congr'
  intro past
  apply forall_congr'
  intro call
  apply imp_congr_right
  intro _
  exact createsOnly_iff codec (mapsAfter codec past) call

/-- A prediction, and a broadcast that reverts after creating the contract. -/
def predictThenRevert : List FacadeCall :=
  [.staticCall (addressFn .payable) factory (.returned (.str predicted)),
   .broadcast (addressFn .payable) factory rfl (.mined (some (creationInfo "REVERT" true)) .threw)]

/-- The reverted broadcast uses up the prediction. -/
theorem reverted_creation_pairs : ¬ ∀ (codec : AddressCodec) (calls past : List FacadeCall) (call : FacadeCall),
    past ++ [call] <+: calls → CreatesOnly codec (mapsAfter codec past) call := by
  intro h
  have hrev := (h actualCodec predictThenRevert [predictThenRevert[0]] predictThenRevert[1] (List.prefix_refl _)).reverted
    (creationInfo "REVERT" true) rfl (by decide)
  have hpend := congrArg CreateMaps.pendingStaticReturns hrev
  revert hpend
  decide

/-! ## A static call and its broadcast -/

/-- `fromHex` and `toHex` of a TRON address, in hex of either case. -/
def RoundTrips (codec : AddressCodec) : Prop :=
  ∀ h, isTronHex h = true → ∃ b, codec.fromHex h = some b ∧
    (codec.toHex b).map (·.map Char.toLower) = some (h.map Char.toLower)

/-- A send or read that names `x` reaches the contract at `a`, 20 bytes in lowercase hex. -/
def Reaches (codec : AddressCodec) (evmToTvm : EvmToTvm) (x : JsValue) (a : JsString) : Prop :=
  ∃ b, lookupTvmActualBase58 codec evmToTvm x = some b ∧
    (codec.toHex b).map (·.map Char.toLower) = some ("41".toList ++ a)

/-- Every spelling of the address at `key` reaches the contract at `a`. -/
def AllReach (codec : AddressCodec) (evmToTvm : EvmToTvm) (key a : JsString) : Prop :=
  ∀ x, normalizeAddrToEvmHex codec x = key → Reaches codec evmToTvm x a

/-- What a call without a receipt queues. -/
def FacadeCall.queues (codec : AddressCodec) (evmToTvm : EvmToTvm) : FacadeCall → List StaticReturn
  | .view fn address _ answer => (simulatedReturn codec evmToTvm fn address answer).toList
  | .estimateGas fn address answer => (simulatedReturn codec evmToTvm fn address answer).toList
  | .staticCall fn address answer =>
    if fn.stateMutability = .payable then (simulatedReturn codec evmToTvm fn address answer).toList else []
  | .broadcast fn address _ (.mined none sim) => (simulatedReturn codec evmToTvm fn address sim).toList
  | .broadcast fn address _ (.sendErr true sim) => (simulatedReturn codec evmToTvm fn address sim).toList
  | _ => []

theorem queue_toList (s : CreateMaps) (o : Option StaticReturn) :
    (o.elim s s.queue).evmToTvm = s.evmToTvm ∧
    (o.elim s s.queue).pendingStaticReturns = (s.pendingStaticReturns ++ o.toList).rtake pendingLimit := by
  cases o with
  | none =>
    refine ⟨rfl, ?_⟩
    rw [Option.elim_none, Option.toList_none, List.append_nil, List.rtake,
      Nat.sub_eq_zero_of_le s.bounded, List.drop_zero]
  | some e => exact ⟨rfl, s.queue_pending e⟩

/-- Without a receipt, a call only queues. -/
theorem FacadeCall.run_of_no_receipt {codec : AddressCodec} {call : FacadeCall} (hr : call.receipt = none)
    (s : CreateMaps) : (call.run codec s).evmToTvm = s.evmToTvm ∧
      (call.run codec s).pendingStaticReturns =
        (s.pendingStaticReturns ++ call.queues codec s.evmToTvm).rtake pendingLimit := by
  have hnone := queue_toList s none
  cases call with
  | view fn address _ answer =>
    simp only [run, queues, staticCallWithRevertData_eq]
    exact queue_toList s _
  | estimateGas fn address answer =>
    simp only [run, queues, staticCallWithRevertData_eq]
    exact queue_toList s _
  | staticCall fn address answer =>
    simp only [run, queues, HardhatTron.staticCall, staticCallWithRevertData_eq]
    split
    · exact queue_toList s _
    · exact hnone
  | broadcast fn address _ outcome =>
    cases outcome with
    | mined info sim =>
      simp only [receipt] at hr
      subst hr
      have hrun : run codec s (.broadcast fn address ‹_› (.mined none sim)) =
        staticCallWithRevertData codec s fn address sim := rfl
      rw [hrun, staticCallWithRevertData_eq]
      exact queue_toList s _
    | sendErr retried sim =>
      simp only [run, settle, staticCallWithRevertData_eq]
      cases retried with
      | true => exact queue_toList s _
      | false => exact hnone
  | send info =>
    simp only [receipt] at hr
    subst hr
    exact hnone

theorem rtake_rtake_append {α : Type} (n : Nat) (l m : List α) : (l.rtake n ++ m).rtake n = (l ++ m).rtake n := by
  rw [List.rtake_eq_reverse_take_reverse, List.rtake_eq_reverse_take_reverse, List.rtake_eq_reverse_take_reverse,
    List.reverse_append, List.reverse_append, List.reverse_reverse, List.take_append, List.take_append,
    List.take_take, Nat.min_eq_left (Nat.sub_le _ _)]

/-- Calls without receipts: the map stays, the queue keeps its last 256 entries. -/
theorem run_of_no_receipts (codec : AddressCodec) (s : CreateMaps) (between : List FacadeCall)
    (hb : ∀ call ∈ between, call.receipt = none) :
    (between.foldl (FacadeCall.run codec) s).evmToTvm = s.evmToTvm ∧
    (between.foldl (FacadeCall.run codec) s).pendingStaticReturns =
      (s.pendingStaticReturns ++ between.flatMap (FacadeCall.queues codec s.evmToTvm)).rtake pendingLimit := by
  induction between generalizing s with
  | nil => exact queue_toList s none
  | cons call between ih =>
    obtain ⟨hm, hq⟩ := FacadeCall.run_of_no_receipt (hb call (by simp)) s
    obtain ⟨hm', hq'⟩ := ih (call.run codec s) fun c hc => hb c (by simp [hc])
    rw [List.foldl_cons]
    refine ⟨hm'.trans hm, ?_⟩
    rw [hq', hm, hq, rtake_rtake_append, List.flatMap_cons, List.append_assoc]

/-- A receipt with one CREATE registers as that CREATE alone. -/
theorem register_of_one_create (s : CreateMaps) (info : Option TransactionInfo) (itx : InternalTransaction)
    (h : (internalTransactionsOf info).filter InternalTransaction.isCreate = [itx]) :
    registerCreateMappingsFromReceipt s info = s.registerCreate itx := by
  have hskip : ∀ (itxs : List InternalTransaction) (t : CreateMaps),
      itxs.foldl CreateMaps.registerCreate t =
        (itxs.filter InternalTransaction.isCreate).foldl CreateMaps.registerCreate t := by
    intro itxs t
    induction itxs generalizing t with
    | nil => rfl
    | cons itx itxs ih =>
      rw [List.foldl_cons]
      by_cases hc : itx.isCreate = true
      · rw [List.filter_cons_of_pos hc, List.foldl_cons, ih]
      · rw [List.filter_cons_of_neg hc, ih, CreateMaps.registerCreate, if_neg hc]
  rw [registerCreateMappingsFromReceipt, hskip, h]
  rfl

theorem isTronHex_lower {h : JsString} (hh : isTronHex h = true) :
    ∃ ds, h.map Char.toLower = '4' :: '1' :: ds ∧ ds.map Char.toLower = ds ∧
      isTronHex (h.map Char.toLower) = true := by
  unfold isTronHex at hh
  split at hh
  · rename_i ds
    simp only [Bool.and_eq_true, decide_eq_true_eq, List.all_eq_true] at hh
    refine ⟨ds.map Char.toLower, rfl, ?_, ?_⟩
    · rw [List.map_map]
      apply List.map_congr_left
      intro c _
      exact toLower_toLower c
    · change ((ds.map Char.toLower).length = 40 && (ds.map Char.toLower).all isHexDigit) = true
      simp only [List.length_map, hh.1, decide_true, Bool.true_and, List.all_eq_true, List.mem_map]
      rintro _ ⟨c, hc, rfl⟩
      exact isHexDigit_toLower (hh.2 c hc)
  · cases hh

/-- The 20 bytes of the created contract, in lowercase hex. -/
def InternalTransaction.createdAt (itx : InternalTransaction) : JsString :=
  (itx.transferTo_address.map Char.toLower).drop 2

/-- After a round that pairs `key`, every spelling of it reaches the new contract. -/
theorem allReach_of_pairs {codec : AddressCodec} (hcodec : RoundTrips codec) {s : CreateMaps}
    {itx : InternalTransaction} {key : JsString} (hkey : key ≠ []) (hp : s.Pairs itx key)
    (hto : isTronHex itx.transferTo_address = true) :
    AllReach codec (s.registerCreate itx).evmToTvm key itx.createdAt := by
  obtain ⟨ds, hlower, hds, htron⟩ := isTronHex_lower hto
  have hactual : itx.actualEvm = '0' :: 'x' :: ds := by
    rw [InternalTransaction.actualEvm, hlower]
    exact congrArg (fun l => '0' :: 'x' :: l) hds
  have hcreated : itx.createdAt = ds := by rw [InternalTransaction.createdAt, hlower]; rfl
  intro x hx
  obtain ⟨b, hb, hhex⟩ := hcodec _ htron
  refine ⟨b, ?_, ?_⟩
  · unfold lookupTvmActualBase58
    rw [hx, (CreateMaps.registerCreate_of_pairs hp).1]
    obtain ⟨c, cs, rfl⟩ := List.exists_cons_of_ne_nil hkey
    simp only [Function.update_self, hactual]
    rw [hlower] at hb
    exact hb
  · rw [hhex, hlower, hcreated, List.map_cons, List.map_cons, hds]
    rfl

/-- A round that does not pair `key` changes nothing for it. -/
theorem allReach_of_not_pairs {codec : AddressCodec} {s : CreateMaps} {itx : InternalTransaction} {key a : JsString}
    (hp : ¬ s.Pairs itx key) :
    AllReach codec (s.registerCreate itx).evmToTvm key a ↔ AllReach codec s.evmToTvm key a := by
  have hsame : (s.registerCreate itx).evmToTvm key = s.evmToTvm key := by
    by_cases h : ∃ returned, s.Pairs itx returned
    · obtain ⟨returned, hr⟩ := h
      rw [(CreateMaps.registerCreate_of_pairs hr).1, Function.update_of_ne]
      rintro rfl
      exact hp hr
    · rw [CreateMaps.registerCreate_of_not_pairs (not_exists.1 h)]
  apply forall_congr'
  intro x
  apply imp_congr_right
  intro hx
  have hlookup : lookupTvmActualBase58 codec (s.registerCreate itx).evmToTvm x =
      lookupTvmActualBase58 codec s.evmToTvm x := by
    unfold lookupTvmActualBase58
    rw [hx]
    cases key with
    | nil => rfl
    | cons c cs => simp only [hsame]
  rw [Reaches, Reaches, hlookup]

/-- What a static call returns to the test. -/
def SimAnswer.value : SimAnswer → JsValue
  | .returned decoded => decoded
  | .recovered decoded => decoded
  | .threw => .undefined

/-- Where a static call, other calls, and then the broadcast of the function leave the map. -/
def afterBroadcast (codec : AddressCodec) (s : CreateMaps) (fn : FnAbi) (address : JsString)
    (isWrite : fn.isView = false) (answer : SimAnswer) (between : List FacadeCall) (info : TransactionInfo)
    (sim : SimAnswer) : CreateMaps :=
  (FacadeCall.staticCall fn address answer :: between ++
    [FacadeCall.broadcast fn address isWrite (.mined (some info) sim)]).foldl (FacadeCall.run codec) s

/-- The last 256 queued returns when the broadcast's receipt comes: what the queue held, what
`staticCall` queued, and what the calls in between queued. -/
def queuedAtBroadcast (codec : AddressCodec) (s : CreateMaps) (fn : FnAbi) (address : JsString)
    (answer : SimAnswer) (between : List FacadeCall) : List StaticReturn :=
  (s.pendingStaticReturns ++
    (if fn.stateMutability = .payable then (simulatedReturn codec s.evmToTvm fn address answer).toList else []) ++
    between.flatMap (FacadeCall.queues codec s.evmToTvm)).rtake pendingLimit

/-- The address a static call returned leads to the contract the next broadcast created exactly
when it is the creating contract's last queued return, or led there before. -/
theorem prediction_reaches_iff (codec : AddressCodec) (hcodec : RoundTrips codec) (s : CreateMaps) (fn : FnAbi)
    (address : JsString) (isWrite : fn.isView = false) (answer : SimAnswer)
    (hreturned : normalizeAddrToEvmHex codec (fn.staticAnswer answer).value ≠ []) (between : List FacadeCall)
    (hbetween : ∀ call ∈ between, call.receipt = none) (info : TransactionInfo)
    (hsuccess : succeeded (some info) = true) (sim : SimAnswer) (itx : InternalTransaction)
    (hitx : (internalTransactionsOf (some info)).filter InternalTransaction.isCreate = [itx])
    (hto : isTronHex itx.transferTo_address = true) :
    AllReach codec (afterBroadcast codec s fn address isWrite answer between info sim).evmToTvm
        (normalizeAddrToEvmHex codec (fn.staticAnswer answer).value) itx.createdAt ↔
      newestReturn (queuedAtBroadcast codec s fn address answer between) itx.callerHex =
          some (normalizeAddrToEvmHex codec (fn.staticAnswer answer).value) ∨
        AllReach codec s.evmToTvm (normalizeAddrToEvmHex codec (fn.staticAnswer answer).value) itx.createdAt := by
  obtain ⟨hm, hq⟩ := run_of_no_receipts codec s (.staticCall fn address answer :: between) (by
    intro call hc
    rcases List.mem_cons.1 hc with rfl | hc
    · rfl
    · exact hbetween call hc)
  generalize hs' : (FacadeCall.staticCall fn address answer :: between).foldl (FacadeCall.run codec) s = s' at hm hq
  have hqueue : s'.pendingStaticReturns = queuedAtBroadcast codec s fn address answer between := by
    rw [hq, queuedAtBroadcast, List.flatMap_cons, List.append_assoc]
    rfl
  have hcreate : itx.isCreate = true := by
    have hmem : itx ∈ (internalTransactionsOf (some info)).filter InternalTransaction.isCreate := by rw [hitx]; simp
    exact (List.mem_filter.1 hmem).2
  have hafter : afterBroadcast codec s fn address isWrite answer between info sim = s'.registerCreate itx := by
    rw [afterBroadcast, List.foldl_append, hs', List.foldl_cons, List.foldl_nil]
    simp only [FacadeCall.run, settle, register_of_one_create s' (some info) itx hitx, hsuccess, if_true]
  rw [hafter, ← hqueue, ← hm]
  by_cases hp : s'.Pairs itx (normalizeAddrToEvmHex codec (fn.staticAnswer answer).value)
  · exact iff_of_true (allReach_of_pairs hcodec hreturned hp hto) (.inl hp.2)
  · rw [allReach_of_not_pairs hp]
    constructor
    · exact .inr
    · rintro (hn | h)
      · exact absurd ⟨hcreate, hn⟩ hp
      · exact h

/-- The condition holds for a payable function whose contract queues nothing more, and others fewer
than 256 returns, before the broadcast. -/
theorem queuedLast_of_payable {codec : AddressCodec} {s : CreateMaps} {fn : FnAbi} {address : JsString}
    {answer : SimAnswer} {between : List FacadeCall} {e : StaticReturn} (hpay : fn.stateMutability = .payable)
    (he : simulatedReturn codec s.evmToTvm fn address answer = some e)
    (hquiet : ∀ e' ∈ between.flatMap (FacadeCall.queues codec s.evmToTvm), e'.callerTronHex ≠ e.callerTronHex)
    (hfew : (between.flatMap (FacadeCall.queues codec s.evmToTvm)).length < pendingLimit) :
    newestReturn (queuedAtBroadcast codec s fn address answer between) e.callerTronHex = some e.returnedEvmHex := by
  rw [queuedAtBroadcast, if_pos hpay, he, Option.toList_some]
  generalize between.flatMap (FacadeCall.queues codec s.evmToTvm) = queued at hquiet hfew
  obtain ⟨n, hn⟩ : ∃ n, pendingLimit - queued.length = n + 1 := Nat.exists_eq_succ_of_ne_zero (by omega)
  rw [newestReturn, List.rtake_eq_reverse_take_reverse, List.reverse_reverse, List.reverse_append,
    List.reverse_append, List.reverse_singleton, List.take_append, List.take_of_length_le (by simp; omega),
    List.length_reverse, hn, List.singleton_append, List.take_succ_cons, List.find?_append,
    List.find?_eq_none.2 (by simpa using hquiet)]
  simp

theorem actualCodec_roundTrips : RoundTrips actualCodec := by
  intro h hh
  by_cases ha : h = actual
  · subst ha
    exact ⟨actualBase58, by decide, by decide⟩
  · have hne : h ≠ actualBase58 := by
      rintro rfl
      exact absurd hh (by decide)
    refine ⟨h, ?_, ?_⟩
    · simp [actualCodec, ha, hh]
    · simp [actualCodec, hne, hh]

/-- The condition on a payable factory, nothing in between. -/
theorem payable_prediction_reaches :
    AllReach actualCodec (afterBroadcast actualCodec .init (addressFn .payable) factory rfl
        (.returned (.str predicted)) [] (creationInfo "SUCCESS" false) .threw).evmToTvm predicted
      (creation false).createdAt ↔
    newestReturn (queuedAtBroadcast actualCodec .init (addressFn .payable) factory (.returned (.str predicted)) [])
        factory = some predicted ∨
      AllReach actualCodec CreateMaps.init.evmToTvm predicted (creation false).createdAt :=
  prediction_reaches_iff actualCodec actualCodec_roundTrips .init (addressFn .payable) factory rfl
    (.returned (.str predicted)) (by decide) [] (by simp) (creationInfo "SUCCESS" false) (by decide) .threw
    (creation false) rfl (by decide)

/-- Another address the simulator predicts. -/
def predictedNext : JsString := "0x4444444444444444444444444444444444444444".toList

/-- Two static calls of a payable factory, and then the broadcast of the first: its address leads
nowhere, the CREATE has met the other one's. -/
theorem older_prediction_lost : ¬ ∀ (codec : AddressCodec) (s : CreateMaps) (fn : FnAbi) (address : JsString)
    (isWrite : fn.isView = false) (answer : SimAnswer) (between : List FacadeCall) (info : TransactionInfo)
    (sim : SimAnswer) (itx : InternalTransaction), RoundTrips codec → fn.returnsAddress = true →
    normalizeAddrToEvmHex codec (fn.staticAnswer answer).value ≠ [] → (∀ call ∈ between, call.receipt = none) →
    succeeded (some info) = true → (internalTransactionsOf (some info)).filter InternalTransaction.isCreate = [itx] →
    isTronHex itx.transferTo_address = true →
    itx.callerHex = callerTronHex codec (contractAddrForCall codec s.evmToTvm address) →
    AllReach codec (afterBroadcast codec s fn address isWrite answer between info sim).evmToTvm
      (normalizeAddrToEvmHex codec (fn.staticAnswer answer).value) itx.createdAt := by
  intro h
  obtain ⟨b, hb, -⟩ := h actualCodec .init (addressFn .payable) factory rfl (.returned (.str predicted))
    [.staticCall (addressFn .payable) factory (.returned (.str predictedNext))] (creationInfo "SUCCESS" false) .threw
    (creation false) actualCodec_roundTrips rfl (by decide) (by simp [FacadeCall.receipt]) (by decide) rfl (by decide)
    (by decide) (.str predicted) rfl
  have hnone : lookupTvmActualBase58 actualCodec (afterBroadcast actualCodec .init (addressFn .payable) factory rfl
      (.returned (.str predicted)) [.staticCall (addressFn .payable) factory (.returned (.str predictedNext))]
      (creationInfo "SUCCESS" false) .threw).evmToTvm (.str predicted) = none := by decide
  rw [hnone] at hb
  cases hb

end HardhatTron

import HardhatTron.Runtime.Time
import HardhatTron.Runtime.TxReceipts
/-!
# Value a transaction carries

The bridge sends value on six routes. Each asks the node for a payment and
later hands the caller a response whose `from`, `to` and `valueSun` the
ether-balance matchers read back. `value_reported_iff` says when the response
tells of the payment as it was made.

The node, TronWeb and ethers are outside the repository; a payment is what the
request to the node names.
-/
namespace HardhatTron

open Lib

/-! ## Addresses -/

/-- A spelling of an address, not the empty string. -/
structure AddressText where
  text : JsString
  nonempty : text ≠ []

/-- The forms of an address that the matchers and the address map both know: base58 and prefixed hex. -/
def isAddressForm (a : JsString) : Bool :=
  isTronAddress a || isEvmHex a || isTronHex a || (isPrefixedTronHex a && "0x41".toList <+: a)

/-- What the routes rely on: `toEvmAddress` and `getAddress` respell an address as `0x` and 40 hex
digits, the same ones up to case. `toEvmAddress` knows other forms too (40 bare digits). -/
structure WebEnv where
  ethers : Ethers
  codec : AddressCodec
  toEvmAddress_spells : ∀ {a e}, ethers.toEvmAddress a = some e →
    isEvmHex e = true ∧ (isAddressForm a = true → e.map Char.toLower = normalizeAddrText codec a)
  getAddress_spells : ∀ {e c}, isEvmHex e = true → ethers.getAddress e = some c →
    isEvmHex c = true ∧ c.map Char.toLower = e.map Char.toLower

/-- `lookupTvmActualBase58(toBase58)`, or `toBase58` itself. -/
def remapped (codec : AddressCodec) (evmToTvm : EvmToTvm) (toBase58 : AddressText) : AddressText :=
  match lookupTvmActualBase58 codec evmToTvm (.str toBase58.text) with
  | some (c :: cs) => ⟨c :: cs, by simp⟩
  | _ => toBase58

/-- The `toBase58` of the signers, for the values it turns into an address. -/
def signersToBase58Text (codec : AddressCodec) (value : JsString) : Option JsString :=
  if isTronAddress value then some value
  else if "0x".toList <+: value ∧ value.length = 42 then codec.fromHex ("41".toList ++ value.drop 2)
  else some value

def signersToBase58 (codec : AddressCodec) : JsValue → Option JsString
  | .obj fs =>
    match stringField fs "tronAddress", stringField fs "target", stringField fs "address" with
    | some a, _, _ => some a
    | none, some a, _ => signersToBase58Text codec a
    | none, none, some a => signersToBase58Text codec a
    | none, none, none => none
  | .str s => signersToBase58Text codec s
  | _ => none

/-! ## Payments -/

/-- What the node is asked to move, and from whom. -/
structure Payment where
  owner : AddressText
  recipient : AddressText
  amount : Int

/-- `valueToCallValue`; `none` when `BigInt` throws. -/
def valueToCallValue (value : JsValue) : Option Int := if value.isNullish then some 0 else toBigInt value

/-- The request of `sendCallTx`. -/
def sendCallTx (env : WebEnv) (evmToTvm : EvmToTvm) (fromBase58 toBase58 : AddressText) (value : JsValue) :
    Option Payment :=
  (valueToCallValue value).map fun cv => ⟨fromBase58, remapped env.codec evmToTvm toBase58, cv⟩

/-- The request of `sendTransferTx`, which refuses to move nothing. -/
def sendTransferTx (env : WebEnv) (evmToTvm : EvmToTvm) (fromBase58 toBase58 : AddressText) (value : JsValue) :
    Option Payment :=
  (valueToCallValue value).bind fun amount =>
    if amount ≤ 0 then none else some ⟨fromBase58, remapped env.codec evmToTvm toBase58, amount⟩

/-- The request of `sendImpersonatedCall`. -/
def sendImpersonatedCall (env : WebEnv) (evmToTvm : EvmToTvm) (fromTronBase58 contractTronBase58 : AddressText)
    (value : JsValue) : Option Payment :=
  (if value.isNullish then some 0 else valueToCallValue value).map fun cv =>
    ⟨fromTronBase58, remapped env.codec evmToTvm contractTronBase58, cv⟩

/-- A transaction that carries value. A facade's `address` is its TronWeb contract's. -/
inductive ValueTx where
  | plainCall (defaultAddress address : AddressText) (value : JsValue)
  | structCall (defaultAddress address : AddressText) (value : JsValue)
  | impersonatedCall (impersonatedFrom address : AddressText) (value : JsValue)
  | signerSend (tronAddress : AddressText) (dest value : JsValue) (hasDataField : Bool)
  | impersonatingSend (base58 : AddressText) (dest value : JsValue) (hasDataField : Bool)
  | deployment (deployerAddress : AddressText) (value : JsValue)

/-- The value override. -/
def ValueTx.value : ValueTx → JsValue
  | .plainCall _ _ value => value
  | .structCall _ _ value => value
  | .impersonatedCall _ _ value => value
  | .signerSend _ _ value _ => value
  | .impersonatingSend _ _ value _ => value
  | .deployment _ value => value

/-- How the node answers for the transaction. -/
structure TxAnswer where
  txId : JsString
  info : Option TransactionInfo
  poll : DeployPoll
  sim : Resimulation

/-- The contract a deployment's answer names. -/
def DeployPoll.created : DeployPoll → Option AddressText
  | .unconfirmed info h => some ⟨info.contract_address, h⟩
  | .solidified info h => some ⟨info.contract_address, h⟩
  | .timeout => none

/-- The recipient a signer's `sendTransaction` sees. -/
def recipientOf (codec : AddressCodec) (dest : JsValue) : Option AddressText :=
  (signersToBase58 codec dest).bind fun a => if h : a = [] then none else some ⟨a, h⟩

/-- The `meta` of `makeTxResponse` on the three routes of `invoke`: the value goes through `Number`. -/
def invokeMeta (sender recipient : AddressText) (callValue : Int) : TxMeta :=
  ⟨sender.text, recipient.text, jsNumber callValue⟩

/-- The payment asked for, and what the caller is handed; `none` when nothing is sent. TronWeb's
contract proxy makes a number of its `callValue` before it posts it. -/
def ValueTx.run (env : WebEnv) (evmToTvm : EvmToTvm) (m : KnownReceipts) (answer : TxAnswer) :
    ValueTx → Option (Payment × TxReply)
  | .plainCall defaultAddress address value => do
    let cv ← valueToCallValue value
    return (⟨defaultAddress, address, jsNumber cv⟩,
      (finishInvoke env.ethers m answer.txId answer.info (invokeMeta defaultAddress address cv) answer.sim).1)
  | .structCall defaultAddress address value => do
    let payment ← sendCallTx env evmToTvm defaultAddress address value
    let cv ← valueToCallValue value
    return (payment,
      (finishInvoke env.ethers m answer.txId answer.info (invokeMeta defaultAddress address cv) answer.sim).1)
  | .impersonatedCall impersonatedFrom address value => do
    let payment ← sendImpersonatedCall env evmToTvm impersonatedFrom address value
    let cv ← valueToCallValue value
    return (payment,
      (finishInvoke env.ethers m answer.txId answer.info (invokeMeta impersonatedFrom address cv) answer.sim).1)
  | .signerSend tronAddress dest value hasDataField => do
    let recipientBase58 ← recipientOf env.codec dest
    let amount ← valueToCallValue value
    let payment ← if hasDataField then sendCallTx env evmToTvm tronAddress recipientBase58 value
      else if amount ≤ 0 then none else some ⟨tronAddress, recipientBase58, amount⟩
    return (payment, (finishSend env.ethers m answer.txId hasDataField answer.info
      ⟨tronAddress.text, recipientBase58.text, amount⟩).1)
  | .impersonatingSend base58 dest value hasDataField => do
    let toBase58 ← recipientOf env.codec dest
    let payment ← if hasDataField then sendCallTx env evmToTvm base58 toBase58 value
      else sendTransferTx env evmToTvm base58 toBase58 value
    let callValueSun ← valueToCallValue value
    return (payment, (finishImpersonatedSend env.ethers m answer.txId hasDataField answer.info
      ⟨base58.text, toBase58.text, callValueSun⟩).1)
  | .deployment deployerAddress value => do
    let cv ← valueToCallValue value
    let recipient ← answer.poll.created
    return (⟨deployerAddress, recipient, cv⟩, (finishDeploy env.ethers m answer.txId answer.poll).1)

/-! ## What the matchers read -/

/-- `normalizeAddrLower` of an address that is not rewritten. -/
def unmappedLower (codec : AddressCodec) (s : JsString) : Option JsString :=
  if isTronAddress s then (codec.toHex s).map fun hex => "0x".toList ++ (hex.drop 2).map Char.toLower
  else if "0x".toList <+: s ∧ s.length = 42 then some (s.map Char.toLower)
  else if "41".toList <+: s ∧ s.length = 42 then some ("0x".toList ++ (s.drop 2).map Char.toLower)
  else if "0x41".toList <+: s ∧ s.length = 44 then some ("0x".toList ++ (s.drop 4).map Char.toLower)
  else some (s.map Char.toLower)

/-- `normalizeAddrLower` of the matchers. -/
def normalizeAddrLower (codec : AddressCodec) (evmToTvm : EvmToTvm) (s : JsString) : Option JsString :=
  match lookupTvmActualBase58 codec evmToTvm (.str s) with
  | some (c :: cs) =>
    match codec.toHex (c :: cs) with
    | some hex => some ("0x".toList ++ (hex.drop 2).map Char.toLower)
    | none => unmappedLower codec s
  | _ => unmappedLower codec s

/-- `addr ? normalizeAddrLower(addr) : null` -/
def lowered (codec : AddressCodec) (evmToTvm : EvmToTvm) : Option JsString → Option (Option JsString)
  | some (c :: cs) => (normalizeAddrLower codec evmToTvm (c :: cs)).map some
  | _ => some none

/-- An account's change when `amount` moves. -/
def moved (fromLower toLower : Option JsString) (amount : Int) (account : JsString) (change : Int) : Int :=
  let change := if fromLower = some account then change - amount else change
  if toLower = some account then change + amount else change

/-- The TRX an internal transaction moves; other tokens are left out. -/
def trxValue (itx : InternalTransaction) : Int :=
  (itx.callValueInfo.map fun cv => if cv.tokenId = [] ∨ cv.tokenId = ['_'] then cv.callValue.getD 0 else 0).sum

/-- `addr ? '0x' + addr.slice(2) : null` -/
def evmOfHex (addr : JsString) : Option JsString := if addr = [] then none else some ("0x".toList ++ addr.drop 2)

def etherBalanceChangesSun (codec : AddressCodec) (evmToTvm : EvmToTvm) (tx : TxResponse)
    (accountsLower : List JsString) (includeFee : Bool) : Option (List Int) := do
  let fromLower ← lowered codec evmToTvm tx.sender
  let toLower ← lowered codec evmToTvm tx.recipient
  let outer := accountsLower.map fun a => moved fromLower toLower (tx.valueSun.getD 0) a 0
  let changes := if includeFee then
    List.zipWith (moved fromLower none ((tx.feeSun.getD 0 : Nat) : Int)) accountsLower outer else outer
  (tx.internalTransactions.getD []).foldlM (fun changes itx =>
    if itx.rejected then some changes
    else do
      let itxFrom ← lowered codec evmToTvm (evmOfHex itx.caller_address)
      let itxTo ← lowered codec evmToTvm (evmOfHex itx.transferTo_address)
      if trxValue itx = 0 then some changes
      else some (List.zipWith (moved itxFrom itxTo (trxValue itx)) accountsLower changes)) changes

/-! ## Spellings -/

theorem isEvmHex_form {s : JsString} (h : isEvmHex s = true) :
    ∃ x ds, s = '0' :: x :: ds ∧ (x = 'x' ∨ x = 'X') ∧ ds.length = 40 := by
  unfold isEvmHex at h
  split at h
  · rename_i x ds
    simp only [Bool.and_eq_true, Bool.or_eq_true, decide_eq_true_eq] at h
    exact ⟨x, ds, rfl, h.1.1, h.1.2⟩
  · cases h

theorem isTronHex_form {s : JsString} (h : isTronHex s = true) :
    ∃ ds, s = '4' :: '1' :: ds ∧ ds.length = 40 := by
  unfold isTronHex at h
  split at h
  · rename_i ds
    simp only [Bool.and_eq_true, decide_eq_true_eq] at h
    exact ⟨ds, rfl, h.1⟩
  · cases h

theorem isPrefixedTronHex_of_length {s : JsString} (h : s.length = 42) : isPrefixedTronHex s = false := by
  unfold isPrefixedTronHex
  split
  · rename_i x ds
    have hds : isTronHex ds = false := by
      rw [Bool.eq_false_iff]
      intro ht
      obtain ⟨rest, rfl, hrest⟩ := isTronHex_form ht
      simp [hrest] at h
    simp [hds]
  · rfl

theorem normalizeAddrText_of_isEvmHex (codec : AddressCodec) {s : JsString} (h : isEvmHex s = true) :
    normalizeAddrText codec s = s.map Char.toLower := by
  obtain ⟨x, ds, rfl, -, hds⟩ := isEvmHex_form h
  rw [normalizeAddrText, if_neg (by simp [isTronHex]), if_neg (by simp [isPrefixedTronHex_of_length, hds]), if_pos h]

/-- The matchers and the address map read an address the same way. -/
theorem unmappedLower_eq {codec : AddressCodec} {s : JsString} (hform : isAddressForm s = true)
    (h : normalizeAddrText codec s ≠ []) : unmappedLower codec s = some (normalizeAddrText codec s) := by
  simp only [isAddressForm, Bool.or_eq_true, Bool.and_eq_true, decide_eq_true_eq, or_assoc] at hform
  rcases hform with hs | hs | hs | hs
  · have hT : s.head? = some 'T' ∧ s.length = 34 := by simpa [isTronAddress] using hs
    obtain ⟨rest, rfl⟩ : ∃ rest, s = 'T' :: rest := by
      cases s with
      | nil => simp at hT
      | cons c rest => exact ⟨rest, by simpa using hT.1⟩
    rw [normalizeAddrText, if_neg (by simp [isTronHex]), if_neg (by simp [isPrefixedTronHex]),
      if_neg (by simp [isEvmHex]), if_pos hs] at h ⊢
    rw [unmappedLower, if_pos hs]
    split
    · rename_i hex hx
      rw [hx]
      rfl
    · rename_i hx
      rw [hx] at h
      exact absurd rfl h
  · rw [normalizeAddrText_of_isEvmHex codec hs]
    obtain ⟨x, ds, rfl, rfl | rfl, hds⟩ := isEvmHex_form hs
    · rw [unmappedLower, if_neg (by simp [isTronAddress]), if_pos (by simp [hds])]
    · rw [unmappedLower, if_neg (by simp [isTronAddress]), if_neg (by simp), if_neg (by simp), if_neg (by simp)]
  · obtain ⟨ds, rfl, hds⟩ := isTronHex_form hs
    rw [normalizeAddrText, if_pos hs, unmappedLower, if_neg (by simp [isTronAddress]), if_neg (by simp),
      if_pos (by simp [hds])]
  · obtain ⟨hpre, rest, rfl⟩ := hs
    have hrest : rest.length = 40 := by
      obtain ⟨ds, hds, hlen⟩ := isTronHex_form (s := "41".toList ++ rest) (by simpa [isPrefixedTronHex] using hpre)
      obtain rfl : rest = ds := by simpa using hds
      exact hlen
    rw [normalizeAddrText, if_neg (by simp [isTronHex]), if_pos hpre, unmappedLower, if_neg (by simp [isTronAddress]),
      if_neg (by simp [hrest]), if_neg (by simp), if_pos (by simp [hrest])]

/-- The matchers see an address through its spelling in the address map. -/
theorem normalizeAddrLower_congr {codec : AddressCodec} (evmToTvm : EvmToTvm) {a b : JsString}
    (ha : isAddressForm a = true) (hb : isAddressForm b = true)
    (h : normalizeAddrText codec a = normalizeAddrText codec b) (hne : normalizeAddrText codec b ≠ []) :
    normalizeAddrLower codec evmToTvm a = normalizeAddrLower codec evmToTvm b := by
  have hlookup : lookupTvmActualBase58 codec evmToTvm (.str a) = lookupTvmActualBase58 codec evmToTvm (.str b) := by
    unfold lookupTvmActualBase58
    rw [normalizeAddrToEvmHex, normalizeAddrToEvmHex, h]
  unfold normalizeAddrLower
  rw [hlookup, unmappedLower_eq ha (h ▸ hne), unmappedLower_eq hb hne, h]

theorem normalizeAddrLower_isSome {codec : AddressCodec} (evmToTvm : EvmToTvm) {s : JsString}
    (h : ∃ l, unmappedLower codec s = some l) : ∃ l, normalizeAddrLower codec evmToTvm s = some l := by
  unfold normalizeAddrLower
  split
  · split
    · exact ⟨_, rfl⟩
    · exact h
  · exact h

theorem tronToHex_spells {env : WebEnv} {a c : JsString} (hne : a ≠ []) (h : tronToHex env.ethers a = some c) :
    isEvmHex c = true ∧
      (isAddressForm a = true → normalizeAddrText env.codec c = normalizeAddrText env.codec a) := by
  rw [tronToHex, if_neg hne] at h
  obtain ⟨e, he, hc⟩ := Option.bind_eq_some_iff.1 h
  obtain ⟨hev, heq⟩ := env.toEvmAddress_spells he
  obtain ⟨hcv, hceq⟩ := env.getAddress_spells hev hc
  exact ⟨hcv, fun hform => by rw [normalizeAddrText_of_isEvmHex env.codec hcv, hceq, heq hform]⟩

/-- The account as the matchers see its EVM address. -/
def accountLower (env : WebEnv) (evmToTvm : EvmToTvm) (x : AddressText) : Option JsString :=
  (tronToHex env.ethers x.text).bind (normalizeAddrLower env.codec evmToTvm)

/-- A spelling of the account: its EVM address, or any other form of it. -/
def Spells (env : WebEnv) (a : JsString) (x : AddressText) : Prop :=
  ∃ c, tronToHex env.ethers x.text = some c ∧
    (a = c ∨ isAddressForm a = true ∧ tronToHex env.ethers a = some c)

theorem normalizeAddrText_ne_nil_of_isEvmHex (codec : AddressCodec) {c : JsString} (hc : isEvmHex c = true) :
    normalizeAddrText codec c ≠ [] := by
  rw [normalizeAddrText_of_isEvmHex codec hc]
  obtain ⟨x, ds, rfl, -, -⟩ := isEvmHex_form hc
  simp

/-- The matchers see an account the same way however it is spelled. -/
theorem Spells.lower {env : WebEnv} (evmToTvm : EvmToTvm) {a : JsString} {x : AddressText} (h : Spells env a x) :
    normalizeAddrLower env.codec evmToTvm a = accountLower env evmToTvm x := by
  obtain ⟨c, hx, rfl | ⟨hform, ha⟩⟩ := h
  · rw [accountLower, hx, Option.bind_some]
  · have hne : a ≠ [] := by
      rintro rfl
      exact absurd hform (by decide)
    obtain ⟨hc, heq⟩ := tronToHex_spells hne ha
    have hcform : isAddressForm c = true := by simp [isAddressForm, hc]
    have hcne := normalizeAddrText_ne_nil_of_isEvmHex env.codec hc
    rw [accountLower, hx, Option.bind_some]
    exact normalizeAddrLower_congr evmToTvm hform hcform (heq hform).symm hcne

/-- A response's address is lowered like the account it respells. -/
theorem lowered_tronToHex {env : WebEnv} (evmToTvm : EvmToTvm) {x : AddressText} {c : JsString}
    (h : tronToHex env.ethers x.text = some c) :
    ∃ l, lowered env.codec evmToTvm (some c) = some (some l) ∧ accountLower env evmToTvm x = some l := by
  obtain ⟨hc, -⟩ := tronToHex_spells x.nonempty h
  have hcform : isAddressForm c = true := by simp [isAddressForm, hc]
  have hcne := normalizeAddrText_ne_nil_of_isEvmHex env.codec hc
  obtain ⟨l, hl⟩ := normalizeAddrLower_isSome evmToTvm ⟨_, unmappedLower_eq hcform hcne⟩
  obtain ⟨y, ds, rfl, -, -⟩ := isEvmHex_form hc
  exact ⟨l, by simp only [lowered, hl, Option.map_some], by rw [accountLower, h, Option.bind_some, hl]⟩

/-! ## Balance changes -/

/-- The transaction's internal transactions were undone or moved no TRX. -/
def NoInternalTransfers (tx : TxResponse) : Prop :=
  ∀ itx ∈ tx.internalTransactions.getD [], itx.rejected = true ∨ trxValue itx = 0

theorem lowered_evmOfHex (codec : AddressCodec) (evmToTvm : EvmToTvm) (addr : JsString) :
    ∃ l, lowered codec evmToTvm (evmOfHex addr) = some l := by
  unfold evmOfHex
  split
  · exact ⟨none, rfl⟩
  · have hlower : ∃ l, unmappedLower codec ("0x".toList ++ addr.drop 2) = some l := by
      rw [unmappedLower, if_neg (by simp [isTronAddress])]
      split <;> [skip; split <;> [skip; split]] <;> exact ⟨_, rfl⟩
    obtain ⟨l, hl⟩ := normalizeAddrLower_isSome evmToTvm hlower
    exact ⟨some l, congrArg (Option.map some) hl⟩

/-- Without internal transfers, only the outer value counts. -/
theorem etherBalanceChangesSun_of_no_internal {codec : AddressCodec} {evmToTvm : EvmToTvm} {tx : TxResponse}
    (h : NoInternalTransfers tx) {fromLower toLower : Option JsString}
    (hfrom : lowered codec evmToTvm tx.sender = some fromLower)
    (hto : lowered codec evmToTvm tx.recipient = some toLower) (accountsLower : List JsString) :
    etherBalanceChangesSun codec evmToTvm tx accountsLower false =
      some (accountsLower.map fun a => moved fromLower toLower (tx.valueSun.getD 0) a 0) := by
  have hloop : ∀ (itxs : List InternalTransaction) (changes : List Int),
      (∀ itx ∈ itxs, itx.rejected = true ∨ trxValue itx = 0) →
      itxs.foldlM (fun changes itx =>
        if itx.rejected then some changes
        else do
          let itxFrom ← lowered codec evmToTvm (evmOfHex itx.caller_address)
          let itxTo ← lowered codec evmToTvm (evmOfHex itx.transferTo_address)
          if trxValue itx = 0 then some changes
          else some (List.zipWith (moved itxFrom itxTo (trxValue itx)) accountsLower changes)) changes
        = some changes := by
    intro itxs changes hall
    induction itxs with
    | nil => rfl
    | cons itx itxs ih =>
      obtain ⟨itxFrom, hf⟩ := lowered_evmOfHex codec evmToTvm itx.caller_address
      obtain ⟨itxTo, ht⟩ := lowered_evmOfHex codec evmToTvm itx.transferTo_address
      have hone := hall itx (by simp)
      rw [List.foldlM_cons]
      have hstep : (if itx.rejected = true then some changes
          else do
            let itxFrom ← lowered codec evmToTvm (evmOfHex itx.caller_address)
            let itxTo ← lowered codec evmToTvm (evmOfHex itx.transferTo_address)
            if trxValue itx = 0 then some changes
            else some (List.zipWith (moved itxFrom itxTo (trxValue itx)) accountsLower changes)) = some changes := by
        rcases hone with hr | hz
        · rw [if_pos hr]
        · split
          · rfl
          · simp only [hf, ht, bind, Option.bind]
      rw [hstep]
      exact ih fun itx' h' => hall itx' (by simp [h'])
  unfold etherBalanceChangesSun
  simp only [hfrom, hto, bind, Option.bind, Bool.false_eq_true, if_false]
  exact hloop _ _ h

/-- What the sender and the recipient of `v` should see. -/
theorem moved_pair_iff (f t : JsString) (v : Int) :
    [f, t].map (fun a => moved (some f) (some t) v a 0) = [-v, v] ↔ f ≠ t ∨ v = 0 := by
  by_cases h : f = t
  · subst h
    simp only [List.map_cons, List.map_nil, moved, if_true, List.cons.injEq, and_true, ne_eq, not_true_eq_false,
      false_or]
    omega
  · have h' : ¬ t = f := fun ht => h ht.symm
    simp [moved, h, h']

/-! ## What the responses say -/

/-- The response names the payer and the recipient by these spellings, and this value. -/
structure Tells (ethers : Ethers) (r : TxResponse) (sender recipient : AddressText) (valueSun : Int) : Prop where
  sender : ∃ c, tronToHex ethers sender.text = some c ∧ r.sender = some c
  recipient : ∃ c, tronToHex ethers recipient.text = some c ∧ r.recipient = some c
  valueSun : r.valueSun = some valueSun

theorem projected_eq (ethers : Ethers) (a : AddressText) :
    projected ethers a.text = (tronToHex ethers a.text).map some := by
  rw [projected, if_neg a.nonempty]

theorem finishInvoke_tells {ethers : Ethers} {m : KnownReceipts} {txId : JsString} {info : Option TransactionInfo}
    {sender recipient : AddressText} {valueSun : Int} {sim : Resimulation} {r : TxResponse}
    (h : (finishInvoke ethers m txId info ⟨sender.text, recipient.text, valueSun⟩ sim).1 = .response r) :
    Tells ethers r sender recipient valueSun := by
  unfold finishInvoke at h
  split at h
  · unfold makeTxResponse at h
    simp only [projected_eq] at h
    cases hs : tronToHex ethers sender.text with
    | none => simp [hs] at h
    | some s =>
      cases hr : tronToHex ethers recipient.text with
      | none => simp [hs, hr] at h
      | some t =>
        simp only [hs, hr, Option.map_some, TxReply.response.injEq] at h
        subst h
        exact ⟨⟨s, hs, rfl⟩, ⟨t, hr, rfl⟩, rfl⟩
  · cases h

theorem sentResponse_tells {ethers : Ethers} {receipt : Receipt} {sender recipient : AddressText} {valueSun : Int}
    {r : TxResponse} (h : sentResponse ethers receipt ⟨sender.text, recipient.text, valueSun⟩ = .response r) :
    Tells ethers r sender recipient valueSun := by
  unfold sentResponse at h
  cases hs : tronToHex ethers sender.text with
  | none => simp [hs] at h
  | some s =>
    cases hr : tronToHex ethers recipient.text with
    | none => simp [hs, hr] at h
    | some t =>
      simp only [hs, hr, TxReply.response.injEq] at h
      subst h
      exact ⟨⟨s, hs, rfl⟩, ⟨t, hr, rfl⟩, rfl⟩

theorem finishSend_tells {ethers : Ethers} {m : KnownReceipts} {txId : JsString} {hasDataField : Bool}
    {info : Option TransactionInfo} {sender recipient : AddressText} {valueSun : Int} {r : TxResponse}
    (h : (finishSend ethers m txId hasDataField info ⟨sender.text, recipient.text, valueSun⟩).1 = .response r) :
    Tells ethers r sender recipient valueSun := by
  unfold finishSend at h
  generalize sentReceipt txId info (if hasDataField then succeeded info else true) = receipt at h
  dsimp only at h
  split at h
  · cases h
  · exact sentResponse_tells h

theorem finishImpersonatedSend_tells {ethers : Ethers} {m : KnownReceipts} {txId : JsString} {hasDataField : Bool}
    {info : Option TransactionInfo} {sender recipient : AddressText} {valueSun : Int} {r : TxResponse}
    (h : (finishImpersonatedSend ethers m txId hasDataField info ⟨sender.text, recipient.text, valueSun⟩).1 =
      .response r) : Tells ethers r sender recipient valueSun := by
  unfold finishImpersonatedSend at h
  generalize sentReceipt txId info (if hasDataField then succeeded info else true) = receipt at h
  dsimp only at h
  split at h
  · cases h
  · exact sentResponse_tells h

/-- A deployment's response says nothing of the value. -/
theorem finishDeploy_tells {ethers : Ethers} {m : KnownReceipts} {txId : JsString} {poll : DeployPoll} {r : TxResponse}
    (h : (finishDeploy ethers m txId poll).1 = .response r) : r.valueSun = none := by
  unfold finishDeploy at h
  cases poll with
  | unconfirmed info _ =>
    dsimp only at h
    split at h
    · cases h; rfl
    · cases h
  | solidified info _ =>
    dsimp only at h
    split at h
    · cases h; rfl
    · cases h
  | timeout => cases h

/-! ## The six routes -/

/-- The recipient as the caller names it. -/
def ValueTx.named (codec : AddressCodec) : ValueTx → Option AddressText
  | .plainCall _ address _ => some address
  | .structCall _ address _ => some address
  | .impersonatedCall _ address _ => some address
  | .signerSend _ dest _ _ => recipientOf codec dest
  | .impersonatingSend _ dest _ _ => recipientOf codec dest
  | .deployment _ _ => none

/-- Whether the request goes to what the address map makes of that recipient. -/
def ValueTx.rewrites : ValueTx → Bool
  | .plainCall _ _ _ => false
  | .structCall _ _ _ => true
  | .impersonatedCall _ _ _ => true
  | .signerSend _ _ _ hasDataField => hasDataField
  | .impersonatingSend _ _ _ _ => true
  | .deployment _ _ => false

/-- Whether the posted value goes through `Number`. -/
def ValueTx.postsNumber : ValueTx → Bool
  | .plainCall _ _ _ => true
  | _ => false

/-- Whether `valueSun` goes through `Number`. -/
def ValueTx.throughNumber : ValueTx → Bool
  | .plainCall _ _ _ => true
  | .structCall _ _ _ => true
  | .impersonatedCall _ _ _ => true
  | _ => false

/-- What the node was asked on a route other than a deployment, and what the response says. -/
structure Routed (env : WebEnv) (evmToTvm : EvmToTvm) (tx : ValueTx) (v : Int) (p : Payment) (r : TxResponse) :
    Prop where
  amount : p.amount = if tx.postsNumber then jsNumber v else v
  named : ∃ a, tx.named env.codec = some a ∧
    p.recipient = (if tx.rewrites then remapped env.codec evmToTvm a else a) ∧
    Tells env.ethers r p.owner a (if tx.throughNumber then jsNumber v else v)

theorem sendCallTx_of_value {env : WebEnv} {evmToTvm : EvmToTvm} {fromBase58 toBase58 : AddressText} {value : JsValue}
    {v : Int} (hv : valueToCallValue value = some v) :
    sendCallTx env evmToTvm fromBase58 toBase58 value = some ⟨fromBase58, remapped env.codec evmToTvm toBase58, v⟩ := by
  rw [sendCallTx, hv, Option.map_some]

theorem sendImpersonatedCall_of_value {env : WebEnv} {evmToTvm : EvmToTvm} {sender contract : AddressText}
    {value : JsValue} {v : Int} (hv : valueToCallValue value = some v) :
    sendImpersonatedCall env evmToTvm sender contract value = some ⟨sender, remapped env.codec evmToTvm contract, v⟩ := by
  have hcv : (if value.isNullish then some 0 else valueToCallValue value) = some v := by
    split
    · rename_i hn
      rw [valueToCallValue, if_pos hn] at hv
      exact hv
    · exact hv
  rw [sendImpersonatedCall, hcv, Option.map_some]

/-- The payment and the response of every route. -/
theorem ValueTx.run_cases {env : WebEnv} {evmToTvm : EvmToTvm} {m : KnownReceipts} {answer : TxAnswer} {tx : ValueTx}
    {v : Int} {p : Payment} {r : TxResponse} (hv : valueToCallValue tx.value = some v)
    (h : tx.run env evmToTvm m answer = some (p, .response r)) :
    (∃ deployer value, tx = .deployment deployer value ∧ r.valueSun = none) ∨
    ((∀ deployer value, tx ≠ .deployment deployer value) ∧ Routed env evmToTvm tx v p r) := by
  cases tx with
  | plainCall defaultAddress address value =>
    right
    simp only [run] at h
    simp only [ValueTx.value] at hv
    simp only [hv, bind, Option.bind, pure, Option.some.injEq, Prod.mk.injEq] at h
    obtain ⟨rfl, h⟩ := h
    exact ⟨by simp, rfl, address, rfl, rfl, finishInvoke_tells h⟩
  | structCall defaultAddress address value =>
    right
    simp only [run] at h
    simp only [ValueTx.value] at hv
    simp only [hv, sendCallTx_of_value hv, bind, Option.bind, pure, Option.some.injEq, Prod.mk.injEq] at h
    obtain ⟨rfl, h⟩ := h
    exact ⟨by simp, rfl, address, rfl, rfl, finishInvoke_tells h⟩
  | impersonatedCall impersonatedFrom address value =>
    right
    simp only [run] at h
    simp only [ValueTx.value] at hv
    simp only [hv, sendImpersonatedCall_of_value hv, bind, Option.bind, pure, Option.some.injEq, Prod.mk.injEq] at h
    obtain ⟨rfl, h⟩ := h
    exact ⟨by simp, rfl, address, rfl, rfl, finishInvoke_tells h⟩
  | signerSend tronAddress dest value hasDataField =>
    right
    simp only [run] at h
    simp only [ValueTx.value] at hv
    cases hrec : recipientOf env.codec dest with
    | none => simp [hrec] at h
    | some a =>
      simp only [hrec, hv, sendCallTx_of_value hv, bind, Option.bind] at h
      cases hasDataField with
      | true =>
        simp only [if_true, pure, Option.some.injEq, Prod.mk.injEq] at h
        obtain ⟨rfl, h⟩ := h
        exact ⟨by simp, rfl, a, hrec, rfl, finishSend_tells h⟩
      | false =>
        by_cases hpos : v ≤ 0
        · simp [hpos] at h
        · simp only [Bool.false_eq_true, if_false, hpos, pure, Option.some.injEq, Prod.mk.injEq] at h
          obtain ⟨rfl, h⟩ := h
          exact ⟨by simp, rfl, a, hrec, rfl, finishSend_tells h⟩
  | impersonatingSend base58 dest value hasDataField =>
    right
    simp only [run] at h
    simp only [ValueTx.value] at hv
    cases hrec : recipientOf env.codec dest with
    | none => simp [hrec] at h
    | some a =>
      simp only [hrec, hv, sendCallTx_of_value hv, sendTransferTx, bind, Option.bind] at h
      cases hasDataField with
      | true =>
        simp only [if_true, pure, Option.some.injEq, Prod.mk.injEq] at h
        obtain ⟨rfl, h⟩ := h
        exact ⟨by simp, rfl, a, hrec, rfl, finishImpersonatedSend_tells h⟩
      | false =>
        by_cases hpos : v ≤ 0
        · simp [hpos] at h
        · simp only [Bool.false_eq_true, if_false, hpos, pure, Option.some.injEq, Prod.mk.injEq] at h
          obtain ⟨rfl, h⟩ := h
          exact ⟨by simp, rfl, a, hrec, rfl, finishImpersonatedSend_tells h⟩
  | deployment deployerAddress value =>
    left
    refine ⟨deployerAddress, value, rfl, ?_⟩
    simp only [run] at h
    simp only [ValueTx.value] at hv
    cases hc : answer.poll.created with
    | none => simp [hv, hc] at h
    | some a =>
      simp only [hv, hc, bind, Option.bind, pure, Option.some.injEq, Prod.mk.injEq] at h
      exact finishDeploy_tells h.2

/-- `jsNumber` keeps the numbers with at most 53 significant bits. -/
theorem jsNumber_eq_self_iff (v : Nat) : jsNumber v = v ↔ 2 ^ (Nat.log2 v - 52) ∣ v := by
  rw [jsNumber, if_neg (by omega), Int.natAbs_natCast, ← toDouble_eq_self_iff]
  exact Int.natCast_inj

/-- The response tells of the payment as it was made, and the matchers see it under every spelling
of the two accounts. -/
structure ReportsExactly (env : WebEnv) (later : EvmToTvm) (p : Payment) (r : TxResponse) (v : Int) : Prop where
  tells : Tells env.ethers r p.owner p.recipient v
  changes : NoInternalTransfers r → ∀ a b f t, Spells env a p.owner → Spells env b p.recipient →
    normalizeAddrLower env.codec later a = some f → normalizeAddrLower env.codec later b = some t →
    etherBalanceChangesSun env.codec later r [f, t] false = some [-v, v]

/-- The routes and values for which it does. -/
structure SentExactly (env : WebEnv) (evmToTvm later : EvmToTvm) (tx : ValueTx) (p : Payment) (r : TxResponse)
    (v : Nat) : Prop where
  notDeployment : ∀ deployer value, tx ≠ .deployment deployer value
  digits : tx.throughNumber = true → 2 ^ (Nat.log2 v - 52) ∣ v
  unmapped : tx.rewrites = true → ∀ a, tx.named env.codec = some a →
    tronToHex env.ethers (remapped env.codec evmToTvm a).text = tronToHex env.ethers a.text
  apart : NoInternalTransfers r → v = 0 ∨ accountLower env later p.owner ≠ accountLower env later p.recipient

/-- A response that says so, on the routes that name a recipient. -/
theorem Routed.tells_iff {env : WebEnv} {evmToTvm : EvmToTvm} {tx : ValueTx} {v : Nat} {p : Payment} {r : TxResponse}
    (h : Routed env evmToTvm tx v p r) : Tells env.ethers r p.owner p.recipient v ↔
      (tx.throughNumber = true → 2 ^ (Nat.log2 v - 52) ∣ v) ∧
      (tx.rewrites = true → ∀ a, tx.named env.codec = some a →
        tronToHex env.ethers (remapped env.codec evmToTvm a).text = tronToHex env.ethers a.text) := by
  obtain ⟨a, hnamed, hrec, htells⟩ := h.named
  obtain ⟨c, hc, hrc⟩ := htells.recipient
  constructor
  · intro hs
    constructor
    · intro hn
      have heq := htells.valueSun
      rw [if_pos hn, hs.valueSun] at heq
      rw [← jsNumber_eq_self_iff]
      exact (Option.some.inj heq).symm
    · intro hw a' ha'
      obtain rfl : a = a' := Option.some.inj (hnamed.symm.trans ha')
      rw [if_pos hw] at hrec
      obtain ⟨c', hc', hrc'⟩ := hs.recipient
      rw [← hrec, hc', hc, Option.some.inj (hrc.symm.trans hrc')]
  · rintro ⟨hdigits, hmap⟩
    refine ⟨htells.sender, ⟨c, ?_, hrc⟩, ?_⟩
    · rw [hrec]
      split
      · rename_i hw
        rw [hmap hw a hnamed, hc]
      · exact hc
    · rw [htells.valueSun]
      split
      · rename_i hn
        rw [(jsNumber_eq_self_iff v).2 (hdigits hn)]
      · rfl

/-- Then the matchers see the payment when payer and recipient are not the same to them. -/
theorem Tells.changes_iff {env : WebEnv} {later : EvmToTvm} {p : Payment} {r : TxResponse} {v : Nat}
    (h : Tells env.ethers r p.owner p.recipient v) (hno : NoInternalTransfers r) :
    (∀ a b f t, Spells env a p.owner → Spells env b p.recipient →
      normalizeAddrLower env.codec later a = some f → normalizeAddrLower env.codec later b = some t →
      etherBalanceChangesSun env.codec later r [f, t] false = some [-(v : Int), (v : Int)]) ↔
    (v = 0 ∨ accountLower env later p.owner ≠ accountLower env later p.recipient) := by
  obtain ⟨cs, hcs, hrs⟩ := h.sender
  obtain ⟨ct, hct, hrt⟩ := h.recipient
  obtain ⟨f, hlf, hf⟩ := lowered_tronToHex later hcs
  obtain ⟨t, hlt, ht⟩ := lowered_tronToHex later hct
  rw [← hrs] at hlf
  rw [← hrt] at hlt
  have hchanges := etherBalanceChangesSun_of_no_internal hno hlf hlt [f, t]
  have hpair := moved_pair_iff f t v
  rw [h.valueSun, Option.getD_some] at hchanges
  have howner : Spells env cs p.owner := ⟨cs, hcs, .inl rfl⟩
  have hrecipient : Spells env ct p.recipient := ⟨ct, hct, .inl rfl⟩
  rw [hf, ht]
  constructor
  · intro hall
    have hsome := hall cs ct f t howner hrecipient ((howner.lower later).trans hf) ((hrecipient.lower later).trans ht)
    rw [hchanges, Option.some.injEq, hpair] at hsome
    rcases hsome with hne | hz
    · exact .inr fun he => hne (Option.some.inj he)
    · exact .inl (by omega)
  · intro hcond a b f' t' ha hb hf' ht'
    obtain rfl : f = f' := Option.some.inj (hf.symm.trans ((ha.lower later).symm.trans hf'))
    obtain rfl : t = t' := Option.some.inj (ht.symm.trans ((hb.lower later).symm.trans ht'))
    rw [hchanges, Option.some.injEq, hpair]
    rcases hcond with hz | hne
    · exact .inr (by omega)
    · exact .inl fun he => hne (by rw [he])

/-- A response reports the payment exactly on these routes, for these values. -/
theorem value_reported_iff (env : WebEnv) (evmToTvm later : EvmToTvm) (m : KnownReceipts) (answer : TxAnswer)
    (tx : ValueTx) (v : Nat) (p : Payment) (r : TxResponse) (hv : valueToCallValue tx.value = some (v : Int))
    (h : tx.run env evmToTvm m answer = some (p, .response r)) :
    ReportsExactly env later p r v ↔ SentExactly env evmToTvm later tx p r v := by
  rcases ValueTx.run_cases hv h with ⟨deployer, value, rfl, hnone⟩ | ⟨hnd, hrouted⟩
  · apply iff_of_false
    · intro hr
      rw [hr.tells.valueSun] at hnone
      cases hnone
    · intro hs
      exact hs.notDeployment deployer value rfl
  · constructor
    · intro hr
      obtain ⟨hdigits, hmap⟩ := hrouted.tells_iff.1 hr.tells
      exact ⟨hnd, hdigits, hmap, fun hno => (hr.tells.changes_iff hno).1 (hr.changes hno)⟩
    · intro hs
      have htells := hrouted.tells_iff.2 ⟨hs.digits, hs.unmapped⟩
      exact ⟨htells, fun hno => (htells.changes_iff hno).2 (hs.apart hno)⟩

/-! ## One sun above what a double holds -/

def payer : AddressText := ⟨"TBXSw8fM4jpQkGc6zZjsVABFpVN7UvXPdV".toList, by decide⟩

def payerEvm : JsString := "0x1111111111111111111111111111111111111111".toList

def contract : AddressText := ⟨"412222222222222222222222222222222222222222".toList, by decide⟩

def contractEvm : JsString := "0x2222222222222222222222222222222222222222".toList

/-- The codecs, on the two addresses. -/
def twoAddresses : WebEnv where
  ethers :=
    { toEvmAddress := fun a => if a = payer.text then some payerEvm else if a = contract.text then some contractEvm else none
      getAddress := fun e => if e = payerEvm ∨ e = contractEvm then some e else none
      decodeReason := fun _ => none }
  codec :=
    { toBase58Address := fun _ => none
      toHex := fun a => if a = payer.text then some ("41".toList ++ payerEvm.drop 2) else none
      fromHex := fun _ => none
      base58 := @base58_of_throws }
  toEvmAddress_spells := by
    intro a e h
    dsimp only at h
    split at h
    · rename_i ha
      subst ha
      cases h
      decide
    · split at h
      · rename_i ha
        subst ha
        cases h
        decide
      · cases h
  getAddress_spells := by
    intro e c he h
    dsimp only at h
    split at h
    · cases h
      exact ⟨he, rfl⟩
    · cases h

def mined : TransactionInfo :=
  { receipt := some ⟨"SUCCESS".toList, none, none, none⟩, fee := none, blockNumber := some 1, blockHash := [], log := []
    contractResult := [], internal_transactions := none, internalTransactions := none, contract_address := [] }

def minedAnswer : TxAnswer := ⟨['1'], some mined, .timeout, ⟨.returned, false⟩⟩

/-- A call with a struct argument that pays `v`. -/
def payCall (v : Nat) : ValueTx := .structCall payer contract (.bigint v)

theorem payCall_run (v : Nat) : ∃ r, (payCall v).run twoAddresses (fun _ => none) .empty minedAnswer =
    some (⟨payer, contract, v⟩, .response r) ∧ r.valueSun = some (jsNumber v) := by
  refine ⟨⟨_, _, _, _, _, _, _, _, _⟩, rfl, rfl⟩

/-- The condition, on a call that pays one sun. -/
theorem one_sun_reported_iff : ∃ r,
    ReportsExactly twoAddresses (fun _ => none) ⟨payer, contract, 1⟩ r (1 : Nat) ↔
      SentExactly twoAddresses (fun _ => none) (fun _ => none) (payCall 1) ⟨payer, contract, 1⟩ r 1 := by
  obtain ⟨r, hr, -⟩ := payCall_run 1
  exact ⟨r, value_reported_iff twoAddresses (fun _ => none) (fun _ => none) .empty minedAnswer (payCall 1) 1
    ⟨payer, contract, 1⟩ r rfl hr⟩

/-- A call with a struct argument that pays `2 ^ 53 + 1` sun reports one sun less. -/
theorem odd_sun_lost : ¬ ∀ (env : WebEnv) (evmToTvm later : EvmToTvm) (m : KnownReceipts) (answer : TxAnswer)
    (tx : ValueTx) (v : Nat) (p : Payment) (r : TxResponse), v < 2 ^ 63 → valueToCallValue tx.value = some (v : Int) →
    tx.run env evmToTvm m answer = some (p, .response r) → ReportsExactly env later p r v := by
  intro h
  obtain ⟨r, hr, hv⟩ := payCall_run (2 ^ 53 + 1)
  have htells := (h twoAddresses (fun _ => none) (fun _ => none) .empty minedAnswer (payCall (2 ^ 53 + 1)) (2 ^ 53 + 1)
    _ r (by decide) rfl hr).tells.valueSun
  rw [hv, Option.some.injEq, jsNumber_eq_self_iff] at htells
  have hlog : Nat.log2 (2 ^ 53 + 1) = 53 := (Nat.log2_eq_iff (by decide)).2 ⟨by decide, by decide⟩
  rw [hlog] at htells
  omega

end HardhatTron

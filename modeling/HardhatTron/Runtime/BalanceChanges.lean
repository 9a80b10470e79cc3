import HardhatTron.Runtime.ValueFlow
import HardhatTron.Lib.HexBytes
import HardhatTron.Lib.Ledger
/-!
# The ether-balance matcher

`etherBalanceChangesSun` adds up what a transaction moves, account by account,
without looking at a balance. `etherBalanceChanges_eq` compares it with a
ledger that the transaction is posted to.
-/
namespace HardhatTron

open Lib

/-! ## Accounts -/

/-- An account, by the 20 bytes of its address. -/
abbrev Account := HexText 40

/-- The lowercase EVM spelling, which the matchers compare. -/
def Account.evm (a : Account) : JsString := "0x".toList ++ a.text

theorem Account.evm_inj {a b : Account} : a.evm = b.evm ↔ a = b :=
  ⟨fun h => HexText.ext_text (List.append_cancel_left h), fun h => h ▸ rfl⟩

/-- The four spellings of an address. -/
inductive Names (codec : AddressCodec) (a : Account) : JsString → Prop
  | evmHex {ds} (h : ds.map Char.toLower = a.text) : Names codec a ("0x".toList ++ ds)
  | tronHex {ds} (h : ds.map Char.toLower = a.text) : Names codec a ("41".toList ++ ds)
  | prefixedTronHex {ds} (h : ds.map Char.toLower = a.text) : Names codec a ("0x41".toList ++ ds)
  | base58 {s hex} (hs : isTronAddress s = true) (hhex : codec.toHex s = some hex)
      (h : (hex.drop 2).map Char.toLower = a.text) : Names codec a s

theorem isTronHex_digits {s : JsString} (h : isTronHex s = true) :
    ((s.drop 2).map Char.toLower).length = 40 ∧ (∀ c ∈ (s.drop 2).map Char.toLower, isHexDigit c = true) ∧
      ((s.drop 2).map Char.toLower).map Char.toLower = (s.drop 2).map Char.toLower := by
  unfold isTronHex at h
  split at h
  · rename_i ds
    simp only [Bool.and_eq_true, decide_eq_true_eq, List.all_eq_true] at h
    refine ⟨by simpa using h.1, ?_, ?_⟩
    · intro c hc
      obtain ⟨d, hd, rfl⟩ := List.mem_map.1 hc
      exact isHexDigit_toLower (h.2 d hd)
    · rw [List.map_map]
      apply List.map_congr_left
      intro c _
      exact toLower_toLower c
  · cases h

/-- The account of a 21-byte hex address, as the node reports them. -/
def tronAccount (s : JsString) : Option Account :=
  if h : isTronHex s = true then
    some ⟨(s.drop 2).map Char.toLower, (isTronHex_digits h).1, (isTronHex_digits h).2.1, (isTronHex_digits h).2.2⟩
  else none

/-! ## What a transaction posts -/

/-- The TRX an entry of an internal transaction is for; an entry with a token's id is for that token. -/
def CallValueInfo.trx (cv : CallValueInfo) : Option Int :=
  match cv.tokenId with
  | [] | ['_'] => cv.callValue
  | _ => none

/-- Every TRX entry of an internal transaction is paid by the caller to the target, unless it was undone. -/
def InternalTransaction.entries (itx : InternalTransaction) : List (Account × Int) :=
  if itx.rejected then []
  else
    match tronAccount itx.caller_address, tronAccount itx.transferTo_address with
    | some caller, some target => (itx.callValueInfo.filterMap CallValueInfo.trx).flatMap (payment caller target)
    | _, _ => []

/-- The value, the fee, and the internal transactions. -/
def TxResponse.entries (tx : TxResponse) (sender recipient : Account) (value : Int) (fee : Nat) :
    List (Account × Int) :=
  payment sender recipient value ++ [(sender, -(fee : Int))] ++
    (tx.internalTransactions.getD []).flatMap InternalTransaction.entries

/-- The response tells exactly who paid whom, how much, and the fee. -/
structure Exact (codec : AddressCodec) (tx : TxResponse) (sender recipient : Account) (value : Int) (fee : Nat) :
    Prop where
  sender : ∃ s, tx.sender = some s ∧ Names codec sender s
  recipient : ∃ s, tx.recipient = some s ∧ Names codec recipient s
  value : tx.valueSun = some value
  fee : tx.feeSun = some fee
  internal : ∀ itx ∈ tx.internalTransactions.getD [], itx.rejected = false →
    (tronAccount itx.caller_address).isSome = true ∧ (tronAccount itx.transferTo_address).isSome = true

/-- The changes of the accounts a test names. -/
def etherBalanceChanges (codec : AddressCodec) (evmToTvm : EvmToTvm) (tx : TxResponse) (accounts : List JsString)
    (includeFee : Bool) : Option (List Int) := do
  let accountsLower ← accounts.mapM (normalizeAddrLower codec evmToTvm)
  etherBalanceChangesSun codec evmToTvm tx accountsLower includeFee

/-! ## Spellings -/

section

variable {codec : AddressCodec}

theorem normalizeAddrLower_unmapped (codec : AddressCodec) (s : JsString) :
    normalizeAddrLower codec (fun _ => none) s = unmappedLower codec s := by
  unfold normalizeAddrLower
  have hlookup : lookupTvmActualBase58 codec (fun _ => none) (.str s) = none := by
    unfold lookupTvmActualBase58
    split <;> rfl
  rw [hlookup]

/-- All spellings of an account become one. -/
theorem Names.lower {a : Account} {s : JsString} (h : Names codec a s) :
    normalizeAddrLower codec (fun _ => none) s = some a.evm := by
  rw [normalizeAddrLower_unmapped]
  have hlen : ∀ {ds : JsString}, ds.map Char.toLower = a.text → ds.length = 40 := by
    intro ds hds
    rw [← a.length_eq, ← hds, List.length_map]
  cases h with
  | evmHex h =>
    rename_i ds
    unfold unmappedLower
    rw [if_neg (by simp [isTronAddress]), if_pos (by simp [hlen h]), Account.evm, ← h]
    rfl
  | tronHex h =>
    rename_i ds
    unfold unmappedLower
    rw [if_neg (by simp [isTronAddress]), if_neg (by simp), if_pos (by simp [hlen h]), Account.evm, ← h]
    rfl
  | prefixedTronHex h =>
    rename_i ds
    unfold unmappedLower
    rw [if_neg (by simp [isTronAddress]), if_neg (by simp [hlen h]), if_neg (by simp), if_pos (by simp [hlen h]),
      Account.evm, ← h]
    rfl
  | base58 hs hhex h =>
    unfold unmappedLower
    rw [if_pos hs, hhex, Account.evm, ← h]
    rfl

theorem Names.lowered {a : Account} {s : JsString} (h : Names codec a s) :
    lowered codec (fun _ => none) (some s) = some (some a.evm) := by
  have hlower := h.lower
  cases s with
  | nil =>
    cases h with
    | base58 hs _ _ => exact absurd hs (by decide)
  | cons c cs => rw [HardhatTron.lowered, hlower, Option.map_some]

/-- The node's spelling, with its first byte replaced. -/
theorem lowered_tronAccount {s : JsString} {a : Account} (h : tronAccount s = some a) :
    HardhatTron.lowered codec (fun _ => none) (evmOfHex s) = some (some a.evm) := by
  unfold tronAccount at h
  split at h
  · rename_i hs
    obtain rfl := Option.some.inj h
    have hne : s ≠ [] := by
      rintro rfl
      cases hs
    rw [evmOfHex, if_neg hne]
    exact Names.lowered (.evmHex rfl)
  · cases h

theorem mapM_names {accounts : List Account} {texts : List JsString} (h : List.Forall₂ (Names codec) accounts texts) :
    texts.mapM (normalizeAddrLower codec fun _ => none) = some (accounts.map Account.evm) := by
  induction h with
  | nil => rfl
  | cons h _ ih => rw [List.mapM_cons, h.lower, ih]; rfl

/-! ## The accumulators -/

/-- A round of the matcher adds what the account gains by the transfer. -/
theorem moved_payment (src dst : Account) (amount : Int) (a : Account) (change : Int) :
    moved (some src.evm) (some dst.evm) amount a.evm change = change + gain (payment src dst amount) a := by
  rw [gain_payment]
  unfold moved
  simp only [Option.some.injEq, Account.evm_inj, eq_comm (a := a)]
  split <;> split <;> omega

theorem moved_fee (src : Account) (amount : Int) (a : Account) (change : Int) :
    moved (some src.evm) none amount a.evm change = change + gain [(src, -amount)] a := by
  rw [gain_cons, gain_nil]
  unfold moved
  simp only [Option.some.injEq, Account.evm_inj, eq_comm (a := a), reduceCtorEq, if_false]
  split <;> omega

theorem zipWith_moved (accounts : List Account) (f : JsString → Int → Int) (change : Account → Int) :
    List.zipWith f (accounts.map Account.evm) (accounts.map change) = accounts.map fun a => f a.evm (change a) := by
  rw [List.zipWith_map, List.zipWith_self]

/-- What the matcher adds up is the TRX of the entries. -/
theorem trxValue_eq (itx : InternalTransaction) :
    trxValue itx = (itx.callValueInfo.filterMap CallValueInfo.trx).sum := by
  rw [trxValue]
  induction itx.callValueInfo with
  | nil => rfl
  | cons cv cvs ih =>
    obtain ⟨callValue, tokenId⟩ := cv
    rw [List.map_cons, List.sum_cons, ih]
    by_cases h : tokenId = [] ∨ tokenId = ['_']
    · have htrx : CallValueInfo.trx ⟨callValue, tokenId⟩ = callValue := by
        rcases h with rfl | rfl <;> rfl
      rw [if_pos h]
      cases callValue with
      | none => rw [List.filterMap_cons_none htrx, Option.getD_none, zero_add]
      | some amount => rw [List.filterMap_cons_some htrx, List.sum_cons, Option.getD_some]
    · have htrx : CallValueInfo.trx ⟨callValue, tokenId⟩ = none := by
        rw [not_or] at h
        unfold CallValueInfo.trx
        split
        · exact absurd (by assumption) h.1
        · exact absurd (by assumption) h.2
        · rfl
      rw [if_neg h, List.filterMap_cons_none htrx, zero_add]

/-- One internal transaction. -/
theorem internal_step {itx : InternalTransaction} (accounts : List Account) (change : Account → Int)
    (h : itx.rejected = false →
      (tronAccount itx.caller_address).isSome = true ∧ (tronAccount itx.transferTo_address).isSome = true) :
    (if itx.rejected then some (accounts.map change)
      else do
        let itxFrom ← HardhatTron.lowered codec (fun _ => none) (evmOfHex itx.caller_address)
        let itxTo ← HardhatTron.lowered codec (fun _ => none) (evmOfHex itx.transferTo_address)
        if trxValue itx = 0 then some (accounts.map change)
        else some (List.zipWith (moved itxFrom itxTo (trxValue itx)) (accounts.map Account.evm)
          (accounts.map change))) =
      some (accounts.map fun a => change a + gain itx.entries a) := by
  unfold InternalTransaction.entries
  by_cases hr : itx.rejected = true
  · rw [if_pos hr, if_pos hr]
    simp only [gain_nil, add_zero]
  · obtain ⟨hf, ht⟩ := h (by simpa using hr)
    obtain ⟨caller, hf⟩ := Option.isSome_iff_exists.1 hf
    obtain ⟨target, ht⟩ := Option.isSome_iff_exists.1 ht
    rw [if_neg hr, if_neg hr, hf, ht, lowered_tronAccount hf, lowered_tronAccount ht]
    simp only [bind, Option.bind, gain_payments, ← trxValue_eq]
    by_cases hz : trxValue itx = 0
    · rw [if_pos hz, hz]
      simp only [gain_payment_zero, add_zero]
    · rw [if_neg hz, zipWith_moved]
      simp only [moved_payment]

/-- The loop over the internal transactions. -/
theorem internal_run (accounts : List Account) (itxs : List InternalTransaction)
    (h : ∀ itx ∈ itxs, itx.rejected = false →
      (tronAccount itx.caller_address).isSome = true ∧ (tronAccount itx.transferTo_address).isSome = true)
    (change : Account → Int) :
    itxs.foldlM (fun changes itx =>
      if itx.rejected then some changes
      else do
        let itxFrom ← HardhatTron.lowered codec (fun _ => none) (evmOfHex itx.caller_address)
        let itxTo ← HardhatTron.lowered codec (fun _ => none) (evmOfHex itx.transferTo_address)
        if trxValue itx = 0 then some changes
        else some (List.zipWith (moved itxFrom itxTo (trxValue itx)) (accounts.map Account.evm) changes))
      (accounts.map change) =
      some (accounts.map fun a => change a + gain (itxs.flatMap InternalTransaction.entries) a) := by
  induction itxs generalizing change with
  | nil => simp
  | cons itx itxs ih =>
    rw [List.foldlM_cons, internal_step accounts change (h itx List.mem_cons_self)]
    refine (ih (fun itx' hm => h itx' (List.mem_cons_of_mem itx hm)) _).trans ?_
    simp only [List.flatMap_cons, gain_append, add_assoc]

/-- What the matcher makes of an exact response. -/
theorem etherBalanceChangesSun_of_exact {tx : TxResponse} {sender recipient : Account} {value : Int} {fee : Nat}
    (h : Exact codec tx sender recipient value fee) (accounts : List Account) (includeFee : Bool) :
    etherBalanceChangesSun codec (fun _ => none) tx (accounts.map Account.evm) includeFee =
      some (accounts.map fun a => gain (tx.entries sender recipient value fee) a +
        if includeFee = false ∧ a = sender then (fee : Int) else 0) := by
  obtain ⟨s, hs, hsender⟩ := h.sender
  obtain ⟨r, hr, hrecipient⟩ := h.recipient
  unfold etherBalanceChangesSun
  rw [hs, hr, hsender.lowered, hrecipient.lowered, h.value, h.fee]
  simp only [bind, Option.bind, Option.getD_some, List.map_map, Function.comp_def, moved_payment, zero_add]
  cases includeFee with
  | true =>
    simp only [if_true, zipWith_moved, moved_fee]
    refine (internal_run accounts _ h.internal _).trans ?_
    simp only [TxResponse.entries, gain_append, reduceCtorEq, false_and, if_false, add_zero]
  | false =>
    simp only [Bool.false_eq_true, if_false]
    refine (internal_run accounts _ h.internal _).trans ?_
    congr 2
    funext a
    simp only [TxResponse.entries, gain_append, gain_cons, gain_nil, true_and]
    split <;> omega

/-- Of all participants, only the fee is lost. -/
theorem sum_entries {tx : TxResponse} {sender recipient : Account} {value : Int} {fee : Nat} :
    ((tx.entries sender recipient value fee).map Prod.snd).sum = -(fee : Int) := by
  have hinternal : (((tx.internalTransactions.getD []).flatMap InternalTransaction.entries).map Prod.snd).sum = 0 := by
    induction tx.internalTransactions.getD [] with
    | nil => rfl
    | cons itx itxs ih =>
      rw [List.flatMap_cons, List.map_append, List.sum_append, ih, add_zero]
      unfold InternalTransaction.entries
      split
      · rfl
      · split
        · exact sum_payments _ _ _
        · rfl
  rw [TxResponse.entries, List.map_append, List.sum_append, List.map_append, List.sum_append, sum_payment, hinternal]
  simp

/-- The matcher's changes are the balances after minus the balances before, in any ledger the transaction
is posted to, with the fee given back unless it is asked for. All participants listed once, they sum to
nothing, or to the fee lost. -/
theorem etherBalanceChanges_eq (codec : AddressCodec) (tx : TxResponse) (sender recipient : Account) (value : Int)
    (fee : Nat) (hexact : Exact codec tx sender recipient value fee) (accounts : List Account)
    (texts : List JsString) (hnames : List.Forall₂ (Names codec) accounts texts) (includeFee : Bool)
    (before : Account → Int) :
    ∃ changes, etherBalanceChanges codec (fun _ => none) tx texts includeFee = some changes ∧
      changes = accounts.map (fun a => post (tx.entries sender recipient value fee) before a - before a +
        if includeFee = false ∧ a = sender then (fee : Int) else 0) ∧
      (accounts.Nodup → (∀ e ∈ tx.entries sender recipient value fee, e.1 ∈ accounts) →
        changes.sum = if includeFee then -(fee : Int) else 0) := by
  refine ⟨_, ?_, rfl, ?_⟩
  · unfold etherBalanceChanges
    rw [mapM_names hnames]
    simp only [bind, Option.bind, post_apply, add_sub_cancel_left]
    exact etherBalanceChangesSun_of_exact hexact accounts includeFee
  · intro hnodup hall
    simp only [post_apply, add_sub_cancel_left, List.sum_map_add, sum_gain hnodup hall, sum_entries]
    cases includeFee with
    | true => simp
    | false =>
      have hsender : sender ∈ accounts := hall (sender, -value) (by simp [TxResponse.entries, payment])
      simp only [true_and, Bool.false_eq_true, if_false]
      rw [List.sum_map_ite_eq, List.count_eq_one_of_mem hnodup hsender]
      simp

end

/-! ## A payment that is paid back in part -/

/-- The account whose hex digits are all `c`. -/
def repeated (c : Char) (hdigit : isHexDigit c = true) (hlower : c.toLower = c) : Account where
  text := List.replicate 40 c
  length_eq := List.length_replicate
  digits := fun _ hd => List.eq_of_mem_replicate hd ▸ hdigit
  lower := by rw [List.map_replicate, hlower]

def payerAccount : Account := repeated '1' (by decide) (by decide)

def payeeAccount : Account := repeated '2' (by decide) (by decide)

/-- The payee sends 2 sun back, in two entries and beside a token; another transfer is undone. -/
def partlyReturned : TxResponse where
  hash := []
  blockNumber := none
  sender := some payer.text
  recipient := some ("0x".toList ++ payeeAccount.text)
  valueSun := some 7
  feeSun := some 3
  internalTransactions := some
    [⟨[], "41".toList ++ payeeAccount.text, "41".toList ++ payerAccount.text,
      [⟨some 1, []⟩, ⟨some 5, "1000001".toList⟩, ⟨some 1, ['_']⟩], false⟩,
     ⟨[], "41".toList ++ payeeAccount.text, "41".toList ++ payerAccount.text, [⟨some 4, []⟩], true⟩]
  logs := none
  receipt := translateReceipt [] none

theorem partlyReturned_exact : Exact twoAddresses.codec partlyReturned payerAccount payeeAccount 7 3 where
  sender := ⟨_, rfl, .base58 (by decide) rfl (by decide)⟩
  recipient := ⟨_, rfl, .evmHex payeeAccount.lower⟩
  value := rfl
  fee := rfl
  internal := by
    intro itx hm _
    simp only [partlyReturned, Option.getD_some, List.mem_cons, List.not_mem_nil, or_false] at hm
    rcases hm with rfl | rfl
    · exact ⟨by decide, by decide⟩
    · exact ⟨by decide, by decide⟩

/-- Its changes, fee included: 7 and 3 sun from the payer, 2 of the 7 back from the payee. -/
theorem partlyReturned_changes : ∃ changes,
    etherBalanceChanges twoAddresses.codec (fun _ => none) partlyReturned
      ["41".toList ++ payeeAccount.text, "0x41".toList ++ payerAccount.text] true = some changes ∧
    changes = [5, -8] ∧ changes.sum = -3 := by
  obtain ⟨changes, hchanges, hposted, hsum⟩ := etherBalanceChanges_eq twoAddresses.codec partlyReturned payerAccount
    payeeAccount 7 3 partlyReturned_exact [payeeAccount, payerAccount] _
    (.cons (.tronHex payeeAccount.lower) (.cons (.prefixedTronHex payerAccount.lower) .nil)) true (fun _ => 0)
  exact ⟨changes, hchanges, hposted.trans (by decide), hsum (by decide) (by decide)⟩

end HardhatTron

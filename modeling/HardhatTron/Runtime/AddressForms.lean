import HardhatTron.Runtime.AddressArgs
/-!
# Four readers of an address

`signers.toBase58`, the bridge's `toTronBase58`, `_normalizeAddrToEvmHex` and
the matchers' `normalizeAddrLower` each recognise the forms of an address for
themselves. `address_forms_agree_iff`: on every form of an account the last two
give its lowercase EVM spelling, and the first two its base58 address unless
`toBase58` is left with 21-byte hex, or a `tronAddress` is no base58.
-/
namespace HardhatTron

open Lib

/-! ## The matchers and the signers -/

namespace Matchers

/-- The string of an address that a matcher is given; `none` for what is none. -/
def asAddressString : JsValue → Option JsString
  | .str s => some s
  | .obj fs =>
    match stringField fs "address", stringField fs "target", stringField fs "tronAddress" with
    | some a, _, _ => some a
    | none, some a, _ => some a
    | none, none, some a => some a
    | none, none, none => none
  | _ => none

def normalizeAddrLower (codec : AddressCodec) (evmToTvm : EvmToTvm) (value : JsValue) : Option JsString :=
  (asAddressString value).bind (HardhatTron.normalizeAddrLower codec evmToTvm)

end Matchers

/-- A signer that `makeSigners` derived. -/
structure DerivedSigner where
  tronAddress : JsString
  deriving DecidableEq

inductive SignerFound where
  | derived (s : DerivedSigner)
  | impersonating (base58 : JsString)

/-- `hre.ethers.getSigner`; `none` when the address is not converted. -/
def getSigner (codec : AddressCodec) (real : List DerivedSigner) (address : JsValue) : Option SignerFound :=
  (signersToBase58 codec address).map fun base58 =>
    match real.find? fun s => s.tronAddress = base58 with
    | some s => .derived s
    | none => .impersonating base58

/-! ## Forms of an address -/

/-- Base58check: every account has a spelling, which is read as the account and written from its hex. -/
structure Base58Laws (codec : AddressCodec) (base58 : Account → JsString) : Prop where
  reads : ∀ a, Base58 codec a (base58 a)
  fromHex : ∀ (a : Account) (ds : JsString), ds.map Char.toLower = a.text →
    codec.fromHex ("41".toList ++ ds) = some (base58 a)
  ofEvm : ∀ (a : Account) (ds : JsString), ds.map Char.toLower = a.text →
    codec.toBase58Address ("0x".toList ++ ds) = some (base58 a)
  ofTron : ∀ (a : Account) (ds : JsString), ds.map Char.toLower = a.text →
    codec.toBase58Address ("41".toList ++ ds) = some (base58 a)

section

variable (base58 : Account → JsString)

/-- A text that names the account. -/
inductive AccountText (a : Account) : JsString → Prop
  | evmHex {ds : JsString} (h : ds.map Char.toLower = a.text) : AccountText a ("0x".toList ++ ds)
  | tronHex {ds : JsString} (h : ds.map Char.toLower = a.text) : AccountText a ("41".toList ++ ds)
  | base58 : AccountText a (base58 a)

/-- Such a text, or an object that carries one. -/
inductive AccountForm (a : Account) : JsValue → Prop
  | text {s : JsString} (h : AccountText base58 a s) : AccountForm a (.str s)
  | object {fs : Fields} (htron : ∀ s, stringField fs "tronAddress" = some s → AccountText base58 a s)
      (htarget : ∀ s, stringField fs "target" = some s → AccountText base58 a s)
      (haddress : ∀ s, stringField fs "address" = some s → AccountText base58 a s)
      (hone : ∃ s, stringField fs "tronAddress" = some s ∨ stringField fs "target" = some s ∨
        stringField fs "address" = some s) : AccountForm a (.obj fs)

end

/-- `toBase58` is left with no 21-byte hex, and what is carried as `tronAddress` is base58. -/
def Converts : JsValue → Prop
  | .str s => isTronHex s = false
  | .obj fs =>
    match stringField fs "tronAddress", stringField fs "target", stringField fs "address" with
    | some s, _, _ => isTronAddress s = true
    | none, some s, _ => isTronHex s = false
    | none, none, some s => isTronHex s = false
    | none, none, none => True
  | _ => True

variable {codec : AddressCodec} {base58 : Account → JsString} {a : Account} {s : JsString}

theorem AccountText.names (hlaws : Base58Laws codec base58) (h : AccountText base58 a s) : Names codec a s := by
  cases h with
  | evmHex h => exact .evmHex h
  | tronHex h => exact .tronHex h
  | base58 =>
    obtain ⟨htron, hex, hhex, hlower⟩ := hlaws.reads a
    exact .base58 htron hhex hlower

/-- Base58, and no hex. -/
theorem base58_not_hex (hlaws : Base58Laws codec base58) (a : Account) : ∃ rest, base58 a = 'T' :: rest := by
  have htron := (hlaws.reads a).1
  rw [isTronAddress, Bool.and_eq_true] at htron
  cases hs : base58 a with
  | nil =>
    rw [hs] at htron
    cases htron.1
  | cons c rest =>
    rw [hs] at htron
    have hc := of_decide_eq_true htron.1
    exact ⟨rest, by rw [Option.some.inj hc]⟩

theorem isTronHex_of_lower {ds : JsString} (h : ds.map Char.toLower = a.text) : isTronHex ("41".toList ++ ds) = true := by
  have hall : ds.all isHexDigit = true := (Bool.and_eq_true_iff.1 (isEvmHex_of_lower h)).2
  change (decide (ds.length = 40) && ds.all isHexDigit) = true
  rw [hall, length_of_lower h]
  rfl

/-- The bridge converts every text. -/
theorem AccountText.toTronBase58Text (hlaws : Base58Laws codec base58) (h : AccountText base58 a s) :
    toTronBase58Text codec s = some (base58 a) := by
  unfold HardhatTron.toTronBase58Text
  cases h with
  | evmHex h =>
    have hlen := length_of_lower h
    rw [if_neg (by simp [isTronAddress]), if_pos (.inl (by simp [hlen])), hlaws.ofEvm a _ h]
  | tronHex h =>
    rw [if_neg (by simp [isTronAddress]), if_pos (.inr (isTronHex_of_lower h)), hlaws.ofTron a _ h]
  | base58 => rw [if_pos (hlaws.reads a).1]

/-- `toBase58` leaves 21-byte hex as it is. -/
theorem AccountText.signersToBase58Text_iff (hlaws : Base58Laws codec base58) (h : AccountText base58 a s) :
    signersToBase58Text codec s = some (base58 a) ↔ isTronHex s = false := by
  obtain ⟨rest, hrest⟩ := base58_not_hex hlaws a
  unfold signersToBase58Text
  cases h with
  | evmHex h =>
    rw [if_neg (by simp [isTronAddress]), if_pos (by simp [length_of_lower h])]
    exact iff_of_true (hlaws.fromHex a _ h) (by simp [isTronHex])
  | tronHex h =>
    rw [if_neg (by simp [isTronAddress]), if_neg (by simp), isTronHex_of_lower h, hrest]
    simp
  | base58 =>
    rw [if_pos (hlaws.reads a).1]
    exact iff_of_true rfl (by rw [hrest]; rfl)

theorem AccountText.isTronAddress_iff (hlaws : Base58Laws codec base58) (h : AccountText base58 a s) :
    s = base58 a ↔ isTronAddress s = true := by
  obtain ⟨rest, hrest⟩ := base58_not_hex hlaws a
  cases h with
  | evmHex h =>
    rw [hrest]
    simp [isTronAddress]
  | tronHex h =>
    rw [hrest]
    simp [isTronAddress]
  | base58 => exact iff_of_true rfl (hlaws.reads a).1

/-- The two hexadecimal readers read every text. -/
theorem AccountText.normalizeAddrText (hlaws : Base58Laws codec base58) (h : AccountText base58 a s) :
    normalizeAddrText codec s = a.evm := by
  have hlower := (h.names hlaws).lower
  cases h with
  | evmHex h =>
    rw [normalizeAddrText_of_isEvmHex codec (isEvmHex_of_lower h), Account.evm, ← h]
    rfl
  | tronHex h =>
    rw [HardhatTron.normalizeAddrText, if_pos (isTronHex_of_lower h), Account.evm, ← h]
    rfl
  | base58 =>
    obtain ⟨rest, hrest⟩ := base58_not_hex hlaws a
    obtain ⟨htron, hex, hhex, hlower⟩ := hlaws.reads a
    rw [HardhatTron.normalizeAddrText, if_neg (by simp [hrest, isTronHex]), if_neg (by simp [hrest, isPrefixedTronHex]),
      if_neg (by simp [hrest, isEvmHex]), if_pos htron, hhex, Account.evm, ← hlower]

/-! ## Every form -/

/-- What the readers are to give for a form of the account. -/
structure Agrees (codec : AddressCodec) (base58 : Account → JsString) (a : Account) (v : JsValue) : Prop where
  toBase58 : signersToBase58 codec v = some (base58 a)
  toTronBase58 : toTronBase58 codec v = some (.str (base58 a))
  normalizeAddrToEvmHex : normalizeAddrToEvmHex codec v = a.evm
  normalizeAddrLower : Matchers.normalizeAddrLower codec (fun _ => none) v = some a.evm
  getSigner : ∀ (real : List DerivedSigner) s, (real.map DerivedSigner.tronAddress).Nodup → s ∈ real →
    s.tronAddress = base58 a → getSigner codec real v = some (.derived s)

theorem AccountForm.normalizeAddrToEvmHex (hlaws : Base58Laws codec base58) {v : JsValue} (h : AccountForm base58 a v) :
    normalizeAddrToEvmHex codec v = a.evm := by
  cases h with
  | text h => exact h.normalizeAddrText hlaws
  | @object fs htron htarget haddress hone =>
    simp only [HardhatTron.normalizeAddrToEvmHex]
    cases ht : stringField fs "target" with
    | some s => exact (htarget s ht).normalizeAddrText hlaws
    | none =>
      cases hr : stringField fs "tronAddress" with
      | some s => exact (htron s hr).normalizeAddrText hlaws
      | none =>
        cases ha : stringField fs "address" with
        | some s => exact (haddress s ha).normalizeAddrText hlaws
        | none => simp [hr, ht, ha] at hone

theorem AccountForm.normalizeAddrLower (hlaws : Base58Laws codec base58) {v : JsValue} (h : AccountForm base58 a v) :
    Matchers.normalizeAddrLower codec (fun _ => none) v = some a.evm := by
  cases h with
  | text h => exact (h.names hlaws).lower
  | @object fs htron htarget haddress hone =>
    simp only [Matchers.normalizeAddrLower, Matchers.asAddressString]
    cases ha : stringField fs "address" with
    | some s => exact ((haddress s ha).names hlaws).lower
    | none =>
      cases ht : stringField fs "target" with
      | some s => exact ((htarget s ht).names hlaws).lower
      | none =>
        cases hr : stringField fs "tronAddress" with
        | some s => exact ((htron s hr).names hlaws).lower
        | none => simp [hr, ht, ha] at hone

theorem AccountForm.toBase58_iff (hlaws : Base58Laws codec base58) {v : JsValue} (h : AccountForm base58 a v) :
    signersToBase58 codec v = some (base58 a) ↔ Converts v := by
  cases h with
  | text h => exact h.signersToBase58Text_iff hlaws
  | @object fs htron htarget haddress hone =>
    simp only [signersToBase58, Converts]
    cases hr : stringField fs "tronAddress" with
    | some s =>
      simp only [Option.some.injEq]
      exact (htron s hr).isTronAddress_iff hlaws
    | none =>
      cases ht : stringField fs "target" with
      | some s => exact (htarget s ht).signersToBase58Text_iff hlaws
      | none =>
        cases ha : stringField fs "address" with
        | some s => exact (haddress s ha).signersToBase58Text_iff hlaws
        | none => simp [hr, ht, ha] at hone

/-- The bridge gives a `tronAddress` back as well, and converts everything else. -/
theorem AccountForm.toTronBase58 (hlaws : Base58Laws codec base58) {v : JsValue} (h : AccountForm base58 a v)
    (hv : Converts v) : toTronBase58 codec v = some (.str (base58 a)) := by
  cases h with
  | text h => exact congrArg (Option.map JsValue.str) (h.toTronBase58Text hlaws)
  | @object fs htron htarget haddress hone =>
    simp only [Converts] at hv
    simp only [HardhatTron.toTronBase58]
    cases hr : stringField fs "tronAddress" with
    | some s =>
      rw [hr] at hv
      have hs := ((htron s hr).isTronAddress_iff hlaws).2 hv
      exact congrArg (fun s => some (JsValue.str s)) hs
    | none =>
      cases ht : stringField fs "target" with
      | some s => exact congrArg (Option.map JsValue.str) ((htarget s ht).toTronBase58Text hlaws)
      | none =>
        cases ha : stringField fs "address" with
        | some s => exact congrArg (Option.map JsValue.str) ((haddress s ha).toTronBase58Text hlaws)
        | none => simp [hr, ht, ha] at hone

/-- Of signers with different addresses, the one of the account is found. -/
theorem getSigner_derived {v : JsValue} (hv : signersToBase58 codec v = some (base58 a)) {real : List DerivedSigner}
    {s : DerivedSigner} (hreal : (real.map DerivedSigner.tronAddress).Nodup) (hs : s ∈ real)
    (haddress : s.tronAddress = base58 a) : getSigner codec real v = some (.derived s) := by
  have hfind : real.find? (fun s => decide (s.tronAddress = base58 a)) = some s := by
    obtain ⟨before, after, rfl⟩ := List.append_of_mem hs
    rw [List.map_append, List.map_cons, List.nodup_append] at hreal
    have hbefore : before.find? (fun s => decide (s.tronAddress = base58 a)) = none := by
      rw [List.find?_eq_none]
      intro s' hs' h
      have heq := (of_decide_eq_true h).trans haddress.symm
      exact hreal.2.2 _ (List.mem_map_of_mem hs') _ List.mem_cons_self heq
    rw [List.find?_append, hbefore, Option.none_or, List.find?_cons_of_pos (by simpa using haddress)]
  rw [getSigner, hv, Option.map_some, hfind]

/-- For every form of an account, with no remapping recorded, the readers agree and `getSigner` finds the derived
signer exactly when the form converts; and no two accounts share a result. -/
theorem address_forms_agree_iff (hlaws : Base58Laws codec base58) :
    (∀ a v, AccountForm base58 a v → (Agrees codec base58 a v ↔ Converts v)) ∧
    Function.Injective base58 ∧ Function.Injective Account.evm := by
  refine ⟨?_, ?_, fun _ _ h => Account.evm_inj.1 h⟩
  · intro a v h
    constructor
    · intro hagrees
      exact (h.toBase58_iff hlaws).1 hagrees.toBase58
    · intro hv
      have hbase58 := (h.toBase58_iff hlaws).2 hv
      exact ⟨hbase58, h.toTronBase58 hlaws hv, h.normalizeAddrToEvmHex hlaws, h.normalizeAddrLower hlaws,
        fun _ _ => getSigner_derived hbase58⟩
  · intro a b hab
    obtain ⟨-, hex, hhex, ha⟩ := hlaws.reads a
    obtain ⟨-, hex', hhex', hb⟩ := hlaws.reads b
    rw [hab, hhex'] at hhex
    cases hhex
    exact HexText.ext_text (ha.symm.trans hb)

/-! ## 21 bytes of hex -/

theorem spelling_base58Laws : Base58Laws spellingCodec spelled where
  reads := base58_spelled
  fromHex a ds h := by
    change (tronAccount ("41".toList ++ ds)).map spelled = some (spelled a)
    rw [tronAccount_of_lower h, Option.map_some]
  ofEvm a ds h := by
    change (readAccount ("0x".toList ++ ds)).map spelled = some (spelled a)
    rw [readAccount_of_lower h, Option.map_some]
  ofTron a ds h := by
    change (readAccount ("41".toList ++ ds)).map spelled = some (spelled a)
    rw [readAccount, if_pos (isTronHex_of_lower h), tronAccount_of_lower h, Option.map_some]

/-- The readers agree on a contract of the pair's address. -/
theorem contract_form_agrees :
    Agrees spellingCodec spelled testAccount (.obj [("target".toList, .str ("0x".toList ++ testAccount.text))]) := by
  have hform : AccountForm spelled testAccount (.obj [("target".toList, .str ("0x".toList ++ testAccount.text))]) := by
    apply AccountForm.object
    · intro s h
      cases h
    · intro s h
      cases h
      exact .evmHex testAccount.lower
    · intro s h
      cases h
    · exact ⟨_, .inr (.inl rfl)⟩
  exact ((address_forms_agree_iff spelling_base58Laws).1 testAccount _ hform).2 rfl

/-- 21 bytes of hex are left as they are, and no derived signer is found. -/
theorem tronHex_not_converted : ¬ ∀ (codec : AddressCodec) (base58 : Account → JsString), Base58Laws codec base58 →
    ∀ a v, AccountForm base58 a v → Agrees codec base58 a v := by
  intro h
  have hform : AccountForm spelled testAccount (.str ("41".toList ++ testAccount.text)) :=
    .text (.tronHex testAccount.lower)
  have hagrees := h spellingCodec spelled spelling_base58Laws testAccount _ hform
  have hconverts : isTronHex ("41".toList ++ testAccount.text) = false :=
    (hform.toBase58_iff spelling_base58Laws).1 hagrees.toBase58
  rw [isTronHex_of_lower testAccount.lower] at hconverts
  cases hconverts

end HardhatTron

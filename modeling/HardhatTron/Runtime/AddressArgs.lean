import HardhatTron.Lib.Traversal
import HardhatTron.Runtime.AbiValues
import HardhatTron.Runtime.BalanceChanges
/-!
# Addresses as arguments

An argument is normalised for TronWeb and then coerced for ethers.
`AddressForm.encoded` follows an address through both, in every form a caller
may give it.
-/
namespace HardhatTron

open Lib

/-! ## The second walk -/

/-- An argument already met by `coerceForEthers`, awaiting its input. -/
abbrev Coercer := Option AbiInput → Option JsValue

mutual
def coerceForEthers (codec : AddressCodec) : JsValue → Coercer
  | .obj fs => fun input =>
    let inner := coerceFields codec fs
    match input with
    | none => some (.obj fs)
    | some input =>
      if input.type = "address".toList then some (.obj fs)
      else if input.type = "tuple".toList then
        match input.components with
        | some components => normalizeStruct (inner.map fun f => (f.1, fun comp _ => f.2 comp)) components
        | none => some (.obj fs)
      else some (.obj fs)
  | .arr vs => fun input =>
    let inner := coerceAll codec vs
    match input with
    | none => some (.arr vs)
    | some input =>
      if input.type = "address".toList then some (.arr vs)
      else if input.type = "address[]".toList then
        let address : AbiInput := ⟨"address".toList, [], none⟩
        (inner.mapM fun (coerce : Coercer) => coerce (some address)).map .arr
      else
        match input.components with
        | none => some (.arr vs)
        | some components =>
          if input.type = "tuple".toList then
            (inner.zipIdx.mapM fun (e : Coercer × Nat) => e.1 components[e.2]?).map .arr
          else if "tuple[".toList <+: input.type then
            let tuple : AbiInput := ⟨"tuple".toList, [], some components⟩
            (inner.mapM fun (coerce : Coercer) => coerce (some tuple)).map .arr
          else some (.arr vs)
  | .str s => fun input =>
    match input with
    | none => some (.str s)
    | some input =>
      if input.type = "address".toList ∧ isTronAddress s = true then
        (codec.toHex s).map fun hex => .str ("0x".toList ++ hex.drop 2)
      else some (.str s)
  | v => fun _ => some v

def coerceAll (codec : AddressCodec) : List JsValue → List Coercer
  | [] => []
  | v :: vs => coerceForEthers codec v :: coerceAll codec vs

def coerceFields (codec : AddressCodec) : List (JsString × JsValue) → List (JsString × Coercer)
  | [] => []
  | (k, v) :: fs => (k, coerceForEthers codec v) :: coerceFields codec fs
end

/-! ## Addresses as callers write them -/

section

variable (codec : AddressCodec)

/-- `s` is a base58 address, of the account. -/
def Base58 (a : Account) (s : JsString) : Prop :=
  isTronAddress s = true ∧ ∃ hex, codec.toHex s = some hex ∧ (hex.drop 2).map Char.toLower = a.text

/-- What is known of the codecs: they spell every account, and read what they spelled. -/
structure ArgLaws : Prop where
  toBase58Address : ∀ (a : Account) (ds : JsString), ds.map Char.toLower = a.text →
    ∃ b, codec.toBase58Address ("0x".toList ++ ds) = some b ∧ Base58 codec a b
  fromHex : ∀ a : Account, ∃ b, codec.fromHex ("41".toList ++ a.text) = some b ∧ Base58 codec a b

inductive TextForm (a : Account) : JsString → Prop
  | hex {ds} (h : ds.map Char.toLower = a.text) : TextForm a ("0x".toList ++ ds)
  | base58 {s} (h : Base58 codec a s) : TextForm a s

/-- A signer or a contract: the addresses it has are of the account, and it has one. -/
structure ObjectForm (a : Account) (fs : Fields) : Prop where
  plain : stringField fs "type" = none
  named : ∃ name ∈ ["address", "target", "tronAddress"], (stringField fs name).isSome = true
  address : ∀ s, stringField fs "address" = some s → TextForm codec a s
  target : ∀ s, stringField fs "target" = some s → TextForm codec a s
  tronAddress : ∀ s, stringField fs "tronAddress" = some s → Base58 codec a s

/-- An `ethers.Typed` wrapper. -/
def isTyped (fs : Fields) : Bool := (stringField fs "type").isSome && hasField fs "_typedSymbol"

inductive AddressForm (a : Account) : JsValue → Prop
  | text {s} (h : TextForm codec a s) : AddressForm a (.str s)
  | object {fs} (h : ObjectForm codec a fs) : AddressForm a (.obj fs)
  | typed {fs v} (htyped : isTyped fs = true) (hvalue : fs.lookup "value".toList = some v) (h : AddressForm a v) :
      AddressForm a (.obj fs)

/-! ## Where they lead -/

variable (actual : Account → Option Account)

/-- The address map sends every predicted account to the actual one. -/
def MapsTo (evmToTvm : EvmToTvm) : Prop := ∀ a : Account, evmToTvm a.evm = (actual a).map Account.evm

/-- Where the contract really is. -/
def landing (a : Account) : Account := (actual a).getD a

def IsHexOf (a : Account) (v : JsValue) : Prop :=
  ∃ ds : JsString, v = .str ("0x".toList ++ ds) ∧ ds.map Char.toLower = a.text

variable {codec} {actual} {evmToTvm : EvmToTvm}

/-! ## Addresses through the walks -/

theorem addressStrings_eq (fs : Fields) : addressStrings fs = fs.map fun f => (f.1, asAddressString f.2) := by
  induction fs with
  | nil => rfl
  | cons f fs ih => rw [addressStrings, ih, List.map_cons]

theorem normalizeAll_eq (vs : List JsValue) :
    normalizeAll codec evmToTvm vs = vs.map (normalizeArg codec evmToTvm) := by
  induction vs with
  | nil => rfl
  | cons v vs ih => rw [normalizeAll, ih, List.map_cons]

theorem normalizeFields_eq (fs : Fields) :
    normalizeFields codec evmToTvm fs = fs.map fun f => (f.1, normalizeArg codec evmToTvm f.2) := by
  induction fs with
  | nil => rfl
  | cons f fs ih => rw [normalizeFields, ih, List.map_cons]

theorem coerceAll_eq (vs : List JsValue) : coerceAll codec vs = vs.map (coerceForEthers codec) := by
  induction vs with
  | nil => rfl
  | cons v vs ih => rw [coerceAll, ih, List.map_cons]

theorem coerceFields_eq (fs : Fields) : coerceFields codec fs = fs.map fun f => (f.1, coerceForEthers codec f.2) := by
  induction fs with
  | nil => rfl
  | cons f fs ih => rw [coerceFields, ih, List.map_cons]

/-- A wrapper is read as what it wraps. -/
theorem asAddressString_typed {fs : Fields} {v : JsValue} (htyped : isTyped fs = true)
    (hvalue : fs.lookup "value".toList = some v) : asAddressString (.obj fs) = asAddressString v := by
  rw [isTyped, Bool.and_eq_true] at htyped
  obtain ⟨type, htype⟩ := Option.isSome_iff_exists.1 htyped.1
  rw [asAddressString, htype, addressStrings_eq, lookup_map_snd, hvalue]
  rfl

theorem normalizeArg_typed {fs : Fields} {v : JsValue} (htyped : isTyped fs = true)
    (hvalue : fs.lookup "value".toList = some v) (input : AbiInput) (nested : Bool) :
    normalizeArg codec evmToTvm (.obj fs) (some input) nested =
      normalizeArg codec evmToTvm v (some input) nested := by
  rw [isTyped] at htyped
  rw [normalizeArg]
  simp only [htyped, if_true, normalizeFields_eq, lookup_map_snd, hvalue, Option.map_some]

/-- What is left of an address: a text, or an object without an `address`. -/
theorem AddressForm.asAddressString_eq {a : Account} {v : JsValue} (h : AddressForm codec a v) :
    (∃ s, asAddressString v = .str s ∧ TextForm codec a s) ∨
      ∃ fs, asAddressString v = .obj fs ∧ ObjectForm codec a fs ∧ stringField fs "address" = none := by
  induction h with
  | text h => exact .inl ⟨_, rfl, h⟩
  | @object fs h =>
    rw [asAddressString, h.plain]
    cases haddress : stringField fs "address" with
    | none => exact .inr ⟨fs, rfl, h, haddress⟩
    | some s => exact .inl ⟨s, rfl, h.address s haddress⟩
  | typed htyped hvalue _ ih =>
    rw [asAddressString_typed htyped hvalue]
    exact ih

theorem normalizeAddress_congr {v w : JsValue} (h : asAddressString v = asAddressString w) (nested : Bool) :
    normalizeAddress codec evmToTvm nested v = normalizeAddress codec evmToTvm nested w := by
  unfold normalizeAddress
  rw [h]

/-- Every form of an address comes to the branch for addresses. -/
theorem AddressForm.normalizeArg_eq {a : Account} {v : JsValue} (h : AddressForm codec a v) {input : AbiInput}
    (htype : input.type = "address".toList) (nested : Bool) :
    normalizeArg codec evmToTvm v (some input) nested = normalizeAddress codec evmToTvm nested v := by
  induction h with
  | text h => exact if_pos htype
  | @object fs h =>
    have hnot : ((stringField fs "type").isSome && hasField fs "_typedSymbol") = false := by
      rw [h.plain]
      rfl
    rw [normalizeArg]
    simp only [hnot, Bool.false_eq_true, if_false, htype, if_true]
  | typed htyped hvalue _ ih =>
    rw [normalizeArg_typed htyped hvalue, ih, normalizeAddress_congr (asAddressString_typed htyped hvalue)]

theorem isHexDigit_of_toLower {c : Char} (h : isHexDigit c.toLower = true) : isHexDigit c = true := by
  simp only [isHexDigit, decide_eq_true_eq, Char.le_def] at *
  unfold Char.toLower at h
  split at h <;> grind [UInt32.toNat_add, Char.toNat_val]

theorem length_of_lower {a : Account} {ds : JsString} (h : ds.map Char.toLower = a.text) : ds.length = 40 := by
  rw [← a.length_eq, ← h, List.length_map]

theorem isEvmHex_of_lower {a : Account} {ds : JsString} (h : ds.map Char.toLower = a.text) :
    isEvmHex ("0x".toList ++ ds) = true := by
  have hall : ds.all isHexDigit = true := by
    rw [List.all_eq_true]
    intro c hc
    apply isHexDigit_of_toLower
    apply a.digits
    rw [← h]
    exact List.mem_map_of_mem hc
  change ((true || false) && decide (ds.length = 40) && ds.all isHexDigit) = true
  rw [hall, length_of_lower h]
  rfl

theorem Base58.normalizeAddrText_eq {a : Account} {s : JsString} (h : Base58 codec a s) :
    normalizeAddrText codec s = a.evm := by
  obtain ⟨hs, hex, hhex, hlower⟩ := h
  have hT : s.head? = some 'T' := by
    rw [isTronAddress, Bool.and_eq_true, decide_eq_true_eq] at hs
    exact hs.1
  obtain ⟨rest, rfl⟩ : ∃ rest, s = 'T' :: rest := by
    cases s with
    | nil => cases hT
    | cons c rest =>
      obtain rfl := Option.some.inj hT
      exact ⟨rest, rfl⟩
  rw [normalizeAddrText, if_neg (by simp [isTronHex]), if_neg (by simp [isPrefixedTronHex]),
    if_neg (by simp [isEvmHex]), if_pos hs, hhex, Account.evm, ← hlower]

theorem TextForm.normalizeAddrText_eq {a : Account} {s : JsString} (h : TextForm codec a s) :
    normalizeAddrText codec s = a.evm := by
  cases h with
  | hex h =>
    rw [normalizeAddrText_of_isEvmHex codec (isEvmHex_of_lower h), Account.evm, List.map_append, h]
    rfl
  | base58 h => exact h.normalizeAddrText_eq

/-- The address map is asked for the account. -/
theorem AddressForm.normalizeAddrToEvmHex_eq {a : Account} {v : JsValue} (h : AddressForm codec a v) :
    normalizeAddrToEvmHex codec (asAddressString v) = a.evm := by
  obtain ⟨s, hs, htext⟩ | ⟨fs, hfs, hobject, haddress⟩ := h.asAddressString_eq
  · rw [hs]
    exact htext.normalizeAddrText_eq
  · rw [hfs, normalizeAddrToEvmHex, haddress]
    cases htarget : stringField fs "target" with
    | some s => exact (hobject.target s htarget).normalizeAddrText_eq
    | none =>
      cases htron : stringField fs "tronAddress" with
      | some s => exact (hobject.tronAddress s htron).normalizeAddrText_eq
      | none =>
        obtain ⟨name, hname, hsome⟩ := hobject.named
        simp only [List.mem_cons, List.not_mem_nil, or_false] at hname
        rcases hname with rfl | rfl | rfl <;> simp_all

theorem lookup_unmapped (hmap : MapsTo actual evmToTvm) {a : Account} (ha : actual a = none) {any : JsValue}
    (h : normalizeAddrToEvmHex codec any = a.evm) : lookupTvmActualBase58 codec evmToTvm any = none := by
  have hnone : evmToTvm ('0' :: 'x' :: a.text) = none := by
    change evmToTvm a.evm = none
    rw [hmap, ha, Option.map_none]
  have hkey : normalizeAddrToEvmHex codec any = '0' :: 'x' :: a.text := h
  rw [lookupTvmActualBase58, hkey]
  simp only [hnone]

theorem lookup_mapped (hlaws : ArgLaws codec) (hmap : MapsTo actual evmToTvm) {a b : Account}
    (ha : actual a = some b) {any : JsValue} (h : normalizeAddrToEvmHex codec any = a.evm) :
    ∃ s, lookupTvmActualBase58 codec evmToTvm any = some s ∧ Base58 codec b s := by
  have hsome : evmToTvm ('0' :: 'x' :: a.text) = some ('0' :: 'x' :: b.text) := by
    change evmToTvm a.evm = some b.evm
    rw [hmap, ha, Option.map_some]
  have hkey : normalizeAddrToEvmHex codec any = '0' :: 'x' :: a.text := h
  obtain ⟨s, hs, hbase⟩ := hlaws.fromHex b
  refine ⟨s, ?_, hbase⟩
  rw [lookupTvmActualBase58, hkey]
  simp only [hsome]
  exact hs

/-- The second walk writes a base58 address in hex. -/
theorem Base58.coerceForEthers_eq {a : Account} {s : JsString} (h : Base58 codec a s) {input : AbiInput}
    (htype : input.type = "address".toList) :
    ∃ v, coerceForEthers codec (.str s) (some input) = some v ∧ IsHexOf a v := by
  obtain ⟨hs, hex, hhex, hlower⟩ := h
  refine ⟨.str ("0x".toList ++ hex.drop 2), ?_, hex.drop 2, rfl, hlower⟩
  have hbranch : coerceForEthers codec (.str s) (some input) =
      (codec.toHex s).map fun hex => .str ("0x".toList ++ hex.drop 2) := if_pos ⟨htype, hs⟩
  rw [hbranch, hhex]
  rfl

theorem IsHexOf.coerceForEthers_eq {a : Account} {v : JsValue} (h : IsHexOf a v) (input : AbiInput) :
    coerceForEthers codec v (some input) = some v := by
  obtain ⟨ds, rfl, -⟩ := h
  exact if_neg fun h => absurd h.2 (by simp [isTronAddress])

theorem TextForm.toTronBase58Text_eq (hlaws : ArgLaws codec) {a : Account} {s : JsString} (h : TextForm codec a s) :
    ∃ t, toTronBase58Text codec s = some t ∧ Base58 codec a t := by
  cases h with
  | @hex ds h =>
    obtain ⟨t, ht, hbase⟩ := hlaws.toBase58Address a ds h
    refine ⟨t, ?_, hbase⟩
    have hlength : ("0x".toList ++ ds).length = 42 := by
      rw [List.length_append, length_of_lower h]
      rfl
    rw [toTronBase58Text, if_neg (by simp [isTronAddress]), if_pos (.inl ⟨List.prefix_append _ _, hlength⟩), ht]
  | base58 h => exact ⟨s, if_pos h.1, h⟩

/-- The first walk writes an object in base58 outside structs, whatever names its address has. -/
theorem ObjectForm.toTronBase58_eq (hlaws : ArgLaws codec) {a : Account} {fs : Fields} (h : ObjectForm codec a fs) :
    ∃ t, toTronBase58 codec (.obj fs) = some (.str t) ∧ Base58 codec a t := by
  rw [toTronBase58]
  cases htron : stringField fs "tronAddress" with
  | some s => exact ⟨s, rfl, h.tronAddress s htron⟩
  | none =>
    cases htarget : stringField fs "target" with
    | some s =>
      obtain ⟨t, ht, hbase⟩ := (h.target s htarget).toTronBase58Text_eq hlaws
      exact ⟨t, by simp only [ht, Option.map_some], hbase⟩
    | none =>
      cases haddress : stringField fs "address" with
      | some s =>
        obtain ⟨t, ht, hbase⟩ := (h.address s haddress).toTronBase58Text_eq hlaws
        exact ⟨t, by simp only [ht, Option.map_some], hbase⟩
      | none =>
        obtain ⟨name, hname, hsome⟩ := h.named
        simp only [List.mem_cons, List.not_mem_nil, or_false] at hname
        rcases hname with rfl | rfl | rfl <;> simp_all

/-- A text comes out of both walks in hex. -/
theorem TextForm.encoded (hlaws : ArgLaws codec) {a : Account} {s : JsString} (h : TextForm codec a s)
    {input : AbiInput} (htype : input.type = "address".toList) (nested : Bool) {v : JsValue}
    (hv : normalizeAddress codec evmToTvm nested v =
      if nested = true then
        if isTronAddress s = true then (codec.toHex s).map fun hex => .str ("0x".toList ++ hex.drop 2)
        else some (.str s)
      else (toTronBase58Text codec s).map .str) :
    ∃ v', ((normalizeAddress codec evmToTvm nested v).bind fun w => coerceForEthers codec w (some input)) = some v' ∧
      IsHexOf a v' := by
  rw [hv]
  cases nested with
  | false =>
    obtain ⟨t, ht, hbase⟩ := h.toTronBase58Text_eq hlaws
    rw [if_neg Bool.false_ne_true, ht]
    exact hbase.coerceForEthers_eq htype
  | true =>
    rw [if_pos rfl]
    cases h with
    | @hex ds h =>
      have hhex : IsHexOf a (.str ("0x".toList ++ ds)) := ⟨ds, rfl, h⟩
      rw [if_neg (by simp [isTronAddress])]
      exact ⟨_, hhex.coerceForEthers_eq input, hhex⟩
    | base58 h =>
      obtain ⟨hs, hex, hhex, hlower⟩ := h
      have hdone : IsHexOf a (.str ("0x".toList ++ hex.drop 2)) := ⟨hex.drop 2, rfl, hlower⟩
      rw [if_pos hs, hhex]
      exact ⟨_, hdone.coerceForEthers_eq input, hdone⟩

theorem normalizeAddress_text {v : JsValue} {s : JsString} (nested : Bool)
    (h : (∃ t, lookupTvmActualBase58 codec evmToTvm (asAddressString v) = some t ∧ t ≠ [] ∧ t = s) ∨
      lookupTvmActualBase58 codec evmToTvm (asAddressString v) = none ∧ asAddressString v = .str s) :
    normalizeAddress codec evmToTvm nested v =
      if nested = true then
        if isTronAddress s = true then (codec.toHex s).map fun hex => .str ("0x".toList ++ hex.drop 2)
        else some (.str s)
      else (toTronBase58Text codec s).map .str := by
  unfold normalizeAddress
  dsimp only
  rcases h with ⟨t, ht, hne, rfl⟩ | ⟨hnone, hs⟩
  · obtain ⟨c, cs, rfl⟩ := List.exists_cons_of_ne_nil hne
    rw [ht]
    rfl
  · rw [hnone, hs]
    rfl

theorem Base58.ne_nil {a : Account} {s : JsString} (h : Base58 codec a s) : s ≠ [] := by
  rintro rfl
  exact absurd h.1 (by decide)

theorem not_isHexOf_obj (a : Account) (fs : Fields) : ¬ IsHexOf a (.obj fs) := by
  rintro ⟨ds, h, -⟩
  cases h

/-- The address of a leaf comes out, unless the leaf is inside a struct an object that names it otherwise than by
`address`, and the map does not have it. -/
theorem AddressForm.encoded (hlaws : ArgLaws codec) (hmap : MapsTo actual evmToTvm) {a : Account} {v : JsValue}
    (h : AddressForm codec a v) {input : AbiInput} (htype : input.type = "address".toList) (nested : Bool) :
    ∃ v', ((normalizeAddress codec evmToTvm nested v).bind fun w => coerceForEthers codec w (some input)) = some v' ∧
      (IsHexOf (landing actual a) v' ↔
        (nested = true → ∀ fs, asAddressString v = .obj fs → (actual a).isSome = true)) := by
  have hevm := h.normalizeAddrToEvmHex_eq
  cases ha : actual a with
  | some b =>
    obtain ⟨s, hs, hbase⟩ := lookup_mapped hlaws hmap ha hevm
    have hfirst := normalizeAddress_text nested (.inl ⟨s, hs, hbase.ne_nil, rfl⟩)
    obtain ⟨v', hv', hhex⟩ := (TextForm.base58 hbase).encoded hlaws htype nested hfirst
    have hland : landing actual a = b := by rw [landing, ha, Option.getD_some]
    refine ⟨v', hv', ?_⟩
    rw [hland]
    exact ⟨fun _ _ _ _ => rfl, fun _ => hhex⟩
  | none =>
    have hnone := lookup_unmapped hmap ha hevm
    have hland : landing actual a = a := by rw [landing, ha, Option.getD_none]
    rw [hland]
    obtain ⟨s, hs, htext⟩ | ⟨fs, hfs, hobject, -⟩ := h.asAddressString_eq
    · have hfirst := normalizeAddress_text nested (.inr ⟨hnone, hs⟩)
      obtain ⟨v', hv', hhex⟩ := htext.encoded hlaws htype nested hfirst
      refine ⟨v', hv', fun _ _ fs hfs => ?_, fun _ => hhex⟩
      rw [hs] at hfs
      cases hfs
    · cases nested with
      | false =>
        obtain ⟨t, ht, hbase⟩ := hobject.toTronBase58_eq hlaws
        obtain ⟨v', hv', hhex⟩ := hbase.coerceForEthers_eq htype
        refine ⟨v', ?_, fun _ h => absurd h Bool.false_ne_true, fun _ => hhex⟩
        unfold normalizeAddress
        dsimp only
        rw [hnone, hfs]
        simp only [Bool.false_eq_true, if_false, ht, Option.bind_some]
        exact hv'
      | true =>
        refine ⟨.obj fs, ?_, fun h => absurd h (not_isHexOf_obj a fs), fun h => absurd (h rfl fs hfs) Bool.false_ne_true⟩
        unfold normalizeAddress
        dsimp only
        rw [hnone, hfs]
        simp only [if_true, Option.bind_some]
        rw [coerceForEthers]
        exact if_pos htype

end

/-! ## A codec -/

/-- The pair that the tests of the codecs use. -/
def testAccount : Account :=
  ⟨"a614f803b6fd780986a42c78ec9c7f77e6ded13c".toList, rfl, List.all_eq_true.1 (by decide), by decide⟩

def testBase58 : JsString := "TR7NHqjeKQxGTCi8q8ZY4pL8otSzgjLj6t".toList

def base58Digit (d : Nat) : Char := base58Alphabet[d]?.getD '1'

def base58Value (c : Char) : Nat := base58Alphabet.idxOf c

/-- A spelling in base 58; only the one of the pair has a checksum. -/
def spelled (a : Account) : JsString :=
  if a = testAccount then testBase58 else 'T' :: fixedDigits 58 base58Digit 33 (parseHex a.text)

theorem testBase58_digits : testBase58.all base58Alphabet.contains = true := by decide

theorem spelled_base58 (a : Account) : ∀ c ∈ spelled a, c ∈ base58Alphabet := by
  intro c hc
  unfold spelled at hc
  split at hc
  · exact List.contains_iff_mem.1 (List.all_eq_true.1 testBase58_digits c hc)
  · rcases List.mem_cons.1 hc with rfl | hc
    · decide
    · obtain ⟨d, hd, rfl⟩ := mem_fixedDigits (by decide) c hc
      rw [base58Digit, List.getElem?_eq_getElem (by exact hd), Option.getD_some]
      exact List.getElem_mem _

/-- The account of an EVM address or a 21-byte one. -/
def readAccount (addr : JsString) : Option Account :=
  if isTronHex addr then tronAccount addr else tronAccount ("41".toList ++ addr.drop 2)

theorem readAccount_base58 {addr b : JsString} (h : (readAccount addr).map spelled = some b) :
    ∀ c ∈ b, c ∈ base58Alphabet := by
  obtain ⟨a, -, rfl⟩ := Option.map_eq_some_iff.1 h
  exact spelled_base58 a

def spellingCodec : AddressCodec where
  toBase58Address addr := (readAccount addr).map spelled
  toHex s :=
    if s = testBase58 then some ("41".toList ++ testAccount.text)
    else some ("41".toList ++ fixedHex 40 (readDigits 58 base58Value (s.drop 1)))
  fromHex hex := (tronAccount hex).map spelled
  base58 := @readAccount_base58

theorem tronAccount_of_lower {a : Account} {ds : JsString} (h : ds.map Char.toLower = a.text) :
    tronAccount ("41".toList ++ ds) = some a := by
  have hhex := isEvmHex_of_lower h
  have hall : ds.all isHexDigit = true := (Bool.and_eq_true_iff.1 hhex).2
  have htron : isTronHex ("41".toList ++ ds) = true := by
    change (decide (ds.length = 40) && ds.all isHexDigit) = true
    rw [hall, length_of_lower h]
    rfl
  rw [tronAccount, dif_pos htron]
  exact congrArg some (HexText.ext_text h)

theorem readAccount_of_lower {a : Account} {ds : JsString} (h : ds.map Char.toLower = a.text) :
    readAccount ("0x".toList ++ ds) = some a :=
  tronAccount_of_lower h

theorem base58Value_digit : ∀ d < 58, base58Value (base58Digit d) = d := by decide

/-- The digits of an account are fewer than those of the pair. -/
theorem readDigits_spelled (a : Account) :
    readDigits 58 base58Value (fixedDigits 58 base58Digit 33 (parseHex a.text)) = parseHex a.text := by
  rw [readDigits_fixedDigits (by decide) base58Value_digit]
  have hpow : 16 ^ 40 < 58 ^ 33 := by decide +kernel
  exact Nat.mod_eq_of_lt (a.parseHex_lt.trans hpow)

theorem spellingCodec_toHex (s : JsString) : spellingCodec.toHex s =
    if s = testBase58 then some ("41".toList ++ testAccount.text)
    else some ("41".toList ++ fixedHex 40 (readDigits 58 base58Value (s.drop 1))) := rfl

theorem lt_readDigits_testBase58 : 16 ^ 40 < readDigits 58 base58Value (testBase58.drop 1) := by decide +kernel

theorem base58_spelled (a : Account) : Base58 spellingCodec a (spelled a) := by
  by_cases ha : a = testAccount
  · have hspelled : spelled a = testBase58 := if_pos ha
    rw [hspelled, ha]
    refine ⟨by decide, "41".toList ++ testAccount.text, ?_, testAccount.lower⟩
    rw [spellingCodec_toHex, if_pos rfl]
  · have hspelled : spelled a = 'T' :: fixedDigits 58 base58Digit 33 (parseHex a.text) := if_neg ha
    have hread : readDigits 58 base58Value ((spelled a).drop 1) = parseHex a.text := by
      rw [hspelled, List.drop_one, List.tail_cons, readDigits_spelled]
    have hne : spelled a ≠ testBase58 := by
      intro h
      rw [h] at hread
      have hlt := a.parseHex_lt
      rw [← hread] at hlt
      exact absurd hlt lt_readDigits_testBase58.not_gt
    have htron : isTronAddress (spelled a) = true := by
      rw [hspelled, isTronAddress, List.length_cons, length_fixedDigits]
      rfl
    refine ⟨htron, "41".toList ++ a.text, ?_, a.lower⟩
    rw [spellingCodec_toHex, if_neg hne, hread, a.fixedHex_parseHex]

theorem spellingCodec_laws : ArgLaws spellingCodec where
  toBase58Address a ds h := by
    refine ⟨spelled a, ?_, base58_spelled a⟩
    change (readAccount ("0x".toList ++ ds)).map spelled = some (spelled a)
    rw [readAccount_of_lower h, Option.map_some]
  fromHex a := by
    refine ⟨spelled a, ?_, base58_spelled a⟩
    change (tronAccount ("41".toList ++ a.text)).map spelled = some (spelled a)
    rw [tronAccount_of_lower a.lower, Option.map_some]

end HardhatTron

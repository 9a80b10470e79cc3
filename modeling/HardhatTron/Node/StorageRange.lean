import HardhatTron.Lib.HexBytes
import HardhatTron.Lib.OrderedMap
import HardhatTron.Lib.RangeScan
import HardhatTron.Node.Cheatcodes
import HardhatTron.Runtime.ValueFlow
import Mathlib.Data.Finset.Basic
/-!
# Reading a slot

The patched `setStorageAt` writes one row. The patched `getStorageAt` asks for
a range of rows that begins at the slot and takes the first, while the bridge's
provider asks for the slot's own row. `storage_patches_iff` says for which rows
the three agree.
-/
namespace HardhatTron

open Lib

/-! ## Rows -/

/-- 32 bytes. -/
structure DataWord where
  bytes : Bytes
  length_eq : bytes.length = 32
  deriving DecidableEq

def zeroWord : DataWord := ⟨List.replicate 32 0, List.length_replicate⟩

/-- `ethers.toBeHex(v, 32)` -/
def wordText (w : DataWord) : JsString := "0x".toList ++ hexOfBytes w.bytes

/-- The contents of the `storageRowStore`. -/
abbrev StorageRows := OrderedMap Bytes DataWord

/-- `UnsignedBytes.lexicographicalComparator()` compares these. -/
def keyRank (key : Bytes) : List Nat := key.map UInt8.toNat

/-- `ByteArray.fromHexString` -/
def fromHexString (hex : JsString) : Bytes := bytesOfHex (if hex.length % 2 = 0 then hex else '0' :: hex)

structure StorageRangeResult where
  storage : List (JsString × JsString)
  nextKey : Option JsString

/-- The loop of `storageRangeAt` over the rows by key, `count` of them added. -/
def rangeLoop (start : Option Bytes) (limit : Nat) : List (Bytes × DataWord) → Nat → StorageRangeResult
  | [], _ => ⟨[], none⟩
  | (key, value) :: rest, count =>
    if start.any fun start => keyRank key < keyRank start then rangeLoop start limit rest count
    else if count ≥ limit then ⟨[], some (hexOfBytes key)⟩
    else
      let result := rangeLoop start limit rest (count + 1)
      { result with storage := (hexOfBytes key, hexOfBytes value.bytes) :: result.storage }

/-- The bytes of `startKey`, `null` for an empty one. -/
def startBytes (startKey : JsString) : Option Bytes :=
  let hex := if "0x".toList <+: startKey then startKey.drop 2 else startKey
  if hex = [] then none else some (fromHexString hex)

/-- The codecs of both sides, and the node's own. -/
structure StorageEnv (Account SmartContract : Type) where
  codec : AddressCodec
  rt : Capsules Account SmartContract
  /-- How `eth_getStorageAt` reads an address. -/
  decodeEvmAddress : JsString → Except CheatcodeFault Bytes

section

variable {Account SmartContract : Type} (env : StorageEnv Account SmartContract)

/-- The first 16 bytes of the hash of the address. -/
def rowPrefix (address : Bytes) : Bytes := (env.rt.sha3 address).take 16

/-- The key of a slot's row. -/
def rowKey (address : Bytes) (slot : DataWord) : Bytes := rowPrefix env address ++ slot.bytes.drop 16

/-- What is known of java-tron's part: the row key whatever the contract's version, and that a data
word is read as it was written. -/
structure StorageLaws : Prop where
  compose : ∀ (slot : DataWord) address version, env.rt.compose slot.bytes address version = rowKey env address slot
  decodeDataWord : ∀ w : DataWord, env.rt.decodeDataWord (some (String.ofList (wordText w))) = .ok w.bytes

/-- `debug_storageRangeAt` at the head state. -/
def storageRangeAt (rows : StorageRows) (address : JsString) (startKey : JsString) (limit : Nat) :
    Except CheatcodeFault StorageRangeResult :=
  if limit = 0 then .error (.rpc (.invalidParams "limit must be greater than 0"))
  else do
    let address ← env.rt.decodeAddress (some (String.ofList address))
    let sorted := ascending keyRank (rows.entries.filter fun row => decide (rowPrefix env address <+: row.1))
    return rangeLoop (startBytes startKey) limit sorted 0

/-- `eth_getStorageAt`: the slot's own row. -/
def ethGetStorageAt (rows : StorageRows) (address slot : JsString) : Except CheatcodeFault JsString := do
  let address ← env.decodeEvmAddress address
  let slot ← env.rt.decodeDataWord (some (String.ofList slot))
  return wordText ((rows.get? (rowPrefix env address ++ slot.drop 16)).getD zeroWord)

/-! ## The bridge -/

/-- `ethers.zeroPadValue(v, 32)` -/
def zeroPadValue (v : JsString) : JsString := "0x".toList ++ (List.replicate (64 - (v.drop 2).length) '0' ++ v.drop 2)

/-- The patched `setStorageAt`, as it leaves the stores; `none` when the address is not converted. -/
def setStorageAt (stores : ChainState Account SmartContract) (address : JsValue) (slot value : DataWord) :
    Option (ChainState Account SmartContract) :=
  (signersToBase58 env.codec address).map fun addr =>
    ((setAccountStorageAt env.rt (some (String.ofList addr)) (some (String.ofList (wordText slot)))
      (some (String.ofList (wordText value)))).exec stores).1

/-- The patched `getStorageAt`. -/
def getStorageAt (rows : StorageRows) (address : JsValue) (slot : DataWord) : Option JsString :=
  (signersToBase58 env.codec address).map fun addr =>
    match storageRangeAt env rows addr (wordText slot) 1 with
    | .ok ⟨(_, c :: cs) :: _, _⟩ => "0x".toList ++ c :: cs
    | _ => wordText zeroWord

/-- The address the provider reads from. -/
def remappedBase58 (evmToTvm : EvmToTvm) (address : JsValue) : Option JsString :=
  match lookupTvmActualBase58 env.codec evmToTvm address with
  | some (c :: cs) => some (c :: cs)
  | _ => signersToBase58 env.codec address

/-- The provider's `getStorage`. -/
def getStorage (evmToTvm : EvmToTvm) (rows : StorageRows) (address : JsValue) (slot : DataWord) : Option JsString := do
  let addr ← remappedBase58 env evmToTvm address
  let hex ← env.codec.toHex addr
  match ethGetStorageAt env rows ("0x".toList ++ hex.drop 2) (wordText slot) with
  | .ok result => if result ≠ "0x".toList then some (zeroPadValue result) else some (wordText zeroWord)
  | .error _ => some (wordText zeroWord)

/-! ## What they read -/

/-- The rows are what the stores hold. -/
def Holds (stores : ChainState Account SmartContract) (rows : StorageRows) : Prop :=
  ∀ key, stores (.storageRow key) = (rows.get? key).map DataWord.bytes

/-- The keys of a contract among the populated ones. -/
def contractKeys (address : Bytes) (keys : Finset Bytes) : Set Bytes := {k | k ∈ keys ∧ rowPrefix env address <+: k}

/-- The word of the first row of a contract from `start` on. -/
def firstWord (rows : StorageRows) (address start : Bytes) : DataWord :=
  ((rangeFrom keyRank (keyRank start)
    (rows.entries.filter fun row => decide (rowPrefix env address <+: row.1))).head?.map Prod.snd).getD zeroWord

variable {env}

theorem keyRank_injective : Function.Injective keyRank :=
  List.map_injective_iff.2 fun _ _ h => UInt8.toNat_inj.1 h

theorem hexOfBytes_ne_nil (w : DataWord) : hexOfBytes w.bytes ≠ [] := by
  intro h
  have hlen := w.length_eq
  rw [hexOfBytes_eq_nil h] at hlen
  cases hlen

theorem fromHexString_hexOfBytes (key : Bytes) : fromHexString (hexOfBytes key) = key := by
  have heven : (hexOfBytes key).length % 2 = 0 := by
    rw [length_hexOfBytes]
    omega
  rw [fromHexString, if_pos heven, bytesOfHex_hexOfBytes]

theorem startBytes_wordText (w : DataWord) : startBytes (wordText w) = some w.bytes := by
  have hstrip : (if "0x".toList <+: wordText w then (wordText w).drop 2 else wordText w) = hexOfBytes w.bytes := by
    have hzeroX : "0x".toList <+: wordText w := List.prefix_append _ _
    rw [if_pos hzeroX]
    rfl
  unfold startBytes
  simp only [hstrip]
  rw [if_neg (hexOfBytes_ne_nil w), fromHexString_hexOfBytes]

/-- With room for one row, the loop adds the first from the start on. -/
theorem rangeLoop_one (start : Bytes) (rows : List (Bytes × DataWord)) :
    (rangeLoop (some start) 1 rows 0).storage =
      ((rows.filter fun row => decide (keyRank start ≤ keyRank row.1)).head?.map
        fun row => (hexOfBytes row.1, hexOfBytes row.2.bytes)).toList := by
  have hfull : ∀ rows : List (Bytes × DataWord), (rangeLoop (some start) 1 rows 1).storage = [] := by
    intro rows
    induction rows with
    | nil => rfl
    | cons row rows ih =>
      rw [rangeLoop]
      split
      · exact ih
      · rw [if_pos le_rfl]
  induction rows with
  | nil => rfl
  | cons row rows ih =>
    rw [rangeLoop]
    by_cases hlt : keyRank row.1 < keyRank start
    · rw [if_pos (by simpa using hlt), ih, List.filter_cons_of_neg (by simpa using hlt)]
    · rw [if_neg (by simpa using hlt), if_neg (by omega), List.filter_cons_of_pos (by simpa using hlt)]
      simp only [hfull]
      rfl

/-- The patched reader gives the first row from the slot on. -/
theorem getStorageAt_eq {address : JsValue} {addr : JsString} {a : Bytes}
    (haddr : signersToBase58 env.codec address = some addr)
    (ha : env.rt.decodeAddress (some (String.ofList addr)) = .ok a) (rows : StorageRows) (slot : DataWord) :
    getStorageAt env rows address slot = some (wordText (firstWord env rows a slot.bytes)) := by
  have hrange : storageRangeAt env rows addr (wordText slot) 1 = .ok (rangeLoop (some slot.bytes) 1
      (ascending keyRank (rows.entries.filter fun row => decide (rowPrefix env a <+: row.1))) 0) := by
    unfold storageRangeAt
    rw [if_neg (by omega), ha, startBytes_wordText]
    rfl
  have hstorage := rangeLoop_one slot.bytes
    (ascending keyRank (rows.entries.filter fun row => decide (rowPrefix env a <+: row.1)))
  unfold getStorageAt firstWord rangeFrom
  rw [haddr, Option.map_some, hrange]
  generalize rangeLoop (some slot.bytes) 1 _ 0 = result at hstorage
  obtain ⟨storage, nextKey⟩ := result
  simp only at hstorage
  subst hstorage
  cases List.head? _ with
  | none => rfl
  | some row =>
    obtain ⟨c, cs, hc⟩ := List.exists_cons_of_ne_nil (hexOfBytes_ne_nil row.2)
    simp only [Option.map_some, Option.toList_some, Option.getD_some, wordText, hc]

/-- What the provider reads is the slot's own row. -/
theorem getStorage_eq {evmToTvm : EvmToTvm} (hlaws : StorageLaws env) {address : JsValue} {addr hex : JsString}
    {b : Bytes} (haddr : remappedBase58 env evmToTvm address = some addr) (hhex : env.codec.toHex addr = some hex)
    (hb : env.decodeEvmAddress ("0x".toList ++ hex.drop 2) = .ok b) (rows : StorageRows) (slot : DataWord) :
    getStorage env evmToTvm rows address slot = some (wordText ((rows.get? (rowKey env b slot)).getD zeroWord)) := by
  have hread : ethGetStorageAt env rows ("0x".toList ++ hex.drop 2) (wordText slot) =
      .ok (wordText ((rows.get? (rowKey env b slot)).getD zeroWord)) := by
    unfold ethGetStorageAt
    rw [hb, hlaws.decodeDataWord]
    rfl
  generalize (rows.get? (rowKey env b slot)).getD zeroWord = w at hread
  have hpad : zeroPadValue (wordText w) = wordText w := by
    have hlen : ((wordText w).drop 2).length = 64 := by
      change (hexOfBytes w.bytes).length = 64
      rw [length_hexOfBytes, w.length_eq]
    rw [zeroPadValue, hlen]
    rfl
  have hne : wordText w ≠ "0x".toList := by
    intro h
    exact hexOfBytes_ne_nil w (List.append_cancel_left (h.trans (List.append_nil _).symm))
  unfold getStorage
  rw [haddr]
  simp only [bind, Option.bind, hhex, hread]
  rw [if_pos hne, hpad]

/-- The patched writer changes the slot's own row and no other. -/
theorem setStorageAt_rows (hlaws : StorageLaws env) {address : JsValue} {addr : JsString} {a : Bytes}
    (haddr : signersToBase58 env.codec address = some addr)
    (ha : env.rt.decodeAddress (some (String.ofList addr)) = .ok a) (stores : ChainState Account SmartContract)
    (slot value : DataWord) : ∃ stores', setStorageAt env stores address slot value = some stores' ∧
      stores' (.storageRow (rowKey env a slot)) = some value.bytes ∧
      ∀ key, key ≠ rowKey env a slot → stores' (.storageRow key) = stores (.storageRow key) := by
  obtain ⟨account, contract, version, hexec⟩ : ∃ account contract version,
      ((setAccountStorageAt env.rt (some (String.ofList addr)) (some (String.ofList (wordText slot)))
        (some (String.ofList (wordText value)))).exec stores).1 =
      Function.update (Function.update (Function.update stores (.account a) account) (.contract a) contract)
        (.storageRow (env.rt.compose slot.bytes a version)) (some value.bytes) := by
    unfold setAccountStorageAt
    rw [ha, hlaws.decodeDataWord, hlaws.decodeDataWord]
    exact ⟨_, _, _, rfl⟩
  rw [hlaws.compose] at hexec
  refine ⟨_, by rw [setStorageAt, haddr, Option.map_some, hexec], Function.update_self _ _ _, ?_⟩
  intro key hkey
  have hrow : StoreKey.storageRow key ≠ .storageRow (rowKey env a slot) := by simpa using hkey
  exact (Function.update_of_ne hrow _ _).trans
    ((Function.update_of_ne (by simp) _ _).trans (Function.update_of_ne (by simp) _ _))

theorem bytes_inj {v w : DataWord} (h : v.bytes = w.bytes) : v = w := by
  cases v
  cases w
  cases h
  rfl

/-- What rows hold after the write. -/
theorem holds_after {stores stores' : ChainState Account SmartContract} {rows rows' : StorageRows} {key : Bytes}
    {value : DataWord} (hself : stores' (.storageRow key) = some value.bytes)
    (hother : ∀ k, k ≠ key → stores' (.storageRow k) = stores (.storageRow k)) (h : Holds stores rows) :
    Holds stores' rows' ↔ ∀ k, rows'.get? k = (rows.put key value).get? k := by
  have hbytes : Function.Injective (Option.map DataWord.bytes) := Option.map_injective fun _ _ => bytes_inj
  apply forall_congr'
  intro k
  have hk : stores' (.storageRow k) = ((rows.put key value).get? k).map DataWord.bytes := by
    rw [OrderedMap.get?_put]
    by_cases he : k = key
    · subst he
      rw [if_pos rfl]
      exact hself
    · rw [if_neg he]
      exact (hother k he).trans (h k)
  rw [hk]
  exact ⟨fun e => (hbytes e).symm, fun e => by rw [e]⟩

/-! ## The first row -/

/-- The populated keys are these. -/
def Populated (rows : StorageRows) (keys : Finset Bytes) : Prop := ∀ k, (∃ v, rows.get? k = some v) ↔ k ∈ keys

theorem firstWord_cases (env : StorageEnv Account SmartContract) {rows : StorageRows} {keys : Finset Bytes}
    (hkeys : Populated rows keys) (a start : Bytes) :
    (∃ k v, IsFirst keyRank (contractKeys env a keys) (keyRank start) k ∧ rows.get? k = some v ∧
      firstWord env rows a start = v) ∨
    (∀ k ∈ contractKeys env a keys, keyRank k < keyRank start) ∧ firstWord env rows a start = zeroWord := by
  have hrow : ∀ k v, (k, v) ∈ rows.entries.filter (fun row => decide (rowPrefix env a <+: row.1)) ↔
      rows.get? k = some v ∧ rowPrefix env a <+: k := by
    intro k v
    rw [List.mem_filter, decide_eq_true_eq, ← OrderedMap.get?_eq_some_iff]
  have hset : {k | ∃ v, (k, v) ∈ rows.entries.filter (fun row => decide (rowPrefix env a <+: row.1))} =
      contractKeys env a keys := by
    ext k
    simp only [Set.mem_ofPred_eq, hrow, contractKeys, ← hkeys k, exists_and_right]
  unfold firstWord
  cases h : (rangeFrom keyRank (keyRank start)
      (rows.entries.filter fun row => decide (rowPrefix env a <+: row.1))).head? with
  | some row =>
    left
    obtain ⟨hmem, hfirst⟩ := head_rangeFrom h
    rw [hset] at hfirst
    exact ⟨row.1, row.2, hfirst, ((hrow _ _).1 hmem).1, rfl⟩
  | none =>
    right
    refine ⟨?_, rfl⟩
    intro k hk
    rw [← hset] at hk
    obtain ⟨v, hv⟩ := hk
    exact head_rangeFrom_none h (k, v) hv

theorem firstWord_of_first {rows : StorageRows} {keys : Finset Bytes} (hkeys : Populated rows keys) {a start k : Bytes}
    {v : DataWord} (hfirst : IsFirst keyRank (contractKeys env a keys) (keyRank start) k) (hv : rows.get? k = some v) :
    firstWord env rows a start = v := by
  rcases firstWord_cases env hkeys a start with ⟨k', v', hfirst', hv', hw⟩ | ⟨hnone, -⟩
  · obtain rfl := hfirst.unique keyRank_injective hfirst'
    rw [hw]
    exact Option.some.inj (hv'.symm.trans hv)
  · exact absurd hfirst.reached (not_le.2 (hnone k hfirst.mem))

theorem firstWord_of_none {rows : StorageRows} {keys : Finset Bytes} (hkeys : Populated rows keys) {a start : Bytes}
    (hnone : ∀ k ∈ contractKeys env a keys, keyRank k < keyRank start) : firstWord env rows a start = zeroWord := by
  rcases firstWord_cases env hkeys a start with ⟨k, -, hfirst, -, -⟩ | ⟨-, hw⟩
  · exact absurd hfirst.reached (not_le.2 (hnone k hfirst.mem))
  · exact hw

/-! ## When the patches agree -/

/-- The words that the patches read: the slot's own after a write, another slot's as before it, and what
the provider reads there. -/
def WordsAgree (env : StorageEnv Account SmartContract) (a b : Bytes) (slot other value : DataWord)
    (rows rows' : StorageRows) : Prop :=
  firstWord env rows' a slot.bytes = value ∧
  firstWord env rows' a other.bytes = firstWord env rows a other.bytes ∧
  firstWord env rows a other.bytes = (rows.get? (rowKey env b other)).getD zeroWord

theorem populated_put {rows rows' : StorageRows} {keys : Finset Bytes} (hkeys : Populated rows keys) {key : Bytes}
    {value : DataWord} (h : ∀ k, rows'.get? k = (rows.put key value).get? k) : Populated rows' (insert key keys) := by
  intro k
  rw [Finset.mem_insert, h k, OrderedMap.get?_put, ← hkeys k]
  by_cases he : k = key
  · simp [he]
  · simp [he]

theorem populated_put_self {rows : StorageRows} {keys : Finset Bytes} (hkeys : Populated rows keys) (key : Bytes)
    (value : DataWord) : Populated (rows.put key value) (insert key keys) :=
  populated_put hkeys fun _ => rfl

/-- The condition, on the keys alone. -/
structure KeysFit (env : StorageEnv Account SmartContract) (a b : Bytes) (keys : Finset Bytes) (slot other : DataWord) :
    Prop where
  own : IsFirst keyRank (contractKeys env a (insert (rowKey env a slot) keys)) (keyRank slot.bytes) (rowKey env a slot)
  apart : ¬ IsFirst keyRank (contractKeys env a (insert (rowKey env a slot) keys)) (keyRank other.bytes) (rowKey env a slot)
  provider : IsFirst keyRank (contractKeys env a keys) (keyRank other.bytes) (rowKey env b other) ∨
    (∀ k ∈ contractKeys env a keys, keyRank k < keyRank other.bytes) ∧ rowKey env b other ∉ keys

/-- Fitting keys are enough. -/
theorem KeysFit.agree {a b : Bytes} {keys : Finset Bytes} {slot other : DataWord} (h : KeysFit env a b keys slot other)
    {rows rows' : StorageRows} (hkeys : Populated rows keys) {value : DataWord}
    (hput : ∀ k, rows'.get? k = (rows.put (rowKey env a slot) value).get? k) :
    WordsAgree env a b slot other value rows rows' := by
  have hkeys' := populated_put hkeys hput
  refine ⟨?_, ?_, ?_⟩
  · apply firstWord_of_first hkeys' h.own
    rw [hput, OrderedMap.get?_put, if_pos rfl]
  · have hsub : contractKeys env a keys ⊆ contractKeys env a (insert (rowKey env a slot) keys) :=
      fun k hk => ⟨Finset.mem_insert_of_mem hk.1, hk.2⟩
    rcases firstWord_cases env hkeys' a other.bytes with ⟨k, v, hfirst, hv, hw⟩ | ⟨hnone, hw⟩
    · have hne : k ≠ rowKey env a slot := by
        rintro rfl
        exact h.apart hfirst
      have hmem : k ∈ contractKeys env a keys :=
        ⟨(Finset.mem_insert.1 hfirst.mem.1).resolve_left hne, hfirst.mem.2⟩
      rw [hput, OrderedMap.get?_put, if_neg hne] at hv
      rw [hw, firstWord_of_first hkeys (hfirst.subset hmem hsub) hv]
    · rw [hw, firstWord_of_none hkeys fun k hk => hnone k (hsub hk)]
  · rcases h.provider with hfirst | ⟨hnone, hempty⟩
    · obtain ⟨v, hv⟩ := (hkeys _).2 hfirst.mem.1
      rw [firstWord_of_first hkeys hfirst hv, hv]
      rfl
    · have hget : rows.get? (rowKey env b other) = none := by
        rw [Option.eq_none_iff_forall_ne_some]
        intro v hv
        exact hempty ((hkeys _).1 ⟨v, hv⟩)
      rw [firstWord_of_none hkeys hnone, hget]
      rfl

def oneWord : DataWord := ⟨List.replicate 31 0 ++ [1], rfl⟩

theorem oneWord_ne : oneWord ≠ zeroWord := by decide

/-- Words of one's choice under the keys. -/
theorem exists_populated (keys : Finset Bytes) (val : Bytes → DataWord) :
    ∃ rows : StorageRows, Populated rows keys ∧ ∀ k ∈ keys, rows.get? k = some (val k) := by
  have hnodup : ((keys.toList.map fun k => (k, val k)).map Prod.fst).Nodup := by
    have hfst : (keys.toList.map fun k => (k, val k)).map Prod.fst = keys.toList := by
      rw [List.map_map]
      exact List.map_id _
    rw [hfst]
    exact keys.nodup_toList
  have hget : ∀ k v, (⟨keys.toList.map fun k => (k, val k), hnodup⟩ : StorageRows).get? k = some v ↔
      k ∈ keys ∧ v = val k := by
    intro k v
    rw [OrderedMap.get?_eq_some_iff]
    constructor
    · intro h
      obtain ⟨k', hk', he⟩ := List.mem_map.1 h
      obtain ⟨rfl, rfl⟩ := Prod.mk.inj he
      exact ⟨Finset.mem_toList.1 hk', rfl⟩
    · rintro ⟨hk, rfl⟩
      exact List.mem_map_of_mem (Finset.mem_toList.2 hk)
  refine ⟨_, ?_, fun k hk => (hget k _).2 ⟨hk, rfl⟩⟩
  intro k
  constructor
  · rintro ⟨v, hv⟩
    exact ((hget k v).1 hv).1
  · intro hk
    exact ⟨val k, (hget k _).2 ⟨hk, rfl⟩⟩

/-- Words that show it when the keys do not fit. -/
theorem KeysFit.of_agree {a b : Bytes} {keys : Finset Bytes} {slot other : DataWord}
    (h : ∀ rows value, Populated rows keys →
      WordsAgree env a b slot other value rows (rows.put (rowKey env a slot) value)) :
    KeysFit env a b keys slot other where
  own := by
    -- one in the slot, zero in every other row
    obtain ⟨rows, hkeys, hget⟩ := exists_populated keys fun _ => zeroWord
    have hkeys' := populated_put_self hkeys (rowKey env a slot) oneWord
    have hread := (h rows oneWord hkeys).1
    rcases firstWord_cases env hkeys' a slot.bytes with ⟨k, v, hfirst, hv, hw⟩ | ⟨-, hw⟩
    · by_cases hk : k = rowKey env a slot
      · exact hk ▸ hfirst
      · rw [OrderedMap.get?_put, if_neg hk, hget k ((Finset.mem_insert.1 hfirst.mem.1).resolve_left hk)] at hv
        rw [hread] at hw
        exact absurd (hw.trans (Option.some.inj hv).symm) oneWord_ne
    · exact absurd (hread.symm.trans hw) oneWord_ne
  apart := by
    -- the other slot would read whatever is written
    intro hfirst
    obtain ⟨rows, hkeys, -⟩ := exists_populated keys fun _ => zeroWord
    have hwritten : ∀ value, firstWord env rows a other.bytes = value := by
      intro value
      have hkeys' := populated_put_self hkeys (rowKey env a slot) value
      rw [← (h rows value hkeys).2.1]
      apply firstWord_of_first hkeys' hfirst
      rw [OrderedMap.get?_put, if_pos rfl]
    exact oneWord_ne ((hwritten oneWord).symm.trans (hwritten zeroWord))
  provider := by
    -- one in the row that is read first, zero in every other row
    by_cases hnone : ∀ k ∈ contractKeys env a keys, keyRank k < keyRank other.bytes
    · right
      refine ⟨hnone, ?_⟩
      intro hmem
      obtain ⟨rows, hkeys, hget⟩ := exists_populated keys fun _ => oneWord
      have hread := (h rows zeroWord hkeys).2.2
      rw [firstWord_of_none hkeys hnone, hget _ hmem] at hread
      exact oneWord_ne hread.symm
    · left
      obtain ⟨rows, hkeys, -⟩ := exists_populated keys fun _ => zeroWord
      obtain ⟨k, -, hfirst, -, -⟩ := (firstWord_cases env hkeys a other.bytes).resolve_right fun hn => hnone hn.1
      by_cases hk : rowKey env b other = k
      · exact hk ▸ hfirst
      · obtain ⟨rows, hkeys, hget⟩ := exists_populated keys fun k' => if k' = k then oneWord else zeroWord
        have hread := (h rows zeroWord hkeys).2.2
        have hfirstRow := hget k hfirst.mem.1
        rw [if_pos rfl] at hfirstRow
        rw [firstWord_of_first hkeys hfirst hfirstRow] at hread
        by_cases hmem : rowKey env b other ∈ keys
        · rw [hget _ hmem, if_neg hk] at hread
          exact absurd hread oneWord_ne
        · have hget' : rows.get? (rowKey env b other) = none := by
            rw [Option.eq_none_iff_forall_ne_some]
            intro v hv
            exact hmem ((hkeys _).1 ⟨v, hv⟩)
          rw [hget'] at hread
          exact absurd hread oneWord_ne

theorem wordText_inj {v w : DataWord} : some (wordText v) = some (wordText w) ↔ v = w := by
  constructor
  · intro h
    have hhex := List.append_cancel_left (Option.some.inj h)
    have hbytes := congrArg bytesOfHex hhex
    rw [bytesOfHex_hexOfBytes, bytesOfHex_hexOfBytes] at hbytes
    exact bytes_inj hbytes
  · intro h
    rw [h]

/-- Stores that hold the rows. -/
theorem exists_holds (Account SmartContract : Type) (rows : StorageRows) :
    ∃ stores : ChainState Account SmartContract, Holds stores rows :=
  ⟨StoreKey.rec (motive := Capsule Account SmartContract) (fun _ => (none : Option Account))
    (fun _ => (none : Option Bytes)) (fun _ => (none : Option SmartContract))
    (fun key => (rows.get? key).map DataWord.bytes) (fun _ => (none : Option Bytes)), fun _ => rfl⟩

/-- With rows of these keys, whatever their words: the patched reader gives back what the patched writer
wrote, another slot reads as before, and as the provider reads it, exactly when the keys fit. -/
theorem storage_patches_iff (env : StorageEnv Account SmartContract) (hlaws : StorageLaws env) (evmToTvm : EvmToTvm)
    (address : JsValue) {addr remapped hex : JsString} {a b : Bytes}
    (haddr : signersToBase58 env.codec address = some addr)
    (ha : env.rt.decodeAddress (some (String.ofList addr)) = .ok a)
    (hremapped : remappedBase58 env evmToTvm address = some remapped) (hhex : env.codec.toHex remapped = some hex)
    (hb : env.decodeEvmAddress ("0x".toList ++ hex.drop 2) = .ok b) (keys : Finset Bytes) (slot other : DataWord) :
    (∀ (stores stores' : ChainState Account SmartContract) (rows rows' : StorageRows) (value : DataWord),
      Holds stores rows → Populated rows keys → setStorageAt env stores address slot value = some stores' →
      Holds stores' rows' →
      getStorageAt env rows' address slot = some (wordText value) ∧
      getStorageAt env rows' address other = getStorageAt env rows address other ∧
      getStorageAt env rows address other = getStorage env evmToTvm rows address other) ↔
    KeysFit env a b keys slot other := by
  simp only [getStorageAt_eq haddr ha, getStorage_eq hlaws hremapped hhex hb, wordText_inj]
  constructor
  · intro h
    apply KeysFit.of_agree
    intro rows value hkeys
    obtain ⟨stores, hholds⟩ := exists_holds Account SmartContract rows
    obtain ⟨stores', hset, hself, hother⟩ := setStorageAt_rows hlaws haddr ha stores slot value
    exact h stores stores' rows _ value hholds hkeys hset ((holds_after hself hother hholds).2 fun _ => rfl)
  · intro hfit stores stores' rows rows' value hholds hkeys hset hholds'
    obtain ⟨stores'', hset', hself, hother⟩ := setStorageAt_rows hlaws haddr ha stores slot value
    obtain rfl : stores' = stores'' := Option.some.inj (hset.symm.trans hset')
    exact hfit.agree hkeys ((holds_after hself hother hholds).1 hholds')

end

/-! ## A contract with a row in slot 0 -/

/-- The address of `payer`, and the Keccak hash of it. -/
def payerBytes : Bytes := 0x41 :: List.replicate 20 0x11

def payerHash : Bytes :=
  [0x2c, 0x4b, 0x55, 0x3e, 0x94, 0x20, 0x13, 0x7c, 0x35, 0x9c, 0x13, 0xd3, 0x19, 0x42, 0x05, 0x9c,
   0x1f, 0x6d, 0x24, 0x3e, 0x2d, 0x30, 0x6c, 0xcf, 0x32, 0x08, 0x18, 0x63, 0x88, 0x7d, 0xa5, 0x5c]

/-- Both codecs on that address. -/
def payerStorage : StorageEnv Unit Unit where
  codec := twoAddresses.codec
  rt :=
    { decodeAddress := fun _ => .ok payerBytes
      decodeLong := fun _ => .ok 0
      decodeDataWord := fun s => .ok (bytesOfHex ((s.getD "").toList.drop 2))
      decodeHex := fun _ => .ok []
      compose := fun slot _ _ => payerHash.take 16 ++ slot.drop 16
      sha3 := fun _ => payerHash
      getAllowMultiSign := fun _ => .ok 0
      getLatestBlockHeaderTimestamp := fun _ => .ok 0
      newAccount := fun _ _ _ _ _ => .ok ()
      newNamedAccount := fun _ _ _ => ()
      setBalance := fun _ _ => ()
      getType := fun _ => .Normal
      updateAccountType := fun _ _ => ()
      clearOwnerPermission := fun _ => ()
      clearWitnessPermission := fun _ => ()
      clearActivePermission := fun _ => ()
      newContract := fun _ _ => ()
      getContractVersion := fun _ => 0
      setCodeHash := fun _ _ => () }
  decodeEvmAddress := fun _ => .ok payerBytes

theorem payerStorage_laws : StorageLaws payerStorage where
  compose := fun _ _ _ => rfl
  decodeDataWord := by
    intro w
    have hread : bytesOfHex ((String.ofList (wordText w)).toList.drop 2) = w.bytes := by
      rw [String.toList_ofList]
      exact bytesOfHex_hexOfBytes w.bytes
    exact congrArg Except.ok hread

theorem payer_converts : signersToBase58 payerStorage.codec (.str payer.text) = some payer.text := rfl

theorem payer_read : remappedBase58 payerStorage (fun _ => none) (.str payer.text) = some payer.text := rfl

def lastWord : DataWord := ⟨List.replicate 32 0xff, List.length_replicate⟩

theorem slotZero_fits : KeysFit payerStorage payerBytes payerBytes {rowKey payerStorage payerBytes zeroWord} zeroWord
    lastWord where
  own := by
    refine ⟨⟨Finset.mem_insert_self _ _, by decide⟩, by decide, ?_⟩
    rintro k ⟨hk, -⟩ -
    obtain rfl : k = rowKey payerStorage payerBytes zeroWord := by simpa using hk
    exact le_rfl
  apart := fun h => absurd h.reached (by decide)
  provider := by
    right
    refine ⟨?_, by decide⟩
    rintro k ⟨hk, -⟩
    rw [Finset.mem_singleton.1 hk]
    decide

/-- One row of the payer's contract, at slot 0. -/
def slotZeroRow : StorageRows := OrderedMap.empty.put (rowKey payerStorage payerBytes zeroWord) oneWord

theorem slotZeroRow_populated : Populated slotZeroRow {rowKey payerStorage payerBytes zeroWord} := by
  intro k
  rw [slotZeroRow, OrderedMap.get?_put, Finset.mem_singleton]
  split <;> simp_all

/-- Slot 0 of a contract that has no other row: the word written is read back, and the slot ff..ff reads as
before and as the provider reads it. -/
theorem slotZero_reads : ∃ (stores stores' : ChainState Unit Unit) (rows' : StorageRows),
    Holds stores slotZeroRow ∧
    setStorageAt payerStorage stores (.str payer.text) zeroWord lastWord = some stores' ∧ Holds stores' rows' ∧
    getStorageAt payerStorage rows' (.str payer.text) zeroWord = some (wordText lastWord) ∧
    getStorageAt payerStorage rows' (.str payer.text) lastWord =
      getStorageAt payerStorage slotZeroRow (.str payer.text) lastWord ∧
    getStorageAt payerStorage slotZeroRow (.str payer.text) lastWord =
      getStorage payerStorage (fun _ => none) slotZeroRow (.str payer.text) lastWord := by
  obtain ⟨stores, hholds⟩ := exists_holds Unit Unit slotZeroRow
  obtain ⟨stores', hset, hself, hother⟩ :=
    setStorageAt_rows payerStorage_laws payer_converts rfl stores zeroWord lastWord
  have hholds' : Holds stores' (slotZeroRow.put (rowKey payerStorage payerBytes zeroWord) lastWord) :=
    (holds_after hself hother hholds).2 fun _ => rfl
  exact ⟨stores, stores', _, hholds, hset, hholds',
    (storage_patches_iff payerStorage payerStorage_laws (fun _ => none) (.str payer.text) payer_converts rfl payer_read
      rfl rfl _ zeroWord lastWord).2 slotZero_fits stores stores' slotZeroRow _ lastWord hholds slotZeroRow_populated
      hset hholds'⟩

/-- Slot 1 is written next to slot 0, and the reader gives slot 0. -/
theorem slotOne_misread : ¬ ∀ (env : StorageEnv Unit Unit) (evmToTvm : EvmToTvm) (address : JsValue)
    (addr remapped hex : JsString) (a b : Bytes), StorageLaws env →
    signersToBase58 env.codec address = some addr → env.rt.decodeAddress (some (String.ofList addr)) = .ok a →
    remappedBase58 env evmToTvm address = some remapped → env.codec.toHex remapped = some hex →
    env.decodeEvmAddress ("0x".toList ++ hex.drop 2) = .ok b →
    ∀ (stores stores' : ChainState Unit Unit) (rows rows' : StorageRows) (slot other value : DataWord), slot ≠ other →
      Holds stores rows → setStorageAt env stores address slot value = some stores' → Holds stores' rows' →
      getStorageAt env rows' address slot = some (wordText value) ∧
      getStorageAt env rows' address other = getStorageAt env rows address other ∧
      getStorageAt env rows address other = getStorage env evmToTvm rows address other := by
  intro h
  obtain ⟨stores, hholds⟩ := exists_holds Unit Unit slotZeroRow
  obtain ⟨stores', hset, hself, hother⟩ :=
    setStorageAt_rows payerStorage_laws payer_converts rfl stores oneWord zeroWord
  have hread := (h payerStorage (fun _ => none) (.str payer.text) payer.text payer.text _ payerBytes payerBytes
    payerStorage_laws rfl rfl rfl rfl rfl stores stores' slotZeroRow _ oneWord lastWord zeroWord (by decide) hholds hset
    ((holds_after hself hother hholds).2 fun _ => rfl)).1
  rw [getStorageAt_eq payer_converts rfl, wordText_inj] at hread
  have hfirst : IsFirst keyRank (contractKeys payerStorage payerBytes
      (insert (rowKey payerStorage payerBytes oneWord) {rowKey payerStorage payerBytes zeroWord}))
      (keyRank oneWord.bytes) (rowKey payerStorage payerBytes zeroWord) := by
    refine ⟨⟨by decide, by decide⟩, by decide, ?_⟩
    rintro k ⟨hk, -⟩ -
    rcases Finset.mem_insert.1 hk with rfl | hk
    · decide
    · rw [Finset.mem_singleton.1 hk]
  rw [firstWord_of_first (populated_put_self slotZeroRow_populated _ _) hfirst (v := oneWord) (by decide)] at hread
  exact oneWord_ne hread

end HardhatTron

import HardhatTron.Lib.Traversal
import HardhatTron.Runtime.AbiValues
import HardhatTron.Runtime.TxReceipts
/-!
# Decoded return values

`decodeReturn` turns what ethers decoded, one entry per output, into what a
test sees. It takes a single struct from inside its wrapper when it can tell the
two apart by their lengths, and an address array for one dimension of
addresses. `decodeReturn_iff` says for which values that gives back what was
returned.
-/
namespace HardhatTron

open Lib

/-! ## JavaScript values -/

/-- A value of a call; `named` are the properties of an array besides its entries. -/
inductive RetValue where
  | undefined
  | null
  | bool (b : Bool)
  | num (n : Numeral)
  | bigint (i : Int)
  | str (s : JsString)
  | arr (entries : List RetValue) (named : List (JsString × RetValue))

/-- The codecs of both packages; `none` is a throw. `isArrayProperty` are the names that every array has. -/
structure ReturnEnv where
  isArrayProperty : JsString → Bool
  ethers : Ethers
  /-- The EIP-55 spelling. -/
  checksummed : HexText 40 → JsString
  /-- `TronWeb.address.toHex` of what is no string. -/
  toHexOther : RetValue → JsString

section

variable (env : ReturnEnv)

/-- What is known of the codecs: a checksummed address is kept, and what is no address is refused. -/
structure ReturnLaws : Prop where
  keeps : ∀ a, (env.ethers.toEvmAddress (env.checksummed a)).bind env.ethers.getAddress = some (env.checksummed a)
  checks : ∀ a, env.ethers.getAddress (env.checksummed a) = some (env.checksummed a)
  refuses : ∀ entries named, env.ethers.getAddress ("0x".toList ++ (env.toHexOther (.arr entries named)).drop 2) = none

/-- `Boolean(v)` -/
def RetValue.truthy : RetValue → Bool
  | .undefined => false
  | .null => false
  | .bool b => b
  | .num n => n.text ≠ ['0'] && n.text ≠ "NaN".toList
  | .bigint i => i ≠ 0
  | .str s => s ≠ []
  | .arr _ _ => true

/-- `tronToHex` of any value. -/
def tronToHexOf (addr : RetValue) : Option RetValue :=
  if addr.truthy then
    match addr with
    | .str s => (tronToHex env.ethers s).map .str
    | v => (env.ethers.getAddress ("0x".toList ++ (env.toHexOther v).drop 2)).map .str
  else some addr

/-- `ethersV6.getAddress(tronToHex(value))` -/
def decodeAddress (value : RetValue) : Option RetValue :=
  match tronToHexOf env value with
  | some (.str s) => (env.ethers.getAddress s).map .str
  | _ => none

/-- `defineProperty(decoded, name, { value: decoded[i] })`, unless the name is there. -/
def defineName (entries : List RetValue) (named : List (JsString × RetValue)) (e : JsString × Nat) :
    List (JsString × RetValue) :=
  if e.1 = [] ∨ env.isArrayProperty e.1 = true ∨ (named.lookup e.1).isSome then named
  else named ++ [(e.1, entries[e.2]?.getD .undefined)]

def namedEntries (entries : List RetValue) (names : List JsString) : List (JsString × RetValue) :=
  names.zipIdx.foldl (defineName env entries) []

/-- `type.replace(/\[[^\]]*\]$/, '')` -/
def dropLastSuffix : JsString → JsString
  | [] => []
  | c :: cs => if c = '[' ∧ cs.getLast? = some ']' ∧ ']' ∉ cs.dropLast then [] else c :: dropLastSuffix cs

/-- The branch for integers. -/
def decodeInteger : RetValue → Option RetValue
  | .num n => (integerOfNumeral n.text).map .bigint
  | .str s => (integerOfText (trim s)).map .bigint
  | .bool true => none
  | v => some v

/-- What `decodeOne` does with a value that is no array. -/
def decodeScalar (value : RetValue) : Option AbiInput → Option RetValue
  | none => some value
  | some output =>
    if output.type = "tuple".toList ∧ output.components.isSome then some value
    else if output.type = "address".toList then decodeAddress env value
    else if "address[".toList <+: output.type then some value
    else if '[' ∈ output.type then
      match value with
      | .str ['0'] => some (.arr [] [])
      | v => some (.arr [v] [])
    else if "uint".toList <+: output.type ∨ "int".toList <+: output.type then decodeInteger value
    else some value

/-- TronWeb's wrapper: one array around the components of a struct. -/
def isWrapped (components : Nat) : List RetValue → Bool
  | [.arr inner _] => components > 1 && inner.length = components
  | _ => false

mutual
def decodeOne : RetValue → Option AbiInput → Option RetValue
  | .arr entries named, output =>
    match output with
    | none => some (.arr entries named)
    | some ⟨type, _, components⟩ =>
      if type = "tuple".toList then
        match components with
        | some components =>
          let decoded := if isWrapped components.length entries then decodeInner entries fun i => components[i]?
            else decodeEach entries fun i => components[i]?
          decoded.map fun decoded => .arr decoded (namedEntries env decoded (components.map (·.name)))
        | none => some (.arr entries named)
      else if type = "address".toList then decodeAddress env (.arr entries named)
      else if "address[".toList <+: type then (entries.mapM (decodeAddress env)).map fun decoded => .arr decoded []
      else if '[' ∈ type then
        (decodeEach entries fun _ => some ⟨dropLastSuffix type, [], none⟩).map fun decoded => .arr decoded []
      else some (.arr entries named)
  | .undefined, _ => some .undefined
  | .null, _ => some .null
  | .bool b, output => decodeScalar env (.bool b) output
  | .num n, output => decodeScalar env (.num n) output
  | .bigint i, output => decodeScalar env (.bigint i) output
  | .str s, output => decodeScalar env (.str s) output

/-- `value.map((v, i) => decodeOne(v, outputs[i]))` -/
def decodeEach : List RetValue → (Nat → Option AbiInput) → Option (List RetValue)
  | [], _ => some []
  | v :: vs, outputs =>
    match decodeOne v (outputs 0), decodeEach vs fun i => outputs (i + 1) with
    | some decoded, some rest => some (decoded :: rest)
    | _, _ => none

/-- The same for the entries of the first entry. -/
def decodeInner : List RetValue → (Nat → Option AbiInput) → Option (List RetValue)
  | .arr inner _ :: _, outputs => decodeEach inner outputs
  | _, _ => some []
end

def decodeReturn (value : RetValue) (outputs : List AbiInput) : Option RetValue :=
  match outputs with
  | [] => some value
  | [output] =>
    if output.type = "tuple".toList then decodeOne env value (some output)
    else
      match value with
      | .arr entries _ => decodeOne env (entries.head?.getD .undefined) (some output)
      | v => decodeOne env v (some output)
  | outputs =>
    match value with
    | .arr entries _ =>
      (decodeEach env entries fun i => outputs[i]?).map fun decoded =>
        .arr decoded (namedEntries env decoded (outputs.map (·.name)))
    | v => some v

/-! ## What a test should see -/

/-- A leaf as ethers gives it. -/
def AbiValue.leaf : AbiValue → RetValue
  | .integer i => .bigint i
  | .address a => .str (env.checksummed a)
  | .bool b => .bool b
  | .text s => .str s
  | .items _ => .undefined

/-- Every name that is there once and is not a property of arrays leads to the entry at its position. -/
def Reachable (names : List JsString) (entries : List RetValue) (named : List (JsString × RetValue)) : Prop :=
  ∀ (i : Nat) (n : JsString), names[i]? = some n → n ≠ [] → env.isArrayProperty n = false → names.count n = 1 →
    named.lookup n = entries[i]?

mutual
/-- `r` is the value `v`: arrays for arrays and structs, the components of a struct by name too. -/
def ValueType.Shows : ValueType → AbiValue → RetValue → Prop
  | .elementary _, v, r => r = v.leaf env
  | .array t _, .items vs, .arr entries _ => List.Forall₂ t.Shows vs entries
  | .struct fields, .items vs, .arr entries named =>
    ValueType.ShowsAll fields vs entries ∧ Reachable env (fields.map Prod.fst) entries named
  | _, _, _ => False

def ValueType.ShowsAll : List (JsString × ValueType) → List AbiValue → List RetValue → Prop
  | [], [], [] => True
  | (_, t) :: fields, v :: vs, r :: rs => t.Shows v r ∧ ValueType.ShowsAll fields vs rs
  | _, _, _ => False
end

/-- `r` is what a function returned: the value of a single output, the array of several. -/
def Returned (outputs : List (JsString × ValueType)) (vs : List AbiValue) (r : RetValue) : Prop :=
  match outputs, vs with
  | [(_, t)], [v] => t.Shows env v r
  | outputs, vs => ∃ entries named, r = .arr entries named ∧ ValueType.ShowsAll env outputs vs entries

/-! ## The condition -/

mutual
/-- No array of several dimensions of addresses has an element, save inside arrays of structs. -/
def ValueType.Decodes : ValueType → AbiValue → Prop
  | .array t _, .items vs => t.isArray = true → t.base.isAddress = true → vs = []
  | .struct fields, .items vs => ValueType.DecodesAll fields vs
  | _, _ => True

def ValueType.DecodesAll : List (JsString × ValueType) → List AbiValue → Prop
  | (_, t) :: fields, v :: vs => t.Decodes v ∧ ValueType.DecodesAll fields vs
  | _, _ => True
end

/-- Structs of one component around a struct of several, or that struct itself. -/
def ValueType.unwraps : ValueType → Bool
  | .struct [(_, t)] => t.unwraps
  | .struct (_ :: _ :: _) => true
  | _ => false

/-- The condition for the outputs of a function. -/
def ReturnsFit (outputs : List (JsString × ValueType)) (vs : List AbiValue) : Prop :=
  ValueType.DecodesAll outputs vs ∧ ∀ name t, outputs = [(name, t)] → t.isStruct = true → t.unwraps = true

/-! ## Leaves -/

variable {env}

theorem decodeAddress_arr (hlaws : ReturnLaws env) (entries : List RetValue) (named : List (JsString × RetValue)) :
    decodeAddress env (.arr entries named) = none := by
  have hhex : tronToHexOf env (.arr entries named) = none := by
    have htruthy : (RetValue.arr entries named).truthy = true := rfl
    unfold tronToHexOf
    rw [if_pos htruthy]
    simp only [hlaws.refuses, Option.map_none]
  rw [decodeAddress, hhex]

theorem decodeAddress_checksummed (hlaws : ReturnLaws env) (a : HexText 40) :
    decodeAddress env (.str (env.checksummed a)) = some (.str (env.checksummed a)) := by
  have hkept : tronToHex env.ethers (env.checksummed a) = some (env.checksummed a) := by
    unfold tronToHex
    split
    · rename_i hempty
      rw [hempty]
    · exact hlaws.keeps a
  have hhex : tronToHexOf env (.str (env.checksummed a)) = some (.str (env.checksummed a)) := by
    unfold tronToHexOf
    split
    · simp only [hkept, Option.map_some]
    · rfl
  rw [decodeAddress, hhex]
  simp only [hlaws.checks]
  rfl

theorem Elementary.leaf_ne_arr {e : Elementary} {v : AbiValue} (h : e.Holds v) (entries : List RetValue)
    (named : List (JsString × RetValue)) : v.leaf env ≠ .arr entries named := by
  cases v with
  | items vs => exact h.elim
  | integer | address | bool | text => rintro ⟨⟩

/-- A leaf is decoded to itself. -/
theorem decodeOne_leaf (hlaws : ReturnLaws env) {e : Elementary} {v : AbiValue} (h : e.Holds v) (name : JsString)
    (components : Option (List AbiInput)) :
    decodeOne env (v.leaf env) (some ⟨e.name.text, name, components⟩) = some (v.leaf env) := by
  have hscalar : ∀ r : RetValue, decodeScalar env r (some ⟨e.name.text, name, components⟩) =
      if e.isAddress = true then decodeAddress env r
      else if e.isInteger = true then decodeInteger r else some r := by
    intro r
    have harray : ¬ "address[".toList <+: e.name.text := e.opens_no_array "address".toList
    unfold decodeScalar Elementary.isAddress Elementary.isInteger
    simp only [e.notTuple, harray, e.bracket_not_mem, false_and, if_false, decide_eq_true_eq]
  cases v with
  | integer i =>
    have hinteger : e.isInteger = true := h
    rw [AbiValue.leaf, decodeOne, hscalar, Elementary.isAddress_of_isInteger hinteger, if_neg Bool.false_ne_true,
      if_pos hinteger]
    rfl
  | address a =>
    have haddress : e.isAddress = true := h
    rw [AbiValue.leaf, decodeOne, hscalar, if_pos haddress]
    exact decodeAddress_checksummed hlaws a
  | bool b =>
    rw [AbiValue.leaf, decodeOne, hscalar, h.1, h.2, if_neg Bool.false_ne_true, if_neg Bool.false_ne_true]
  | text t =>
    rw [AbiValue.leaf, decodeOne, hscalar, h.1, h.2, if_neg Bool.false_ne_true, if_neg Bool.false_ne_true]
  | items vs => exact h.elim

/-! ## Arrays -/

/-- The components are for structs only. -/
theorem decodeOne_arr {type : JsString} (htuple : type ≠ "tuple".toList) (entries : List RetValue)
    (named : List (JsString × RetValue)) (name : JsString) (components : Option (List AbiInput)) :
    decodeOne env (.arr entries named) (some ⟨type, name, components⟩) =
      if type = "address".toList then decodeAddress env (.arr entries named)
      else if "address[".toList <+: type then (entries.mapM (decodeAddress env)).map fun decoded => .arr decoded []
      else if '[' ∈ type then
        (decodeEach env entries fun _ => some ⟨dropLastSuffix type, [], none⟩).map fun decoded => .arr decoded []
      else some (.arr entries named) := by
  cases components <;> rw [decodeOne, if_neg htuple]

/-- In the place of a leaf an array is left as it is, or refused. -/
theorem decodeOne_leaf_arr (hlaws : ReturnLaws env) (e : Elementary) (entries : List RetValue)
    (named : List (JsString × RetValue)) (name : JsString) (components : Option (List AbiInput)) :
    decodeOne env (.arr entries named) (some ⟨e.name.text, name, components⟩) =
      if e.isAddress = true then none else some (.arr entries named) := by
  have harray : ¬ "address[".toList <+: e.name.text := e.opens_no_array "address".toList
  rw [decodeOne_arr e.notTuple, decodeAddress_arr hlaws, if_neg harray, if_neg e.bracket_not_mem]
  unfold Elementary.isAddress
  simp only [decide_eq_true_eq]

theorem dropLastSuffix_append {w : JsString} (hw : '[' ∉ w) (r : JsString) :
    dropLastSuffix (w ++ r) = w ++ dropLastSuffix r := by
  induction w with
  | nil => rfl
  | cons c w ih =>
    obtain ⟨hc, hw⟩ := not_or.1 (fun h => hw (List.mem_cons.2 h))
    rw [List.cons_append, dropLastSuffix, if_neg fun h => hc h.1.symm, ih hw, List.cons_append]

theorem dropLastSuffix_dims (length : Option Nat) (dims : List (Option Nat)) :
    dropLastSuffix (dimsText dims ++ dimText length) = dimsText dims := by
  induction dims with
  | nil =>
    change dropLastSuffix ('[' :: ((length.map (Nat.toDigits 10)).getD [] ++ [']'])) = []
    rw [dropLastSuffix, if_pos]
    refine ⟨rfl, List.getLast?_concat, ?_⟩
    rw [List.dropLast_concat]
    exact not_mem_digits rfl length
  | cons d dims ih =>
    -- the first suffix ends inside the text
    have hinside : '[' ∉ (d.map (Nat.toDigits 10)).getD [] ++ [']'] := by
      rw [List.mem_append, List.mem_singleton, not_or]
      exact ⟨not_mem_digits rfl d, by decide⟩
    have hne : dimsText dims ++ dimText length ≠ [] := List.append_ne_nil_of_right_ne_nil _ (List.cons_ne_nil _ _)
    have htext : dimsText (d :: dims) ++ dimText length =
        '[' :: (((d.map (Nat.toDigits 10)).getD [] ++ [']']) ++ (dimsText dims ++ dimText length)) := by
      simp [dimsText, dimText]
    rw [htext, dropLastSuffix, if_neg, dropLastSuffix_append hinside, ih]
    · simp [dimsText, dimText]
    · rintro ⟨-, -, hmem⟩
      apply hmem
      rw [List.dropLast_append_of_ne_nil hne]
      exact List.mem_append_left _ (List.mem_append_right _ List.mem_cons_self)

theorem ValueType.dropLastSuffix_array (t : ValueType) (length : Option Nat) (name : JsString) :
    dropLastSuffix ((ValueType.array t length).abi name).type = (t.abi name).type := by
  rw [abi, abi_type, List.append_assoc, dropLastSuffix_append t.bracket_not_mem_baseText, dropLastSuffix_dims]

theorem decodeOne_array (t : ValueType) (length : Option Nat) (entries : List RetValue)
    (named : List (JsString × RetValue)) (name name' : JsString) (components : Option (List AbiInput)) :
    decodeOne env (.arr entries named) (some ⟨((ValueType.array t length).abi name).type, name', components⟩) =
      if t.base.isAddress = true then (entries.mapM (decodeAddress env)).map fun decoded => .arr decoded []
      else (decodeEach env entries fun _ => some ⟨(t.abi name).type, [], none⟩).map fun decoded => .arr decoded [] := by
  have haddress : "address[".toList <+: ((ValueType.array t length).abi name).type ↔ t.base.isAddress = true :=
    (t.opens_array_iff (by decide) length name).trans t.baseText_address_iff
  rw [decodeOne_arr (ValueType.array_ne (by decide)), if_neg (ValueType.array_ne (by decide)),
    if_pos (t.bracket_mem_array length name), t.dropLastSuffix_array]
  simp only [haddress]

theorem ValueType.shows_array {t : ValueType} {length : Option Nat} {vs : List AbiValue} {r : RetValue}
    (h : (ValueType.array t length).Shows env (.items vs) r) :
    ∃ entries named, r = .arr entries named ∧ List.Forall₂ (t.Shows env) vs entries := by
  cases r with
  | arr entries named => exact ⟨entries, named, rfl, h⟩
  | undefined | null | bool | num | bigint | str => exact h.elim

theorem ValueType.shows_struct {fields : List (JsString × ValueType)} {vs : List AbiValue} {r : RetValue}
    (h : (ValueType.struct fields).Shows env (.items vs) r) :
    ∃ entries named, r = .arr entries named ∧ ShowsAll env fields vs entries ∧
      Reachable env (fields.map Prod.fst) entries named := by
  cases r with
  | arr entries named => exact ⟨entries, named, rfl, h⟩
  | undefined | null | bool | num | bigint | str => exact h.elim

theorem ValueType.ShowsAll.length_eq {fields : List (JsString × ValueType)} {vs : List AbiValue}
    {entries : List RetValue} (h : ShowsAll env fields vs entries) : fields.length = entries.length := by
  induction fields generalizing vs entries with
  | nil =>
    cases vs <;> cases entries <;> first | rfl | exact h.elim
  | cons f fields ih =>
    cases vs with
    | nil => exact h.elim
    | cons v vs =>
      cases entries with
      | nil => exact h.elim
      | cons r entries => rw [List.length_cons, List.length_cons, ih h.2]

/-- Element by element. -/
theorem decodeEach_shows {t : ValueType} {output : Option AbiInput} {vs : List AbiValue} {entries : List RetValue}
    (hshows : List.Forall₂ (t.Shows env) vs entries)
    (h : ∀ v ∈ vs, ∀ r, t.Shows env v r → ∃ r', decodeOne env r output = some r' ∧ t.Shows env v r') :
    ∃ decoded, decodeEach env entries (fun _ => output) = some decoded ∧ List.Forall₂ (t.Shows env) vs decoded := by
  induction hshows with
  | nil => exact ⟨[], rfl, .nil⟩
  | @cons v r vs entries hr _ ih =>
    obtain ⟨r', hdecoded, hr'⟩ := h v List.mem_cons_self r hr
    obtain ⟨decoded, hrest, hall⟩ := ih fun v hv => h v (List.mem_cons_of_mem _ hv)
    refine ⟨r' :: decoded, ?_, .cons hr' hall⟩
    rw [decodeEach, hdecoded, hrest]

/-- Without its components a type is decoded as long as it is not of addresses. -/
theorem decodeOne_bare (hlaws : ReturnLaws env) (t : ValueType) :
    ∀ {v r} (name name' : JsString), t.base.isAddress = false → t.Holds v → t.Shows env v r →
      ∃ r', decodeOne env r (some ⟨(t.abi name).type, name', none⟩) = some r' ∧ t.Shows env v r' := by
  induction t using ValueType.induct with
  | helementary e =>
    intro v r name name' _ hholds hshows
    rw [ValueType.Shows] at hshows
    rw [hshows]
    exact ⟨_, decodeOne_leaf hlaws hholds name' none, rfl⟩
  | harray t length ih =>
    intro v r name name' haddress hholds hshows
    obtain ⟨vs, rfl, hvs⟩ := ValueType.holds_array hholds
    obtain ⟨entries, named, rfl, hentries⟩ := ValueType.shows_array hshows
    obtain ⟨decoded, hdecoded, hall⟩ :
        ∃ decoded, decodeEach env entries (fun _ => some ⟨(t.abi name).type, [], none⟩) = some decoded ∧
          List.Forall₂ (t.Shows env) vs decoded :=
      decodeEach_shows hentries fun v hv r hr => ih name [] haddress (hvs v hv) hr
    refine ⟨.arr decoded [], ?_, hall⟩
    have hbase : t.base.isAddress = false := haddress
    rw [decodeOne_array, hbase, if_neg Bool.false_ne_true, hdecoded, Option.map_some]
  | hstruct fields ih =>
    intro v r name name' _ hholds hshows
    obtain ⟨vs, rfl, -⟩ := ValueType.holds_struct hholds
    obtain ⟨entries, named, rfl, -⟩ := ValueType.shows_struct hshows
    exact ⟨.arr entries named, rfl, hshows⟩

/-! ## Structs -/

/-- Other names lead where they led. -/
theorem lookup_defineName_of_ne (entries : List RetValue) {l : List (JsString × Nat)} {n : JsString}
    (h : ∀ e ∈ l, e.1 ≠ n) (named : List (JsString × RetValue)) :
    (l.foldl (defineName env entries) named).lookup n = named.lookup n := by
  induction l generalizing named with
  | nil => rfl
  | cons e l ih =>
    rw [List.foldl_cons, ih fun e' he' => h e' (List.mem_cons_of_mem _ he')]
    unfold defineName
    split
    · rfl
    · rw [lookup_append_singleton, if_neg (h e List.mem_cons_self).symm, Option.or_none]

/-- What `defineProperty` adds can be read. -/
theorem reachable_namedEntries {names : List JsString} {entries : List RetValue}
    (hlength : names.length = entries.length) : Reachable env names entries (namedEntries env entries names) := by
  intro i n hi hne hfree hcount
  obtain ⟨hlt, hget⟩ := List.getElem?_eq_some_iff.1 hi
  obtain ⟨before, after, hsplit, hbefore⟩ : ∃ before after, names = before ++ n :: after ∧ before.length = i := by
    refine ⟨names.take i, names.drop (i + 1), ?_, List.length_take_of_le hlt.le⟩
    rw [← hget, ← List.drop_eq_getElem_cons hlt, List.take_append_drop]
  obtain ⟨hnotBefore, hnotAfter⟩ : n ∉ before ∧ n ∉ after := by
    rw [hsplit, List.count_append, List.count_cons_self] at hcount
    exact ⟨List.count_eq_zero.1 (by omega), List.count_eq_zero.1 (by omega)⟩
  have hother : ∀ {l : List JsString} {k : Nat}, n ∉ l → ∀ e ∈ l.zipIdx k, e.1 ≠ n := by
    rintro l k hl e he rfl
    exact hl (List.fst_mem_of_mem_zipIdx he)
  have hentry : entries[i]? = some entries[i] := List.getElem?_eq_getElem (hlength ▸ hlt)
  have hfirst : (before.zipIdx.foldl (defineName env entries) []).lookup n = none :=
    lookup_defineName_of_ne entries (hother hnotBefore) []
  unfold namedEntries
  rw [hsplit, List.zipIdx_append, List.foldl_append, List.zipIdx_cons, List.foldl_cons,
    lookup_defineName_of_ne entries (hother hnotAfter)]
  have hnew : ¬ (n = [] ∨ env.isArrayProperty n = true ∨
      ((before.zipIdx.foldl (defineName env entries) []).lookup n).isSome = true) := by
    rw [hfirst, hfree]
    simp [hne]
  unfold defineName at hnew hfirst ⊢
  rw [if_neg hnew, lookup_append_singleton, hfirst, if_pos rfl, Option.none_or, Nat.zero_add, hbefore, hentry]
  rfl

theorem isWrapped_of_length {n : Nat} {entries : List RetValue} (h : entries.length = n) :
    isWrapped n entries = false := by
  subst h
  rcases entries with _ | ⟨r, _ | ⟨r', entries⟩⟩
  · rfl
  · cases r <;> rfl
  · cases r <;> rfl

/-- A struct that stands in no wrapper. -/
theorem decodeOne_struct {fields : List (JsString × ValueType)} {entries : List RetValue}
    (hplain : isWrapped fields.length entries = false) (named : List (JsString × RetValue)) (name : JsString) :
    decodeOne env (.arr entries named) (some ((ValueType.struct fields).abi name)) =
      (decodeEach env entries fun i => (ValueType.abis fields)[i]?).map fun decoded =>
        .arr decoded (namedEntries env decoded (fields.map Prod.fst)) := by
  rw [ValueType.abi, decodeOne, if_pos rfl, ValueType.abis_names, ValueType.length_abis, hplain]
  rfl

/-- What decoding a value of the type gives. -/
def DecodesAs (env : ReturnEnv) (t : ValueType) (v : AbiValue) (result : Option RetValue) : Prop :=
  (t.Decodes v → ∃ r, result = some r ∧ t.Shows env v r) ∧ (¬ t.Decodes v → result = none)

theorem DecodesAs.iff {t : ValueType} {v : AbiValue} {result : Option RetValue} (h : DecodesAs env t v result) :
    (∃ r, result = some r ∧ t.Shows env v r) ↔ t.Decodes v := by
  constructor
  · rintro ⟨r, hr, -⟩
    by_contra hnot
    rw [h.2 hnot] at hr
    cases hr
  · exact h.1

/-- Component by component. -/
theorem decodeEach_fields {fields : List (JsString × ValueType)}
    (ih : ∀ f ∈ fields, ∀ v r name, f.2.Holds v → f.2.Shows env v r →
      DecodesAs env f.2 v (decodeOne env r (some (f.2.abi name)))) {vs : List AbiValue} {entries : List RetValue}
    (hholds : ValueType.HoldsAll fields vs) (hshows : ValueType.ShowsAll env fields vs entries) :
    (ValueType.DecodesAll fields vs → ∃ decoded,
      decodeEach env entries (fun i => (ValueType.abis fields)[i]?) = some decoded ∧
      ValueType.ShowsAll env fields vs decoded) ∧
    (¬ ValueType.DecodesAll fields vs → decodeEach env entries (fun i => (ValueType.abis fields)[i]?) = none) := by
  induction fields generalizing vs entries with
  | nil =>
    cases vs with
    | cons v vs => exact hholds.elim
    | nil =>
      cases entries with
      | cons r entries => exact hshows.elim
      | nil => exact ⟨fun _ => ⟨[], rfl, trivial⟩, fun h => absurd trivial h⟩
  | cons f fields ihf =>
    cases vs with
    | nil => exact hholds.elim
    | cons v vs =>
      cases entries with
      | nil => exact hshows.elim
      | cons r entries =>
        obtain ⟨hok, hnone⟩ := ih f List.mem_cons_self v r f.1 hholds.1 hshows.1
        obtain ⟨hrestOk, hrestNone⟩ := ihf (fun f hf => ih f (List.mem_cons_of_mem _ hf)) hholds.2 hshows.2
        have hstep : decodeEach env (r :: entries) (fun i => (ValueType.abis (f :: fields))[i]?) =
            match decodeOne env r (some (f.2.abi f.1)),
              decodeEach env entries (fun i => (ValueType.abis fields)[i]?) with
            | some decoded, some rest => some (decoded :: rest)
            | _, _ => none := rfl
        rw [hstep]
        constructor
        · rintro ⟨hd, hds⟩
          obtain ⟨r', hr', hshown⟩ := hok hd
          obtain ⟨decoded, hdecoded, hall⟩ := hrestOk hds
          exact ⟨r' :: decoded, by rw [hr', hdecoded], hshown, hall⟩
        · intro hnot
          by_cases hd : f.2.Decodes v
          · have hds : ¬ ValueType.DecodesAll fields vs := fun h => hnot ⟨hd, h⟩
            rw [hrestNone hds]
            cases decodeOne env r (some (f.2.abi f.1)) <;> rfl
          · rw [hnone hd]

theorem decodeAddresses_leaves (hlaws : ReturnLaws env) {e : Elementary} (haddress : e.isAddress = true)
    {vs : List AbiValue} {entries : List RetValue} (hvs : ∀ v ∈ vs, (ValueType.elementary e).Holds v)
    (hentries : List.Forall₂ ((ValueType.elementary e).Shows env) vs entries) :
    entries.mapM (decodeAddress env) = some entries := by
  induction hentries with
  | nil => rfl
  | @cons v r vs entries hr _ ih =>
    have hholds : e.Holds v := hvs v List.mem_cons_self
    rw [ValueType.Shows] at hr
    have hself : decodeAddress env r = some r := by
      cases v with
      | address a =>
        rw [hr]
        exact decodeAddress_checksummed hlaws a
      | integer i =>
        have hinteger : e.isInteger = true := hholds
        rw [Elementary.isAddress_of_isInteger hinteger] at haddress
        cases haddress
      | bool b =>
        rw [hholds.2] at haddress
        cases haddress
      | text t =>
        rw [hholds.2] at haddress
        cases haddress
      | items vs => exact hholds.elim
    rw [List.mapM_cons, hself, ih fun v hv => hvs v (List.mem_cons_of_mem _ hv)]
    rfl

/-- An array in the place of an address is refused. -/
theorem decodeAddresses_arrays (hlaws : ReturnLaws env) {t : ValueType} {length : Option Nat} {vs : List AbiValue}
    {entries : List RetValue} (hvs : ∀ v ∈ vs, (ValueType.array t length).Holds v) (hne : vs ≠ [])
    (hentries : List.Forall₂ ((ValueType.array t length).Shows env) vs entries) :
    entries.mapM (decodeAddress env) = none := by
  cases hentries with
  | nil => exact absurd rfl hne
  | @cons v r vs entries hr =>
    obtain ⟨ws, rfl, -⟩ := ValueType.holds_array (hvs v List.mem_cons_self)
    obtain ⟨inner, named, rfl, -⟩ := ValueType.shows_array hr
    rw [List.mapM_cons, decodeAddress_arr hlaws]
    rfl

/-- A value in its place is decoded, or refused for the arrays of addresses in it. -/
theorem decodeOne_shows (hlaws : ReturnLaws env) (t : ValueType) : ∀ v r name, t.Holds v → t.Shows env v r →
    DecodesAs env t v (decodeOne env r (some (t.abi name))) := by
  induction t using ValueType.induct with
  | helementary e =>
    intro v r name hholds hshows
    rw [ValueType.Shows] at hshows
    have hself : decodeOne env (v.leaf env) (some ⟨e.name.text, name, none⟩) = some (v.leaf env) :=
      decodeOne_leaf hlaws hholds name none
    exact ⟨fun _ => ⟨_, hshows ▸ hself, rfl⟩, fun h => absurd trivial h⟩
  | harray t length ih =>
    intro v r name hholds hshows
    obtain ⟨vs, rfl, hvs⟩ := ValueType.holds_array hholds
    obtain ⟨entries, named, rfl, hentries⟩ := ValueType.shows_array hshows
    have hdecode : decodeOne env (.arr entries named) (some ((ValueType.array t length).abi name)) = _ :=
      decodeOne_array t length entries named name name (t.abi name).components
    by_cases hbase : t.base.isAddress = true
    · rw [if_pos hbase] at hdecode
      rw [hdecode]
      cases t with
      | elementary e =>
        have hself := decodeAddresses_leaves hlaws hbase hvs hentries
        refine ⟨fun _ => ⟨.arr entries [], by rw [hself, Option.map_some], hentries⟩, fun hnot => absurd ?_ hnot⟩
        intro harray
        cases harray
      | array t' length' =>
        constructor
        · intro hempty
          obtain rfl : vs = [] := hempty rfl hbase
          cases hentries
          exact ⟨.arr [] [], rfl, .nil⟩
        · intro hnot
          have hne : vs ≠ [] := fun h => hnot fun _ _ => h
          rw [decodeAddresses_arrays hlaws hvs hne hentries, Option.map_none]
      | struct fields => cases hbase
    · have hnot : t.base.isAddress = false := Bool.eq_false_iff.2 hbase
      obtain ⟨decoded, hdecoded, hall⟩ :
          ∃ decoded, decodeEach env entries (fun _ => some ⟨(t.abi name).type, [], none⟩) = some decoded ∧
            List.Forall₂ (t.Shows env) vs decoded :=
        decodeEach_shows hentries fun v hv r hr => decodeOne_bare hlaws t name [] hnot (hvs v hv) hr
      rw [if_neg hbase, hdecoded] at hdecode
      rw [hdecode]
      exact ⟨fun _ => ⟨.arr decoded [], rfl, hall⟩, fun h => absurd (fun _ haddress => absurd haddress hbase) h⟩
  | hstruct fields ih =>
    intro v r name hholds hshows
    obtain ⟨vs, rfl, hvs⟩ := ValueType.holds_struct hholds
    obtain ⟨entries, named, rfl, hentries, -⟩ := ValueType.shows_struct hshows
    have hlength := hentries.length_eq
    obtain ⟨hok, hnone⟩ := decodeEach_fields ih hvs hentries
    rw [decodeOne_struct (isWrapped_of_length hlength.symm)]
    constructor
    · intro hdecodes
      obtain ⟨decoded, hdecoded, hall⟩ := hok hdecodes
      have hreach : Reachable env (fields.map Prod.fst) decoded (namedEntries env decoded (fields.map Prod.fst)) :=
        reachable_namedEntries (by rw [List.length_map, hall.length_eq])
      exact ⟨.arr decoded _, by rw [hdecoded, Option.map_some], hall, hreach⟩
    · intro hnot
      rw [hnone hnot, Option.map_none]

/-! ## A single output -/

/-- No value is what its own wrapper shows. -/
theorem ValueType.not_shows_wrapped (t : ValueType) : ∀ {v r} (named : List (JsString × RetValue)), t.Holds v →
    t.Shows env v r → ¬ t.Shows env v (.arr [r] named) := by
  induction t using ValueType.induct with
  | helementary e =>
    intro v r named hholds _ hwrapped
    rw [Shows] at hwrapped
    exact Elementary.leaf_ne_arr hholds _ _ hwrapped.symm
  | harray t length ih =>
    intro v r named hholds hshows hwrapped
    obtain ⟨vs, rfl, hvs⟩ := holds_array hholds
    obtain ⟨entries, named', rfl, hentries⟩ := shows_array hshows
    obtain ⟨_, _, he, hsingle⟩ := shows_array hwrapped
    obtain ⟨rfl, rfl⟩ := RetValue.arr.inj he
    cases hsingle with
    | @cons v _ vs _ hr hnil =>
      cases hnil
      cases hentries with
      | @cons _ r' _ entries hr' hnil =>
        cases hnil
        exact ih named' (hvs v List.mem_cons_self) hr' hr
  | hstruct fields ih =>
    intro v r named hholds hshows hwrapped
    obtain ⟨vs, rfl, hvs⟩ := holds_struct hholds
    obtain ⟨entries, named', rfl, hentries, -⟩ := shows_struct hshows
    obtain ⟨_, _, he, hsingle, -⟩ := shows_struct hwrapped
    obtain ⟨rfl, rfl⟩ := RetValue.arr.inj he
    obtain ⟨f, rfl⟩ := List.length_eq_one_iff.1 hsingle.length_eq
    obtain ⟨r', rfl⟩ := List.length_eq_one_iff.1 hentries.length_eq.symm
    cases vs with
    | nil => exact hsingle.elim
    | cons v vs => exact ih f List.mem_cons_self named' hvs.1 hentries.1 hsingle.1

/-- A wrapped value is not decoded without its components. -/
theorem decodeOne_wrapped_bare (hlaws : ReturnLaws env) (t : ValueType) :
    ∀ {v r r'} (named : List (JsString × RetValue)) (name name' : JsString), t.Holds v → t.Shows env v r →
      decodeOne env (.arr [r] named) (some ⟨(t.abi name).type, name', none⟩) = some r' → ¬ t.Shows env v r' := by
  induction t using ValueType.induct with
  | helementary e =>
    intro v r r' named name name' hholds _ hdecode hshown
    have hself := decodeOne_leaf_arr hlaws e [r] named name' none
    rw [show ((ValueType.elementary e).abi name).type = e.name.text from rfl, hself] at hdecode
    rw [ValueType.Shows] at hshown
    split at hdecode
    · cases hdecode
    · obtain rfl := Option.some.inj hdecode
      exact Elementary.leaf_ne_arr hholds _ _ hshown.symm
  | harray t length ih =>
    intro v r r' named name name' hholds hshows hdecode hshown
    obtain ⟨vs, rfl, hvs⟩ := ValueType.holds_array hholds
    obtain ⟨entries, named', rfl, hentries⟩ := ValueType.shows_array hshows
    rw [decodeOne_array] at hdecode
    split at hdecode
    · rw [List.mapM_cons, decodeAddress_arr hlaws] at hdecode
      cases hdecode
    · obtain ⟨decoded, hdecoded, rfl⟩ := Option.map_eq_some_iff.1 hdecode
      rw [decodeEach, decodeEach] at hdecoded
      cases hq : decodeOne env (.arr entries named') (some ⟨(t.abi name).type, [], none⟩) with
      | none =>
        rw [hq] at hdecoded
        cases hdecoded
      | some q =>
        rw [hq] at hdecoded
        obtain rfl := Option.some.inj hdecoded
        obtain ⟨_, _, he, hsingle⟩ := ValueType.shows_array hshown
        obtain ⟨rfl, rfl⟩ := RetValue.arr.inj he
        cases hsingle with
        | @cons v _ vs _ hshownQ hnil =>
          cases hnil
          cases hentries with
          | @cons _ r₁ _ entries hr₁ hnil =>
            cases hnil
            exact ih named' name [] (hvs v List.mem_cons_self) hr₁ hq hshownQ
  | hstruct fields ih =>
    intro v r r' named name name' hholds hshows hdecode
    obtain rfl := Option.some.inj hdecode
    exact ValueType.not_shows_wrapped _ named hholds hshows

/-- The components do not help when the struct does not unwrap. -/
theorem decodeOne_wrapped_not (hlaws : ReturnLaws env) (t : ValueType) :
    ∀ {v r r'} (named : List (JsString × RetValue)) (name : JsString), t.unwraps = false → t.Holds v →
      t.Shows env v r → decodeOne env (.arr [r] named) (some (t.abi name)) = some r' → ¬ t.Shows env v r' := by
  induction t using ValueType.induct with
  | helementary e =>
    intro v r r' named name _ hholds hshows hdecode
    exact decodeOne_wrapped_bare hlaws (.elementary e) named name name hholds hshows hdecode
  | harray t length ih =>
    intro v r r' named name _ hholds hshows hdecode
    have hbare : decodeOne env (.arr [r] named) (some ⟨((ValueType.array t length).abi name).type, name, none⟩) =
        some r' := by
      rw [decodeOne_arr (ValueType.array_ne (by decide))]
      exact (decodeOne_arr (ValueType.array_ne (by decide)) [r] named name _).symm.trans hdecode
    exact decodeOne_wrapped_bare hlaws (.array t length) named name name hholds hshows hbare
  | hstruct fields ih =>
    intro v r r' named name hunwraps hholds hshows hdecode hshown
    obtain ⟨vs, rfl, hvs⟩ := ValueType.holds_struct hholds
    obtain ⟨entries, named', rfl, hentries, -⟩ := ValueType.shows_struct hshows
    have hplain : isWrapped fields.length [.arr entries named'] = false := by
      rcases fields with _ | ⟨f, _ | ⟨f', fields⟩⟩
      · rfl
      · rfl
      · cases hunwraps
    rw [decodeOne_struct hplain] at hdecode
    obtain ⟨decoded, hdecoded, rfl⟩ := Option.map_eq_some_iff.1 hdecode
    obtain ⟨_, _, he, hall, -⟩ := ValueType.shows_struct hshown
    obtain ⟨rfl, rfl⟩ := RetValue.arr.inj he
    rw [decodeEach, decodeEach] at hdecoded
    cases hq : decodeOne env (.arr entries named') (ValueType.abis fields)[0]? with
    | none =>
      rw [hq] at hdecoded
      cases hdecoded
    | some q =>
      rw [hq] at hdecoded
      obtain rfl := Option.some.inj hdecoded
      obtain ⟨f, rfl⟩ := List.length_eq_one_iff.1 hall.length_eq
      obtain ⟨r₁, rfl⟩ := List.length_eq_one_iff.1 hentries.length_eq.symm
      cases vs with
      | nil => exact hall.elim
      | cons v vs => exact ih f List.mem_cons_self named' f.1 hunwraps hvs.1 hentries.1 hq hall.1

/-- A struct that unwraps is decoded from inside its wrapper. -/
theorem decodeOne_wrapped (hlaws : ReturnLaws env) (t : ValueType) :
    ∀ {v r} (named : List (JsString × RetValue)) (name : JsString), t.unwraps = true → t.Holds v → t.Shows env v r →
      DecodesAs env t v (decodeOne env (.arr [r] named) (some (t.abi name))) := by
  induction t using ValueType.induct with
  | helementary e =>
    intro v r named name hunwraps
    cases hunwraps
  | harray t length ih =>
    intro v r named name hunwraps
    cases hunwraps
  | hstruct fields ih =>
    intro v r named name hunwraps hholds hshows
    obtain ⟨vs, rfl, hvs⟩ := ValueType.holds_struct hholds
    obtain ⟨entries, named', rfl, hentries, hreach⟩ := ValueType.shows_struct hshows
    have hlength := hentries.length_eq
    rcases fields with _ | ⟨f, _ | ⟨f', fields⟩⟩
    · cases hunwraps
    · -- one component: it is unwrapped in its turn
      obtain ⟨r₁, rfl⟩ := List.length_eq_one_iff.1 hlength.symm
      cases vs with
      | nil => exact hvs.elim
      | cons v vs =>
        obtain ⟨hok, hnone⟩ := ih f List.mem_cons_self named' f.1 hunwraps hvs.1 hentries.1
        have hstep : decodeEach env [.arr [r₁] named'] (fun i => (ValueType.abis [f])[i]?) =
            (decodeOne env (.arr [r₁] named') (some (f.2.abi f.1))).map fun q => [q] := by
          rw [decodeEach, decodeEach, show (ValueType.abis [f])[0]? = some (f.2.abi f.1) from rfl]
          cases decodeOne env (.arr [r₁] named') (some (f.2.abi f.1)) <;> rfl
        rw [decodeOne_struct (show isWrapped [f].length [.arr [r₁] named'] = false from rfl), hstep]
        constructor
        · intro hdecodes
          obtain ⟨q, hq, hshown⟩ := hok hdecodes.1
          have hreachQ : Reachable env ([f].map Prod.fst) [q] (namedEntries env [q] ([f].map Prod.fst)) :=
            reachable_namedEntries rfl
          have hall : ValueType.ShowsAll env [f] (v :: vs) [q] := ⟨hshown, hentries.2⟩
          exact ⟨.arr [q] _, by rw [hq, Option.map_some, Option.map_some], hall, hreachQ⟩
        · intro hnot
          have hd : ¬ f.2.Decodes v := fun h => hnot ⟨h, trivial⟩
          rw [hnone hd, Option.map_none, Option.map_none]
    · have hwrapped : isWrapped (f :: f' :: fields).length [.arr entries named'] = true := by
        simp [isWrapped, ← hlength]
      have hplain := isWrapped_of_length hlength.symm
      have hsame : decodeOne env (.arr [.arr entries named'] named)
          (some ((ValueType.struct (f :: f' :: fields)).abi name)) =
          decodeOne env (.arr entries named') (some ((ValueType.struct (f :: f' :: fields)).abi name)) := by
        rw [decodeOne_struct hplain, ValueType.abi, decodeOne, if_pos rfl, ValueType.abis_names,
          ValueType.length_abis, hwrapped]
        rfl
      rw [hsame]
      exact decodeOne_shows hlaws _ (.items vs) (.arr entries named') name hvs ⟨hentries, hreach⟩

theorem ValueType.type_tuple_iff (name : JsString) (t : ValueType) :
    (t.abi name).type = "tuple".toList ↔ t.isStruct = true := by
  cases t with
  | elementary e => exact ⟨fun h => absurd h e.notTuple, fun h => by cases h⟩
  | array t length => exact ⟨fun h => absurd h (array_ne (by decide)), fun h => by cases h⟩
  | struct fields => exact ⟨fun _ => rfl, fun _ => rfl⟩

/-- A single output. -/
theorem decodeReturn_single (hlaws : ReturnLaws env) {name : JsString} {t : ValueType} {v : AbiValue} {r : RetValue}
    (named : List (JsString × RetValue)) (hholds : t.Holds v) (hshows : t.Shows env v r) :
    (∃ r', decodeReturn env (.arr [r] named) [t.abi name] = some r' ∧ t.Shows env v r') ↔
      t.Decodes v ∧ (t.isStruct = true → t.unwraps = true) := by
  by_cases hstruct : t.isStruct = true
  · have hwhole : decodeReturn env (.arr [r] named) [t.abi name] =
        decodeOne env (.arr [r] named) (some (t.abi name)) := by
      rw [decodeReturn, if_pos ((t.type_tuple_iff name).2 hstruct)]
    rw [hwhole]
    by_cases hunwraps : t.unwraps = true
    · rw [(decodeOne_wrapped hlaws t named name hunwraps hholds hshows).iff]
      exact ⟨fun h => ⟨h, fun _ => hunwraps⟩, And.left⟩
    · constructor
      · rintro ⟨r', hr', hshown⟩
        exact absurd hshown
          (decodeOne_wrapped_not hlaws t named name (Bool.eq_false_iff.2 hunwraps) hholds hshows hr')
      · rintro ⟨-, h⟩
        exact absurd (h hstruct) hunwraps
  · have hentry : decodeReturn env (.arr [r] named) [t.abi name] = decodeOne env r (some (t.abi name)) := by
      rw [decodeReturn, if_neg fun h => hstruct ((t.type_tuple_iff name).1 h)]
      rfl
    rw [hentry, (decodeOne_shows hlaws t v r name hholds hshows).iff]
    exact ⟨fun h => ⟨h, fun h' => absurd h' hstruct⟩, And.left⟩

/-- Decoding gives back what was returned exactly when a single struct unwraps and no array of several dimensions
of addresses has an element, save inside arrays of structs. -/
theorem decodeReturn_iff (hlaws : ReturnLaws env) {outputs : List (JsString × ValueType)} {vs : List AbiValue}
    {entries : List RetValue} (named : List (JsString × RetValue)) (hholds : ValueType.HoldsAll outputs vs)
    (hshows : ValueType.ShowsAll env outputs vs entries) :
    (∃ r, decodeReturn env (.arr entries named) (ValueType.abis outputs) = some r ∧ Returned env outputs vs r) ↔
      ReturnsFit outputs vs := by
  have hlength := hholds.length_eq
  have hlength' := hshows.length_eq
  rcases outputs with _ | ⟨⟨name, t⟩, _ | ⟨o', outputs⟩⟩
  · obtain rfl := List.eq_nil_of_length_eq_zero hlength.symm
    obtain rfl := List.eq_nil_of_length_eq_zero hlength'.symm
    constructor
    · rintro -
      refine ⟨trivial, ?_⟩
      rintro name t ⟨⟩
    · rintro -
      exact ⟨.arr [] named, rfl, [], named, rfl, trivial⟩
  · obtain ⟨v, rfl⟩ := List.length_eq_one_iff.1 hlength.symm
    obtain ⟨r, rfl⟩ := List.length_eq_one_iff.1 hlength'.symm
    refine (decodeReturn_single hlaws named hholds.1 hshows.1).trans ?_
    constructor
    · rintro ⟨hdecodes, hunwraps⟩
      refine ⟨⟨hdecodes, trivial⟩, ?_⟩
      rintro name' t' ⟨⟩
      exact hunwraps
    · rintro ⟨⟨hdecodes, -⟩, hunwraps⟩
      exact ⟨hdecodes, hunwraps name t rfl⟩
  · obtain ⟨hok, hnone⟩ := decodeEach_fields (fun f _ => decodeOne_shows hlaws f.2) hholds hshows
    have hseveral : decodeReturn env (.arr entries named) (ValueType.abis ((name, t) :: o' :: outputs)) =
        (decodeEach env entries fun i => (ValueType.abis ((name, t) :: o' :: outputs))[i]?).map fun decoded =>
          .arr decoded (namedEntries env decoded ((ValueType.abis ((name, t) :: o' :: outputs)).map (·.name))) := rfl
    rw [hseveral]
    constructor
    · rintro ⟨r, hr, -⟩
      refine ⟨?_, ?_⟩
      · by_contra hnot
        rw [hnone hnot] at hr
        cases hr
      · rintro name' t' ⟨⟩
    · rintro ⟨hdecodes, -⟩
      obtain ⟨decoded, hdecoded, hall⟩ := hok hdecodes
      cases vs with
      | nil => exact hholds.elim
      | cons v vs => exact ⟨_, by rw [hdecoded, Option.map_some], decoded, _, rfl, hall⟩

end

/-! ## A struct on its own -/

/-- Codecs that keep lowercase addresses. -/
def lowercaseEnv : ReturnEnv where
  isArrayProperty name := name = "length".toList ∨ name = "map".toList
  checksummed a := "0x".toList ++ a.text
  ethers := ⟨some, fun s => if isEvmHex s then some s else none, fun _ => none⟩
  toHexOther _ := "0x".toList

theorem isEvmHex_text (a : HexText 40) : isEvmHex ("0x".toList ++ a.text) = true := by
  have hdigits : a.text.all isHexDigit = true := List.all_eq_true.2 a.digits
  change ((true || false) && decide (a.text.length = 40) && a.text.all isHexDigit) = true
  rw [hdigits, a.length_eq]
  rfl

theorem lowercaseEnv_laws : ReturnLaws lowercaseEnv where
  keeps a := if_pos (isEvmHex_text a)
  checks a := if_pos (isEvmHex_text a)
  refuses _ _ := rfl

def uint256Value : ValueType := .elementary uint256Name

/-- `struct { uint256 key; uint256 value; }` -/
def checkpoint : ValueType := .struct [("key".toList, uint256Value), ("value".toList, uint256Value)]

def twoNumbers : List RetValue := [.bigint 2, .bigint 17]

/-- A struct of two components is decoded from inside its wrapper. -/
theorem checkpoint_decoded :
    (∃ r, decodeReturn lowercaseEnv
        (.arr [.arr twoNumbers (namedEntries lowercaseEnv twoNumbers ["key".toList, "value".toList])] [])
        (ValueType.abis [("ret".toList, checkpoint)]) = some r ∧
      Returned lowercaseEnv [("ret".toList, checkpoint)] [.items [.integer 2, .integer 17]] r) ↔
    ReturnsFit [("ret".toList, checkpoint)] [.items [.integer 2, .integer 17]] :=
  decodeReturn_iff lowercaseEnv_laws [] ⟨⟨rfl, rfl, trivial⟩, trivial⟩
    ⟨⟨⟨rfl, rfl, trivial⟩, reachable_namedEntries rfl⟩, trivial⟩

/-- A struct of one number comes back with the number in its wrapper. -/
theorem single_component_wrapped : ¬ ∀ (env : ReturnEnv) (outputs : List (JsString × ValueType)) (vs : List AbiValue)
    (entries : List RetValue) (named : List (JsString × RetValue)), ReturnLaws env → ValueType.HoldsAll outputs vs →
    ValueType.ShowsAll env outputs vs entries →
    ∃ r, decodeReturn env (.arr entries named) (ValueType.abis outputs) = some r ∧ Returned env outputs vs r := by
  intro h
  obtain ⟨r, hr, hshown⟩ := h lowercaseEnv [([], .struct [(['x'], uint256Value)])] [.items [.integer 7]]
    [.arr [.bigint 7] (namedEntries lowercaseEnv [.bigint 7] [['x']])] [] lowercaseEnv_laws ⟨⟨rfl, trivial⟩, trivial⟩
    ⟨⟨⟨rfl, trivial⟩, reachable_namedEntries rfl⟩, trivial⟩
  obtain rfl := Option.some.inj hr
  obtain ⟨_, _, he, hall, -⟩ := ValueType.shows_struct hshown
  obtain ⟨rfl, rfl⟩ := RetValue.arr.inj he
  exact RetValue.noConfusion hall.1

end HardhatTron

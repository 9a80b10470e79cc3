import HardhatTron.Runtime.AddressArgs
/-!
# Arguments for the encoder of ethers

An argument is normalised for TronWeb and then coerced for ethers. Both walk
down the ABI type of the argument, and each lists the arrays that it enters.
`encoderArg_iff` says for which arguments every address comes out as the encoder
wants it.
-/
namespace HardhatTron

open Lib

/-- `coerceForEthers(normalizeArg(value, input, nested), input)` -/
def encoderArg (codec : AddressCodec) (evmToTvm : EvmToTvm) (nested : Bool) (input : AbiInput) (value : JsValue) :
    Option JsValue :=
  (normalizeArg codec evmToTvm value (some input) nested).bind fun v => coerceForEthers codec v (some input)

section

variable (codec : AddressCodec)

/-! ## Arguments of a type -/

def JsValue.isPrimitive : JsValue → Bool
  | .bool _ => true
  | .num _ => true
  | .bigint _ => true
  | .str _ => true
  | _ => false

/-- The components of a struct, from a list or by their names. -/
def JsValue.componentValues (names : List JsString) : JsValue → Option (List JsValue)
  | .arr vs => some vs
  | .obj fs =>
    if isTyped fs = false ∧ names.Nodup ∧ names.contains [] = false then names.mapM fun name => fs.lookup name else none
  | _ => none

/-- The same struct with other components. -/
def JsValue.withComponents (names : List JsString) (v : JsValue) (vs : List JsValue) : JsValue :=
  match v with
  | .obj _ => .obj (names.zip vs)
  | _ => .arr vs

/-- The elements of an array. -/
def JsValue.elements : JsValue → List JsValue
  | .arr vs => vs
  | _ => []

mutual
/-- `v` has the shape of the type, with any form of address. -/
def ValueType.Fits : ValueType → JsValue → Prop
  | .elementary e, v => if e.isAddress = true then ∃ a, AddressForm codec a v else v.isPrimitive = true
  | .array t length, v => ∃ vs, v = .arr vs ∧ (∀ n ∈ length, vs.length = n) ∧ ∀ w ∈ vs, t.Fits w
  | .struct fields, v => ∃ vs, v.componentValues (fields.map Prod.fst) = some vs ∧ ValueType.FitsAll fields vs

def ValueType.FitsAll : List (JsString × ValueType) → List JsValue → Prop
  | [], [] => True
  | (_, t) :: fields, v :: vs => t.Fits v ∧ ValueType.FitsAll fields vs
  | _, _ => False
end

/-! ## What the encoder wants -/

variable (actual : Account → Option Account)

mutual
/-- `v'` is `v` for the encoder. -/
def ValueType.Encodes : ValueType → JsValue → JsValue → Prop
  | .elementary e, v, v' =>
    if e.isAddress = true then ∀ a, AddressForm codec a v → IsHexOf (landing actual a) v'
    else v' = v ∨ ∃ i, v = .bigint i ∧ v' = .str (decimal i)
  | .array t _, v, v' => ∃ vs vs', v = .arr vs ∧ v' = .arr vs' ∧ List.Forall₂ t.Encodes vs vs'
  | .struct fields, v, v' => ∃ vs vs', v.componentValues (fields.map Prod.fst) = some vs ∧
      v' = v.withComponents (fields.map Prod.fst) vs' ∧ ValueType.EncodesAll fields vs vs'

def ValueType.EncodesAll : List (JsString × ValueType) → List JsValue → List JsValue → Prop
  | [], [], [] => True
  | (_, t) :: fields, v :: vs, v' :: vs' => t.Encodes v v' ∧ ValueType.EncodesAll fields vs vs'
  | _, _, _ => False
end

/-! ## The condition -/

/-- The arrays that the walks enter as such: `address[]`, and one dimension of structs. -/
def ValueType.entered : ValueType → Option Nat → Bool
  | .elementary e, none => e.isAddress
  | .struct _, _ => true
  | _, _ => false

mutual
/-- `p` holds wherever the walks end: at the leaves, and at the arrays they do not enter. The flag tells what is
inside a struct. -/
def ValueType.AtEnds (p : Bool → ValueType → JsValue → Prop) : Bool → ValueType → JsValue → Prop
  | nested, .elementary e, v => p nested (.elementary e) v
  | nested, .array t length, v =>
    if t.entered length = true then ∀ w ∈ v.elements, t.AtEnds p nested w else p nested (.array t length) v
  | _, .struct fields, v =>
    ∀ vs, v.componentValues (fields.map Prod.fst) = some vs → ValueType.AtEndsAll p fields vs

def ValueType.AtEndsAll (p : Bool → ValueType → JsValue → Prop) : List (JsString × ValueType) → List JsValue → Prop
  | (_, t) :: fields, v :: vs => t.AtEnds p true v ∧ ValueType.AtEndsAll p fields vs
  | _, _ => True
end

/-- `p` holds of what the arrays are of, through all dimensions. -/
def ValueType.EveryBase (p : ValueType → JsValue → Prop) : ValueType → JsValue → Prop
  | .array t _, v => ∀ w ∈ v.elements, t.EveryBase p w
  | .elementary e, v => p (.elementary e) v
  | .struct fields, v => p (.struct fields) v

/-- No struct is inside an array of several dimensions. -/
def NoMatrix (_nested : Bool) (t : ValueType) (v : JsValue) : Prop :=
  t.EveryBase (fun base _ => base.isStruct = false) v

/-- The walks bring the addresses to their accounts, or they are there already: an object without an `address` is
left as it is in a struct, unless the map has it, and so is an array that is not entered. -/
def InPlace (nested : Bool) (t : ValueType) (v : JsValue) : Prop :=
  if t.isArray = true then
    t.EveryBase (fun base w => base.isAddress = true → ∀ a, AddressForm codec a w → IsHexOf (landing actual a) w) v
  else t.isAddress = true → nested = true → ∀ fs, asAddressString v = .obj fs →
    ∀ a, AddressForm codec a v → (actual a).isSome = true

variable {codec} {actual} {evmToTvm : EvmToTvm}

/-! ## Arrays that are left alone -/

/-- Arrays of arrays, with nothing else in them. -/
inductive JsValue.Nest : JsValue → Prop
  | arr {vs} (h : ∀ v ∈ vs, Nest v) : Nest (.arr vs)

theorem normalizeAddress_arr (vs : List JsValue) (nested : Bool) :
    normalizeAddress codec evmToTvm nested (.arr vs) = some (.arr vs) := by
  cases nested <;> rfl

/-- Neither walk changes such a value, whatever type it is taken for. -/
theorem JsValue.Nest.normalizeArg_eq {v : JsValue} (h : v.Nest) :
    ∀ input nested, normalizeArg codec evmToTvm v input nested = some v := by
  induction h with
  | @arr vs _ ih =>
    intro input nested
    cases input with
    | none => rfl
    | some input =>
      have hlist : vs.mapM (normalizeAddress codec evmToTvm nested) = some vs := by
        apply mapM_some_self
        intro v hv
        obtain ⟨_⟩ := ‹∀ v ∈ vs, v.Nest› v hv
        exact normalizeAddress_arr _ nested
      rw [normalizeArg, normalizeAll_eq]
      simp only [normalizeAddress_arr, hlist, Option.map_some, List.mapM_map, List.zipIdx_map]
      split
      · rfl
      · split
        · rfl
        · split
          · rfl
          · rename_i components _
            have htuple : ∀ tuple : AbiInput,
                (vs.mapM fun v => normalizeArg codec evmToTvm v (some tuple) true) = some vs :=
              fun tuple => mapM_some_self fun v hv => ih v hv (some tuple) true
            have hstruct : (vs.zipIdx.mapM fun e => normalizeArg codec evmToTvm e.1 components[e.2]? true) = some vs :=
              zipIdx_mapM_self (f := fun v i => normalizeArg codec evmToTvm v components[i]? true)
                (fun v hv i => ih v hv components[i]? true) 0
            split
            · exact congrArg (Option.map JsValue.arr) hstruct
            · split
              · exact congrArg (Option.map JsValue.arr) (htuple _)
              · rfl

theorem JsValue.Nest.coerceForEthers_eq {v : JsValue} (h : v.Nest) :
    ∀ input, coerceForEthers codec v input = some v := by
  induction h with
  | @arr vs _ ih =>
    intro input
    cases input with
    | none => rfl
    | some input =>
      have hlist : ∀ inner : AbiInput, (vs.mapM fun v => coerceForEthers codec v (some inner)) = some vs :=
        fun inner => mapM_some_self fun v hv => ih v hv (some inner)
      rw [coerceForEthers, coerceAll_eq]
      simp only [List.mapM_map, List.zipIdx_map]
      split
      · rfl
      · split
        · exact congrArg (Option.map JsValue.arr) (hlist _)
        · split
          · rfl
          · rename_i components _
            have hstruct : (vs.zipIdx.mapM fun e => coerceForEthers codec e.1 components[e.2]?) = some vs :=
              zipIdx_mapM_self (f := fun v i => coerceForEthers codec v components[i]?)
                (fun v hv i => ih v hv components[i]?) 0
            split
            · exact congrArg (Option.map JsValue.arr) hstruct
            · split
              · exact congrArg (Option.map JsValue.arr) (hlist _)
              · rfl

theorem ValueType.abi_components (t : ValueType) (name : JsString) : (t.abi name).components =
    match t.base with
    | .struct fields => some (ValueType.abis fields)
    | _ => none := by
  induction t using ValueType.induct with
  | helementary e => rfl
  | harray t length ih => exact ih
  | hstruct fields => rfl

/-- Only `address[]` is written so. -/
theorem ValueType.abi_type_addressList {t : ValueType} {length : Option Nat} {name : JsString}
    (h : ((ValueType.array t length).abi name).type = "address[]".toList) : t.entered length = true := by
  have hbase : t.baseText = "address".toList := by
    rw [← t.opens_array_iff (by decide) length name, h]
    decide
  have htail : dimsText (t.dims ++ [length]) = dimsText [none] := by
    rw [abi_type, baseText, hbase] at h
    exact List.append_cancel_left (h : "address".toList ++ _ = "address".toList ++ dimsText [none])
  have hdims : t.dims ++ [length] = [] ++ [none] :=
    (dimsText_inj (r := [')']) (.inr rfl) (.inr rfl) (congrArg (· ++ [')']) htail)).1
  obtain ⟨hnil, hlength⟩ := List.append_inj' hdims rfl
  obtain rfl := List.head_eq_of_cons_eq hlength
  cases t with
  | elementary e => exact decide_eq_true hbase
  | array t length => cases List.append_ne_nil_of_right_ne_nil t.dims (List.cons_ne_nil length []) hnil
  | struct fields => rfl

theorem ValueType.nest_of_fits {t : ValueType} (hbase : t.base.isStruct = true) :
    ∀ {v}, t.Fits codec v → t.EveryBase (fun base _ => base.isStruct = false) v → v.Nest := by
  induction t using ValueType.induct with
  | helementary e => cases hbase
  | harray t length ih =>
    rintro _ ⟨vs, rfl, -, hvs⟩ hno
    exact .arr fun w hw => ih hbase (hvs w hw) (hno w hw)
  | hstruct fields =>
    intro v _ hno
    cases hno

/-- The walks leave an array that they do not enter. -/
theorem encoderArg_not_entered {t : ValueType} {length : Option Nat} {v : JsValue}
    (hfits : (ValueType.array t length).Fits codec v) (he : t.entered length = false)
    (hno : (ValueType.array t length).EveryBase (fun base _ => base.isStruct = false) v) (nested : Bool)
    (name : JsString) :
    encoderArg codec evmToTvm nested ((ValueType.array t length).abi name) v = some v := by
  unfold encoderArg
  by_cases hbase : t.base.isStruct = true
  · have hnest : v.Nest := ValueType.nest_of_fits (t := .array t length) hbase hfits hno
    rw [hnest.normalizeArg_eq, Option.bind_some, hnest.coerceForEthers_eq]
  · obtain ⟨vs, rfl, -, -⟩ := hfits
    have haddress : ((ValueType.array t length).abi name).type ≠ "address".toList := ValueType.array_ne (by decide)
    have hlist : ((ValueType.array t length).abi name).type ≠ "address[]".toList := by
      intro h
      rw [ValueType.abi_type_addressList h] at he
      cases he
    have hcomponents : ((ValueType.array t length).abi name).components = none := by
      rw [ValueType.abi_components, ValueType.base]
      cases hb : t.base with
      | struct fields => exact absurd (by rw [hb]; rfl) hbase
      | elementary | array => rfl
    have hfirst : normalizeArg codec evmToTvm (.arr vs) (some ((ValueType.array t length).abi name)) nested =
        some (.arr vs) := by
      rw [normalizeArg]
      simp only [haddress, hlist, hcomponents, if_false]
    rw [hfirst, Option.bind_some, coerceForEthers]
    simp only [haddress, hlist, hcomponents, if_false]

/-- What is left alone is right when its addresses are in place. -/
theorem ValueType.encodes_self_iff {t : ValueType} :
    ∀ {v}, t.Fits codec v → t.EveryBase (fun base _ => base.isStruct = false) v →
      (t.Encodes codec actual v v ↔ t.EveryBase (fun base w => base.isAddress = true →
        ∀ a, AddressForm codec a w → IsHexOf (landing actual a) w) v) := by
  induction t using ValueType.induct with
  | helementary e =>
    intro v _ _
    rw [Encodes, EveryBase]
    by_cases he : e.isAddress = true
    · rw [if_pos he]
      exact ⟨fun h _ => h, fun h => h he⟩
    · rw [if_neg he]
      exact ⟨fun _ h => absurd h he, fun _ => .inl rfl⟩
  | harray t length ih =>
    rintro _ ⟨vs, rfl, -, hvs⟩ hno
    have hall : (∀ w ∈ vs, t.Encodes codec actual w w) ↔ ∀ w ∈ vs, t.EveryBase (fun base w => base.isAddress = true →
        ∀ a, AddressForm codec a w → IsHexOf (landing actual a) w) w :=
      forall₂_congr fun w hw => ih (hvs w hw) (hno w hw)
    rw [Encodes, EveryBase, JsValue.elements, ← hall, ← List.forall₂_same]
    constructor
    · rintro ⟨ws, ws', h, h', heach⟩
      obtain rfl := JsValue.arr.inj h
      obtain rfl := JsValue.arr.inj h'
      exact heach
    · exact fun heach => ⟨vs, vs, rfl, rfl, heach⟩
  | hstruct fields =>
    intro v _ hno
    cases hno

/-! ## Structs -/

theorem setField_new {out : Fields} {name : JsString} (h : out.lookup name = none) (v : JsValue) :
    setField out name v = out ++ [(name, v)] := by
  rw [setField, h]
  rfl

/-- A fold that sets a field for each component, on distinct names: `out` has the fields set before. -/
theorem foldlM_setField {fields : List (JsString × Normalizer)} {step : Fields → AbiInput → Option Fields}
    (hstep : ∀ out comp norm, fields.lookup comp.name = some norm → comp.name ≠ [] →
      step out comp = (norm (some comp) true).map (setField out comp.name))
    {components : List AbiInput} {norms : List Normalizer} (hnodup : (components.map AbiInput.name).Nodup)
    (hempty : [] ∉ components.map AbiInput.name)
    (hnorms : ((components.map AbiInput.name).mapM fun name => fields.lookup name) = some norms) :
    ∀ out : Fields, (∀ comp ∈ components, out.lookup comp.name = none) →
      components.foldlM step out =
        (zipM (fun comp (norm : Normalizer) => norm (some comp) true) components norms).map fun vs =>
          out ++ (components.map AbiInput.name).zip vs := by
  induction components generalizing norms with
  | nil =>
    intro out _
    obtain rfl := Option.some.inj hnorms
    exact congrArg some (List.append_nil out).symm
  | cons comp components ih =>
    intro out hout
    rw [List.map_cons, List.nodup_cons] at hnodup
    rw [List.map_cons, List.mem_cons, not_or] at hempty
    rw [List.map_cons, mapM_cons_eq, Option.bind_eq_some_iff] at hnorms
    obtain ⟨norm, hnorm, hrest⟩ := hnorms
    obtain ⟨norms, hnorms, rfl⟩ := Option.map_eq_some_iff.1 hrest
    rw [List.foldlM_cons, hstep out comp norm hnorm (Ne.symm hempty.1), zipM]
    cases norm (some comp) true with
    | none => rfl
    | some v =>
      have hnew : ∀ c ∈ components, (out ++ [(comp.name, v)]).lookup c.name = none := by
        intro c hc
        have hne : c.name ≠ comp.name := by
          intro heq
          exact hnodup.1 (heq ▸ List.mem_map_of_mem hc)
        rw [lookup_append_singleton, hout c (List.mem_cons_of_mem _ hc), if_neg hne, Option.or_none]
      rw [Option.map_some, setField_new (hout comp List.mem_cons_self)]
      change List.foldlM step (out ++ [(comp.name, v)]) components = _
      rw [ih hnodup.2 hempty.2 hnorms _ hnew, Option.bind_some, Option.map_map]
      apply congrArg (fun g => Option.map g _)
      funext vs
      exact List.append_assoc out [(comp.name, v)] _

/-- The object form of a struct, when its names are distinct and the object has them all. -/
theorem normalizeStruct_eq {fields : List (JsString × Normalizer)} {components : List AbiInput}
    {norms : List Normalizer} (hnodup : (components.map AbiInput.name).Nodup)
    (hempty : [] ∉ components.map AbiInput.name)
    (hnorms : ((components.map AbiInput.name).mapM fun name => fields.lookup name) = some norms) :
    normalizeStruct fields components =
      (zipM (fun comp (norm : Normalizer) => norm (some comp) true) components norms).map fun vs =>
        .obj ((components.map AbiInput.name).zip vs) := by
  unfold normalizeStruct
  refine (congrArg (Option.map JsValue.obj)
    (foldlM_setField ?_ hnodup hempty hnorms [] fun _ _ => rfl)).trans ?_
  · intro out comp norm hnorm hne
    simp only [hnorm, if_neg hne]
  · rw [Option.map_map]
    rfl

theorem JsValue.componentValues_cases {names : List JsString} {v : JsValue} {vs : List JsValue}
    (h : v.componentValues names = some vs) :
    v = .arr vs ∨ ∃ fs, v = .obj fs ∧ isTyped fs = false ∧ names.Nodup ∧ [] ∉ names ∧
      (names.mapM fun name => fs.lookup name) = some vs := by
  cases v with
  | arr ws =>
    obtain rfl := Option.some.inj h
    exact .inl rfl
  | obj fs =>
    rw [componentValues] at h
    split at h
    · rename_i hnames
      have hempty : [] ∉ names := by
        rw [← List.contains_iff_mem, hnames.2.2]
        exact Bool.false_ne_true
      exact .inr ⟨fs, rfl, hnames.1, hnames.2.1, hempty, h⟩
    · cases h
  | undefined | null | bool | num | bigint | str | typedSymbol => cases h

/-- The first walk takes a struct apart and puts it together again, whichever form it has. -/
theorem normalizeArg_struct {fields : List (JsString × ValueType)} {v : JsValue} {vs : List JsValue}
    (hvs : v.componentValues (fields.map Prod.fst) = some vs) (hlength : fields.length = vs.length)
    (name : JsString) (nested : Bool) :
    normalizeArg codec evmToTvm v (some ((ValueType.struct fields).abi name)) nested =
      (zipM (fun f w => normalizeArg codec evmToTvm w (some (f.2.abi f.1)) true) fields vs).map
        (v.withComponents (fields.map Prod.fst)) := by
  obtain rfl | ⟨fs, rfl, htyped, hnodup, hempty, hlookup⟩ := JsValue.componentValues_cases hvs
  · have hsame : (ValueType.abis fields).length = (vs.map (normalizeArg codec evmToTvm)).length := by
      rw [ValueType.length_abis, List.length_map, hlength]
    have hlist := zipIdx_mapM (fun (norm : Normalizer) comp => norm comp true) [] (ValueType.abis fields) hsame
    rw [ValueType.abis_eq, zipM_map_left, zipM_map_right] at hlist
    rw [normalizeArg, ValueType.abi, normalizeAll_eq, ValueType.abis_eq]
    exact congrArg (Option.map JsValue.arr) hlist
  · have hnorms := mapM_lookup_map (normalizeArg codec evmToTvm) fs (fields.map Prod.fst)
    rw [hlookup, Option.map_some, ← ValueType.abis_names] at hnorms
    rw [← ValueType.abis_names] at hnodup hempty
    have hstruct := normalizeStruct_eq hnodup hempty hnorms
    rw [zipM_map_right, ValueType.abis_names, ValueType.abis_eq, zipM_map_left] at hstruct
    rw [isTyped] at htyped
    rw [normalizeArg, ValueType.abi, normalizeFields_eq, ValueType.abis_eq]
    simp only [htyped, Bool.false_eq_true, if_false]
    exact hstruct

/-- So does the second walk with what the first put together. -/
theorem coerceForEthers_struct {fields : List (JsString × ValueType)} {v : JsValue} {vs ws : List JsValue}
    (hvs : v.componentValues (fields.map Prod.fst) = some vs) (hlength : fields.length = ws.length)
    (name : JsString) :
    coerceForEthers codec (v.withComponents (fields.map Prod.fst) ws) (some ((ValueType.struct fields).abi name)) =
      (zipM (fun f w => coerceForEthers codec w (some (f.2.abi f.1))) fields ws).map
        (v.withComponents (fields.map Prod.fst)) := by
  obtain rfl | ⟨fs, rfl, -, hnodup, hempty, -⟩ := JsValue.componentValues_cases hvs
  · have hsame : (ValueType.abis fields).length = (ws.map (coerceForEthers codec)).length := by
      rw [ValueType.length_abis, List.length_map, hlength]
    have hlist := zipIdx_mapM (fun (coerce : Coercer) comp => coerce comp) [] (ValueType.abis fields) hsame
    rw [ValueType.abis_eq, zipM_map_left, zipM_map_right] at hlist
    change coerceForEthers codec (.arr ws) _ = _
    rw [coerceForEthers, ValueType.abi, coerceAll_eq, ValueType.abis_eq]
    exact congrArg (Option.map JsValue.arr) hlist
  · have hzip : ((fields.map Prod.fst).mapM fun k => ((fields.map Prod.fst).zip ws).lookup k) = some ws :=
      mapM_lookup_zip hnodup (by rw [List.length_map, hlength])
    have hnorms := mapM_lookup_map (fun w comp _ => coerceForEthers codec w comp : JsValue → Normalizer)
      ((fields.map Prod.fst).zip ws) (fields.map Prod.fst)
    rw [hzip, Option.map_some, ← ValueType.abis_names] at hnorms
    rw [← ValueType.abis_names] at hnodup hempty
    have hstruct := normalizeStruct_eq hnodup hempty hnorms
    rw [zipM_map_right, ValueType.abis_names, ValueType.abis_eq, zipM_map_left] at hstruct
    change coerceForEthers codec (.obj ((fields.map Prod.fst).zip ws)) _ = _
    rw [coerceForEthers, ValueType.abi, coerceFields_eq, ValueType.abis_eq]
    dsimp only
    rw [List.map_map]
    exact hstruct

theorem encoderArg_struct {fields : List (JsString × ValueType)} {v : JsValue} {vs : List JsValue}
    (hvs : v.componentValues (fields.map Prod.fst) = some vs) (hlength : fields.length = vs.length)
    (name : JsString) (nested : Bool) :
    encoderArg codec evmToTvm nested ((ValueType.struct fields).abi name) v =
      (zipM (fun f w => encoderArg codec evmToTvm true (f.2.abi f.1) w) fields vs).map
        (v.withComponents (fields.map Prod.fst)) := by
  have hboth := zipM_bind_zipM (fun f w => normalizeArg codec evmToTvm w (some (f.2.abi f.1)) true)
    (fun f w => coerceForEthers codec w (some (f.2.abi f.1))) hlength
  unfold encoderArg
  rw [normalizeArg_struct hvs hlength, ← hboth]
  cases hws : zipM (fun f w => normalizeArg codec evmToTvm w (some (f.2.abi f.1)) true) fields vs with
  | none => rfl
  | some ws =>
    rw [Option.map_some, Option.bind_some, Option.bind_some]
    exact coerceForEthers_struct hvs (zipM_length hws hlength) name

/-! ## Arrays that are entered -/

theorem encoderArg_addresses {e : Elementary} (he : e.isAddress = true) (vs : List JsValue) (name : JsString)
    (nested : Bool) :
    encoderArg codec evmToTvm nested ((ValueType.array (.elementary e) none).abi name) (.arr vs) =
      (vs.mapM fun v => (normalizeAddress codec evmToTvm nested v).bind fun w =>
        coerceForEthers codec w (some ⟨"address".toList, [], none⟩)).map .arr := by
  have htype : ((ValueType.array (.elementary e) none).abi name).type = "address[]".toList := by
    rw [ValueType.abi]
    exact congrArg (· ++ dimText none) (of_decide_eq_true he)
  have hne : "address[]".toList ≠ "address".toList := by decide
  unfold encoderArg
  rw [← mapM_bind_mapM, normalizeArg]
  simp only [htype, hne, if_false, if_true]
  cases vs.mapM (normalizeAddress codec evmToTvm nested) with
  | none => rfl
  | some ws =>
    rw [Option.map_some, Option.bind_some, Option.bind_some, coerceForEthers, coerceAll_eq]
    simp only [htype, hne, if_false, if_true, List.mapM_map]
    rfl

theorem encoderArg_structs (fields : List (JsString × ValueType)) (length : Option Nat) (vs : List JsValue)
    (name : JsString) (nested : Bool) :
    encoderArg codec evmToTvm nested ((ValueType.array (.struct fields) length).abi name) (.arr vs) =
      (vs.mapM (encoderArg codec evmToTvm true ((ValueType.struct fields).abi []))).map .arr := by
  have haddress : ((ValueType.array (.struct fields) length).abi name).type ≠ "address".toList :=
    ValueType.array_ne (by decide)
  have hlist : ((ValueType.array (.struct fields) length).abi name).type ≠ "address[]".toList := by
    rw [ValueType.abi]
    intro h
    cases h
  have htuple : ((ValueType.array (.struct fields) length).abi name).type ≠ "tuple".toList :=
    ValueType.array_ne (by decide)
  have hopens : "tuple[".toList <+: ((ValueType.array (.struct fields) length).abi name).type :=
    ((ValueType.struct fields).opens_array_iff (w := "tuple".toList) (by decide) length name).2 rfl
  have hcomponents : ((ValueType.array (.struct fields) length).abi name).components =
      some (ValueType.abis fields) := ValueType.abi_components _ name
  have hfirst : normalizeArg codec evmToTvm (.arr vs) (some ((ValueType.array (.struct fields) length).abi name))
      nested = (vs.mapM fun v => normalizeArg codec evmToTvm v (some ((ValueType.struct fields).abi [])) true).map
        .arr := by
    rw [normalizeArg, normalizeAll_eq]
    simp only [haddress, hlist, htuple, hopens, hcomponents, if_false, if_true, List.mapM_map]
    rfl
  have hsecond : ∀ ws, coerceForEthers codec (.arr ws) (some ((ValueType.array (.struct fields) length).abi name)) =
      (ws.mapM fun v => coerceForEthers codec v (some ((ValueType.struct fields).abi []))).map .arr := by
    intro ws
    rw [coerceForEthers, coerceAll_eq]
    simp only [haddress, hlist, htuple, hopens, hcomponents, if_false, if_true, List.mapM_map]
    rfl
  unfold encoderArg
  rw [hfirst, ← mapM_bind_mapM]
  cases vs.mapM fun v => normalizeArg codec evmToTvm v (some ((ValueType.struct fields).abi [])) true with
  | none => rfl
  | some ws => exact hsecond ws

/-! ## Every type -/

/-- Both walks get through a value of the type, and come out right where everything is in place. -/
def ValueType.Settled (codec : AddressCodec) (actual : Account → Option Account) (evmToTvm : EvmToTvm)
    (t : ValueType) : Prop :=
  ∀ name nested v, t.Fits codec v → t.AtEnds NoMatrix nested v →
    ∃ v', encoderArg codec evmToTvm nested (t.abi name) v = some v' ∧
      (t.Encodes codec actual v v' ↔ t.AtEnds (InPlace codec actual) nested v)

theorem inPlace_elementary {e : Elementary} {nested : Bool} {v : JsValue} :
    InPlace codec actual nested (.elementary e) v ↔ (e.isAddress = true → nested = true →
      ∀ fs, asAddressString v = .obj fs → ∀ a, AddressForm codec a v → (actual a).isSome = true) := by
  rw [InPlace, if_neg (by simp [ValueType.isArray])]
  rfl

theorem settled_address (hlaws : ArgLaws codec) (hmap : MapsTo actual evmToTvm) {e : Elementary}
    (he : e.isAddress = true) : (ValueType.elementary e).Settled codec actual evmToTvm := by
  intro name nested v hfits _
  have htype : ((ValueType.elementary e).abi name).type = "address".toList := of_decide_eq_true he
  rw [ValueType.Fits, if_pos he] at hfits
  obtain ⟨a, ha⟩ := hfits
  have hencoded : ∀ b, AddressForm codec b v → ∃ v',
      encoderArg codec evmToTvm nested ((ValueType.elementary e).abi name) v = some v' ∧
        (IsHexOf (landing actual b) v' ↔
          (nested = true → ∀ fs, asAddressString v = .obj fs → (actual b).isSome = true)) := by
    intro b hb
    unfold encoderArg
    rw [hb.normalizeArg_eq htype]
    exact hb.encoded hlaws hmap htype nested
  obtain ⟨v', hv', -⟩ := hencoded a ha
  refine ⟨v', hv', ?_⟩
  have hiff : ∀ b, AddressForm codec b v → (IsHexOf (landing actual b) v' ↔
      (nested = true → ∀ fs, asAddressString v = .obj fs → (actual b).isSome = true)) := by
    intro b hb
    obtain ⟨w, hw, hiff⟩ := hencoded b hb
    obtain rfl := Option.some.inj (hv'.symm.trans hw)
    exact hiff
  rw [ValueType.Encodes, if_pos he, ValueType.AtEnds, inPlace_elementary]
  constructor
  · intro h _ hnested fs hfs b hb
    exact (hiff b hb).1 (h b hb) hnested fs hfs
  · intro h b hb
    exact (hiff b hb).2 fun hnested fs hfs => h he hnested fs hfs b hb

theorem settled_leaf {e : Elementary} (he : e.isAddress = false) :
    (ValueType.elementary e).Settled codec actual evmToTvm := by
  intro name nested v hfits _
  have haddress : ((ValueType.elementary e).abi name).type ≠ "address".toList := of_decide_eq_false he
  have hlist : ((ValueType.elementary e).abi name).type ≠ "address[]".toList := by
    intro h
    have hbracket : '[' ∈ e.name.text := by
      rw [show e.name.text = "address[]".toList from h]
      decide
    exact e.bracket_not_mem hbracket
  have hinplace : InPlace codec actual nested (.elementary e) v := by
    rw [inPlace_elementary, he]
    intro h
    cases h
  rw [ValueType.Fits, he, if_neg Bool.false_ne_true] at hfits
  have hresult : ∃ v', encoderArg codec evmToTvm nested ((ValueType.elementary e).abi name) v = some v' ∧
      (v' = v ∨ ∃ i, v = .bigint i ∧ v' = .str (decimal i)) := by
    have htuple : ¬ "tuple[".toList <+: ((ValueType.elementary e).abi name).type := e.opens_no_array "tuple".toList
    have hskip : ∀ {x y z w : Option JsValue},
        (if ((ValueType.elementary e).abi name).type = "address".toList then x
        else if ((ValueType.elementary e).abi name).type = "address[]".toList then y
        else if "tuple[".toList <+: ((ValueType.elementary e).abi name).type ∧
          ((ValueType.elementary e).abi name).components.isSome = true then z
        else w) = w := by
      intro x y z w
      rw [if_neg haddress, if_neg hlist, if_neg fun h => htuple h.1]
    have htext : ∀ s, coerceForEthers codec (.str s) (some ((ValueType.elementary e).abi name)) = some (.str s) :=
      fun s => if_neg fun h => haddress h.1
    cases v with
    | bigint i =>
      have hfirst : normalizeArg codec evmToTvm (.bigint i) (some ((ValueType.elementary e).abi name)) nested =
          some (.str (decimal i)) := hskip
      refine ⟨.str (decimal i), ?_, .inr ⟨i, rfl, rfl⟩⟩
      rw [encoderArg, hfirst]
      exact htext _
    | str s =>
      have hfirst : normalizeArg codec evmToTvm (.str s) (some ((ValueType.elementary e).abi name)) nested =
          some (.str s) := hskip
      refine ⟨.str s, ?_, .inl rfl⟩
      rw [encoderArg, hfirst]
      exact htext s
    | bool b =>
      have hfirst : normalizeArg codec evmToTvm (.bool b) (some ((ValueType.elementary e).abi name)) nested =
          some (.bool b) := hskip
      refine ⟨.bool b, ?_, .inl rfl⟩
      rw [encoderArg, hfirst]
      rfl
    | num n =>
      have hfirst : normalizeArg codec evmToTvm (.num n) (some ((ValueType.elementary e).abi name)) nested =
          some (.num n) := hskip
      refine ⟨.num n, ?_, .inl rfl⟩
      rw [encoderArg, hfirst]
      rfl
    | undefined | null | typedSymbol | arr | obj => cases hfits
  obtain ⟨v', hv', hsame⟩ := hresult
  refine ⟨v', hv', fun _ => hinplace, fun _ => ?_⟩
  rw [ValueType.Encodes, he, if_neg Bool.false_ne_true]
  exact hsame

/-- The components of a struct, when all their types are settled. -/
theorem settled_components {fields : List (JsString × ValueType)}
    (ih : ∀ f ∈ fields, f.2.Settled codec actual evmToTvm) :
    ∀ {vs}, ValueType.FitsAll codec fields vs → ValueType.AtEndsAll NoMatrix fields vs →
      ∃ vs', zipM (fun f w => encoderArg codec evmToTvm true (f.2.abi f.1) w) fields vs = some vs' ∧
        (ValueType.EncodesAll codec actual fields vs vs' ↔ ValueType.AtEndsAll (InPlace codec actual) fields vs) := by
  induction fields with
  | nil =>
    intro vs hfits _
    cases vs with
    | nil => exact ⟨[], rfl, fun _ => trivial, fun _ => trivial⟩
    | cons v vs => exact hfits.elim
  | cons f fields ihfields =>
    intro vs hfits hno
    obtain ⟨hf, hfields⟩ := List.forall_mem_cons.1 ih
    cases vs with
    | nil => exact hfits.elim
    | cons v vs =>
      obtain ⟨v', hv', hiff⟩ := hf f.1 true v hfits.1 hno.1
      obtain ⟨vs', hvs', hiffs⟩ := ihfields hfields hfits.2 hno.2
      refine ⟨v' :: vs', ?_, and_congr hiff hiffs⟩
      rw [zipM, hv', Option.bind_some, hvs']
      rfl

theorem ValueType.FitsAll.length_eq {fields : List (JsString × ValueType)} {vs : List JsValue}
    (h : FitsAll codec fields vs) : fields.length = vs.length := by
  induction fields generalizing vs with
  | nil =>
    cases vs with
    | nil => rfl
    | cons v vs => exact h.elim
  | cons f fields ih =>
    cases vs with
    | nil => exact h.elim
    | cons v vs => rw [List.length_cons, List.length_cons, ih h.2]

theorem ValueType.EncodesAll.length_eq {fields : List (JsString × ValueType)} {vs vs' : List JsValue}
    (h : EncodesAll codec actual fields vs vs') : fields.length = vs'.length := by
  induction fields generalizing vs vs' with
  | nil =>
    cases vs with
    | nil =>
      cases vs' with
      | nil => rfl
      | cons v' vs' => exact h.elim
    | cons v vs => exact h.elim
  | cons f fields ih =>
    cases vs with
    | nil => exact h.elim
    | cons v vs =>
      cases vs' with
      | nil => exact h.elim
      | cons v' vs' => rw [List.length_cons, List.length_cons, ih h.2]

theorem JsValue.withComponents_inj {names : List JsString} {v : JsValue} {vs ws : List JsValue}
    (hvs : names.length = vs.length) (hws : names.length = ws.length)
    (h : v.withComponents names vs = v.withComponents names ws) : vs = ws := by
  cases v with
  | obj fs =>
    have hzip := congrArg (List.map Prod.snd) (JsValue.obj.inj h)
    rwa [List.map_snd_zip hvs.ge, List.map_snd_zip hws.ge] at hzip
  | undefined | null | bool | num | bigint | str | typedSymbol | arr => exact JsValue.arr.inj h

theorem settled_struct {fields : List (JsString × ValueType)}
    (ih : ∀ f ∈ fields, f.2.Settled codec actual evmToTvm) :
    (ValueType.struct fields).Settled codec actual evmToTvm := by
  rintro name nested v ⟨vs, hvs, hfits⟩ hno
  obtain ⟨vs', hvs', hiff⟩ := settled_components ih hfits (hno vs hvs)
  refine ⟨v.withComponents (fields.map Prod.fst) vs', ?_, ?_⟩
  · rw [encoderArg_struct hvs hfits.length_eq, hvs', Option.map_some]
  · rw [ValueType.Encodes, ValueType.AtEnds]
    constructor
    · rintro ⟨ws, ws', hws, heq, hall⟩ us hus
      obtain rfl := Option.some.inj (hvs.symm.trans hws)
      obtain rfl := Option.some.inj (hvs.symm.trans hus)
      have hlength : fields.length = vs'.length := zipM_length hvs' hfits.length_eq
      obtain rfl := JsValue.withComponents_inj (by rw [List.length_map, hlength])
        (by rw [List.length_map, hall.length_eq]) heq
      exact hiff.1 hall
    · intro h
      exact ⟨vs, vs', hvs, rfl, hiff.2 (h vs hvs)⟩

theorem settled_array {t : ValueType} {length : Option Nat}
    (ih : t.Settled codec actual evmToTvm) : (ValueType.array t length).Settled codec actual evmToTvm := by
  intro name nested v hfits hno
  by_cases he : t.entered length = true
  · obtain ⟨vs, rfl, -, hvs⟩ := hfits
    rw [ValueType.AtEnds, if_pos he] at hno
    obtain ⟨encode, hencode, hsettled⟩ : ∃ encode : JsValue → Option JsValue,
        encoderArg codec evmToTvm nested ((ValueType.array t length).abi name) (.arr vs) =
          (vs.mapM encode).map .arr ∧
        ∀ w ∈ vs, ∃ w', encode w = some w' ∧
          (t.Encodes codec actual w w' ↔ t.AtEnds (InPlace codec actual) nested w) := by
      cases t with
      | array => cases he
      | elementary e =>
        cases length with
        | some n => cases he
        | none =>
          refine ⟨_, encoderArg_addresses he vs name nested, ?_⟩
          intro w hw
          have hfits : ∃ a, AddressForm codec a w := by
            have h := hvs w hw
            rwa [ValueType.Fits, if_pos (show e.isAddress = true from he)] at h
          obtain ⟨a, ha⟩ := hfits
          obtain ⟨w', hw', hiff⟩ := ih [] nested w (hvs w hw) (hno w hw)
          have hname : e.name.text = "address".toList := of_decide_eq_true he
          rw [encoderArg, ha.normalizeArg_eq (by exact hname), ValueType.abi, hname] at hw'
          exact ⟨w', hw', hiff⟩
      | struct fields =>
        refine ⟨_, encoderArg_structs fields length vs name nested, ?_⟩
        intro w hw
        exact ih [] true w (hvs w hw) (hno w hw)
    obtain ⟨vs', hvs', hiff⟩ := exists_mapM hsettled
    refine ⟨.arr vs', by rw [hencode, hvs', Option.map_some], ?_⟩
    rw [ValueType.Encodes, ValueType.AtEnds, if_pos he]
    constructor
    · rintro ⟨ws, ws', h, h', hall⟩
      obtain rfl := JsValue.arr.inj h
      obtain rfl := JsValue.arr.inj h'
      exact hiff.1 hall
    · exact fun h => ⟨vs, vs', rfl, rfl, hiff.2 h⟩
  · have he : t.entered length = false := by simpa using he
    rw [ValueType.AtEnds, he, if_neg Bool.false_ne_true, NoMatrix] at hno
    refine ⟨v, encoderArg_not_entered hfits he hno nested name, ?_⟩
    rw [ValueType.AtEnds, he, if_neg Bool.false_ne_true, InPlace, if_pos (show (ValueType.array t length).isArray = true from rfl)]
    exact ValueType.encodes_self_iff hfits hno

theorem settled (hlaws : ArgLaws codec) (hmap : MapsTo actual evmToTvm) (t : ValueType) :
    t.Settled codec actual evmToTvm := by
  induction t using ValueType.induct with
  | helementary e =>
    by_cases he : e.isAddress = true
    · exact settled_address hlaws hmap he
    · exact settled_leaf (by simpa using he)
  | harray t length ih => exact settled_array ih
  | hstruct fields ih => exact settled_struct ih

/-- The condition: no struct is inside an array of several dimensions, and all addresses are in place. -/
def ValueType.Reached (codec : AddressCodec) (actual : Account → Option Account) (t : ValueType) (v : JsValue) : Prop :=
  t.AtEnds NoMatrix false v ∧ t.AtEnds (InPlace codec actual) false v

/-- Where the condition holds an argument comes out for the encoder, and where no struct is inside an array of
several dimensions, only there. -/
theorem encoderArg_iff (hlaws : ArgLaws codec) (hmap : MapsTo actual evmToTvm) {t : ValueType} {v : JsValue}
    (hfits : t.Fits codec v) (name : JsString) :
    (t.Reached codec actual v →
      ∃ v', encoderArg codec evmToTvm false (t.abi name) v = some v' ∧ t.Encodes codec actual v v') ∧
    (t.AtEnds NoMatrix false v →
      (∃ v', encoderArg codec evmToTvm false (t.abi name) v = some v' ∧ t.Encodes codec actual v v') →
        t.Reached codec actual v) := by
  have hsettled := settled hlaws hmap t name false v hfits
  constructor
  · rintro ⟨hno, hplace⟩
    obtain ⟨v', hv', hiff⟩ := hsettled hno
    exact ⟨v', hv', hiff.2 hplace⟩
  · rintro hno ⟨v', hv', hencodes⟩
    obtain ⟨w, hw, hiff⟩ := hsettled hno
    obtain rfl := Option.some.inj (hv'.symm.trans hw)
    exact ⟨hno, hiff.1 hencodes⟩

end

/-! ## A request and a pair -/

def addressValue : ValueType := .elementary ⟨⟨"address".toList, by decide, List.all_eq_true.1 (by decide)⟩, by decide⟩

def uint48Value : ValueType := .elementary ⟨⟨"uint48".toList, by decide, List.all_eq_true.1 (by decide)⟩, by decide⟩

/-- `struct { address from; uint48 deadline; }` -/
def forwardRequest : ValueType := .struct [("from".toList, addressValue), ("deadline".toList, uint48Value)]

/-- A signer. -/
def requester : Fields := [("address".toList, .str testAccount.evm), ("tronAddress".toList, .str testBase58)]

theorem testBase58_base58 : Base58 spellingCodec testAccount testBase58 := base58_spelled testAccount

theorem requester_form : AddressForm spellingCodec testAccount (.obj requester) :=
  .object {
    plain := rfl
    named := ⟨"address", List.mem_cons_self, rfl⟩
    address := fun s h => by
      obtain rfl : testAccount.evm = s := Option.some.inj h
      exact .hex testAccount.lower
    target := fun s h => by cases h
    tronAddress := fun s h => by
      obtain rfl : testBase58 = s := Option.some.inj h
      exact testBase58_base58 }

def requestFields : Fields := [("deadline".toList, .bigint 7), ("from".toList, .obj requester)]

theorem request_fits : forwardRequest.Fits spellingCodec (.obj requestFields) :=
  ⟨[.obj requester, .bigint 7], rfl, ⟨testAccount, requester_form⟩, rfl, trivial⟩

theorem request_reached : forwardRequest.Reached spellingCodec (fun _ => none) (.obj requestFields) := by
  constructor
  · rintro vs hvs
    obtain rfl : [.obj requester, .bigint 7] = vs := Option.some.inj hvs
    exact ⟨rfl, rfl, trivial⟩
  · rintro vs hvs
    obtain rfl : [.obj requester, .bigint 7] = vs := Option.some.inj hvs
    refine ⟨?_, ?_, trivial⟩
    · rintro - - fs ⟨⟩
    · rintro ⟨⟩

/-- A request with a signer in it comes out. -/
theorem request_encoded : ∃ v', encoderArg spellingCodec (fun _ => none) false (forwardRequest.abi []) (.obj requestFields) =
    some v' ∧ forwardRequest.Encodes spellingCodec (fun _ => none) (.obj requestFields) v' :=
  (encoderArg_iff spellingCodec_laws (fun _ => rfl) request_fits []).1 request_reached

/-- `address[2]` -/
def addressPair : ValueType := .array addressValue (some 2)

/-- An array of a fixed length is left in base58. -/
theorem pair_skipped : ¬ ∀ (codec : AddressCodec) (actual : Account → Option Account) (evmToTvm : EvmToTvm)
    (t : ValueType) (v : JsValue) (name : JsString), ArgLaws codec → MapsTo actual evmToTvm → t.Fits codec v →
    ∃ v', encoderArg codec evmToTvm false (t.abi name) v = some v' ∧ t.Encodes codec actual v v' := by
  intro h
  have hform : AddressForm spellingCodec testAccount (.str testBase58) := .text (.base58 testBase58_base58)
  have hfits : addressPair.Fits spellingCodec (.arr [.str testBase58, .str testBase58]) := by
    refine ⟨_, rfl, ?_, ?_⟩
    · rintro n ⟨⟩
      rfl
    · intro w hw
      obtain rfl : w = .str testBase58 := by simpa using hw
      exact ⟨testAccount, hform⟩
  have hno : addressPair.EveryBase (fun base _ => base.isStruct = false) (.arr [.str testBase58, .str testBase58]) :=
    fun _ _ => rfl
  obtain ⟨v', hv', hencodes⟩ := h spellingCodec (fun _ => none) (fun _ => none) addressPair
    (.arr [.str testBase58, .str testBase58]) [] spellingCodec_laws (fun _ => rfl) hfits
  have hsame : encoderArg spellingCodec (fun _ => none) false (addressPair.abi [])
      (.arr [.str testBase58, .str testBase58]) = some (.arr [.str testBase58, .str testBase58]) :=
    encoderArg_not_entered hfits rfl hno false []
  obtain rfl := Option.some.inj (hsame.symm.trans hv')
  obtain ⟨vs, vs', hvs, hvs', hall⟩ := hencodes
  obtain rfl := JsValue.arr.inj hvs
  obtain rfl := JsValue.arr.inj hvs'
  cases hall with
  | cons hfirst _ =>
    obtain ⟨ds, hds, -⟩ := hfirst testAccount hform
    cases JsValue.str.inj hds

end HardhatTron

import HardhatTron.Runtime.Prebuild
import HardhatTron.Lib.TypeText
/-!
# Signatures of ABI functions

An artifact's ABI writes a struct as the word `tuple` with its components
beside it. Two functions of the runtime write the components out:
`canonicalType`, whose texts key the tables of a facade, and
`expandTupleTypes`, for TronWeb. Both know a struct and a struct array of one
dimension. `signatures_iff` says for which inputs that is enough.
-/
namespace HardhatTron

open Lib

/-! ## Solidity types -/

/-- An elementary type by its name. -/
structure Elementary where
  name : Word
  notTuple : name.text ≠ "tuple".toList

/-- `dims` are the lengths of the array suffixes, innermost first. -/
inductive SolType where
  | elementary (e : Elementary) (dims : List (Option Nat))
  | struct (fields : List (JsString × SolType)) (dims : List (Option Nat))

theorem SolType.induct {motive : SolType → Prop} (helementary : ∀ e dims, motive (.elementary e dims))
    (hstruct : ∀ fields dims, (∀ f ∈ fields, motive f.2) → motive (.struct fields dims)) (t : SolType) : motive t := by
  apply @SolType.rec motive (fun fs => ∀ f ∈ fs, motive f.2) (fun f => motive f.2) helementary hstruct
  · simp
  · intro f fs hf hfs
    rw [List.forall_mem_cons]
    exact ⟨hf, hfs⟩
  · intro _ _ h
    exact h

mutual
/-- The type without the names of its fields. -/
def SolType.shape : SolType → TypeShape
  | .elementary e dims => .word e.name dims
  | .struct fields dims => .tuple (SolType.shapes fields) dims

def SolType.shapes : List (JsString × SolType) → List TypeShape
  | [] => []
  | (_, t) :: fields => t.shape :: SolType.shapes fields
end

/-- The canonical text of a type: a struct is its parenthesised components, then all its suffixes. -/
def SolType.canonical (t : SolType) : JsString := t.shape.text

/-- The canonical signature of a function. -/
def solSignature (name : JsString) (inputs : List (JsString × SolType)) : JsString :=
  name ++ bracketed '(' ',' ')' (inputs.map fun i => i.2.canonical)

mutual
/-- The type as the compiler writes it into the ABI. -/
def SolType.abi (name : JsString) : SolType → AbiInput
  | .elementary e dims => ⟨e.name.text ++ dimsText dims, name, none⟩
  | .struct fields dims => ⟨"tuple".toList ++ dimsText dims, name, some (SolType.abis fields)⟩

def SolType.abis : List (JsString × SolType) → List AbiInput
  | [] => []
  | (name, t) :: fields => t.abi name :: SolType.abis fields
end

/-! ## What the runtime writes -/

/-- The group of `/^tuple(\[[^\]]*\])$/`. -/
def tupleSuffix (type : JsString) : Option JsString :=
  if "tuple[".toList <+: type ∧ type.getLast? = some ']' ∧ ']' ∉ (type.drop 6).dropLast then some (type.drop 5) else none

mutual
def canonicalType : AbiInput → JsString
  | ⟨type, _, none⟩ => type
  | ⟨type, _, some components⟩ =>
    if type = "tuple".toList then bracketed '(' ',' ')' (canonicalTypes components)
    else
      match tupleSuffix type with
      | some suffix => bracketed '(' ',' ')' (canonicalTypes components) ++ suffix
      | none => type

def canonicalTypes : List AbiInput → List JsString
  | [] => []
  | c :: cs => canonicalType c :: canonicalTypes cs
end

/-- An entry of an ABI, as far as `canonicalSig` looks at it. -/
structure AbiFunction where
  name : JsString
  inputs : List AbiInput

def canonicalSig (fnAbi : AbiFunction) : JsString :=
  fnAbi.name ++ bracketed '(' ',' ')' (fnAbi.inputs.map canonicalType)

mutual
def expandTupleTypes : AbiInput → AbiInput
  | ⟨type, name, none⟩ => ⟨type, name, none⟩
  | ⟨type, name, some components⟩ =>
    if type = "tuple".toList then ⟨bracketed '(' ',' ')' (expandedTypes components), name, some components⟩
    else
      match tupleSuffix type with
      | some suffix => ⟨bracketed '(' ',' ')' (expandedTypes components) ++ suffix, name, some components⟩
      | none => ⟨type, name, some components⟩

/-- `components.map((c) => expandTupleTypes(c).type)` -/
def expandedTypes : List AbiInput → List JsString
  | [] => []
  | c :: cs => (expandTupleTypes c).type :: expandedTypes cs
end

/-! ## One text for both -/

theorem AbiInput.induct {motive : AbiInput → Prop} (hnone : ∀ type name, motive ⟨type, name, none⟩)
    (hsome : ∀ type name components, (∀ c ∈ components, motive c) → motive ⟨type, name, some components⟩)
    (i : AbiInput) : motive i := by
  apply @AbiInput.rec motive (fun o => ∀ cs ∈ o, ∀ c ∈ cs, motive c) (fun cs => ∀ c ∈ cs, motive c)
  · intro type name components h
    cases components with
    | none => exact hnone type name
    | some components => exact hsome type name components (h components rfl)
  · intro cs hcs
    cases hcs
  · intro cs hcs cs' hcs'
    obtain rfl : cs = cs' := Option.some.inj hcs'
    exact hcs
  · simp
  · intro c cs hc hcs
    rw [List.forall_mem_cons]
    exact ⟨hc, hcs⟩

/-- `expandTupleTypes` writes what `canonicalType` writes. -/
theorem expandTupleTypes_type (i : AbiInput) : (expandTupleTypes i).type = canonicalType i := by
  induction i using AbiInput.induct with
  | hnone type name => rfl
  | hsome type name components ih =>
    have hall : expandedTypes components = canonicalTypes components := by
      induction components with
      | nil => rfl
      | cons c cs ihcs =>
        rw [expandedTypes, canonicalTypes, ih c List.mem_cons_self,
          ihcs fun c' hc' => ih c' (List.mem_cons_of_mem c hc')]
    unfold expandTupleTypes canonicalType
    rw [hall]
    split
    · rfl
    · split <;> rfl

/-! ## What the text says of the type -/

def tupleWord : Word := ⟨"tuple".toList, by decide, List.all_eq_true.1 (by decide)⟩

mutual
/-- What `canonicalType` takes a type for: a struct array of several dimensions is an array of the
elementary type `tuple`. -/
def SolType.printed : SolType → TypeShape
  | .elementary e dims => .word e.name dims
  | .struct fields dims =>
    if dims.length ≤ 1 then .tuple (SolType.printedAll fields) dims else .word tupleWord dims

def SolType.printedAll : List (JsString × SolType) → List TypeShape
  | [] => []
  | (_, t) :: fields => t.printed :: SolType.printedAll fields
end

/-- No struct in the type, itself included, stands in an array of several dimensions. -/
inductive SolType.FlatStructs : SolType → Prop
  | elementary (e dims) : FlatStructs (.elementary e dims)
  | struct {fields dims} (hdims : dims.length ≤ 1) (hfields : ∀ f ∈ fields, FlatStructs f.2) :
      FlatStructs (.struct fields dims)

theorem tupleSuffix_dims (dims : List (Option Nat)) :
    tupleSuffix ("tuple".toList ++ dimsText dims) = if dims.length = 1 then some (dimsText dims) else none := by
  rcases dims with _ | ⟨d, _ | ⟨d', dims⟩⟩
  · rfl
  · have htext : "tuple".toList ++ dimsText [d] = "tuple[".toList ++ ((d.map (Nat.toDigits 10)).getD [] ++ [']']) := by
      simp [dimsText, dimText]
    rw [tupleSuffix, if_pos]
    · rfl
    · rw [htext]
      refine ⟨List.prefix_append _ _, by rw [← List.append_assoc, List.getLast?_concat], ?_⟩
      change ']' ∉ ((d.map (Nat.toDigits 10)).getD [] ++ [']']).dropLast
      rw [List.dropLast_concat]
      exact not_mem_digits rfl d
  · -- The first suffix ends inside the text.
    have htext : "tuple".toList ++ dimsText (d :: d' :: dims) =
        "tuple[".toList ++ ((d.map (Nat.toDigits 10)).getD [] ++ ']' :: dimsText (d' :: dims)) := by
      simp [dimsText, dimText]
    rw [tupleSuffix, if_neg, if_neg (by simp)]
    rintro ⟨-, -, hmem⟩
    rw [htext] at hmem
    change ']' ∉ ((d.map (Nat.toDigits 10)).getD [] ++ ']' :: dimsText (d' :: dims)).dropLast at hmem
    rw [List.dropLast_append_of_ne_nil (List.cons_ne_nil _ _), List.dropLast_cons_of_ne_nil (by simp [dimsText, dimText])]
      at hmem
    simp at hmem

theorem SolType.shapes_eq (fields : List (JsString × SolType)) :
    SolType.shapes fields = fields.map fun f => f.2.shape := by
  induction fields with
  | nil => rfl
  | cons f fields ih => rw [SolType.shapes, ih, List.map_cons]

theorem SolType.printedAll_eq (fields : List (JsString × SolType)) :
    SolType.printedAll fields = fields.map fun f => f.2.printed := by
  induction fields with
  | nil => rfl
  | cons f fields ih => rw [SolType.printedAll, ih, List.map_cons]

theorem SolType.abis_eq (fields : List (JsString × SolType)) :
    SolType.abis fields = fields.map fun f => f.2.abi f.1 := by
  induction fields with
  | nil => rfl
  | cons f fields ih => rw [SolType.abis, ih, List.map_cons]

theorem canonicalTypes_eq (cs : List AbiInput) : canonicalTypes cs = cs.map canonicalType := by
  induction cs with
  | nil => rfl
  | cons c cs ih => rw [canonicalTypes, ih, List.map_cons]

/-- `canonicalType` writes the text of what it takes the type for. -/
theorem canonicalType_abi (t : SolType) : ∀ name, canonicalType (t.abi name) = t.printed.text := by
  induction t using SolType.induct with
  | helementary e dims =>
    intro name
    rfl
  | hstruct fields dims ih =>
    intro name
    have htexts : canonicalTypes (SolType.abis fields) = TypeShape.texts (SolType.printedAll fields) := by
      rw [canonicalTypes_eq, SolType.abis_eq, TypeShape.texts_eq, SolType.printedAll_eq, List.map_map, List.map_map]
      apply List.map_congr_left
      intro f hf
      exact ih f hf f.1
    rw [SolType.abi, canonicalType, htexts, tupleSuffix_dims, SolType.printed]
    rcases dims with _ | ⟨d, _ | ⟨d', dims⟩⟩
    · rw [if_pos (by rfl), if_pos (by simp), TypeShape.text]
      simp [dimsText]
    · rw [if_neg (by simp [dimsText, dimText]), if_pos (by simp), if_pos (by simp), TypeShape.text]
    · rw [if_neg (by simp [dimsText, dimText]), if_neg (by simp), if_neg (by simp), TypeShape.text]
      rfl

/-- What is taken for a type is that type, and it has flat structs. -/
theorem SolType.flat_of_printed (t : SolType) : ∀ {u : SolType}, t.printed = u.shape → t.FlatStructs ∧ t.shape = u.shape := by
  induction t using SolType.induct with
  | helementary e dims =>
    intro u h
    exact ⟨.elementary e dims, h⟩
  | hstruct fields dims ih =>
    intro u h
    rw [SolType.printed] at h
    split at h
    · rename_i hdims
      cases u with
      | elementary e dims' => cases h
      | struct fields' dims' =>
        rw [SolType.shape] at h
        obtain ⟨hparts, rfl⟩ := TypeShape.tuple.inj h
        rw [SolType.printedAll_eq, SolType.shapes_eq] at hparts
        have hflat : ∀ f ∈ fields, f.2.FlatStructs ∧ f.2.shape = f.2.printed := by
          intro f hf
          have hmem : f.2.printed ∈ fields'.map fun f => f.2.shape := by
            rw [← hparts]
            exact List.mem_map_of_mem hf
          obtain ⟨f', -, hf'⟩ := List.mem_map.1 hmem
          obtain ⟨hflat, hshape⟩ := ih f hf hf'.symm
          exact ⟨hflat, hshape.trans hf'⟩
        refine ⟨.struct hdims fun f hf => (hflat f hf).1, ?_⟩
        rw [SolType.shape, SolType.shape, SolType.shapes_eq, SolType.shapes_eq, ← hparts]
        congr 1
        apply List.map_congr_left
        intro f hf
        exact (hflat f hf).2
    · cases u with
      | struct fields' dims' => cases h
      | elementary e dims' =>
        have hword := (TypeShape.word.inj h).1
        exact absurd (congrArg Word.text hword).symm e.notTuple

theorem SolType.printed_of_flat {t : SolType} (h : t.FlatStructs) : t.printed = t.shape := by
  induction h with
  | elementary e dims => rfl
  | struct hdims _ ih =>
    rw [SolType.printed, if_pos hdims, SolType.shape, SolType.printedAll_eq, SolType.shapes_eq]
    congr 1
    apply List.map_congr_left
    exact ih

theorem canonicalSig_abis (name : JsString) (inputs : List (JsString × SolType)) :
    canonicalSig ⟨name, SolType.abis inputs⟩ =
      name ++ bracketed '(' ',' ')' ((inputs.map fun i => i.2.printed).map TypeShape.text) := by
  rw [canonicalSig, SolType.abis_eq, List.map_map, List.map_map]
  congr 2
  apply List.map_congr_left
  intro i _
  exact canonicalType_abi i.2 i.1

theorem solSignature_eq (name : JsString) (inputs : List (JsString × SolType)) :
    solSignature name inputs = name ++ bracketed '(' ',' ')' ((inputs.map fun i => i.2.shape).map TypeShape.text) := by
  rw [solSignature, List.map_map]
  rfl

/-- A signature is read back as the types it was written for. -/
theorem shapes_of_sig {name : JsString} {inputs inputs' : List (JsString × SolType)}
    (h : canonicalSig ⟨name, SolType.abis inputs⟩ = solSignature name inputs') :
    (inputs.map fun i => i.2.printed) = inputs'.map fun i => i.2.shape := by
  rw [canonicalSig_abis, solSignature_eq] at h
  exact TypeShape.list_inj (List.append_cancel_left h)

/-- The signature is canonical, TronWeb gets the same type texts, and no function of the same name and
other input types has the signature, exactly when no struct stands in an array of several dimensions. -/
theorem signatures_iff (name : JsString) (inputs : List (JsString × SolType)) :
    (canonicalSig ⟨name, SolType.abis inputs⟩ = solSignature name inputs ∧
      (∀ i ∈ inputs, (expandTupleTypes (i.2.abi i.1)).type = i.2.canonical) ∧
      ∀ inputs' : List (JsString × SolType), (inputs'.map fun i => i.2.canonical) ≠ (inputs.map fun i => i.2.canonical) →
        canonicalSig ⟨name, SolType.abis inputs'⟩ ≠ canonicalSig ⟨name, SolType.abis inputs⟩) ↔
      ∀ i ∈ inputs, i.2.FlatStructs := by
  constructor
  · rintro ⟨hsig, -, -⟩ i hi
    have hshapes := shapes_of_sig hsig
    have hmem : i.2.printed ∈ inputs.map fun i => i.2.shape := by
      rw [← hshapes]
      exact List.mem_map_of_mem hi
    obtain ⟨i', -, hi'⟩ := List.mem_map.1 hmem
    exact (i.2.flat_of_printed hi'.symm).1
  · intro hflat
    have hshapes : (inputs.map fun i => i.2.printed) = inputs.map fun i => i.2.shape := by
      apply List.map_congr_left
      intro i hi
      exact SolType.printed_of_flat (hflat i hi)
    have hsig : canonicalSig ⟨name, SolType.abis inputs⟩ = solSignature name inputs := by
      rw [canonicalSig_abis, solSignature_eq, hshapes]
    refine ⟨hsig, ?_, ?_⟩
    · intro i hi
      rw [expandTupleTypes_type, canonicalType_abi, SolType.printed_of_flat (hflat i hi)]
      rfl
    · intro inputs' hne hsame
      apply hne
      have hshapes' := shapes_of_sig (hsame.trans hsig)
      have hprinted : ∀ i ∈ inputs', i.2.shape = i.2.printed := by
        intro i hi
        have hmem : i.2.printed ∈ inputs.map fun i => i.2.shape := by
          rw [← hshapes']
          exact List.mem_map_of_mem hi
        obtain ⟨u, -, hu⟩ := List.mem_map.1 hmem
        exact (i.2.flat_of_printed hu.symm).2.trans hu
      have hsame' : (inputs'.map fun i => i.2.shape) = inputs.map fun i => i.2.shape := by
        rw [← hshapes']
        apply List.map_congr_left
        exact hprinted
      have htexts := congrArg (List.map TypeShape.text) hsame'
      rw [List.map_map, List.map_map] at htexts
      exact htexts

/-! ## A matrix of structs -/

def uint256Name : Elementary := ⟨⟨"uint256".toList, by decide, List.all_eq_true.1 (by decide)⟩, by decide⟩

def uint256Type : SolType := .elementary uint256Name []

/-- `struct { uint256 x; }[][]`, the only input of a function `f`. -/
def structMatrix : List (JsString × SolType) := [([], .struct [(['x'], uint256Type)] [none, none])]

/-- `f((uint256)[][])` is written `f(tuple[][])`. -/
theorem structMatrix_literal : ¬ ∀ (name : JsString) (inputs : List (JsString × SolType)),
    canonicalSig ⟨name, SolType.abis inputs⟩ = solSignature name inputs ∧
      (∀ i ∈ inputs, (expandTupleTypes (i.2.abi i.1)).type = i.2.canonical) ∧
      ∀ inputs' : List (JsString × SolType), (inputs'.map fun i => i.2.canonical) ≠ (inputs.map fun i => i.2.canonical) →
        canonicalSig ⟨name, SolType.abis inputs'⟩ ≠ canonicalSig ⟨name, SolType.abis inputs⟩ := by
  intro h
  have hsig := (h ['f'] structMatrix).1
  revert hsig
  decide

/-- So is every other function `f` of a matrix of structs. -/
example (fields : List (JsString × SolType)) :
    canonicalSig ⟨['f'], SolType.abis [([], .struct fields [none, none])]⟩ = "f(tuple[][])".toList := rfl

end HardhatTron

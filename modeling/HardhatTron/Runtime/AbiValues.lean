import HardhatTron.Lib.HexBytes
import HardhatTron.Runtime.AbiTypes
/-!
# Values of Solidity types

For values the outermost array of a type comes first, so here an array is a
type of its own. `solType_abi` says that the ABI has the same entry for it.
-/
namespace HardhatTron

open Lib

/-! ## Types -/

inductive ValueType where
  | elementary (e : Elementary)
  | array (t : ValueType) (length : Option Nat)
  | struct (fields : List (JsString × ValueType))

theorem ValueType.induct {motive : ValueType → Prop} (helementary : ∀ e, motive (.elementary e))
    (harray : ∀ t length, motive t → motive (.array t length))
    (hstruct : ∀ fields, (∀ f ∈ fields, motive f.2) → motive (.struct fields)) (t : ValueType) : motive t := by
  apply @ValueType.rec motive (fun fs => ∀ f ∈ fs, motive f.2) (fun f => motive f.2) helementary harray hstruct
  · simp
  · intro f fs hf hfs
    rw [List.forall_mem_cons]
    exact ⟨hf, hfs⟩
  · intro _ _ h
    exact h

def SolType.array (length : Option Nat) : SolType → SolType
  | .elementary e dims => .elementary e (dims ++ [length])
  | .struct fields dims => .struct fields (dims ++ [length])

mutual
def ValueType.solType : ValueType → SolType
  | .elementary e => .elementary e []
  | .array t length => t.solType.array length
  | .struct fields => .struct (ValueType.solTypes fields) []

def ValueType.solTypes : List (JsString × ValueType) → List (JsString × SolType)
  | [] => []
  | (name, t) :: fields => (name, t.solType) :: ValueType.solTypes fields
end

mutual
/-- The entry of an ABI for an input or output of the type. -/
def ValueType.abi (name : JsString) : ValueType → AbiInput
  | .elementary e => ⟨e.name.text, name, none⟩
  | .array t length => ⟨(t.abi name).type ++ dimText length, name, (t.abi name).components⟩
  | .struct fields => ⟨"tuple".toList, name, some (ValueType.abis fields)⟩

def ValueType.abis : List (JsString × ValueType) → List AbiInput
  | [] => []
  | (name, t) :: fields => t.abi name :: ValueType.abis fields
end

/-- What an array is of, whatever its dimensions. -/
def ValueType.base : ValueType → ValueType
  | .elementary e => .elementary e
  | .array t _ => t.base
  | .struct fields => .struct fields

def ValueType.isArray : ValueType → Bool
  | .array _ _ => true
  | _ => false

def ValueType.isStruct : ValueType → Bool
  | .struct _ => true
  | _ => false

def Elementary.isAddress (e : Elementary) : Bool := e.name.text = "address".toList

/-- `/^uint|^int/` -/
def Elementary.isInteger (e : Elementary) : Bool := "uint".toList <+: e.name.text ∨ "int".toList <+: e.name.text

def ValueType.isAddress : ValueType → Bool
  | .elementary e => e.isAddress
  | _ => false

theorem ValueType.abis_eq (fields : List (JsString × ValueType)) :
    ValueType.abis fields = fields.map fun f => f.2.abi f.1 := by
  induction fields with
  | nil => rfl
  | cons f fields ih => rw [ValueType.abis, ih, List.map_cons]

theorem ValueType.abi_name (name : JsString) (t : ValueType) : (t.abi name).name = name := by
  cases t <;> rfl

theorem ValueType.abis_names (fields : List (JsString × ValueType)) :
    (abis fields).map (·.name) = fields.map Prod.fst := by
  rw [abis_eq, List.map_map]
  apply List.map_congr_left
  intro f _
  exact f.2.abi_name f.1

theorem ValueType.length_abis (fields : List (JsString × ValueType)) : (abis fields).length = fields.length := by
  rw [abis_eq, List.length_map]

theorem ValueType.solTypes_eq (fields : List (JsString × ValueType)) :
    ValueType.solTypes fields = fields.map fun f => (f.1, f.2.solType) := by
  induction fields with
  | nil => rfl
  | cons f fields ih => rw [ValueType.solTypes, ih, List.map_cons]

theorem SolType.abi_array (length : Option Nat) (name : JsString) (t : SolType) : (t.array length).abi name =
    ⟨(t.abi name).type ++ dimText length, name, (t.abi name).components⟩ := by
  cases t with
  | elementary e dims => simp [SolType.array, SolType.abi, dimsText]
  | struct fields dims => simp [SolType.array, SolType.abi, dimsText]

/-- The ABI writes both the same way. -/
theorem ValueType.solType_abi (t : ValueType) : ∀ name, t.solType.abi name = t.abi name := by
  induction t using ValueType.induct with
  | helementary e =>
    intro name
    rw [solType, SolType.abi, abi, dimsText, List.flatMap_nil, List.append_nil]
  | harray t length ih =>
    intro name
    rw [solType, SolType.abi_array, ih, abi]
  | hstruct fields ih =>
    intro name
    have hfields : SolType.abis (solTypes fields) = abis fields := by
      rw [SolType.abis_eq, solTypes_eq, abis_eq, List.map_map]
      apply List.map_congr_left
      intro f hf
      exact ih f hf f.1
    rw [solType, SolType.abi, abi, hfields, dimsText, List.flatMap_nil, List.append_nil]

/-! ## Their texts -/

/-- The text of what an array is of. -/
def ValueType.baseText : ValueType → JsString
  | .elementary e => e.name.text
  | .array t _ => t.baseText
  | .struct _ => "tuple".toList

/-- The suffixes of a type, innermost first. -/
def ValueType.dims : ValueType → List (Option Nat)
  | .array t length => t.dims ++ [length]
  | _ => []

theorem ValueType.abi_type (name : JsString) (t : ValueType) : (t.abi name).type = t.baseText ++ dimsText t.dims := by
  induction t using ValueType.induct with
  | helementary e => exact (List.append_nil _).symm
  | harray t length ih =>
    rw [abi, ih, baseText, dims, dimsText, dimsText, List.flatMap_append, List.append_assoc, List.flatMap_singleton]
  | hstruct fields => rfl

theorem ValueType.isAlphanum_of_mem_baseText (t : ValueType) : ∀ c ∈ t.baseText, c.isAlphanum = true := by
  induction t using ValueType.induct with
  | helementary e => exact e.name.alphanumeric
  | harray t length ih => exact ih
  | hstruct fields => exact tupleWord.alphanumeric

theorem ValueType.bracket_not_mem_baseText (t : ValueType) : '[' ∉ t.baseText := by
  intro h
  exact absurd (t.isAlphanum_of_mem_baseText '[' h) (by decide)

theorem ValueType.bracket_mem_array (t : ValueType) (length : Option Nat) (name : JsString) :
    '[' ∈ ((ValueType.array t length).abi name).type := by
  rw [abi]
  exact List.mem_append_right _ List.mem_cons_self

/-- No text with a bracket is a word. -/
theorem ValueType.array_ne {t : ValueType} {length : Option Nat} {name s : JsString} (hs : '[' ∉ s) :
    ((ValueType.array t length).abi name).type ≠ s := by
  rintro rfl
  exact hs (t.bracket_mem_array length name)

/-- The text of an array begins with that of what it is of. -/
theorem ValueType.opens_array_iff {w : JsString} (hw : '[' ∉ w) (t : ValueType) (length : Option Nat)
    (name : JsString) : w ++ ['['] <+: ((ValueType.array t length).abi name).type ↔ t.baseText = w := by
  obtain ⟨u, hu⟩ : ∃ u, dimsText (ValueType.array t length).dims = '[' :: u := by
    obtain ⟨d, ds, hd⟩ := List.exists_cons_of_ne_nil (List.concat_ne_nil length t.dims)
    rw [ValueType.dims, hd]
    exact ⟨_, rfl⟩
  rw [abi_type, hu, baseText]
  constructor
  · rintro ⟨r, hr⟩
    rw [List.append_assoc, List.singleton_append] at hr
    exact (append_mark_inj hw t.bracket_not_mem_baseText hr).1.symm
  · rintro rfl
    exact ⟨u, by rw [List.append_assoc, List.singleton_append]⟩

theorem ValueType.baseText_address_iff (t : ValueType) : t.baseText = "address".toList ↔ t.base.isAddress = true := by
  induction t using ValueType.induct with
  | helementary e => exact (decide_eq_true_iff).symm
  | harray t length ih => exact ih
  | hstruct fields => simp [baseText, base, isAddress]

theorem Elementary.bracket_not_mem (e : Elementary) : '[' ∉ e.name.text := by
  intro h
  exact absurd (e.name.alphanumeric '[' h) (by decide)

/-- No elementary type begins like an array. -/
theorem Elementary.opens_no_array (e : Elementary) (w : JsString) : ¬ w ++ ['['] <+: e.name.text := by
  intro h
  exact e.bracket_not_mem (h.subset (List.mem_append_right w List.mem_cons_self))

theorem Elementary.isAddress_of_isInteger {e : Elementary} (h : e.isInteger = true) : e.isAddress = false := by
  rw [isInteger, decide_eq_true_eq] at h
  rw [isAddress, decide_eq_false_iff_not]
  intro hname
  rw [hname] at h
  revert h
  decide

/-! ## Values -/

inductive AbiValue where
  | integer (i : Int)
  | address (a : HexText 40)
  | bool (b : Bool)
  | text (s : JsString)
  /-- The elements of an array, or the components of a struct. -/
  | items (vs : List AbiValue)

def Elementary.Holds (e : Elementary) : AbiValue → Prop
  | .integer _ => e.isInteger = true
  | .address _ => e.isAddress = true
  | .bool _ => e.isInteger = false ∧ e.isAddress = false
  | .text _ => e.isInteger = false ∧ e.isAddress = false
  | .items _ => False

mutual
/-- `v` is a value of the type. -/
def ValueType.Holds : ValueType → AbiValue → Prop
  | .elementary e, v => e.Holds v
  | .array t length, .items vs => (∀ n ∈ length, vs.length = n) ∧ ∀ v ∈ vs, t.Holds v
  | .struct fields, .items vs => ValueType.HoldsAll fields vs
  | _, _ => False

def ValueType.HoldsAll : List (JsString × ValueType) → List AbiValue → Prop
  | [], [] => True
  | (_, t) :: fields, v :: vs => t.Holds v ∧ ValueType.HoldsAll fields vs
  | _, _ => False
end

theorem ValueType.holds_array {t : ValueType} {length : Option Nat} {v : AbiValue}
    (h : (ValueType.array t length).Holds v) : ∃ vs, v = .items vs ∧ ∀ v ∈ vs, t.Holds v := by
  cases v with
  | items vs => exact ⟨vs, rfl, h.2⟩
  | integer | address | bool | text => exact h.elim

theorem ValueType.holds_struct {fields : List (JsString × ValueType)} {v : AbiValue}
    (h : (ValueType.struct fields).Holds v) : ∃ vs, v = .items vs ∧ ValueType.HoldsAll fields vs := by
  cases v with
  | items vs => exact ⟨vs, rfl, h⟩
  | integer | address | bool | text => exact h.elim

theorem ValueType.HoldsAll.length_eq {fields : List (JsString × ValueType)} {vs : List AbiValue}
    (h : HoldsAll fields vs) : fields.length = vs.length := by
  induction fields generalizing vs with
  | nil =>
    cases vs with
    | nil => rfl
    | cons v vs => exact h.elim
  | cons f fields ih =>
    cases vs with
    | nil => exact h.elim
    | cons v vs => rw [List.length_cons, List.length_cons, ih h.2]

end HardhatTron

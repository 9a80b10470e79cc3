import HardhatTron.Lib.Ranking
import HardhatTron.Runtime.AddressArgs
import HardhatTron.Runtime.PrebuildSplits
/-!
# Picking an overload

A facade with several functions of one name picks one at the call. Arguments
that `ethers.Typed` wraps name their types: an overload gains two points where
it has that type and loses one where it has not, and the best goes first.
`pickOverload_fits` says that the pick is the first overload that
contradicts no wrapper, when there is one.
-/
namespace HardhatTron

open Lib

/-! ## The dispatcher -/

/-- The type an argument is wrapped with. -/
def typedHint : JsValue → Option JsString
  | .obj fs => if isTyped fs then stringField fs "type" else none
  | _ => none

def hintScore (a : JsValue) (input : AbiInput) : Int :=
  match typedHint a with
  | some type => if type = input.type then 2 else -1
  | none => 0

/-- `score` -/
def overloadScore (args : List JsValue) (o : AbiFunction) : Int :=
  (args.zip o.inputs).foldl (fun score e => score + hintScore e.1 e.2) 0

def noOverloadMessage (overloads : List AbiFunction) (count : Nat) : JsString :=
  "No overload of `".toList ++ (overloads.head?.map AbiFunction.name).getD [] ++
    "` matches argument count ".toList ++ Nat.toDigits 10 count ++ ". Available: ".toList ++
    ", ".toList.intercalate (overloads.map fun o => bracketed '(' ',' ')' (o.inputs.map AbiInput.type))

/-- `candidates` -/
def candidatesFor (overloads : List AbiFunction) (args : List JsValue) : List AbiFunction :=
  overloads.filter fun o => o.inputs.length = args.length

/-- `scored` -/
def scoredFor (args : List JsValue) (candidates : List AbiFunction) : List (AbiFunction × Int) :=
  candidates.map fun o => (o, overloadScore args o)

def pickOverload (overloads : List AbiFunction) (rawArgs : List JsValue) : Except JsThrown AbiFunction :=
  let args := (splitOverrides rawArgs none).args
  match candidatesFor overloads args with
  | [] => .error (.error (noOverloadMessage overloads args.length))
  | [o] => .ok o
  | o :: candidates => .ok ((ranked Prod.snd (scoredFor args (o :: candidates))).headD (o, 0)).1

/-! ## Fitting overloads -/

/-- `n` arguments, and a wrapper of overrides after them or none. -/
inductive CallArgs : List JsValue → List JsValue → Prop
  | bare {args : List JsValue} :
      (∀ fs, args.getLast? = some (.obj fs) → isTypedOverrides fs = false) → CallArgs args args
  | followed {args : List JsValue} {fs : Fields} : isTypedOverrides fs = true → CallArgs (args ++ [.obj fs]) args

/-- As many inputs as arguments, and of the type each wrapped argument names. -/
def Fits (args : List JsValue) (o : AbiFunction) : Prop :=
  List.Forall₂ (fun a input => ∀ type ∈ typedHint a, type = input.type) args o.inputs

def inputTypes (o : AbiFunction) : List JsString := o.inputs.map AbiInput.type

theorem splitOverrides_callArgs {rawArgs args : List JsValue} (h : CallArgs rawArgs args) :
    (splitOverrides rawArgs none).args = args := by
  cases h with
  | bare hunwrapped =>
    unfold splitOverrides
    cases hlast : rawArgs.getLast? with
    | none => rfl
    | some v =>
      cases v with
      | obj fs =>
        have htyped : ¬(isTypedOverrides fs = true) := by
          rw [hunwrapped fs hlast]
          exact Bool.false_ne_true
        exact congrArg Split.args (if_neg htyped)
      | _ => rfl
  | followed htyped =>
    rw [splitOverrides_typed List.getLast?_concat htyped]
    exact List.dropLast_concat

/-! ## Scores -/

/-- What a wrapper can earn. -/
def highest (a : JsValue) : Int := if (typedHint a).isSome then 2 else 0

theorem hintScore_le (a : JsValue) (input : AbiInput) : hintScore a input ≤ highest a := by
  unfold hintScore highest
  cases typedHint a with
  | none => simp
  | some type =>
    simp only [Option.isSome_some, if_true]
    split <;> omega

theorem hintScore_eq_iff {a : JsValue} {input : AbiInput} :
    hintScore a input = highest a ↔ ∀ type ∈ typedHint a, type = input.type := by
  unfold hintScore highest
  cases typedHint a with
  | none => simp
  | some type => by_cases h : type = input.type <;> simp [h]

theorem overloadScore_eq_sum (args : List JsValue) (o : AbiFunction) :
    overloadScore args o = ((args.zip o.inputs).map fun e => hintScore e.1 e.2).sum := by
  rw [overloadScore, List.sum_eq_foldl, List.foldl_map]

/-- Nothing scores more than all that the wrappers can earn, and only what agrees with each of them as much. -/
theorem sum_hintScore {args : List JsValue} {inputs : List AbiInput} (hlen : inputs.length = args.length) :
    ((args.zip inputs).map fun e => hintScore e.1 e.2).sum ≤ (args.map highest).sum ∧
    (((args.zip inputs).map fun e => hintScore e.1 e.2).sum = (args.map highest).sum ↔
      List.Forall₂ (fun a input => ∀ type ∈ typedHint a, type = input.type) args inputs) := by
  induction args generalizing inputs with
  | nil =>
    obtain rfl := List.length_eq_zero_iff.1 hlen
    simp
  | cons a args ih =>
    obtain ⟨input, inputs, rfl⟩ := List.exists_of_length_succ _ hlen
    obtain ⟨hle, heq⟩ := ih (Nat.succ.inj hlen)
    have hfirst := hintScore_le a input
    simp only [List.zip_cons_cons, List.map_cons, List.sum_cons]
    rw [List.forall₂_cons, ← heq, ← hintScore_eq_iff]
    constructor
    · omega
    · omega

theorem overloadScore_le {args : List JsValue} {o : AbiFunction} (hlen : o.inputs.length = args.length) :
    overloadScore args o ≤ (args.map highest).sum := by
  rw [overloadScore_eq_sum]
  exact (sum_hintScore hlen).1

theorem overloadScore_eq_iff {args : List JsValue} {o : AbiFunction} (hlen : o.inputs.length = args.length) :
    overloadScore args o = (args.map highest).sum ↔ Fits args o := by
  rw [overloadScore_eq_sum]
  exact (sum_hintScore hlen).2

theorem Fits.length_eq {args : List JsValue} {o : AbiFunction} (h : Fits args o) : o.inputs.length = args.length :=
  (List.Forall₂.length_eq h).symm

/-! ## The pick -/

theorem mem_candidatesFor {overloads : List AbiFunction} {args : List JsValue} {o : AbiFunction} :
    o ∈ candidatesFor overloads args ↔ o ∈ overloads ∧ o.inputs.length = args.length := by
  rw [candidatesFor, List.mem_filter, decide_eq_true_eq]

/-- What is ranked first is picked, from one candidate as from several. -/
theorem pickOverload_of_head {overloads : List AbiFunction} {rawArgs args : List JsValue} {o : AbiFunction} {score : Int}
    (hargs : CallArgs rawArgs args)
    (hhead : (ranked Prod.snd (scoredFor args (candidatesFor overloads args))).head? = some (o, score)) :
    pickOverload overloads rawArgs = .ok o := by
  unfold pickOverload
  simp only [splitOverrides_callArgs hargs]
  cases hc : candidatesFor overloads args with
  | nil =>
    rw [hc] at hhead
    cases List.mem_mergeSort.1 (List.mem_of_mem_head? hhead)
  | cons o' candidates =>
    rw [hc] at hhead
    cases candidates with
    | nil =>
      have hmem := List.mem_mergeSort.1 (List.mem_of_mem_head? hhead)
      simp only [scoredFor, List.map_cons, List.map_nil, List.mem_singleton] at hmem
      rw [(Prod.mk.inj hmem).1]
    | cons o'' candidates => simp only [List.headD_eq_head?_getD, hhead, Option.getD_some]

/-- Of overloads that fit, the first is picked. -/
theorem pickOverload_first {before after : List AbiFunction} {rawArgs args : List JsValue} {o : AbiFunction}
    (hargs : CallArgs rawArgs args) (hfits : Fits args o) (hbefore : ∀ o' ∈ before, ¬Fits args o') :
    pickOverload (before ++ o :: after) rawArgs = .ok o := by
  have hcandidates : scoredFor args (candidatesFor (before ++ o :: after) args) =
      scoredFor args (candidatesFor before args) ++
        (o, overloadScore args o) :: scoredFor args (candidatesFor after args) := by
    unfold candidatesFor scoredFor
    rw [List.filter_append, List.filter_cons_of_pos (by simpa using hfits.length_eq), List.map_append, List.map_cons]
  have htop := (overloadScore_eq_iff hfits.length_eq).2 hfits
  apply pickOverload_of_head hargs
  rw [hcandidates]
  apply head?_ranked
  · -- none before it agrees with every wrapper
    intro b hb
    obtain ⟨o', ho', rfl⟩ := List.mem_map.1 hb
    obtain ⟨hmem, hlen⟩ := mem_candidatesFor.1 ho'
    rw [htop]
    exact lt_of_le_of_ne (overloadScore_le hlen) fun h => hbefore o' hmem ((overloadScore_eq_iff hlen).1 h)
  · intro b hb
    obtain ⟨o', ho', rfl⟩ := List.mem_map.1 hb
    rw [htop]
    exact overloadScore_le (mem_candidatesFor.1 ho').2

theorem pickOverload_error_iff {overloads : List AbiFunction} {rawArgs args : List JsValue}
    (hargs : CallArgs rawArgs args) :
    (∃ e, pickOverload overloads rawArgs = .error e) ↔ ∀ o ∈ overloads, o.inputs.length ≠ args.length := by
  have hnil : candidatesFor overloads args = [] ↔ ∀ o ∈ overloads, o.inputs.length ≠ args.length := by
    rw [List.eq_nil_iff_forall_not_mem]
    simp only [mem_candidatesFor, not_and, ne_eq]
  rw [← hnil]
  unfold pickOverload
  simp only [splitOverrides_callArgs hargs]
  cases hc : candidatesFor overloads args with
  | nil => simp
  | cons o candidates => cases candidates <;> simp

/-- The first of the overloads that fit. -/
theorem exists_first_fitting {overloads : List AbiFunction} {args : List JsValue} (h : ∃ o ∈ overloads, Fits args o) :
    ∃ before o after, overloads = before ++ o :: after ∧ Fits args o ∧ ∀ o' ∈ before, ¬Fits args o' := by
  classical
  obtain ⟨o, ho, hfits⟩ := h
  have hsome : (overloads.find? fun o => decide (Fits args o)).isSome := by
    rw [List.find?_isSome]
    exact ⟨o, ho, decide_eq_true hfits⟩
  obtain ⟨first, hfirst⟩ := Option.isSome_iff_exists.1 hsome
  obtain ⟨hfits', before, after, hsplit, hbefore⟩ := List.find?_eq_some_iff_append.1 hfirst
  refine ⟨before, first, after, hsplit, of_decide_eq_true hfits', ?_⟩
  intro o' ho'
  simpa using hbefore o' ho'

/-- Where every argument is wrapped, to fit is to have those types. -/
theorem forall₂_iff_of_typed {args : List JsValue} {types : List JsString} {inputs : List AbiInput}
    (htyped : args.map typedHint = types.map some) :
    List.Forall₂ (fun a input => ∀ type ∈ typedHint a, type = input.type) args inputs ↔
      types = inputs.map AbiInput.type := by
  induction args generalizing types inputs with
  | nil =>
    obtain rfl : types = [] := List.map_eq_nil_iff.1 htyped.symm
    cases inputs <;> simp
  | cons a args ih =>
    cases types with
    | nil => cases htyped
    | cons type types =>
      obtain ⟨ha, hargs⟩ := List.cons.inj htyped
      cases inputs with
      | nil => simp
      | cons input inputs =>
        rw [List.forall₂_cons, ih hargs, List.map_cons, List.cons.injEq, ha]
        simp

theorem fits_iff_of_typed {args : List JsValue} {o o' : AbiFunction}
    (htyped : args.map typedHint = (inputTypes o).map some) : Fits args o' ↔ inputTypes o = inputTypes o' :=
  forall₂_iff_of_typed htyped

/-- Among overloads of different input types: the first that contradicts no wrapped argument is picked, when there is
one; with every argument wrapped it is the overload of those types; and the call throws exactly when no overload takes
as many arguments. -/
theorem pickOverload_fits {overloads : List AbiFunction} (hdistinct : (overloads.map inputTypes).Nodup)
    {rawArgs args : List JsValue} (hargs : CallArgs rawArgs args) :
    ((∃ o ∈ overloads, Fits args o) → ∃ before o after, overloads = before ++ o :: after ∧ Fits args o ∧
      (∀ o' ∈ before, ¬Fits args o') ∧ pickOverload overloads rawArgs = .ok o) ∧
    (∀ o ∈ overloads, args.map typedHint = (inputTypes o).map some → pickOverload overloads rawArgs = .ok o) ∧
    ((∃ e, pickOverload overloads rawArgs = .error e) ↔ ∀ o ∈ overloads, o.inputs.length ≠ args.length) := by
  refine ⟨?_, ?_, pickOverload_error_iff hargs⟩
  · intro h
    obtain ⟨before, o, after, rfl, hfits, hbefore⟩ := exists_first_fitting h
    exact ⟨before, o, after, rfl, hfits, hbefore, pickOverload_first hargs hfits hbefore⟩
  · intro o ho htyped
    obtain ⟨before, after, rfl⟩ := List.append_of_mem ho
    apply pickOverload_first hargs ((fits_iff_of_typed htyped).2 rfl)
    intro o' ho' hfits
    -- two overloads of one list of types
    rw [List.map_append, List.map_cons, List.nodup_append] at hdistinct
    exact hdistinct.2.2 _ (List.mem_map_of_mem ho') _ List.mem_cons_self ((fits_iff_of_typed htyped).1 hfits).symm

/-! ## A digest or data -/

def bytes32Input : AbiInput := ⟨"bytes32".toList, "digest".toList, none⟩

def bytesInput : AbiInput := ⟨"bytes".toList, "data".toList, none⟩

/-- `$pkcs1Sha256(bytes32,bytes)` and `$pkcs1Sha256(bytes,bytes)` -/
def pkcs1Overloads : List AbiFunction :=
  [⟨"$pkcs1Sha256".toList, [bytes32Input, bytesInput]⟩, ⟨"$pkcs1Sha256".toList, [bytesInput, bytesInput]⟩]

/-- `ethers.Typed.bytes(data)` -/
def typedBytes : JsValue :=
  .obj [("_typedSymbol".toList, .typedSymbol), ("type".toList, .str "bytes".toList), ("value".toList, .str "0x".toList)]

theorem typedData_callArgs :
    CallArgs [typedBytes, .str "0x".toList, typedFiveSun] [typedBytes, .str "0x".toList] :=
  @CallArgs.followed [typedBytes, .str "0x".toList] _ rfl

def pkcs1OfData : AbiFunction := ⟨"$pkcs1Sha256".toList, [bytesInput, bytesInput]⟩

theorem typedData_fits : Fits [typedBytes, .str "0x".toList] pkcs1OfData :=
  .cons (fun _ h => (Option.some.inj h).symm) (.cons (fun _ h => by cases h) .nil)

/-- The wrapped argument contradicts the overload of a digest. -/
theorem typedData_fits_iff {o : AbiFunction} (ho : o ∈ pkcs1Overloads) :
    Fits [typedBytes, .str "0x".toList] o ↔ o = pkcs1OfData := by
  constructor
  · intro hfits
    rcases List.mem_cons.1 ho with rfl | ho
    · obtain ⟨hfirst, -⟩ := List.forall₂_cons.1 hfits
      exact absurd (hfirst "bytes".toList rfl) (by decide)
    · exact List.mem_singleton.1 ho
  · rintro rfl
    exact typedData_fits

/-- One wrapped argument, one bare, and wrapped overrides: the second overload is picked. -/
theorem pkcs1_data_picked :
    pickOverload pkcs1Overloads [typedBytes, .str "0x".toList, typedFiveSun] = .ok pkcs1OfData ∧
    (∀ o ∈ pkcs1Overloads, [typedBytes, .str "0x".toList].map typedHint = (inputTypes o).map some →
      pickOverload pkcs1Overloads [typedBytes, .str "0x".toList, typedFiveSun] = .ok o) ∧
    ((∃ e, pickOverload pkcs1Overloads [typedBytes, .str "0x".toList, typedFiveSun] = .error e) ↔
      ∀ o ∈ pkcs1Overloads, o.inputs.length ≠ 2) := by
  have hdistinct : (pkcs1Overloads.map inputTypes).Nodup := by decide
  have hmem : pkcs1OfData ∈ pkcs1Overloads := List.mem_cons_of_mem _ List.mem_cons_self
  obtain ⟨hfirst, htyped, herror⟩ := pickOverload_fits hdistinct typedData_callArgs
  obtain ⟨before, o, after, hsplit, hfits, -, hpicked⟩ := hfirst ⟨pkcs1OfData, hmem, typedData_fits⟩
  have ho : o ∈ pkcs1Overloads := hsplit ▸ List.mem_append_right before List.mem_cons_self
  obtain rfl := (typedData_fits_iff ho).1 hfits
  exact ⟨hpicked, htyped, herror⟩

end HardhatTron

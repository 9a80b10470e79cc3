import HardhatTron.Runtime.PrebuildRuns
/-!
# Two ways to find the overrides

`predictAddress` finds a trailing overrides object for itself, as its comment
says to mirror `splitOverrides`. `splits_agree_iff` says for which argument
lists the two take the same values apart and a stashed deployment is the one
that would have been made: the wrapper of `ethers.Typed.overrides` is taken for
the overrides themselves.
-/
namespace HardhatTron

open Lib

/-! ## Argument lists -/

/-- The wrapper `ethers.Typed.overrides` makes. -/
def isTypedOverrides (fs : Fields) : Bool :=
  stringField fs "type" = some "overrides".toList && hasField fs "_typedSymbol"

/-- What may follow the arguments of a constructor. -/
inductive OverridesForm : JsValue → Prop
  | plain {fs : Fields} : hasField fs "_typedSymbol" = false → OverridesForm (.obj fs)
  | typed {fs : Fields} : isTypedOverrides fs = true → OverridesForm (.obj fs)

/-- `n` arguments, and one overrides object after them or none. -/
inductive CtorArgs (n : Nat) : List JsValue → Prop
  | bare {args : List JsValue} : args.length = n → CtorArgs n args
  | followed {args : List JsValue} {v : JsValue} : args.length = n → OverridesForm v → CtorArgs n (args ++ [v])

/-- `ctorInputCount` -/
def Artifact.ctorInputCount (artifact : Artifact) : Nat := (artifact.ctor.map List.length).getD 0

/-- The last value is no wrapper, and where there is no constructor it names an override. -/
structure SplitsAlike (artifact : Artifact) (args : List JsValue) : Prop where
  unwrapped : ∀ fs, args.getLast? = some (.obj fs) → isTypedOverrides fs = false
  named : artifact.ctor = none → ∀ fs, args.getLast? = some (.obj fs) → overrideKeys.any (hasField fs) = true

/-! ## The splits -/

theorem splitOverrides_typed {args : List JsValue} {fs : Fields} (hlast : args.getLast? = some (.obj fs))
    (htyped : isTypedOverrides fs = true) (expected : Option Nat) :
    splitOverrides args expected =
      ⟨if ((JsValue.obj fs).get "value").truthy then (JsValue.obj fs).get "value" else .obj [], args.dropLast⟩ := by
  unfold splitOverrides
  rw [hlast]
  exact if_pos htyped

theorem mem_of_lookup {fs : Fields} {k : JsString} {v : JsValue} (h : fs.lookup k = some v) : (k, v) ∈ fs := by
  obtain ⟨before, after, hfs, -⟩ := List.lookup_eq_some_iff.1 h
  rw [hfs]
  exact List.mem_append_right before List.mem_cons_self

/-- No object is the value of one of its own fields. -/
theorem get_ne_self (fs : Fields) (name : String) : (JsValue.obj fs).get name ≠ .obj fs := by
  intro h
  rw [JsValue.get] at h
  cases hlookup : fs.lookup name.toList with
  | none =>
    rw [hlookup] at h
    cases h
  | some v =>
    rw [hlookup, Option.getD_some] at h
    subst h
    have hlt := List.sizeOf_lt_of_mem (mem_of_lookup hlookup)
    simp only [Prod.mk.sizeOf_spec, JsValue.obj.sizeOf_spec] at hlt
    omega

/-- A wrapper is never taken apart by `predictAddress`. -/
theorem predictSplit_typed_ne {args : List JsValue} {fs : Fields} (hlast : args.getLast? = some (.obj fs))
    (htyped : isTypedOverrides fs = true) (n : Nat) : predictSplit args n ≠ splitOverrides args (some n) := by
  rw [splitOverrides_typed hlast htyped]
  unfold predictSplit
  rw [hlast]
  simp only
  split
  · -- the wrapper itself is the overrides
    intro h
    have hself := (Split.mk.inj h).1
    split at hself
    · exact get_ne_self fs "value" hself.symm
    · cases hself
      cases htyped
  · -- or an argument
    intro h
    have hargs := congrArg List.length (Split.mk.inj h).2
    obtain ⟨before, hbefore⟩ := List.getLast?_eq_some_iff.1 hlast
    rw [hbefore] at hargs
    simp at hargs

/-- Neither takes anything off the arguments themselves, nor an object that names no override. -/
theorem splits_eq_of_kept {args : List JsValue} {n : Nat}
    (hunwrapped : ∀ fs, args.getLast? = some (.obj fs) → isTypedOverrides fs = false)
    (hkept : args.length = n ∨ ∀ fs, args.getLast? = some (.obj fs) → overrideKeys.any (hasField fs) = false) :
    predictSplit args n = ⟨.obj [], args⟩ ∧ splitOverrides args (some n) = ⟨.obj [], args⟩ := by
  unfold predictSplit splitOverrides
  cases hlast : args.getLast? with
  | none => exact ⟨rfl, rfl⟩
  | some v =>
    cases v with
    | obj fs =>
      have htyped : ¬(isTypedOverrides fs = true) := by
        rw [hunwrapped fs hlast]
        exact Bool.false_ne_true
      rcases hkept with hlen | hkeys
      · exact ⟨if_neg (by simp [hlen]), (if_neg htyped).trans (if_neg (by simp [hlen]))⟩
      · exact ⟨if_neg (by simp [hkeys fs hlast]), (if_neg htyped).trans (if_neg (by simp [hkeys fs hlast]))⟩
    | _ => exact ⟨rfl, rfl⟩

theorem splits_eq {n : Nat} {values : List JsValue} (hargs : CtorArgs n values)
    (hunwrapped : ∀ fs, values.getLast? = some (.obj fs) → isTypedOverrides fs = false) :
    predictSplit values n = splitOverrides values (some n) := by
  cases hargs with
  | bare hlen =>
    obtain ⟨hpredicted, hsplit⟩ := splits_eq_of_kept hunwrapped (.inl hlen)
    rw [hpredicted, hsplit]
  | @followed args v hlen hform =>
    have hlast : (args ++ [v]).getLast? = some v := List.getLast?_concat
    apply predictSplit_eq
    · rw [List.length_append, hlen]
      rfl
    · intro fs hfs
      cases hform with
      | plain hplain =>
        cases hlast.symm.trans hfs
        exact hplain
      | typed htyped =>
        rw [hunwrapped _ hlast] at htyped
        cases htyped

/-- Without a constructor an object that names an override leaves no argument. -/
theorem split_args_nil {values : List JsValue} (hargs : CtorArgs 0 values)
    (hunwrapped : ∀ fs, values.getLast? = some (.obj fs) → isTypedOverrides fs = false)
    (hnamed : ∀ fs, values.getLast? = some (.obj fs) → overrideKeys.any (hasField fs) = true) :
    (splitOverrides values (some 0)).args = [] := by
  rw [← splits_eq hargs hunwrapped]
  cases hargs with
  | bare hlen =>
    rw [List.length_eq_zero_iff.1 hlen]
    rfl
  | @followed args v hlen hform =>
    obtain rfl : args = [] := List.length_eq_zero_iff.1 hlen
    obtain ⟨fs, rfl⟩ : ∃ fs, v = .obj fs := by
      cases hform with
      | plain _ => exact ⟨_, rfl⟩
      | typed _ => exact ⟨_, rfl⟩
    have hkeys := hnamed fs rfl
    exact congrArg Split.args (if_pos (by rw [hkeys]; rfl))

/-- With one split, the two functions derive one call, unless a list is left that no constructor takes. -/
theorem predictedCall_eq_of_split {env : BridgeEnv} {name : JsString} {artifact : Artifact}
    (ha : env.loadArtifact name = .ok artifact) {args : Args}
    (hsplit : predictSplit args.values artifact.ctorInputCount =
      splitOverrides args.values (some artifact.ctorInputCount))
    (hnone : artifact.ctor = none → (splitOverrides args.values (some artifact.ctorInputCount)).args = [])
    (now : Moment) (signer : TronAddress) :
    predictedCall env now signer name args = deployedCall env now signer name args := by
  unfold predictedCall deployedCall
  rw [ha]
  simp only [bind, Except.bind]
  rw [← Artifact.ctorInputCount, hsplit]
  cases hctor : artifact.ctor with
  | some inputs => rfl
  | none =>
    rw [hnone hctor]
    rfl

/-- An object that names no override is an argument that `deployViaFacade` refuses without a constructor. -/
theorem predictedCall_ne_of_unnamed {env : BridgeEnv} {name : JsString} {artifact : Artifact}
    (ha : env.loadArtifact name = .ok artifact) (hctor : artifact.ctor = none) {args : Args} {fs : Fields}
    (hlast : args.values.getLast? = some (.obj fs)) (huntyped : isTypedOverrides fs = false)
    (hkeys : overrideKeys.any (hasField fs) = false) (now : Moment) (signer : TronAddress) :
    predictedCall env now signer name args ≠ deployedCall env now signer name args := by
  have honly : ∀ fs', args.values.getLast? = some (.obj fs') → fs' = fs := by
    intro fs' h
    cases hlast.symm.trans h
    rfl
  obtain ⟨hpredicted, hsplit⟩ := splits_eq_of_kept (n := artifact.ctorInputCount)
    (fun fs' h => honly fs' h ▸ huntyped) (.inr fun fs' h => honly fs' h ▸ hkeys)
  have hpos : args.values.length > 0 := by
    obtain ⟨before, hbefore⟩ := List.getLast?_eq_some_iff.1 hlast
    rw [hbefore, List.length_append]
    exact Nat.lt_add_left _ Nat.one_pos
  unfold predictedCall deployedCall
  rw [ha]
  simp only [bind, Except.bind]
  rw [← Artifact.ctorInputCount, hpredicted, hsplit, hctor]
  simp only [if_pos hpos]
  intro h
  cases h

/-! ## When they agree -/

/-- Over the arguments of a constructor and what may follow them, the two functions take the same values apart and
derive the same call exactly when the last value is no wrapper and, without a constructor, names an override. -/
theorem splits_agree_iff {env : BridgeEnv} {name : JsString} {artifact : Artifact}
    (ha : env.loadArtifact name = .ok artifact) {args : Args} (hargs : CtorArgs artifact.ctorInputCount args.values) :
    (predictSplit args.values artifact.ctorInputCount =
        splitOverrides args.values (some artifact.ctorInputCount) ∧
      ∀ now signer, predictedCall env now signer name args = deployedCall env now signer name args) ↔
    SplitsAlike artifact args.values := by
  constructor
  · rintro ⟨hsplit, hcall⟩
    have hunwrapped : ∀ fs, args.values.getLast? = some (.obj fs) → isTypedOverrides fs = false := by
      intro fs hlast
      by_contra htyped
      exact predictSplit_typed_ne hlast (Bool.eq_true_of_not_eq_false htyped) _ hsplit
    refine ⟨hunwrapped, ?_⟩
    intro hctor fs hlast
    by_contra hkeys
    exact predictedCall_ne_of_unnamed ha hctor hlast (hunwrapped fs hlast) (Bool.eq_false_of_not_eq_true hkeys)
      ⟨fun _ => none, true⟩ env.defaultDeployer (hcall _ _)
  · intro halike
    have hsplit := splits_eq hargs halike.unwrapped
    refine ⟨hsplit, predictedCall_eq_of_split ha hsplit ?_⟩
    intro hctor
    have hzero : artifact.ctorInputCount = 0 := by rw [Artifact.ctorInputCount, hctor]; rfl
    rw [hzero] at hargs ⊢
    exact split_args_nil hargs halike.unwrapped (halike.named hctor)

/-! ## A value for the constructor -/

/-- `{ value: 5n }` -/
def fiveSun : JsValue := .obj [("value".toList, .bigint 5)]

/-- `ethers.Typed.overrides({ value: 5n })` -/
def typedFiveSun : JsValue :=
  .obj [("_typedSymbol".toList, .typedSymbol), ("type".toList, .str "overrides".toList), ("value".toList, fiveSun)]

theorem plain_value_agrees :
    (predictSplit ((stringArgs "a" "b").snoc fiveSun (by decide)).values 2 =
        splitOverrides ((stringArgs "a" "b").snoc fiveSun (by decide)).values (some 2) ∧
      ∀ now signer, predictedCall twoStrings now signer "Two".toList ((stringArgs "a" "b").snoc fiveSun (by decide)) =
        deployedCall twoStrings now signer "Two".toList ((stringArgs "a" "b").snoc fiveSun (by decide))) ↔
    SplitsAlike ⟨some [stringInput, stringInput]⟩ ((stringArgs "a" "b").snoc fiveSun (by decide)).values :=
  @splits_agree_iff twoStrings _ ⟨some [stringInput, stringInput]⟩ rfl _ (.followed rfl (.plain rfl))

/-- The wrapped value reaches the deployment and not its prediction. -/
theorem wrapped_value_disagrees : ¬ ∀ (env : BridgeEnv) (name : JsString) (artifact : Artifact) (args : Args),
    env.loadArtifact name = .ok artifact → CtorArgs artifact.ctorInputCount args.values →
    predictSplit args.values artifact.ctorInputCount =
        splitOverrides args.values (some artifact.ctorInputCount) ∧
      ∀ now signer, predictedCall env now signer name args = deployedCall env now signer name args := by
  intro h
  have hargs : CtorArgs 2 ((stringArgs "a" "b").snoc typedFiveSun (by decide)).values := .followed rfl (.typed rfl)
  have hboth := h twoStrings "Two".toList ⟨some [stringInput, stringInput]⟩
    ((stringArgs "a" "b").snoc typedFiveSun (by decide)) rfl hargs
  exact predictSplit_typed_ne rfl rfl 2 hboth.1

end HardhatTron

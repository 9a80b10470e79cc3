import HardhatTron.Compile.SourceResolver
/-!
# `tron:compile-batches`

The task sets `tre.compiler.include` to the globs of a batch and compiles, batch
by batch. The resolver takes an empty list for no restriction, so a batch that
specifies nothing gets whatever the excludes leave: `batch_hands_iff`, and
`empty_batch_compiles_contract`.
-/
namespace HardhatTron

/-! ## The task -/

/-- A missing field is `none`. -/
structure Batch where
  name : String
  includeGlobs : Option (List String)
  dirs : Option (List String)
  extraLeaves : Option (List String)

/-- The globs of a directory, with those of its wrappers. -/
def dirGlobs (d : String) : List String :=
  (d ++ "/**/*.sol") ::
    if "contracts/".toList.isPrefixOf d.toList && !"contracts-exposed".toList.isPrefixOf d.toList then
      ["contracts-exposed/" ++ String.ofList (d.toList.drop 10) ++ "/**/*.sol"]
    else []

def batchGlobs (batch : Batch) : List String :=
  match batch.includeGlobs with
  | some (glob :: globs) => glob :: globs
  | _ =>
    (batch.dirs.getD []).flatMap dirGlobs ++ (batch.extraLeaves.getD []).map fun leaf => "**/" ++ leaf ++ ".sol"

/-- `hre.config.tre.compiler.include = include` -/
def Hre.setInclude (hre : Hre) (includeGlobs : List String) : Hre :=
  { hre with compiler := hre.compiler.map fun cfg => { cfg with filters := { cfg.filters with includeGlobs } } }

/-- The disk at a pass, and how the compile ends. -/
structure Pass where
  project : Project
  compiled : Except String Unit

/-- The passes until one fails, with the paths each hands to the compiler. -/
def runPasses (rt : CompileRuntime) (passes : Nat → Pass) :
    Nat → Hre → List Batch → List (Batch × List SourcePath) × Except String Unit
  | _, _, [] => ([], .ok ())
  | i, hre, batch :: batches =>
    let hre := { hre.setInclude (batchGlobs batch) with project := (passes i).project }
    let paths := resolveSourcePaths rt (some hre.project.sources) hre
    match (passes i).compiled with
    | .error e => ([(batch, paths)], .error e)
    | .ok () =>
      let r := runPasses rt passes (i + 1) hre batches
      ((batch, paths) :: r.1, r.2)

def compileBatches (rt : CompileRuntime) (passes : Nat → Pass) (hre : Hre) (batches : List Batch) :
    List (Batch × List SourcePath) × Except String Unit :=
  match hre.compiler with
  | none => ([], .error "tron:compile-batches requires `tre.compiler.*` configuration")
  | some _ => runPasses rt passes 0 hre batches

/-! ## What a batch asks for -/

def Hre.excludeGlobs (hre : Hre) : List String :=
  match hre.compiler with
  | none => []
  | some cfg => cfg.filters.excludeGlobs

/-- A file that matches a glob of the batch and no exclude. -/
def Selected (rt : CompileRuntime) (P : Project) (excludeGlobs : List String) (batch : Batch) (f : SourcePath) : Prop :=
  rt.matchesAny (relative P.root f) (batchGlobs batch) = true ∧ rt.matchesAny (relative P.root f) excludeGlobs = false

/-- The paths are the selected `.sol` files of the sources and of the wrappers. -/
def HandsSelected (rt : CompileRuntime) (P : Project) (excludeGlobs : List String) (batch : Batch)
    (paths : List SourcePath) : Prop :=
  ∀ f, f ∈ paths ↔
    (P.Below P.sources f ∨ P.Below P.exposed f) ∧ f.isSol = true ∧ Selected rt P excludeGlobs batch f

/-- The batch has a glob, or the excludes leave nothing of what is then gone
through; where the plugin is not active, it asks for what Hardhat finds. -/
def MeetsGlobs (rt : CompileRuntime) (active : Bool) (P : Project) (excludeGlobs : List String) (batch : Batch) : Prop :=
  if active then
    batchGlobs batch = [] → ∀ f, f.isSol = true →
      P.Below P.sources f ∨ excludeGlobs ≠ [] ∧ P.Below P.exposed f →
      rt.matchesAny (relative P.root f) excludeGlobs = true
  else
    ∀ f, f.isSol = true → (P.Below P.sources f → Selected rt P excludeGlobs batch f) ∧
      (P.Below P.exposed f → Selected rt P excludeGlobs batch f → P.Below P.sources f)

/-! ## A pass -/

section
variable {rt : CompileRuntime} {hre : Hre}

theorem Hre.setInclude_eq (includeGlobs : List String) :
    hre.setInclude includeGlobs = hre.withFilters ⟨includeGlobs, hre.excludeGlobs⟩ := by
  unfold setInclude withFilters excludeGlobs
  cases hre.compiler <;> rfl

/-- The globs of an earlier pass are forgotten. -/
theorem Hre.setInclude_setInclude (globs globs' : List String) (P P' : Project) :
    { ({ hre.setInclude globs with project := P }).setInclude globs' with project := P' } =
      { hre.setInclude globs' with project := P' } := by
  unfold setInclude
  cases hre.compiler <;> rfl

theorem resolveSourcePaths_inactive (hact : isActive hre = false) (sourcePath : Option SourcePath) :
    resolveSourcePaths rt sourcePath hre = rt.runSuper hre.project sourcePath := by
  unfold resolveSourcePaths
  rw [hact]

theorem isActive_project (P : Project) : isActive { hre with project := P } = isActive hre := by
  unfold isActive
  cases hre.compiler <;> rfl

/-- Of an active plugin, from what the resolver finds. -/
theorem active_hands_iff {P : Project} {excludeGlobs : List String} {batch : Batch} {paths : List SourcePath}
    (hmem : ∀ f, f ∈ paths ↔
      (P.Below P.sources f ∨ ⟨batchGlobs batch, excludeGlobs⟩ ≠ noFilters ∧ P.Below P.exposed f) ∧
        Filters.keeps rt P.root ⟨batchGlobs batch, excludeGlobs⟩ f = true) :
    HandsSelected rt P excludeGlobs batch paths ↔ MeetsGlobs rt true P excludeGlobs batch := by
  show _ ↔ (batchGlobs batch = [] → _)
  by_cases hglobs : batchGlobs batch = []
  · -- nothing is selected
    have hnone : ∀ f, ¬ Selected rt P excludeGlobs batch f := by
      intro f hs
      rw [Selected, hglobs] at hs
      cases hs.1
    have hfilters : (⟨batchGlobs batch, excludeGlobs⟩ : Filters) ≠ noFilters ↔ excludeGlobs ≠ [] := by
      simp [noFilters, hglobs]
    constructor
    · intro hands _ f hsol hbelow
      by_contra hm
      rw [Bool.not_eq_true] at hm
      have hf : f ∈ paths := by
        rw [hmem, hfilters, Filters.keeps_iff]
        exact ⟨hbelow, hsol, fun hne => absurd hglobs hne, hm⟩
      exact hnone f ((hands f).1 hf).2.2
    · intro hcond f
      constructor
      · intro hf
        rw [hmem, hfilters, Filters.keeps_iff] at hf
        obtain ⟨hbelow, hsol, -, hm⟩ := hf
        have := hcond hglobs f hsol hbelow
        rw [hm] at this
        cases this
      · rintro ⟨-, -, hs⟩
        exact absurd hs (hnone f)
  · -- the filter is `Selected`
    refine iff_of_true ?_ fun h => absurd h hglobs
    intro f
    have hfilters : (⟨batchGlobs batch, excludeGlobs⟩ : Filters) ≠ noFilters := by
      simp [noFilters, hglobs]
    rw [hmem, Filters.keeps_iff]
    simp [Selected, hfilters, hglobs]

/-- **One pass.** -/
theorem pass_hands_iff (hl : rt.Lists) (P : Project) (batch : Batch) :
    HandsSelected rt P hre.excludeGlobs batch
        (resolveSourcePaths rt (some P.sources) { hre.setInclude (batchGlobs batch) with project := P }) ↔
      MeetsGlobs rt (isActive hre) P hre.excludeGlobs batch := by
  have hpass : { hre.setInclude (batchGlobs batch) with project := P } =
      Hre.withFilters { hre with project := P } ⟨batchGlobs batch, hre.excludeGlobs⟩ := by
    rw [Hre.setInclude_eq]
    rfl
  have hactive : isActive { hre with project := P } = isActive hre := isActive_project P
  rw [hpass]
  cases hact : isActive hre with
  | true =>
    rw [hact] at hactive
    exact active_hands_iff fun f => mem_resolveSourcePaths hl hactive
  | false =>
    have hnone : isActive (Hre.withFilters { hre with project := P } ⟨batchGlobs batch, hre.excludeGlobs⟩) = false := by
      rw [isActive_withFilters, hactive, hact]
    -- the discovery of Hardhat knows no globs
    rw [resolveSourcePaths_inactive hnone]
    have hmem : ∀ f, f ∈ rt.runSuper P (some P.sources) ↔ P.Below P.sources f ∧ f.isSol = true :=
      fun f => hl.default P (some P.sources) f
    constructor
    · intro hands f hsol
      refine ⟨fun hf => ((hands f).1 ((hmem f).2 ⟨hf, hsol⟩)).2.2, fun hf hs => ?_⟩
      exact ((hmem f).1 ((hands f).2 ⟨.inr hf, hsol, hs⟩)).1
    · intro hcond f
      constructor
      · intro hf
        obtain ⟨hbelow, hsol⟩ := (hmem f).1 hf
        exact ⟨.inl hbelow, hsol, (hcond f hsol).1 hbelow⟩
      · rintro ⟨hbelow, hsol, hs⟩
        refine (hmem f).2 ⟨?_, hsol⟩
        rcases hbelow with hbelow | hbelow
        · exact hbelow
        · exact (hcond f hsol).2 hbelow hs

/-! ## Every pass -/

/-- A pass is a batch of the list, with its globs in place of the configured ones. -/
theorem runPasses_getElem? {passes : Nat → Pass} {batches : List Batch} :
    ∀ {i j : Nat} {hre : Hre} {batch : Batch} {paths : List SourcePath},
      (runPasses rt passes i hre batches).1[j]? = some (batch, paths) →
      batches[j]? = some batch ∧
        paths = resolveSourcePaths rt (some (passes (i + j)).project.sources)
          { hre.setInclude (batchGlobs batch) with project := (passes (i + j)).project } := by
  induction batches with
  | nil => simp [runPasses]
  | cons batch' batches ih =>
    intro i j hre batch paths h
    cases j with
    | zero =>
      have hhead : (batch', resolveSourcePaths rt (some (passes i).project.sources)
          { hre.setInclude (batchGlobs batch') with project := (passes i).project }) = (batch, paths) := by
        simp only [runPasses] at h
        split at h <;> exact Option.some.inj h
      cases hhead
      exact ⟨rfl, rfl⟩
    | succ j =>
      simp only [runPasses] at h
      split at h
      · cases h
      · obtain ⟨hb, rfl⟩ := ih h
        refine ⟨hb, ?_⟩
        rw [Hre.setInclude_setInclude, Nat.add_right_comm, Nat.add_assoc]

/-- **A batch.** A pass hands the compiler the selected files exactly if the batch
has a glob, or there is nothing to go through. -/
theorem batch_hands_iff (hl : rt.Lists) {passes : Nat → Pass} {batches : List Batch} {i : Nat} {batch : Batch}
    {paths : List SourcePath} (h : (compileBatches rt passes hre batches).1[i]? = some (batch, paths)) :
    batches[i]? = some batch ∧
      (HandsSelected rt (passes i).project hre.excludeGlobs batch paths ↔
        MeetsGlobs rt (isActive hre) (passes i).project hre.excludeGlobs batch) := by
  unfold compileBatches at h
  split at h
  · cases h
  · obtain ⟨hb, rfl⟩ := runPasses_getElem? h
    rw [Nat.zero_add]
    exact ⟨hb, pass_hands_iff hl _ batch⟩

end

/-! ## A batch with a glob and one without -/

/-- The project of the wrapper, at every pass. -/
def wrappedPasses : Nat → Pass := fun _ => ⟨wrappedProject, .ok ()⟩

def contractBatch : Batch := ⟨"contract", some ["contracts/A.sol"], none, none⟩

def emptyBatch : Batch := ⟨"empty", none, none, none⟩

/-- The batch of the contract hands over the contract. -/
theorem batch_hands_contract :
    HandsSelected literalRuntime wrappedProject [] contractBatch [["p", "contracts", "A.sol"]] := by
  have hpass : (compileBatches literalRuntime wrappedPasses wrappedHre [contractBatch]).1[0]? =
      some (contractBatch, [["p", "contracts", "A.sol"]]) := rfl
  exact (batch_hands_iff literalRuntime_lists hpass).2.2 fun hglobs => by cases hglobs

/-- The batch that specifies nothing hands it over as well. -/
theorem empty_batch_compiles_contract :
    ¬ ∀ (rt : CompileRuntime) passes (hre : Hre) (batches : List Batch) (i : Nat) batch paths, rt.Lists →
      isActive hre = true → (compileBatches rt passes hre batches).1[i]? = some (batch, paths) →
      HandsSelected rt (passes i).project hre.excludeGlobs batch paths := by
  intro hall
  have hpass : (compileBatches literalRuntime wrappedPasses wrappedHre [emptyBatch]).1[0]? =
      some (emptyBatch, [["p", "contracts", "A.sol"]]) := rfl
  have hands := hall _ _ _ _ _ _ _ literalRuntime_lists rfl hpass
  obtain ⟨-, -, hselected, -⟩ := (hands ["p", "contracts", "A.sol"]).1 (.head _)
  cases hselected

end HardhatTron

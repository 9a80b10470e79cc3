import Mathlib.Data.List.Infix
/-!
# Which files are compiled

`resolveSourcePaths` leaves the discovery to Hardhat when there is no filter, and
otherwise goes through the sources and `contracts-exposed` itself.

`filters_shrink_iff`: more filters mean fewer files, but for the wrappers that
the first filter brings in; `first_filter_adds_wrapper` is such a project.
-/
namespace HardhatTron

/-! ## Paths and projects -/

/-- A normalized path, by its segments. -/
abbrev SourcePath := List String

/-- The text of an absolute path. -/
def SourcePath.text (p : SourcePath) : List Char := p.flatMap fun segment => '/' :: segment.toList

/-- `abs.endsWith('.sol')` -/
def SourcePath.isSol (abs : SourcePath) : Bool := ".sol".toList.isSuffixOf abs.text

/-- `path.relative` -/
def relative : SourcePath → SourcePath → SourcePath
  | d :: dir, p :: path => if d = p then relative dir path else ".." :: dir.map (fun _ => "..") ++ p :: path
  | dir, path => dir.map (fun _ => "..") ++ path

/-- The project on disk; the directories of its files are there, and
`contracts-exposed` is one if it is. -/
structure Project where
  root : SourcePath
  sources : SourcePath
  files : List SourcePath
  dirs : List SourcePath
  parents : ∀ f ∈ files, ∀ d, d <+: f → d ≠ f → d ∈ dirs
  exposed_dir : root ++ ["contracts-exposed"] ∉ files

namespace Project

def exposed (P : Project) : SourcePath := P.root ++ ["contracts-exposed"]

def existsSync (P : Project) (p : SourcePath) : Bool := P.files.contains p || P.dirs.contains p

/-- A file at any depth below the directory. -/
def Below (P : Project) (dir f : SourcePath) : Prop := f ∈ P.files ∧ dir <+: f ∧ dir ≠ f

theorem Below.existsSync {P : Project} {dir f : SourcePath} (h : P.Below dir f) : P.existsSync dir = true := by
  have hdir := P.parents f h.1 dir h.2.1 h.2.2
  simp [Project.existsSync, hdir]

end Project

/-! ## The configuration -/

inductive CompileTarget where
  | tron
  | tronWhenNetworkTron

/-- `include` and `exclude` of `tre.compiler`. -/
structure Filters where
  includeGlobs : List String
  excludeGlobs : List String
  deriving DecidableEq

structure CompilerConfig where
  target : CompileTarget
  filters : Filters
  disabled : Bool

/-- `tre.compiler` of the resolved configuration, and whether the network has `tron` set. -/
structure Hre where
  project : Project
  compiler : Option CompilerConfig
  networkTron : Bool

def isActive (hre : Hre) : Bool :=
  match hre.compiler with
  | none => false
  | some cfg =>
    if cfg.disabled then false
    else
      match cfg.target with
      | .tron => true
      | .tronWhenNetworkTron => hre.networkTron

/-! ## The resolver -/

/-- What the resolver calls: `micromatch` for one glob, `getAllFilesMatching` and
the discovery of Hardhat. -/
structure CompileRuntime where
  isMatch : SourcePath → String → Bool
  getAllFilesMatching : Project → SourcePath → (SourcePath → Bool) → List SourcePath
  runSuper : Project → Option SourcePath → List SourcePath

/-- They list what they are asked for. -/
structure CompileRuntime.Lists (rt : CompileRuntime) : Prop where
  matching : ∀ P dir p f, f ∈ rt.getAllFilesMatching P dir p ↔ P.Below dir f ∧ p f = true
  default : ∀ P sourcePath f, f ∈ rt.runSuper P sourcePath ↔ P.Below (sourcePath.getD P.sources) f ∧ f.isSol = true

/-- `micromatch.isMatch` on a list of globs. -/
def CompileRuntime.matchesAny (rt : CompileRuntime) (rel : SourcePath) (globs : List String) : Bool :=
  globs.any fun glob => rt.isMatch rel glob

/-- `matches` -/
def Filters.keeps (rt : CompileRuntime) (root : SourcePath) (filters : Filters) (abs : SourcePath) : Bool :=
  if !abs.isSol then false
  else
    let rel := relative root abs
    if !filters.includeGlobs.isEmpty && !rt.matchesAny rel filters.includeGlobs then false
    else if !filters.excludeGlobs.isEmpty && rt.matchesAny rel filters.excludeGlobs then false
    else true

/-- A path that is in `seen` is not pushed. -/
def pushUnseen (out : List SourcePath) (abs : SourcePath) : List SourcePath :=
  if out.contains abs then out else out ++ [abs]

/-- The scan of the resolver itself. -/
def scanRoots (rt : CompileRuntime) (P : Project) (sources : SourcePath) (filters : Filters) : List SourcePath :=
  let roots := if P.existsSync P.exposed then [sources, P.exposed] else [sources]
  roots.foldl (fun out r => (rt.getAllFilesMatching P r (filters.keeps rt P.root)).foldl pushUnseen out) []

def resolveSourcePaths (rt : CompileRuntime) (sourcePath : Option SourcePath) (hre : Hre) : List SourcePath :=
  match isActive hre, hre.compiler with
  | true, some cfg =>
    if cfg.filters.includeGlobs.isEmpty && cfg.filters.excludeGlobs.isEmpty then rt.runSuper hre.project sourcePath
    else scanRoots rt hre.project (sourcePath.getD hre.project.sources) cfg.filters
  | _, _ => rt.runSuper hre.project sourcePath

/-! ## What it finds -/

section
variable {rt : CompileRuntime}

theorem mem_foldl_pushUnseen {f : SourcePath} {found : List SourcePath} :
    ∀ {out : List SourcePath}, f ∈ found.foldl pushUnseen out ↔ f ∈ out ∨ f ∈ found := by
  induction found with
  | nil => simp
  | cons abs found ih =>
    intro out
    have hpush : f ∈ pushUnseen out abs ↔ f ∈ out ∨ f = abs := by
      unfold pushUnseen
      split
      · rename_i hseen
        refine ⟨.inl, ?_⟩
        rintro (hf | rfl)
        · exact hf
        · simpa using hseen
      · simp
    rw [List.foldl_cons, ih, hpush, List.mem_cons, or_assoc]

theorem mem_scanRoots (hl : rt.Lists) {P : Project} {sources : SourcePath} {filters : Filters} {f : SourcePath} :
    f ∈ scanRoots rt P sources filters ↔
      (P.Below sources f ∨ P.Below P.exposed f) ∧ filters.keeps rt P.root f = true := by
  unfold scanRoots
  split
  · -- the sources and the wrappers
    simp only [List.foldl_cons, List.foldl_nil, mem_foldl_pushUnseen, hl.matching, List.not_mem_nil, false_or]
    rw [or_and_right]
  · rename_i hexposed
    have hnone : ¬P.Below P.exposed f := fun h => hexposed h.existsSync
    simp only [List.foldl_cons, List.foldl_nil, mem_foldl_pushUnseen, hl.matching, List.not_mem_nil, false_or, hnone,
      or_false]

theorem Filters.keeps_iff {root : SourcePath} {filters : Filters} {abs : SourcePath} :
    filters.keeps rt root abs = true ↔ abs.isSol = true ∧
      (filters.includeGlobs ≠ [] → rt.matchesAny (relative root abs) filters.includeGlobs = true) ∧
      rt.matchesAny (relative root abs) filters.excludeGlobs = false := by
  unfold keeps
  by_cases hsol : abs.isSol = true
  · cases hi : filters.includeGlobs with
    | nil => cases he : filters.excludeGlobs <;> simp [hsol, CompileRuntime.matchesAny]
    | cons glob globs => cases he : filters.excludeGlobs <;> simp [hsol, CompileRuntime.matchesAny]
  · simp [hsol]

def noFilters : Filters := ⟨[], []⟩

theorem noFilters_keeps {root abs : SourcePath} : noFilters.keeps rt root abs = true ↔ abs.isSol = true := by
  rw [Filters.keeps_iff]
  simp [noFilters, CompileRuntime.matchesAny]

/-- The same environment with other `include` and `exclude`. -/
def Hre.withFilters (hre : Hre) (filters : Filters) : Hre :=
  { hre with compiler := hre.compiler.map fun cfg => { cfg with filters } }

theorem isActive_withFilters (hre : Hre) (filters : Filters) : isActive (hre.withFilters filters) = isActive hre := by
  unfold isActive Hre.withFilters
  cases hre.compiler <;> rfl

/-- `contracts-exposed` is gone through if there is a filter. -/
theorem mem_resolveSourcePaths (hl : rt.Lists) {hre : Hre} (hact : isActive hre = true) {sourcePath : Option SourcePath}
    {filters : Filters} {f : SourcePath} :
    f ∈ resolveSourcePaths rt sourcePath (hre.withFilters filters) ↔
      (hre.project.Below (sourcePath.getD hre.project.sources) f ∨
        filters ≠ noFilters ∧ hre.project.Below hre.project.exposed f) ∧
      filters.keeps rt hre.project.root f = true := by
  obtain ⟨cfg, hcfg⟩ : ∃ cfg, hre.compiler = some cfg := by
    cases hc : hre.compiler with
    | none => simp [isActive, hc] at hact
    | some cfg => exact ⟨cfg, rfl⟩
  have hwith : (hre.withFilters filters).compiler = some { cfg with filters } := by
    rw [Hre.withFilters, hcfg, Option.map_some]
  unfold resolveSourcePaths
  rw [isActive_withFilters, hact, hwith]
  dsimp only
  split
  · rename_i hempty
    obtain rfl : filters = noFilters := by
      cases filters
      simpa [noFilters] using hempty
    rw [noFilters_keeps, hl.default]
    simp [Hre.withFilters]
  · rename_i hempty
    have hne : filters ≠ noFilters := by
      rintro rfl
      exact hempty rfl
    rw [mem_scanRoots hl]
    simp [Hre.withFilters, hne]

/-! ## Monotonicity -/

/-- Globs are added to `exclude`, or the first ones to `include`. -/
inductive Tightens : Filters → Filters → Prop
  | addExclude {includeGlobs excludeGlobs excludeGlobs' : List String} (h : excludeGlobs ⊆ excludeGlobs') :
      Tightens ⟨includeGlobs, excludeGlobs⟩ ⟨includeGlobs, excludeGlobs'⟩
  | firstInclude {includeGlobs excludeGlobs : List String} (h : includeGlobs ≠ []) :
      Tightens ⟨[], excludeGlobs⟩ ⟨includeGlobs, excludeGlobs⟩

theorem CompileRuntime.matchesAny_mono {rel : SourcePath} {globs globs' : List String} (h : globs ⊆ globs')
    (hm : rt.matchesAny rel globs = true) : rt.matchesAny rel globs' = true := by
  obtain ⟨glob, hg, hmatch⟩ := List.any_eq_true.1 hm
  exact List.any_eq_true.2 ⟨glob, h hg, hmatch⟩

theorem Tightens.keeps {loose tight : Filters} (ht : Tightens loose tight) {root abs : SourcePath}
    (hk : tight.keeps rt root abs = true) : loose.keeps rt root abs = true := by
  rw [Filters.keeps_iff] at hk ⊢
  obtain ⟨hsol, hinclude, hexclude⟩ := hk
  cases ht with
  | addExclude h =>
    refine ⟨hsol, hinclude, ?_⟩
    by_contra hm
    rw [Bool.not_eq_false] at hm
    rw [rt.matchesAny_mono h hm] at hexclude
    cases hexclude
  | firstInclude h => exact ⟨hsol, fun hne => absurd rfl hne, hexclude⟩

theorem keeps_isSol {filters : Filters} {root abs : SourcePath} (hk : filters.keeps rt root abs = true) :
    abs.isSol = true :=
  (Filters.keeps_iff.1 hk).1

/-- The wrappers that the filters keep are among the sources. -/
def KeepsNoWrapper (rt : CompileRuntime) (P : Project) (sources : SourcePath) (filters : Filters) : Prop :=
  ∀ f, P.Below P.exposed f → filters.keeps rt P.root f = true → P.Below sources f

/-- Filters that keep less of what is found. -/
theorem resolves_subset_iff (hl : rt.Lists) {hre : Hre} (hact : isActive hre = true) (sourcePath : Option SourcePath)
    {loose tight : Filters}
    (hkeeps : ∀ abs, tight.keeps rt hre.project.root abs = true → loose.keeps rt hre.project.root abs = true) :
    resolveSourcePaths rt sourcePath (hre.withFilters tight) ⊆
        resolveSourcePaths rt sourcePath (hre.withFilters loose) ↔
      (loose = noFilters → tight ≠ noFilters →
        KeepsNoWrapper rt hre.project (sourcePath.getD hre.project.sources) tight) := by
  constructor
  · intro hsub hloose htight f hf hk
    have hmem := hsub ((mem_resolveSourcePaths hl hact).2 ⟨.inr ⟨htight, hf⟩, hk⟩)
    obtain ⟨hbelow | ⟨hne, -⟩, -⟩ := (mem_resolveSourcePaths hl hact).1 hmem
    · exact hbelow
    · exact absurd hloose hne
  · intro hcond f hmem
    obtain ⟨hbelow, hk⟩ := (mem_resolveSourcePaths hl hact).1 hmem
    refine (mem_resolveSourcePaths hl hact).2 ⟨?_, hkeeps f hk⟩
    rcases hbelow with hbelow | ⟨htight, hbelow⟩
    · exact .inl hbelow
    · by_cases hloose : loose = noFilters
      · -- without filters the wrappers are not gone through
        exact .inl (hcond hloose htight f hbelow hk)
      · exact .inr ⟨hloose, hbelow⟩

/-- **Filters.** Tighter filters find no more files, unless they are the first and
keep a wrapper outside the sources. -/
theorem filters_shrink_iff (hl : rt.Lists) {hre : Hre} (hact : isActive hre = true) (sourcePath : Option SourcePath) :
    (∀ loose tight, Tightens loose tight →
      (resolveSourcePaths rt sourcePath (hre.withFilters tight) ⊆
          resolveSourcePaths rt sourcePath (hre.withFilters loose) ↔
        (loose = noFilters → tight ≠ noFilters →
          KeepsNoWrapper rt hre.project (sourcePath.getD hre.project.sources) tight))) ∧
    ∀ filters,
      (resolveSourcePaths rt sourcePath (hre.withFilters filters) ⊆
          resolveSourcePaths rt sourcePath (hre.withFilters noFilters) ↔
        (filters ≠ noFilters →
          KeepsNoWrapper rt hre.project (sourcePath.getD hre.project.sources) filters)) := by
  refine ⟨?_, ?_⟩
  · intro loose tight ht
    exact resolves_subset_iff hl hact sourcePath fun _ hk => ht.keeps hk
  · intro filters
    rw [resolves_subset_iff hl hact sourcePath fun _ hk => noFilters_keeps.2 (keeps_isSol hk)]
    simp

end

/-! ## A project with a wrapper -/

/-- Globs without special characters, over the files of the project. -/
def literalRuntime : CompileRuntime where
  isMatch rel glob := String.intercalate "/" rel == glob
  getAllFilesMatching P dir p := P.files.filter fun f => dir.isPrefixOf f && dir != f && p f
  runSuper P sourcePath :=
    P.files.filter fun f => (sourcePath.getD P.sources).isPrefixOf f && sourcePath.getD P.sources != f && f.isSol

theorem literalRuntime_lists : literalRuntime.Lists where
  matching P dir p f := by
    simp [literalRuntime, Project.Below, and_assoc]
  default P sourcePath f := by
    simp [literalRuntime, Project.Below, and_assoc]

/-- A contract and its wrapper. -/
def wrappedFiles : List SourcePath := [["p", "contracts", "A.sol"], ["p", "contracts-exposed", "$A.sol"]]

def wrappedDirs : List SourcePath := [[], ["p"], ["p", "contracts"], ["p", "contracts-exposed"]]

theorem wrapped_parents : ∀ f ∈ wrappedFiles, ∀ d, d <+: f → d ≠ f → d ∈ wrappedDirs := by
  have hall : ∀ f ∈ wrappedFiles, ∀ d ∈ List.inits f, d ≠ f → d ∈ wrappedDirs := by decide
  intro f hf d hd hne
  exact hall f hf d ((List.mem_inits d f).2 hd) hne

theorem wrapped_exposed : ["p"] ++ ["contracts-exposed"] ∉ wrappedFiles := by decide

def wrappedProject : Project where
  root := ["p"]
  sources := ["p", "contracts"]
  files := wrappedFiles
  dirs := wrappedDirs
  parents := wrapped_parents
  exposed_dir := wrapped_exposed

def wrappedHre : Hre := ⟨wrappedProject, some ⟨.tron, noFilters, false⟩, false⟩

/-- `filters_shrink_iff` for the contract alone. -/
theorem include_contract_shrinks :
    resolveSourcePaths literalRuntime none (wrappedHre.withFilters ⟨["contracts/A.sol"], []⟩) ⊆
      resolveSourcePaths literalRuntime none (wrappedHre.withFilters noFilters) := by
  apply ((filters_shrink_iff literalRuntime_lists (show isActive wrappedHre = true from rfl) none).2 _).2
  rintro - f ⟨hf, -, -⟩ hk
  have hcases : f = ["p", "contracts", "A.sol"] ∨ f = ["p", "contracts-exposed", "$A.sol"] := by
    simpa [wrappedHre, wrappedProject, wrappedFiles] using hf
  rcases hcases with rfl | rfl
  · exact ⟨hf, by decide, by decide⟩
  · exact absurd hk (by decide)

/-- An `exclude` that matches no file adds the wrapper. -/
theorem first_filter_adds_wrapper :
    ¬ ∀ (rt : CompileRuntime) (hre : Hre) sourcePath loose tight, rt.Lists → isActive hre = true → Tightens loose tight →
      resolveSourcePaths rt sourcePath (hre.withFilters tight) ⊆
        resolveSourcePaths rt sourcePath (hre.withFilters loose) := by
  intro hall
  have hsub := hall literalRuntime wrappedHre none noFilters ⟨[], ["contracts/B.sol"]⟩ literalRuntime_lists rfl
    (.addExclude (List.nil_subset _))
  have hmem := hsub (show ["p", "contracts-exposed", "$A.sol"] ∈ _ by decide)
  revert hmem
  decide

end HardhatTron

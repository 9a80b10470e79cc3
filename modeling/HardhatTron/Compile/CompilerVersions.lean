import HardhatTron.Compile.SourceResolver
import HardhatTron.Lib.Runs
import HardhatTron.Lib.Traversal
import HardhatTron.Runtime.JsValue
/-!
# One compiler version

`extendCompileConfig` fills in and checks `tre.compiler` when Hardhat starts.
`selectCompilationJob` then puts the configured version into the jobs that Hardhat
makes: into the object a job shares with the configuration and with other jobs.

`jobs_one_version`: whatever objects the jobs share, a build asks for the one
version if the override is on and otherwise for what Hardhat chose.
-/
namespace HardhatTron.CompilerVersions

open Lib

/-! ## The configuration -/

def DEFAULT_MIRROR : JsString := "https://raw.githubusercontent.com/tronprotocol/solc-bin/main".toList

/-- `/^https?:\/\//.test(s)` -/
def isHttpUrl (s : JsString) : Bool := "http://".toList.isPrefixOf s || "https://".toList.isPrefixOf s

structure MirrorUrl where
  text : JsString
  http : isHttpUrl text = true

/-- `config.tre.compiler`, as it is resolved. -/
structure TreCompiler where
  target : CompileTarget
  includeGlobs : List JsString
  excludeGlobs : List JsString
  separateArtifacts : Bool
  mirror : MirrorUrl
  disabled : Bool
  versionPragmaOverride : Bool
  batches : Option (List JsValue)
  batchesPath : Option JsString

/-- A `TronCompileError`, with the refused value where the message shows one. -/
inductive ConfigError where
  | target (got : JsValue)
  | includeGlobs
  | excludeGlobs
  | mirror (got : JsValue)
  | batches
  | batchesPath
  | noCompilers
  | multiVersion (versions : List JsString)

def commaJoined : List JsString → JsString
  | [] => []
  | [s] => s
  | s :: rest => s ++ (", ".toList ++ commaJoined rest)

/-- The message, without the JSON text of a refused value at its end. -/
def ConfigError.message : ConfigError → JsString
  | .target _ => "tre.compiler.target must be one of [tron, tron-when-network-tron], got ".toList
  | .includeGlobs => "tre.compiler.include must be an array of glob strings".toList
  | .excludeGlobs => "tre.compiler.exclude must be an array of glob strings".toList
  | .mirror _ => "tre.compiler.mirror must be an http(s) URL, got ".toList
  | .batches => "tre.compiler.batches must be an array if set".toList
  | .batchesPath => "tre.compiler.batchesPath must be a string if set".toList
  | .noCompilers => "tre.compiler is active (target=tron) but no solidity.compilers entries are configured".toList
  | .multiVersion versions =>
    "tre.compiler does not yet support multi-version compiles (solidity.compilers has ".toList ++
      decimal versions.length ++ " entries: ".toList ++ commaJoined versions ++
      "). Use a single solidity.version, or open an issue.".toList

/-- `v || {}` -/
def orEmpty (v : JsValue) : JsValue := if v.truthy then v else .obj []

/-- `v ?? d` -/
def orDefault (v d : JsValue) : JsValue := if v.isNullish then d else v

/-- `VALID_TARGETS.has` -/
def readTarget : JsValue → Option CompileTarget
  | .str s =>
    if s = "tron".toList then some .tron
    else if s = "tron-when-network-tron".toList then some .tronWhenNetworkTron
    else none
  | _ => none

def readText : JsValue → Option JsString
  | .str s => some s
  | _ => none

/-- An array of strings. -/
def readGlobs : JsValue → Option (List JsString)
  | .arr vs => vs.mapM readText
  | _ => none

def readMirror : JsValue → Option MirrorUrl
  | .str s => if h : isHttpUrl s = true then some ⟨s, h⟩ else none
  | _ => none

/-- `v === true` -/
def isTrue : JsValue → Bool
  | .bool b => b
  | _ => false

/-- What is not `undefined` has to be read. -/
def readIfSet {α : Type} (read : JsValue → Option α) : JsValue → Option (Option α)
  | .undefined => some none
  | v => (read v).map some

def readArray : JsValue → Option (List JsValue)
  | .arr vs => some vs
  | _ => none

def orThrow {α : Type} (x : Option α) (e : ConfigError) : Except ConfigError α := x.elim (.error e) .ok

/-- A single entry in `solidity.compilers`, where it is asserted. -/
def checkCompilers (disabled : Bool) (target : CompileTarget) (versions : List JsString) : Except ConfigError Unit :=
  match disabled, target with
  | false, .tron =>
    match versions with
    | [] => .error .noCompilers
    | [_] => .ok ()
    | versions => .error (.multiVersion versions)
  | _, _ => .ok ()

/-- The versions are those of `config.solidity.compilers`. -/
def extendCompileConfig (versions : List JsString) (userConfig : JsValue) : Except ConfigError TreCompiler := do
  let userCompiler := orEmpty ((orEmpty (userConfig.get "tre")).get "compiler")
  let target := orDefault (userCompiler.get "target") (.str "tron".toList)
  let target ← orThrow (readTarget target) (.target target)
  let includeGlobs ← orThrow (readGlobs (orDefault (userCompiler.get "include") (.arr []))) .includeGlobs
  let excludeGlobs ← orThrow (readGlobs (orDefault (userCompiler.get "exclude") (.arr []))) .excludeGlobs
  let separateArtifacts := isTrue (userCompiler.get "separateArtifacts")
  let mirror := orDefault (userCompiler.get "mirror") (.str DEFAULT_MIRROR)
  let mirror ← orThrow (readMirror mirror) (.mirror mirror)
  let disabled := isTrue (userCompiler.get "disabled")
  let versionPragmaOverride := isTrue (userCompiler.get "versionPragmaOverride")
  let batches ← orThrow (readIfSet readArray (userCompiler.get "batches")) .batches
  let batchesPath ← orThrow (readIfSet readText (userCompiler.get "batchesPath")) .batchesPath
  checkCompilers disabled target versions
  return { target, includeGlobs, excludeGlobs, separateArtifacts, mirror, disabled, versionPragmaOverride, batches,
           batchesPath }

/-! ### What is accepted -/

/-- `userConfig.tre.compiler` -/
def userCompilerOf (userConfig : JsValue) : JsValue := orEmpty ((orEmpty (userConfig.get "tre")).get "compiler")

/-- The fields of a configuration are what the user's stand for. -/
structure Resolves (userCompiler : JsValue) (cfg : TreCompiler) : Prop where
  target : readTarget (orDefault (userCompiler.get "target") (.str "tron".toList)) = some cfg.target
  includeGlobs : readGlobs (orDefault (userCompiler.get "include") (.arr [])) = some cfg.includeGlobs
  excludeGlobs : readGlobs (orDefault (userCompiler.get "exclude") (.arr [])) = some cfg.excludeGlobs
  separateArtifacts : isTrue (userCompiler.get "separateArtifacts") = cfg.separateArtifacts
  mirror : readMirror (orDefault (userCompiler.get "mirror") (.str DEFAULT_MIRROR)) = some cfg.mirror
  disabled : isTrue (userCompiler.get "disabled") = cfg.disabled
  versionPragmaOverride : isTrue (userCompiler.get "versionPragmaOverride") = cfg.versionPragmaOverride
  batches : readIfSet readArray (userCompiler.get "batches") = some cfg.batches
  batchesPath : readIfSet readText (userCompiler.get "batchesPath") = some cfg.batchesPath

variable {versions : List JsString} {userConfig : JsValue} {cfg : TreCompiler}

theorem orThrow_bind {α β : Type} {x : Option α} {e : ConfigError} {f : α → Except ConfigError β} {b : β} :
    (orThrow x e >>= f) = .ok b ↔ ∃ a, x = some a ∧ f a = .ok b := by
  cases x with
  | none =>
    constructor
    · rintro ⟨⟩
    · rintro ⟨a, ⟨⟩, -⟩
  | some a =>
    constructor
    · exact fun h => ⟨a, rfl, h⟩
    · rintro ⟨a', ⟨⟩, h⟩
      exact h

theorem checkCompilers_eq_ok {disabled : Bool} {target : CompileTarget} :
    checkCompilers disabled target versions = .ok () ↔
      (disabled = false → target = .tron → ∃ v, versions = [v]) := by
  unfold checkCompilers
  split
  · split
    · simp
    · simp
    · rename_i hnil hone
      simpa using hone
  · rename_i hne
    exact ⟨fun _ hd ht => absurd ht (hne hd), fun _ => rfl⟩

theorem checkCompilers_bind {β : Type} {disabled : Bool} {target : CompileTarget} {f : Unit → Except ConfigError β}
    {b : β} :
    (checkCompilers disabled target versions >>= f) = .ok b ↔
      (disabled = false → target = .tron → ∃ v, versions = [v]) ∧ f () = .ok b := by
  rw [← checkCompilers_eq_ok]
  cases checkCompilers disabled target versions with
  | error e =>
    constructor
    · rintro ⟨⟩
    · rintro ⟨⟨⟩, -⟩
  | ok u => exact ⟨fun h => ⟨rfl, h⟩, fun h => h.2⟩

/-- A configuration is accepted if its fields can be read, with one version if it compiles for tron everywhere. -/
theorem extendCompileConfig_eq_ok : extendCompileConfig versions userConfig = .ok cfg ↔
    Resolves (userCompilerOf userConfig) cfg ∧ (cfg.disabled = false → cfg.target = .tron → ∃ v, versions = [v]) := by
  unfold extendCompileConfig
  simp only [orThrow_bind, checkCompilers_bind]
  constructor
  · rintro ⟨target, htarget, inc, hinc, exc, hexc, mirror, hmirror, batches, hbatches, path, hpath, hone, hcfg⟩
    obtain rfl := Except.ok.inj hcfg
    exact ⟨⟨htarget, hinc, hexc, rfl, hmirror, rfl, rfl, hbatches, hpath⟩, hone⟩
  · rintro ⟨h, hone⟩
    refine ⟨_, h.target, _, h.includeGlobs, _, h.excludeGlobs, _, h.mirror, _, h.batches, _, h.batchesPath, ?_, ?_⟩
    · rw [← h.disabled] at hone
      exact hone
    · have hs := h.separateArtifacts
      have hd := h.disabled
      have hv := h.versionPragmaOverride
      unfold userCompilerOf at hs hd hv
      rw [hs, hd, hv]
      rfl

/-- A resolved configuration as a user could write it. -/
def TreCompiler.toUser (cfg : TreCompiler) : JsValue :=
  .obj [("tre".toList, .obj [("compiler".toList, .obj [
    ("target".toList, .str (match cfg.target with
      | .tron => "tron".toList
      | .tronWhenNetworkTron => "tron-when-network-tron".toList)),
    ("include".toList, .arr (cfg.includeGlobs.map .str)),
    ("exclude".toList, .arr (cfg.excludeGlobs.map .str)),
    ("separateArtifacts".toList, .bool cfg.separateArtifacts),
    ("mirror".toList, .str cfg.mirror.text),
    ("disabled".toList, .bool cfg.disabled),
    ("versionPragmaOverride".toList, .bool cfg.versionPragmaOverride),
    ("batches".toList, (cfg.batches.map .arr).getD .undefined),
    ("batchesPath".toList, (cfg.batchesPath.map .str).getD .undefined)])])]

theorem readGlobs_map (globs : List JsString) : readGlobs (.arr (globs.map .str)) = some globs := by
  have hmap : ∀ globs : List JsString, (globs.map JsValue.str).mapM readText = some globs := by
    intro globs
    induction globs with
    | nil => rfl
    | cons glob globs ih =>
      rw [List.map_cons, mapM_cons_eq, ih]
      rfl
  exact hmap globs

/-- Every default passes its own check, and so does whatever was accepted: resolving again changes nothing. -/
theorem extendCompileConfig_toUser (h : extendCompileConfig versions userConfig = .ok cfg) :
    extendCompileConfig versions cfg.toUser = .ok cfg := by
  rw [extendCompileConfig_eq_ok] at h ⊢
  refine ⟨⟨?_, readGlobs_map _, readGlobs_map _, rfl, ?_, rfl, rfl, ?_, ?_⟩, h.2⟩
  · cases htarget : cfg.target <;> simp only [TreCompiler.toUser, htarget] <;> rfl
  · exact dif_pos cfg.mirror.http
  · cases hbatches : cfg.batches <;> simp only [TreCompiler.toUser, hbatches] <;> rfl
  · cases hpath : cfg.batchesPath <;> simp only [TreCompiler.toUser, hpath] <;> rfl

/-! ## Jobs -/

/-- An entry of `solidity.compilers` or `solidity.overrides`, as an object. -/
structure SolcConfig (S : Type) where
  version : JsString
  settings : S

/-- The objects, by reference. -/
abbrev ConfigHeap (S : Type) := Nat → SolcConfig S

/-- `solidityConfig.version = version` -/
def ConfigHeap.setVersion {S : Type} (heap : ConfigHeap S) (solidityConfig : Nat) (version : JsString) : ConfigHeap S :=
  Function.update heap solidityConfig { heap solidityConfig with version }

@[simp] theorem ConfigHeap.version_setVersion {S : Type} (heap : ConfigHeap S) (o o' : Nat) (version : JsString) :
    (heap.setVersion o version o').version = if o' = o then version else (heap o').version := by
  by_cases h : o' = o
  · simp [setVersion, h]
  · simp [setVersion, h]

@[simp] theorem ConfigHeap.settings_setVersion {S : Type} (heap : ConfigHeap S) (o o' : Nat) (version : JsString) :
    (heap.setVersion o version o').settings = (heap o').settings := by
  by_cases h : o' = o
  · simp [setVersion, h]
  · simp [setVersion, h]

/-- What Hardhat makes for a file: a job, by its `solidityConfig`, or a reason why there is none. -/
inductive FileJob where
  | job (solidityConfig : Nat)
  | failed (reason : JsString)

/-- The part of the configuration that the resolver reads. -/
def TreCompiler.resolver (cfg : TreCompiler) : CompilerConfig :=
  ⟨cfg.target, ⟨cfg.includeGlobs.map String.ofList, cfg.excludeGlobs.map String.ofList⟩, cfg.disabled⟩

/-- `hre`, with the references in `config.solidity.compilers`. -/
structure CompileEnv where
  hre : Hre
  cfg : TreCompiler
  compiler_eq : hre.compiler = some cfg.resolver
  compilers : List Nat

variable {S : Type}

/-- `none` is a `TypeError`. -/
def selectCompilationJob (env : CompileEnv) (job : FileJob) (heap : ConfigHeap S) : Option (FileJob × ConfigHeap S) :=
  if !isActive env.hre then some (job, heap)
  else
    match job with
    | .failed reason => some (.failed reason, heap)
    | .job solidityConfig =>
      if !env.cfg.versionPragmaOverride then some (.job solidityConfig, heap)
      else
        match env.compilers with
        | [] => none
        | target :: _ =>
          if (heap solidityConfig).version ≠ (heap target).version then
            some (.job solidityConfig, heap.setVersion solidityConfig (heap target).version)
          else some (.job solidityConfig, heap)

inductive CompileCall where
  /-- Hardhat has made this for a file. -/
  | select (job : FileJob)
  /-- A job with this `solidityConfig` is compiled. -/
  | build (solidityConfig : Nat)

inductive CompileReply where
  | selected (job : FileJob)
  | typeError
  /-- `downloader.getCompiler(solcVersion, { mirror })` -/
  | getCompiler (solcVersion mirror : JsString)
  /-- Hardhat's own compiler. -/
  | runSuper (solcVersion : JsString)

/-- The objects and the jobs that were handed out, by their `solidityConfig`. -/
structure CompileState (S : Type) where
  heap : ConfigHeap S
  jobs : List Nat

/-- The hook of `TASK_COMPILE_SOLIDITY_GET_SOLC_BUILD`, up to its call: what
`getCompiler` or `runSuper` returns or throws is not part of the reply. -/
def getSolcBuild (env : CompileEnv) (solcVersion : JsString) : CompileReply :=
  if !isActive env.hre then .runSuper solcVersion else .getCompiler solcVersion env.cfg.mirror.text

def step (env : CompileEnv) (s : CompileState S) : CompileCall → Option (CompileReply × CompileState S)
  | .select job =>
    match selectCompilationJob env job s.heap with
    | none => some (.typeError, s)
    | some (.failed reason, heap) => some (.selected (.failed reason), { s with heap })
    | some (.job solidityConfig, heap) => some (.selected (.job solidityConfig), ⟨heap, solidityConfig :: s.jobs⟩)
  | .build solidityConfig =>
    if s.jobs.contains solidityConfig then some (getSolcBuild env (s.heap solidityConfig).version, s) else none

/-! ### What a build asks for -/

/-- The versions of the jobs are overridden. -/
def Overrides (env : CompileEnv) : Prop := isActive env.hre = true ∧ env.cfg.versionPragmaOverride = true

instance (env : CompileEnv) : Decidable (Overrides env) := inferInstanceAs (Decidable (_ ∧ _))

/-- The version of a job: that of the first compiler, or what the object had at the start. -/
def versionOf (env : CompileEnv) (heap₀ : ConfigHeap S) (solidityConfig : Nat) : JsString :=
  match env.compilers with
  | [] => (heap₀ solidityConfig).version
  | target :: _ => if Overrides env then (heap₀ target).version else (heap₀ solidityConfig).version

/-- What a call is answered. -/
def Expected (env : CompileEnv) (heap₀ : ConfigHeap S) : CompileCall × CompileReply → Prop
  | (.select job, .selected job') => job' = job
  | (.select job, .typeError) =>
    (∃ solidityConfig, job = .job solidityConfig) ∧ Overrides env ∧ env.compilers = [] ∧
      env.cfg.target = .tronWhenNetworkTron
  | (.build solidityConfig, .getCompiler solcVersion mirror) =>
    isActive env.hre = true ∧ solcVersion = versionOf env heap₀ solidityConfig ∧ mirror = env.cfg.mirror.text
  | (.build solidityConfig, .runSuper solcVersion) =>
    isActive env.hre = false ∧ solcVersion = (heap₀ solidityConfig).version
  | _ => False

/-- The objects have their settings, and their version or the overriding one; those of jobs have the version of the job. -/
structure HeapInv (env : CompileEnv) (heap₀ : ConfigHeap S) (s : CompileState S) : Prop where
  settings : ∀ o, (s.heap o).settings = (heap₀ o).settings
  version : ∀ o, (s.heap o).version = (heap₀ o).version ∨ (s.heap o).version = versionOf env heap₀ o
  job : ∀ o ∈ s.jobs, (s.heap o).version = versionOf env heap₀ o

variable {env : CompileEnv} {heap₀ : ConfigHeap S} {s s' : CompileState S}

theorem versionOf_of_not_overrides (h : ¬Overrides env) (o : Nat) : versionOf env heap₀ o = (heap₀ o).version := by
  unfold versionOf
  split
  · rfl
  · rw [if_neg h]

/-- A new job, on the objects as they are or with its version overridden. -/
inductive SelectEffect (env : CompileEnv) (heap₀ : ConfigHeap S) (s : CompileState S) :
    FileJob → CompileReply → CompileState S → Prop
  | failed (reason : JsString) : SelectEffect env heap₀ s (.failed reason) (.selected (.failed reason)) s
  | typeError (o : Nat) (hover : Overrides env) (hnone : env.compilers = []) :
    SelectEffect env heap₀ s (.job o) .typeError s
  | kept (o : Nat) (hversion : (s.heap o).version = versionOf env heap₀ o) :
    SelectEffect env heap₀ s (.job o) (.selected (.job o)) { s with jobs := o :: s.jobs }
  | overridden (o : Nat) (version : JsString) (hversion : version = versionOf env heap₀ o) :
    SelectEffect env heap₀ s (.job o) (.selected (.job o)) ⟨s.heap.setVersion o version, o :: s.jobs⟩

theorem step_select {job : FileJob} {r : CompileReply} (hi : HeapInv env heap₀ s)
    (hst : step env s (.select job) = some (r, s')) : SelectEffect env heap₀ s job r s' := by
  rw [step] at hst
  cases job with
  | failed reason =>
    have hsame : selectCompilationJob env (.failed reason) s.heap = some (.failed reason, s.heap) := by
      unfold selectCompilationJob
      split <;> rfl
    rw [hsame] at hst
    obtain ⟨rfl, rfl⟩ := Prod.mk.inj (Option.some.inj hst)
    exact .failed reason
  | job o =>
    by_cases hover : Overrides env
    · cases hcompilers : env.compilers with
      | nil =>
        have hthrows : selectCompilationJob env (.job o) s.heap = none := by
          simp [selectCompilationJob, hover.1, hover.2, hcompilers]
        rw [hthrows] at hst
        obtain ⟨rfl, rfl⟩ := Prod.mk.inj (Option.some.inj hst)
        exact .typeError o hover hcompilers
      | cons target rest =>
        have hversionOf : ∀ o, versionOf env heap₀ o = (heap₀ target).version := by
          intro o
          rw [versionOf, hcompilers]
          exact if_pos hover
        have htarget : (s.heap target).version = (heap₀ target).version := by
          rcases hi.version target with h | h
          · exact h
          · rw [h, hversionOf]
        by_cases hdiffers : (s.heap o).version ≠ (s.heap target).version
        · have hset : selectCompilationJob env (.job o) s.heap =
              some (.job o, s.heap.setVersion o (s.heap target).version) := by
            simp [selectCompilationJob, hover.1, hover.2, hcompilers, hdiffers]
          rw [hset] at hst
          obtain ⟨rfl, rfl⟩ := Prod.mk.inj (Option.some.inj hst)
          exact .overridden o _ (htarget.trans (hversionOf o).symm)
        · have hsame : selectCompilationJob env (.job o) s.heap = some (.job o, s.heap) := by
            simp [selectCompilationJob, hover.1, hover.2, hcompilers, hdiffers]
          rw [hsame] at hst
          obtain ⟨rfl, rfl⟩ := Prod.mk.inj (Option.some.inj hst)
          apply SelectEffect.kept
          rw [not_not.1 hdiffers, htarget, hversionOf]
    · have hsame : selectCompilationJob env (.job o) s.heap = some (.job o, s.heap) := by
        unfold selectCompilationJob
        by_cases hactive : isActive env.hre = true
        · have hoff : env.cfg.versionPragmaOverride = false := by
            rw [← Bool.not_eq_true]
            exact fun hon => hover ⟨hactive, hon⟩
          simp [hactive, hoff]
        · simp [hactive]
      rw [hsame] at hst
      obtain ⟨rfl, rfl⟩ := Prod.mk.inj (Option.some.inj hst)
      apply SelectEffect.kept
      rcases hi.version o with h | h
      · rw [h, versionOf_of_not_overrides hover]
      · exact h

theorem HeapInv.select {job : FileJob} {r : CompileReply} (hi : HeapInv env heap₀ s)
    (he : SelectEffect env heap₀ s job r s') : HeapInv env heap₀ s' := by
  cases he with
  | failed | typeError => exact hi
  | kept o hversion =>
    refine ⟨hi.settings, hi.version, ?_⟩
    rintro o' ho'
    rcases List.mem_cons.1 ho' with rfl | ho'
    · exact hversion
    · exact hi.job o' ho'
  | overridden o version hversion =>
    refine ⟨fun o' => ?_, fun o' => ?_, fun o' ho' => ?_⟩
    · rw [ConfigHeap.settings_setVersion]
      exact hi.settings o'
    · rw [ConfigHeap.version_setVersion]
      split
      · rename_i ho
        rw [ho]
        exact .inr hversion
      · exact hi.version o'
    · -- another job with the same object gets the version that it has
      rw [ConfigHeap.version_setVersion]
      split
      · rename_i ho
        rw [ho]
        exact hversion
      · rename_i ho
        exact hi.job o' ((List.mem_cons.1 ho').resolve_left ho)

/-- The project compiles for tron everywhere, so there is one compiler. -/
theorem sole_compiler {userConfig : JsValue}
    (haccepted : extendCompileConfig (env.compilers.map fun o => (heap₀ o).version) userConfig = .ok env.cfg)
    (hactive : isActive env.hre = true) (htarget : env.cfg.target = .tron) : ∃ o, env.compilers = [o] := by
  have hdisabled : env.cfg.disabled = false := by
    unfold isActive at hactive
    rw [env.compiler_eq] at hactive
    dsimp only [TreCompiler.resolver] at hactive
    split at hactive
    · cases hactive
    · rename_i hd
      simpa using hd
  obtain ⟨v, hv⟩ := (extendCompileConfig_eq_ok.1 haccepted).2 hdisabled htarget
  obtain ⟨o, ho, -⟩ := List.map_eq_singleton_iff.1 hv
  exact ⟨o, ho⟩

theorem heapInv_run {h : List (CompileCall × CompileReply)}
    (hr : Run (step env) (fun _ _ => True) ⟨heap₀, []⟩ h s) : HeapInv env heap₀ s := by
  apply Run.inv (fun _ s => HeapInv env heap₀ s) _ _ hr
  · exact ⟨fun _ => rfl, fun _ => .inl rfl, by simp⟩
  · rintro h s c r s' - hi - hst
    cases c with
    | select job => exact hi.select (step_select hi hst)
    | build o =>
      rw [step] at hst
      split at hst
      · obtain ⟨-, rfl⟩ := Prod.mk.inj (Option.some.inj hst)
        exact hi
      · cases hst

theorem step_expected {userConfig : JsValue}
    (haccepted : extendCompileConfig (env.compilers.map fun o => (heap₀ o).version) userConfig = .ok env.cfg)
    (hi : HeapInv env heap₀ s) {c : CompileCall} {r : CompileReply} (hst : step env s c = some (r, s')) :
    Expected env heap₀ (c, r) := by
  cases c with
  | select job =>
    cases step_select hi hst with
    | failed | kept | overridden => rfl
    | typeError o hover hnone =>
      refine ⟨⟨o, rfl⟩, hover, hnone, ?_⟩
      cases htarget : env.cfg.target with
      | tronWhenNetworkTron => rfl
      | tron =>
        obtain ⟨o, ho⟩ := sole_compiler haccepted hover.1 htarget
        rw [hnone] at ho
        cases ho
  | build o =>
    rw [step] at hst
    split at hst
    · rename_i hjob
      obtain ⟨rfl, rfl⟩ := Prod.mk.inj (Option.some.inj hst)
      have hversion := hi.job o (List.contains_iff_mem.1 hjob)
      unfold getSolcBuild
      cases hactive : isActive env.hre with
      | true => exact ⟨hactive, hversion, rfl⟩
      | false =>
        refine ⟨hactive, ?_⟩
        rw [hversion]
        apply versionOf_of_not_overrides
        rintro ⟨hon, -⟩
        rw [hactive] at hon
        cases hon
    · cases hst

/-- **One version.** Where the configuration was accepted, every job is the one that
Hardhat made, every build of an active project asks the configured mirror for the
version of the job, and no settings are touched, whatever objects the jobs share;
what the hooks themselves throw is an override without compilers, which only a
project can have that compiles for tron on some networks. -/
theorem jobs_one_version {userConfig : JsValue}
    (haccepted : extendCompileConfig (env.compilers.map fun o => (heap₀ o).version) userConfig = .ok env.cfg)
    {h : List (CompileCall × CompileReply)} (hr : Run (step env) (fun _ _ => True) ⟨heap₀, []⟩ h s) :
    (∀ e ∈ h, Expected env heap₀ e) ∧ (∀ o, (s.heap o).settings = (heap₀ o).settings) ∧
      (isActive env.hre = true → env.cfg.target = .tron → ∃ o, env.compilers = [o]) := by
  refine ⟨?_, (heapInv_run hr).settings, sole_compiler haccepted⟩
  apply Run.inv (fun h _ => ∀ e ∈ h, Expected env heap₀ e) _ _ hr
  · simp
  · rintro h s c r s' hr hexpected - hst e he
    rcases List.mem_append.1 he with he | he
    · exact hexpected e he
    · rw [List.mem_singleton.1 he]
      exact step_expected haccepted (heapInv_run hr) hst

/-! ### Two files with an overridden version -/

def defaultMirror : MirrorUrl := ⟨DEFAULT_MIRROR, rfl⟩

/-- The defaults, and the override. -/
def overridingConfig : TreCompiler :=
  ⟨.tron, [], [], false, defaultMirror, false, true, none, none⟩

def overridingUser : JsValue :=
  .obj [("tre".toList, .obj [("compiler".toList, .obj [("versionPragmaOverride".toList, .bool true)])])]

def overridingEnv : CompileEnv :=
  ⟨⟨wrappedProject, some overridingConfig.resolver, false⟩, overridingConfig, rfl, [0]⟩

/-- The compiler, and one entry of `solidity.overrides`. -/
def twoVersions (o : Nat) : SolcConfig Unit := ⟨if o = 0 then "0.8.23".toList else "0.8.20".toList, ()⟩

/-- Both files have the job's object from `solidity.overrides`. -/
theorem shared_object_built : ∃ s solcVersion, Run (step overridingEnv) (fun _ _ => True) ⟨twoVersions, []⟩
      [(.select (.job 1), .selected (.job 1)), (.select (.job 1), .selected (.job 1)),
        (.build 1, .getCompiler solcVersion DEFAULT_MIRROR)] s ∧ solcVersion = "0.8.23".toList := by
  have hfirst : Run (step overridingEnv) (fun _ _ => True) ⟨twoVersions, []⟩
      ([] ++ [(.select (.job 1), .selected (.job 1))]) _ := .snoc _ .nil trivial rfl
  have hrun := (hfirst.snoc (.select (.job 1)) trivial rfl).snoc (.build 1) trivial rfl
  refine ⟨_, _, hrun, ?_⟩
  have haccepted : extendCompileConfig (overridingEnv.compilers.map fun o => (twoVersions o).version) overridingUser =
      .ok overridingEnv.cfg := rfl
  obtain ⟨hexpected, -, -⟩ := jobs_one_version haccepted hrun
  obtain ⟨-, hversion, -⟩ := hexpected _ (List.mem_append_right _ (List.mem_singleton_self _))
  exact hversion.trans rfl

end HardhatTron.CompilerVersions

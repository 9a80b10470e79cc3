import HardhatTron.Compile.Manifest
/-!
# `getCompiler` in one process

The calls of `getCompiler` for one version share a promise while it is in
`_inFlight`. It resolves the manifest entry, runs `downloadInner` on the cache
directory, and is taken out of the map before any caller hears of its end: the
creator's `await` was the first on it. A promise that was awaited may go on at
any later time, and in between the files of other long versions may change.

`compiler_verified_or_clean`: from any content of the directory, a call that
resolves leaves the compiler of the manifest in place, and one that rejects leaves
nothing and the next call starts anew.
-/
namespace HardhatTron

open Lib

/-! ## The process -/

/-- What the promise of a download has come to. -/
inductive Stage where
  | resolving
  | unresolved (message : String)
  | inner (build : Build) (pc : DownloadPc)

/-- How the promise has settled. -/
def Stage.result : Stage → Option (Except String Compiler)
  | .unresolved message => some (.error message)
  | .inner _ (.ended r) => some r
  | _ => none

/-- The promise of a call, with the mirror it was called for; `finished` once the
`finally` has run. -/
structure Download where
  mirror : String
  stage : Stage
  finished : Bool

/-- The download works on the files of this long version. -/
def Download.isAt (d : Download) (longVersion : String) : Bool :=
  match d.stage with
  | .inner build _ => !d.finished && build.longVersion == longVersion
  | _ => false

/-- The two files of each long version, `_inFlight` at the version, and the promises made for it. -/
structure CompilerProcess where
  files : String → Directory CacheName
  _inFlight : Option Nat
  downloads : List Download

def idleProcess (files : String → Directory CacheName) : CompilerProcess := ⟨files, none, []⟩

/-- A call; the end of `manifest.resolveBuild`, which rejects or has loaded its
last manifest; a step of `downloadInner`; the `finally` of the creator; a change
of files that no download of this version is at. -/
inductive CompilerEvent where
  | call (mirror : String)
  | resolved (k : Nat) (loaded : Except String Manifest)
  | inner (k : Nat) (act : DownloadAct)
  | finish (k : Nat)
  | elsewhere (longVersion : String) (d : Directory CacheName)

inductive CompilerOutput where
  | rejected (message : String)
  | joined (k : Nat)
  | started (k : Nat)
  | moved
  /-- A file-system operation failed. -/
  | fsFailed
  | finished (result : Except String Compiler)

namespace CompilerProcess

def setStage (s : CompilerProcess) (k : Nat) (stage : Stage) : CompilerProcess :=
  { s with downloads := s.downloads.modify k fun d => { d with stage } }

/-- The promise settles its creator. -/
def settle (s : CompilerProcess) (k : Nat) : CompilerProcess :=
  { s with downloads := s.downloads.modify k fun d => { d with finished := true }, _inFlight := none }

end CompilerProcess

/-- An exception is a failure of the file system, but where it may be the
mirror's or the loaded module's. -/
def DownloadPc.fsFailure : DownloadPc → DownloadAct → Bool
  | .fetch, .fault _ | .stream _ _, .fault _ | .loadFinal, .fault _ | .loadFresh, .fault _ => false
  | _, .fault _ => true
  | _, _ => false

def getCompiler (version mirror : String) (s : CompilerProcess) : CompilerOutput × CompilerProcess :=
  if version = "" then (.rejected "getCompiler: version must be a non-empty string, got \"\"", s)
  else
    match s._inFlight with
    | some k => (.joined k, s)
    | none =>
      (.started s.downloads.length,
        { s with downloads := s.downloads ++ [⟨mirror, .resolving, false⟩], _inFlight := some s.downloads.length })

/-- `downloadInner` is called with the build, if there is one. -/
def stageAfterResolve (version mirror : String) (loaded : Except String Manifest) : Stage :=
  match loaded.bind (resolvedFrom version mirror) with
  | .error message => .unresolved message
  | .ok build => .inner build .checkFinal

def CompilerProcess.step (rt : DownloadRuntime) (version : String) (s : CompilerProcess) :
    CompilerEvent → Option (CompilerOutput × CompilerProcess)
  | .call mirror => some (getCompiler version mirror s)
  | .resolved k loaded =>
    match s.downloads[k]? with
    | some ⟨mirror, .resolving, false⟩ => some (.moved, s.setStage k (stageAfterResolve version mirror loaded))
    | _ => none
  -- the process lives on; `Downloader` has the crashes
  | .inner _ .crash => none
  | .inner k act =>
    match s.downloads[k]? with
    | some ⟨mirror, .inner build pc, false⟩ =>
      (downloadInner { rt with mirror } build (s.files build.longVersion) pc act).map fun r =>
        (if pc.fsFailure act then .fsFailed else .moved,
          { s.setStage k (.inner build r.1) with files := Function.update s.files build.longVersion r.2 })
    | _ => none
  | .finish k =>
    match s.downloads[k]? with
    | some ⟨_, stage, false⟩ => stage.result.map fun r => (.finished r, s.settle k)
    | _ => none
  | .elsewhere longVersion d =>
    if s.downloads.any fun download => download.isAt longVersion then none
    else some (.moved, { s with files := Function.update s.files longVersion d })

/-- The runs of the process, from these files. -/
def ProcessRun (rt : DownloadRuntime) (version : String) (files : String → Directory CacheName) :
    List (CompilerEvent × CompilerOutput) → CompilerProcess → Prop :=
  Run (CompilerProcess.step rt version) (fun _ _ => True) (idleProcess files)

/-! ## What a download has made sure of -/

section
variable (rt : DownloadRuntime) (version : String)

/-- The file at the compiler path has the digest of the manifest. -/
def FinalVerified (build : Build) (d : Directory CacheName) : Prop :=
  ∃ bytes, d.read .final = some bytes ∧ Verified rt build bytes

/-- It is the compiler: the digest is right, and it reports its version. -/
def CompilerAt (build : Build) (d : Directory CacheName) : Prop :=
  ∃ bytes reported, d.read .final = some bytes ∧ Verified rt build bytes ∧ rt.load bytes = .ok reported ∧
    (reported.getD "").startsWith (version ++ "+") = true

/-- What holds of the files where the download stands; `failed` is that a
file-system operation has failed in it. -/
def InnerOk (failed : Prop) (build : Build) (d : Directory CacheName) : DownloadPc → Prop
  | .loadFinal | .loadFresh => FinalVerified rt build d
  | .removeTmp | .fetch | .create | .stream _ _ | .hashTmp | .removeBad _ => d.entry .final = none
  | .rename => d.entry .final = none ∧ ∃ f, d.entry .tmp = some f ∧ Verified rt build (d.contents f)
  | .ended (.ok c) => c = ⟨compilerPath rt build.longVersion, version, build.longVersion⟩ ∧ CompilerAt rt version build d
  | .ended (.error _) => failed ∨ d.entry .final = none
  | _ => True

/-- The entry the download was given is one of a manifest that was loaded for it. -/
def FoundIn (h : List (CompilerEvent × CompilerOutput)) (k : Nat) (build : Build) : Prop :=
  ∃ manifest entry, (.resolved k (.ok manifest), .moved) ∈ h ∧ findBuild manifest version = some entry ∧
    checkedBuild version entry = .ok build

end

/-- A file-system operation has failed in download `k`. -/
def FsFailed (h : List (CompilerEvent × CompilerOutput)) (k : Nat) : Prop :=
  ∃ message, (.inner k (.fault message), .fsFailed) ∈ h

section
variable {rt : DownloadRuntime} {version : String} {build : Build} {d d' : Directory CacheName} {failed : Prop}

theorem loadAndCheckVersion_ok {path : String} {bytes : Option (List UInt8)} {v : String}
    (h : loadAndCheckVersion rt path bytes version = .ok v) :
    ∃ b reported, bytes = some b ∧ rt.load b = .ok reported ∧ (reported.getD "").startsWith (version ++ "+") = true := by
  unfold loadAndCheckVersion at h
  split at h
  · cases h
  · rename_i b
    split at h
    · cases h
    · rename_i reported hload
      dsimp only at h
      split at h
      · rename_i hstart
        exact ⟨b, reported, rfl, hload, hstart⟩
      · cases h

/-- A verified file that passes the version check is the compiler. -/
theorem FinalVerified.compilerAt (hf : FinalVerified rt build d) {path v : String}
    (h : loadAndCheckVersion rt path (d.read .final) version = .ok v) : CompilerAt rt version build d := by
  obtain ⟨b, reported, hread, hload, hstart⟩ := loadAndCheckVersion_ok h
  obtain ⟨b', hread', hver⟩ := hf
  obtain rfl : b = b' := Option.some.inj (hread.symm.trans hread')
  exact ⟨b, reported, hread, hver, hload, hstart⟩

theorem InnerOk.fault {pc : DownloadPc} (hi : InnerOk rt version failed build d pc) (message : String)
    (hfail : pc.fsFailure (.fault message) = true → failed) : InnerOk rt version failed build d (pc.fault message) := by
  cases pc with
  | hashFinal | loadFinal | loadFresh => trivial
  | fetch | stream file offset => exact .inr hi
  | _ => exact .inl (hfail rfl)

/-- The verified download, renamed. -/
theorem InnerOk.rename (hi : InnerOk rt version failed build d .rename) (hr : d.rename .tmp .final = some d') :
    FinalVerified rt build d' := by
  obtain ⟨-, f, hf, hver⟩ := hi
  obtain ⟨g, hg, hcontents, -, hentry⟩ := Directory.rename_eq_some hr
  obtain rfl : f = g := Option.some.inj (hf.symm.trans hg)
  refine ⟨d'.contents f, ?_, by rw [hcontents]; exact hver⟩
  rw [Directory.read_eq_some]
  exact ⟨f, by rw [hentry, if_pos rfl], rfl⟩

/-- **One step of `downloadInner`.** -/
theorem innerOk_step (hv : build.version = version) {pc pc' : DownloadPc} {act : DownloadAct}
    (hi : InnerOk rt version failed build d pc) (hfail : pc.fsFailure act = true → failed) (hcrash : act ≠ .crash)
    (hs : downloadInner rt build d pc act = some (pc', d')) : InnerOk rt version failed build d' pc' := by
  subst hv
  unfold downloadInner at hs
  split at hs
  · cases hs
  · cases hs
  · exact absurd rfl hcrash
  · cases hs
    exact hi.fault _ hfail
  · -- `checkFinal`
    cases hs
    cases hfinal : d.entry .final with
    | none => exact hfinal
    | some f => trivial
  · -- `hashFinal`
    split at hs
    · cases hs
      trivial
    · rename_i bytes hread
      cases hs
      split
      · rename_i hver
        exact ⟨bytes, hread, hver⟩
      · trivial
  · -- `loadFinal`
    split at hs
    · rename_i v hload
      cases hs
      exact ⟨rfl, FinalVerified.compilerAt hi hload⟩
    · cases hs
      trivial
  · -- `removeFinal`
    cases hs
    show (d.remove .final).entry .final = none
    rw [Directory.entry_remove, if_pos rfl]
  · -- `removeTmp`
    cases hs
    show (d.remove .tmp).entry .final = none
    rw [Directory.entry_remove, if_neg (by decide)]
    exact hi
  · -- `fetch`
    split at hs
    · cases hs
      exact .inr hi
    · cases hs
      exact hi
  · -- `create`
    cases hs
    show (d.create .tmp).entry .final = none
    rw [Directory.entry_create, if_neg (by decide)]
    exact hi
  · cases hs
    exact hi
  · cases hs
    exact hi
  · -- `hashTmp`
    split at hs
    · cases hs
      exact .inr hi
    · rename_i bytes hread
      cases hs
      split
      · rename_i hver
        obtain ⟨f, hf, rfl⟩ := Directory.read_eq_some.1 hread
        exact ⟨hi, f, hf, hver⟩
      · exact hi
  · -- `removeBad`
    cases hs
    refine .inr ?_
    rw [Directory.entry_remove, if_neg (by decide)]
    exact hi
  · -- `rename`
    split at hs
    · cases hs
      exact .inr hi.1
    · rename_i hrename
      cases hs
      exact hi.rename hrename
  · -- `loadFresh`
    split at hs
    · rename_i v hload
      cases hs
      exact ⟨rfl, FinalVerified.compilerAt hi hload⟩
    · cases hs
      trivial
  · -- `removeFresh`
    cases hs
    refine .inr ?_
    rw [Directory.entry_remove, if_pos rfl]
  · cases hs

end

/-! ## The steps of the process -/

section
variable {rt : DownloadRuntime} {version : String} {s s' : CompilerProcess}

/-- What a step does. -/
inductive ProcessEffect (rt : DownloadRuntime) (version : String) (s : CompilerProcess) :
    CompilerEvent → CompilerOutput → CompilerProcess → Prop
  | answered {mirror out} (hout : ∀ k, out ≠ .started k) : ProcessEffect rt version s (.call mirror) out s
  | started {mirror} (hv : version ≠ "") (hf : s._inFlight = none) :
      ProcessEffect rt version s (.call mirror) (.started s.downloads.length)
        { s with downloads := s.downloads ++ [⟨mirror, .resolving, false⟩], _inFlight := some s.downloads.length }
  | resolved {k loaded mirror} (hd : s.downloads[k]? = some ⟨mirror, .resolving, false⟩) :
      ProcessEffect rt version s (.resolved k loaded) .moved (s.setStage k (stageAfterResolve version mirror loaded))
  | inner {k act mirror build pc pc' d'} (hd : s.downloads[k]? = some ⟨mirror, .inner build pc, false⟩)
      (hact : act ≠ .crash)
      (hinner : downloadInner { rt with mirror } build (s.files build.longVersion) pc act = some (pc', d')) :
      ProcessEffect rt version s (.inner k act) (if pc.fsFailure act then .fsFailed else .moved)
        { s.setStage k (.inner build pc') with files := Function.update s.files build.longVersion d' }
  | finished {k mirror stage r} (hd : s.downloads[k]? = some ⟨mirror, stage, false⟩) (hr : stage.result = some r) :
      ProcessEffect rt version s (.finish k) (.finished r) (s.settle k)
  | elsewhere {longVersion d} (hat : ∀ download ∈ s.downloads, download.isAt longVersion = false) :
      ProcessEffect rt version s (.elsewhere longVersion d) .moved
        { s with files := Function.update s.files longVersion d }

theorem getCompiler_effect (mirror : String) :
    ProcessEffect rt version s (.call mirror) (getCompiler version mirror s).1 (getCompiler version mirror s).2 := by
  unfold getCompiler
  split
  · exact .answered (by simp)
  · rename_i hv
    cases hf : s._inFlight with
    | some k => exact .answered (by simp)
    | none => exact .started hv hf

theorem CompilerProcess.step_effect {ev : CompilerEvent} {out : CompilerOutput}
    (hs : s.step rt version ev = some (out, s')) : ProcessEffect rt version s ev out s' := by
  unfold CompilerProcess.step at hs
  split at hs
  · rename_i mirror
    have heffect : ProcessEffect rt version s (.call mirror) _ _ := getCompiler_effect mirror
    rw [Option.some.inj hs] at heffect
    exact heffect
  · split at hs
    · rename_i hd
      cases hs
      exact .resolved hd
    · cases hs
  · cases hs
  · rename_i k act hact
    split at hs
    · rename_i hd
      obtain ⟨⟨pc', d'⟩, hinner, heq⟩ := Option.map_eq_some_iff.1 hs
      cases heq
      exact .inner hd (by simpa using hact) hinner
    · cases hs
  · split at hs
    · rename_i hd
      obtain ⟨r, hr, heq⟩ := Option.map_eq_some_iff.1 hs
      cases heq
      exact .finished hd hr
    · cases hs
  · split at hs
    · cases hs
    · rename_i hat
      cases hs
      exact .elsewhere (by simpa using hat)

theorem CompilerProcess.setStage_getElem? {k j : Nat} {stage : Stage} {d : Download}
    (hd : (s.setStage k stage).downloads[j]? = some d) :
    ∃ d₀, s.downloads[j]? = some d₀ ∧ d.finished = d₀.finished ∧
      (j = k ∧ d.stage = stage ∨ j ≠ k ∧ d = d₀) := by
  rw [setStage, List.getElem?_modify] at hd
  obtain ⟨d₀, hd₀, rfl⟩ := Option.map_eq_some_iff.1 hd
  refine ⟨d₀, hd₀, ?_, ?_⟩
  · split <;> rfl
  · by_cases hk : k = j
    · exact .inl ⟨hk.symm, by rw [if_pos hk]⟩
    · exact .inr ⟨fun h => hk h.symm, if_neg hk⟩

theorem CompilerProcess.settle_getElem? {k j : Nat} {d : Download} (hd : (s.settle k).downloads[j]? = some d) :
    ∃ d₀, s.downloads[j]? = some d₀ ∧ d.stage = d₀.stage ∧ (j = k ∧ d.finished = true ∨ j ≠ k ∧ d = d₀) := by
  rw [settle, List.getElem?_modify] at hd
  obtain ⟨d₀, hd₀, rfl⟩ := Option.map_eq_some_iff.1 hd
  refine ⟨d₀, hd₀, ?_, ?_⟩
  · split <;> rfl
  · by_cases hk : k = j
    · exact .inl ⟨hk.symm, by rw [if_pos hk]⟩
    · exact .inr ⟨fun h => hk h.symm, if_neg hk⟩

theorem CompilerProcess.getElem?_setStage {k : Nat} {stage : Stage} {d : Download} (hd : s.downloads[k]? = some d) :
    (s.setStage k stage).downloads[k]? = some { d with stage } := by
  rw [setStage, List.getElem?_modify, hd]
  exact congrArg some (if_pos rfl)

theorem CompilerProcess.getElem?_setStage_of_ne {j k : Nat} {stage : Stage} (hne : j ≠ k) :
    (s.setStage k stage).downloads[j]? = s.downloads[j]? :=
  List.getElem?_modify_ne _ _ (Ne.symm hne)

theorem CompilerProcess.getElem?_settle {j : Nat} (k : Nat) {d : Download} (hd : s.downloads[j]? = some d) :
    ∃ d', (s.settle k).downloads[j]? = some d' ∧ d'.stage = d.stage := by
  rw [settle, List.getElem?_modify, hd]
  refine ⟨_, rfl, ?_⟩
  dsimp only
  split <;> rfl

/-- The mirror only shows in messages. -/
theorem innerOk_mirror {mirror : String} {failed : Prop} {build : Build} {d : Directory CacheName} {pc : DownloadPc} :
    InnerOk { rt with mirror } version failed build d pc ↔ InnerOk rt version failed build d pc := by
  cases pc with
  | ended r => cases r <;> exact Iff.rfl
  | _ => exact Iff.rfl

theorem InnerOk.mono {failed failed' : Prop} {build : Build} {d : Directory CacheName} {pc : DownloadPc}
    (hi : InnerOk rt version failed build d pc) (hf : failed → failed') : InnerOk rt version failed' build d pc := by
  cases pc with
  | ended r =>
    cases r with
    | ok c => exact hi
    | error message => exact hi.imp_left hf
  | _ => exact hi

end

/-! ## Every run -/

/-- At most one download of the version runs, with a build that was found for it,
and the files of its long version are as its progress says. -/
structure ProcessInv (rt : DownloadRuntime) (version : String) (h : List (CompilerEvent × CompilerOutput))
    (s : CompilerProcess) : Prop where
  named : s.downloads ≠ [] → version ≠ ""
  flight : ∀ k d, s.downloads[k]? = some d → d.finished = false → s._inFlight = some k
  builds : ∀ k d build pc, s.downloads[k]? = some d → d.stage = .inner build pc → FoundIn version h k build
  found : ∀ k build, FoundIn version h k build → ∃ d pc, s.downloads[k]? = some d ∧ d.stage = .inner build pc
  files : ∀ k d build pc, s.downloads[k]? = some d → d.finished = false → d.stage = .inner build pc →
    InnerOk rt version (FsFailed h k) build (s.files build.longVersion) pc

section
variable {rt : DownloadRuntime} {version : String} {s s' : CompilerProcess}
  {h : List (CompilerEvent × CompilerOutput)} {ev : CompilerEvent} {out : CompilerOutput}

theorem FoundIn.snoc {k : Nat} {build : Build} (hf : FoundIn version h k build) :
    FoundIn version (h ++ [(ev, out)]) k build := by
  obtain ⟨manifest, entry, hmem, hfind, hcheck⟩ := hf
  exact ⟨manifest, entry, List.mem_append_left _ hmem, hfind, hcheck⟩

/-- Only the end of `resolveBuild` finds a build. -/
theorem FoundIn.of_snoc {k : Nat} {build : Build} (hf : FoundIn version (h ++ [(ev, out)]) k build)
    (hev : ∀ loaded, ev ≠ .resolved k loaded) : FoundIn version h k build := by
  obtain ⟨manifest, entry, hmem, hfind, hcheck⟩ := hf
  rcases List.mem_append.1 hmem with hmem | hmem
  · exact ⟨manifest, entry, hmem, hfind, hcheck⟩
  · cases List.mem_singleton.1 hmem
    exact absurd rfl (hev _)

theorem FoundIn.version_eq {k : Nat} {build : Build} (hf : FoundIn version h k build) : build.version = version := by
  obtain ⟨_, _, -, -, hcheck⟩ := hf
  exact checkedBuild_version hcheck

theorem FsFailed.snoc {k : Nat} (hf : FsFailed h k) : FsFailed (h ++ [(ev, out)]) k := by
  obtain ⟨message, hmem⟩ := hf
  exact ⟨message, List.mem_append_left _ hmem⟩

/-- The build that a download goes on with was found in what was loaded. -/
theorem foundIn_of_resolved {k : Nat} {mirror : String} {loaded : Except String Manifest} {build : Build}
    {pc : DownloadPc} (hst : stageAfterResolve version mirror loaded = .inner build pc) :
    FoundIn version (h ++ [(.resolved k loaded, .moved)]) k build ∧ pc = .checkFinal := by
  unfold stageAfterResolve at hst
  split at hst
  · cases hst
  · rename_i build' hbuild
    cases hst
    cases loaded with
    | error message => cases hbuild
    | ok manifest =>
      obtain ⟨entry, hfind, hcheck⟩ := resolvedFrom_ok.1 hbuild
      exact ⟨⟨manifest, entry, by simp, hfind, hcheck⟩, rfl⟩

/-- It goes on with the build that is found. -/
theorem stageAfterResolve_found {mirror : String} {manifest : Manifest} {entry : ManifestEntry} {build : Build}
    (hfind : findBuild manifest version = some entry) (hcheck : checkedBuild version entry = .ok build) :
    stageAfterResolve version mirror (.ok manifest) = .inner build .checkFinal := by
  have hbuild : (Except.ok manifest : Except String Manifest).bind (resolvedFrom version mirror) = .ok build :=
    resolvedFrom_ok.2 ⟨entry, hfind, hcheck⟩
  rw [stageAfterResolve, hbuild]

/-- A step of a download that a file-system failure ended leaves the failure in the history. -/
theorem fsFailed_of_step {k : Nat} {act : DownloadAct} {pc : DownloadPc} (hfail : pc.fsFailure act = true) :
    FsFailed (h ++ [(.inner k act, if pc.fsFailure act then .fsFailed else .moved)]) k := by
  cases act with
  | fault message => exact ⟨message, by simp [hfail]⟩
  | _ => cases pc <;> cases hfail

theorem processInv_start (rt : DownloadRuntime) (version : String) (files : String → Directory CacheName) :
    ProcessInv rt version [] (idleProcess files) where
  named hne := absurd rfl hne
  flight k d hd := by cases hd
  builds k d build pc hd := by cases hd
  found k build hf := by
    obtain ⟨_, _, hmem, -⟩ := hf
    cases hmem
  files k d build pc hd := by cases hd

/-- A step that ends no `resolveBuild` finds nothing. -/
theorem ProcessInv.snoc (hi : ProcessInv rt version h s) (hev : ∀ k loaded, ev ≠ .resolved k loaded) :
    ProcessInv rt version (h ++ [(ev, out)]) s where
  named := hi.named
  flight := hi.flight
  builds k d build pc hd hst := (hi.builds k d build pc hd hst).snoc
  found k build hf := hi.found k build (hf.of_snoc (hev k))
  files k d build pc hd hun hst := (hi.files k d build pc hd hun hst).mono FsFailed.snoc

/-- A new promise, while none is in flight. -/
theorem ProcessInv.addDownload {mirror : String} (hi : ProcessInv rt version h s) (hv : version ≠ "")
    (hf : s._inFlight = none) :
    ProcessInv rt version h
      { s with downloads := s.downloads ++ [⟨mirror, .resolving, false⟩], _inFlight := some s.downloads.length } := by
  have hnew : ∀ {k d}, (s.downloads ++ [⟨mirror, .resolving, false⟩])[k]? = some d →
      s.downloads[k]? = some d ∨ k = s.downloads.length ∧ d = ⟨mirror, .resolving, false⟩ := by
    intro k d hd
    rw [List.getElem?_append] at hd
    split at hd
    · exact .inl hd
    · rename_i hk
      rw [List.getElem?_singleton] at hd
      split at hd
      · exact .inr ⟨by omega, (Option.some.inj hd).symm⟩
      · cases hd
  refine ⟨fun _ => hv, ?_, ?_, ?_, ?_⟩
  · -- every earlier download has finished
    intro k d hd hun
    rcases hnew hd with hd | ⟨rfl, -⟩
    · have := hi.flight k d hd hun
      rw [hf] at this
      cases this
    · rfl
  · intro k d build pc hd hst
    rcases hnew hd with hd | ⟨-, rfl⟩
    · exact hi.builds k d build pc hd hst
    · cases hst
  · intro k build hf
    obtain ⟨d, pc, hd, hst⟩ := hi.found k build hf
    refine ⟨d, pc, ?_, hst⟩
    rw [List.getElem?_append_left (List.getElem?_eq_some_iff.1 hd).1]
    exact hd
  · intro k d build pc hd hun hst
    rcases hnew hd with hd | ⟨-, rfl⟩
    · exact hi.files k d build pc hd hun hst
    · cases hst

/-- Only one download runs. -/
theorem ProcessInv.eq_of_unfinished (hi : ProcessInv rt version h s) {j k : Nat} {d d' : Download}
    (hj : s.downloads[j]? = some d) (hun : d.finished = false) (hk : s.downloads[k]? = some d')
    (hun' : d'.finished = false) : j = k := by
  have hflight := hi.flight j d hj hun
  rw [hi.flight k d' hk hun'] at hflight
  exact (Option.some.inj hflight).symm

/-- The running download moves on, with the files of its build. -/
theorem ProcessInv.setStage {h' : List (CompilerEvent × CompilerOutput)} (hi : ProcessInv rt version h s) {k : Nat}
    {d : Download} (hd : s.downloads[k]? = some d) (hun : d.finished = false) {stage : Stage}
    {files : String → Directory CacheName}
    (hkeep : ∀ j build, FoundIn version h j build → FoundIn version h' j build)
    (hother : ∀ j build, j ≠ k → FoundIn version h' j build → FoundIn version h j build)
    (hfound : ∀ build, FoundIn version h' k build → ∃ pc, stage = .inner build pc)
    (hstage : ∀ build pc, stage = .inner build pc →
      FoundIn version h' k build ∧ InnerOk rt version (FsFailed h' k) build (files build.longVersion) pc) :
    ProcessInv rt version h' { s.setStage k stage with files } := by
  refine ⟨fun _ => hi.named (List.ne_nil_of_mem (List.mem_of_getElem? hd)), ?_, ?_, ?_, ?_⟩
  · intro j d' hj hun'
    obtain ⟨d₀, hd₀, hfin, -⟩ := CompilerProcess.setStage_getElem? hj
    exact hi.flight j d₀ hd₀ (hfin ▸ hun')
  · intro j d' build pc hj hst
    obtain ⟨d₀, hd₀, -, ⟨rfl, hst'⟩ | ⟨-, rfl⟩⟩ := CompilerProcess.setStage_getElem? hj
    · exact (hstage build pc (hst'.symm.trans hst)).1
    · exact hkeep j build (hi.builds j _ build pc hd₀ hst)
  · intro j build hf
    by_cases hj : j = k
    · subst hj
      obtain ⟨pc, hst⟩ := hfound build hf
      exact ⟨_, pc, CompilerProcess.getElem?_setStage hd, hst⟩
    · obtain ⟨d₀, pc, hd₀, hst⟩ := hi.found j build (hother j build hj hf)
      exact ⟨d₀, pc, (CompilerProcess.getElem?_setStage_of_ne hj).trans hd₀, hst⟩
  · intro j d' build pc hj hun' hst
    obtain ⟨d₀, hd₀, hfin, ⟨rfl, hst'⟩ | ⟨hne, rfl⟩⟩ := CompilerProcess.setStage_getElem? hj
    · exact (hstage build pc (hst'.symm.trans hst)).2
    · exact absurd (hi.eq_of_unfinished hd₀ hun' hd hun) hne

/-- The creator of the running download has heard of its end. -/
theorem ProcessInv.settle (hi : ProcessInv rt version h s) {k : Nat} {d : Download} (hd : s.downloads[k]? = some d)
    (hun : d.finished = false) : ProcessInv rt version h (s.settle k) := by
  have hall : ∀ {j : Nat} {d' : Download}, (s.settle k).downloads[j]? = some d' → d'.finished ≠ false := by
    intro j d' hj hun'
    obtain ⟨d₀, hd₀, -, ⟨-, hfin⟩ | ⟨hne, rfl⟩⟩ := CompilerProcess.settle_getElem? hj
    · rw [hfin] at hun'
      cases hun'
    · exact hne (hi.eq_of_unfinished hd₀ hun' hd hun)
  refine ⟨fun _ => hi.named (List.ne_nil_of_mem (List.mem_of_getElem? hd)), ?_, ?_, ?_, ?_⟩
  · intro j d' hj hun'
    exact absurd hun' (hall hj)
  · intro j d' build pc hj hst
    obtain ⟨d₀, hd₀, hst', -⟩ := CompilerProcess.settle_getElem? hj
    exact hi.builds j d₀ build pc hd₀ (hst' ▸ hst)
  · intro j build hf
    obtain ⟨d₀, pc, hd₀, hst⟩ := hi.found j build hf
    obtain ⟨d', hd', hst'⟩ := CompilerProcess.getElem?_settle k hd₀
    exact ⟨d', pc, hd', hst'.trans hst⟩
  · intro j d' build pc hj hun'
    exact absurd hun' (hall hj)

/-- The running download is not at the files that change. -/
theorem ProcessInv.changeFiles (hi : ProcessInv rt version h s) {longVersion : String} (dir : Directory CacheName)
    (hat : ∀ d ∈ s.downloads, d.isAt longVersion = false) :
    ProcessInv rt version h { s with files := Function.update s.files longVersion dir } := by
  refine ⟨hi.named, hi.flight, hi.builds, hi.found, ?_⟩
  intro k d build pc hd hun hst
  have hne : build.longVersion ≠ longVersion := by
    have := hat d (List.mem_of_getElem? hd)
    simpa [Download.isAt, hst, hun] using this
  show InnerOk rt version _ build (Function.update s.files longVersion dir build.longVersion) pc
  rw [Function.update_of_ne hne]
  exact hi.files k d build pc hd hun hst

theorem ProcessInv.step (hi : ProcessInv rt version h s) (hs : s.step rt version ev = some (out, s')) :
    ProcessInv rt version (h ++ [(ev, out)]) s' := by
  cases CompilerProcess.step_effect hs with
  | answered hout => exact hi.snoc (by simp)
  | started hv hf =>
    -- a new promise, as none is in flight
    exact (hi.snoc (by simp)).addDownload hv hf
  | @resolved k loaded mirror hd =>
    -- the build is found now, and the directory may hold anything
    apply hi.setStage hd rfl (fun j build => FoundIn.snoc)
    · intro j build hj hf
      exact hf.of_snoc (by simpa using Ne.symm hj)
    · rintro build ⟨manifest, entry, hmem, hfind, hcheck⟩
      rcases List.mem_append.1 hmem with hmem | hmem
      · -- it had not found one before
        obtain ⟨d₀, pc, hd₀, hst⟩ := hi.found k build ⟨manifest, entry, hmem, hfind, hcheck⟩
        rw [hd] at hd₀
        cases hd₀
        cases hst
      · cases List.mem_singleton.1 hmem
        exact ⟨.checkFinal, stageAfterResolve_found hfind hcheck⟩
    · intro build pc hst
      obtain ⟨hf, rfl⟩ := foundIn_of_resolved (h := h) (k := k) hst
      exact ⟨hf, trivial⟩
  | @inner k act mirror build pc pc' d' hd hact hinner =>
    -- the build stays; its files change by one step
    have hbuild : FoundIn version h k build := hi.builds k _ build pc hd rfl
    apply hi.setStage hd rfl (fun j build => FoundIn.snoc)
    · intro j build' _ hf
      exact hf.of_snoc (by simp)
    · intro build' hf
      obtain ⟨d₀, pc₀, hd₀, hst⟩ := hi.found k build' (hf.of_snoc (by simp))
      rw [hd] at hd₀
      cases hd₀
      cases hst
      exact ⟨pc', rfl⟩
    · intro build' pc'' hst
      cases hst
      refine ⟨hbuild.snoc, ?_⟩
      rw [Function.update_self, ← innerOk_mirror]
      have hfiles := hi.files k _ build pc hd rfl rfl
      exact innerOk_step hbuild.version_eq (innerOk_mirror.2 (hfiles.mono FsFailed.snoc)) fsFailed_of_step hact hinner
  | finished hd hr => exact (hi.snoc (by simp)).settle hd rfl
  | elsewhere hat => exact (hi.snoc (by simp)).changeFiles _ hat

theorem processInv_of_run {files : String → Directory CacheName} (hr : ProcessRun rt version files h s) :
    ProcessInv rt version h s := by
  apply Run.inv (ProcessInv rt version) (processInv_start rt version files) _ hr
  intro h s ev out s' _ hi _ hs
  exact hi.step hs

/-- **Verified or clean.** When the promise of a call settles: if it resolves, the
compiler path holds the bytes of the manifest entry, and they report the version;
if it rejects after it found the entry and no file-system operation failed, the
compiler path is empty. The next call makes a new promise. -/
theorem compiler_verified_or_clean {files : String → Directory CacheName} {k : Nat} {r : Except String Compiler}
    (hr : ProcessRun rt version files h s) (hs : s.step rt version (.finish k) = some (.finished r, s')) :
    (∀ c, r = .ok c → ∃ build, FoundIn version h k build ∧
      c = ⟨compilerPath rt build.longVersion, version, build.longVersion⟩ ∧
      CompilerAt rt version build (s'.files build.longVersion)) ∧
    (∀ message build, r = .error message → FoundIn version h k build → ¬FsFailed h k →
      (s'.files build.longVersion).entry .final = none) ∧
    ∀ mirror, ∃ s'', s'.step rt version (.call mirror) = some (.started s'.downloads.length, s'') := by
  have hi := processInv_of_run hr
  cases CompilerProcess.step_effect hs with
  | @finished _ mirror stage _ hd hstage =>
    refine ⟨?_, ?_, ?_⟩
    · rintro c rfl
      cases stage with
      | resolving | unresolved message => cases hstage
      | inner build pc =>
        cases pc with
        | ended result =>
          cases hstage
          exact ⟨build, hi.builds k _ build _ hd rfl, hi.files k _ build _ hd rfl rfl⟩
        | _ => cases hstage
    · rintro message build rfl hfound hfs
      obtain ⟨d, pc, hd', hst⟩ := hi.found k build hfound
      rw [hd] at hd'
      cases hd'
      obtain rfl : stage = .inner build pc := hst
      have hok := hi.files k _ build pc hd rfl rfl
      cases pc with
      | ended result =>
        cases hstage
        exact hok.resolve_left hfs
      | _ => cases hstage
    · intro mirror'
      have hv : version ≠ "" := hi.named (List.ne_nil_of_mem (List.mem_of_getElem? hd))
      refine ⟨_, congrArg some (Prod.ext ?_ rfl)⟩
      show (getCompiler version mirror' (s.settle k)).1 = _
      rw [getCompiler, if_neg hv]
      rfl

end

/-! ## A download -/

/-- The renamed file loads and reports the version. -/
theorem CompilerProcess.step_loadFresh {rt : DownloadRuntime} {version mirror v : String} {s : CompilerProcess} {k : Nat}
    {build : Build} (hd : s.downloads[k]? = some ⟨mirror, .inner build .loadFresh, false⟩)
    (hload : loadAndCheckVersion rt (compilerPath rt build.longVersion)
      ((s.files build.longVersion).read .final) build.version = .ok v) :
    s.step rt version (.inner k .go) = some (.moved,
      { s.setStage k (.inner build (.ended (.ok ⟨compilerPath rt build.longVersion, build.version, build.longVersion⟩)))
        with files := Function.update s.files build.longVersion (s.files build.longVersion) }) := by
  have hinner : downloadInner { rt with mirror } build (s.files build.longVersion) .loadFresh .go =
      some (.ended (.ok ⟨compilerPath rt build.longVersion, build.version, build.longVersion⟩),
        s.files build.longVersion) := by
    have hload' : loadAndCheckVersion { rt with mirror } (compilerPath { rt with mirror } build.longVersion)
      ((s.files build.longVersion).read .final) build.version = .ok v := hload
    simp only [downloadInner, hload']
    rfl
  simp only [CompilerProcess.step, hd, hinner]
  rfl

/-- The list of a mirror that has `abcBuild`. -/
def abcManifest : Manifest := ⟨[⟨abcBuild.path, some abcBuild.version, abcBuild.longVersion, .ok abcBuild.sha256⟩]⟩

theorem loadAndCheckVersion_abc (path : String) :
    loadAndCheckVersion abcRuntime path (some abc) "0.8.26" = .ok "0.8.26+commit.733b4d28" :=
  if_pos (by simp)

/-- One call downloads the compiler into an empty cache. -/
theorem compiler_verified_abc :
    ∃ h s s' c, ProcessRun abcRuntime "0.8.26" (fun _ => emptyCache) h s ∧
      s.step abcRuntime "0.8.26" (.finish 0) = some (.finished (.ok c), s') ∧
      ∃ build, FoundIn "0.8.26" h 0 build ∧
        c = ⟨compilerPath abcRuntime build.longVersion, "0.8.26", build.longVersion⟩ ∧
        CompilerAt abcRuntime "0.8.26" build (s'.files build.longVersion) := by
  have hp : play (CompilerProcess.step abcRuntime "0.8.26") (fun _ _ => True) (idleProcess fun _ => emptyCache)
    [.call "https://mirror/", .resolved 0 (.ok abcManifest), .inner 0 .go, .inner 0 .go, .inner 0 (.response .body),
      .inner 0 .go, .inner 0 (.chunk abc), .inner 0 .endOfBody, .inner 0 .go, .inner 0 .go] = some (_, _) := rfl
  have hr : ProcessRun abcRuntime "0.8.26" (fun _ => emptyCache) _ _ := .of_play hp
  have hr' := hr.snoc (.inner 0 .go) trivial (CompilerProcess.step_loadFresh rfl (loadAndCheckVersion_abc _))
  exact ⟨_, _, _, _, hr', rfl, (compiler_verified_or_clean hr' rfl).1 _ rfl⟩

end HardhatTron

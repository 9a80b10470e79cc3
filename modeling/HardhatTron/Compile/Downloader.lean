import HardhatTron.Lib.Directory
import HardhatTron.Lib.Runs
/-!
# Downloading a compiler

`downloadInner` stages the compiler under `<finalPath>.tmp`, verifies it there
and renames it. Every process stages under the same name, so what a process
renames need not be what it verified.

`final_path_whole` covers the runs in which nobody disturbs a verified file;
`partial_compiler_visible` is a run in which somebody does.
-/
namespace HardhatTron

open Lib

/-! ## One process -/

/-- An entry of the manifest. -/
structure Build where
  path : String
  version : String
  longVersion : String
  sha256 : List Char

structure Compiler where
  compilerPath : String
  version : String
  longVersion : String

/-- The names in the cache directory: the compiler path, and the same with `.tmp`. -/
inductive CacheName where
  | final
  | tmp
  deriving DecidableEq

/-- What the process finds outside the module. -/
structure DownloadRuntime where
  compilerCacheDir : String
  mirror : String
  /-- The hex digest of `crypto`. -/
  sha256 : List UInt8 → List Char
  /-- `require` and `solc/wrapper`: the version the module reports, `none` where it has no such function. -/
  load : List UInt8 → Except String (Option String)
  /-- The message of an access to a file that is not there. -/
  notFound : String

def compilerPath (rt : DownloadRuntime) (longVersion : String) : String :=
  rt.compilerCacheDir ++ "/soljson-v" ++ longVersion ++ ".js"

def sha256OfFile (rt : DownloadRuntime) (bytes : List UInt8) : List Char := '0' :: 'x' :: rt.sha256 bytes

/-- Whether the bytes are those of the manifest. -/
def Verified (rt : DownloadRuntime) (build : Build) (bytes : List UInt8) : Prop :=
  (sha256OfFile rt bytes).map Char.toLower = build.sha256.map Char.toLower

instance (rt : DownloadRuntime) (build : Build) (bytes : List UInt8) : Decidable (Verified rt build bytes) :=
  inferInstanceAs (Decidable (_ = _))

def loadAndCheckVersion (rt : DownloadRuntime) (absPath : String) (bytes : Option (List UInt8))
    (expectedShortVersion : String) : Except String String :=
  match bytes with
  | none => .error rt.notFound
  | some bytes =>
    match rt.load bytes with
    | .error e => .error ("failed to load tron-solc wasm at " ++ absPath ++ ": " ++ e)
    | .ok version =>
      let versionString := version.getD ""
      if versionString.startsWith (expectedShortVersion ++ "+") then .ok versionString
      else .error ("tron-solc wasm at " ++ absPath ++ " reports version '" ++ versionString ++
        "', expected prefix '" ++ expectedShortVersion ++ "+'")

/-- `opts.mirror` without a slash at its end. -/
def mirrorBase (mirror : String) : String :=
  match mirror.toList.reverse with
  | '/' :: rest => String.ofList rest.reverse
  | _ => mirror

def downloadUrl (rt : DownloadRuntime) (build : Build) : String := mirrorBase rt.mirror ++ "/wasm/" ++ build.path

/-- What `fetch` gives. -/
inductive Response where
  | failed (message : String)
  /-- Not `res.ok`. -/
  | status (code : Nat)
  | noBody
  | body

/-- Where a process stands in `downloadInner`. -/
inductive DownloadPc where
  | checkFinal
  | hashFinal
  | loadFinal
  | removeFinal
  | removeTmp
  | fetch
  | create
  /-- In the `pipeline`, with the file open and the next offset to write. -/
  | stream (file offset : Nat)
  | hashTmp
  | removeBad (got : List Char)
  /-- The staged file has been verified. -/
  | rename
  | loadFresh
  | removeFresh (message : String)
  | ended (result : Except String Compiler)
  | crashed

/-- A step of a process: its next file access, what the network gives it, an
exception, or its end. -/
inductive DownloadAct where
  | go
  | response (r : Response)
  | chunk (bytes : List UInt8)
  | endOfBody
  | fault (message : String)
  | crash

/-- Where an exception takes the process; the `try` blocks go on with a removal. -/
def DownloadPc.fault (message : String) : DownloadPc → DownloadPc
  | .hashFinal | .loadFinal => .removeFinal
  | .loadFresh => .removeFresh message
  | _ => .ended (.error message)

def badHash (rt : DownloadRuntime) (build : Build) (got : List Char) : String :=
  "tron-solc download from " ++ downloadUrl rt build ++ " failed sha256 verification (expected " ++
    String.ofList (build.sha256.map Char.toLower) ++ ", got " ++ String.ofList (got.map Char.toLower) ++ ")"

def fetchError (rt : DownloadRuntime) (build : Build) : Response → Option String
  | .failed message => some ("fetch failed for " ++ downloadUrl rt build ++ ": " ++ message)
  | .status code =>
    some ("fetch returned HTTP " ++ toString code ++ " for " ++ downloadUrl rt build)
  | .noBody => some ("fetch returned no body for " ++ downloadUrl rt build)
  | .body => none

def downloadInner (rt : DownloadRuntime) (build : Build) (d : Directory CacheName) :
    DownloadPc → DownloadAct → Option (DownloadPc × Directory CacheName)
  | .ended _, _ | .crashed, _ => none
  | _, .crash => some (.crashed, d)
  | pc, .fault message => some (pc.fault message, d)
  | .checkFinal, .go => some (if (d.entry .final).isSome then .hashFinal else .removeTmp, d)
  | .hashFinal, .go =>
    match d.read .final with
    | none => some (.removeFinal, d)
    | some bytes => some (if Verified rt build bytes then .loadFinal else .removeFinal, d)
  | .loadFinal, .go =>
    match loadAndCheckVersion rt (compilerPath rt build.longVersion) (d.read .final) build.version with
    | .ok _ => some (.ended (.ok ⟨compilerPath rt build.longVersion, build.version, build.longVersion⟩), d)
    | .error _ => some (.removeFinal, d)
  | .removeFinal, .go => some (.removeTmp, d.remove .final)
  | .removeTmp, .go => some (.fetch, d.remove .tmp)
  | .fetch, .response r =>
    match fetchError rt build r with
    | some message => some (.ended (.error message), d)
    | none => some (.create, d)
  | .create, .go => some (.stream (d.fileFor .tmp) 0, d.create .tmp)
  | .stream file offset, .chunk bytes =>
    some (.stream file (offset + bytes.length), d.writeAt file offset bytes)
  | .stream _ _, .endOfBody => some (.hashTmp, d)
  | .hashTmp, .go =>
    match d.read .tmp with
    | none => some (.ended (.error rt.notFound), d)
    | some bytes =>
      some (if Verified rt build bytes then .rename else .removeBad (sha256OfFile rt bytes), d)
  | .removeBad got, .go => some (.ended (.error (badHash rt build got)), d.remove .tmp)
  | .rename, .go =>
    match d.rename .tmp .final with
    | none => some (.ended (.error rt.notFound), d)
    | some d => some (.loadFresh, d)
  | .loadFresh, .go =>
    match loadAndCheckVersion rt (compilerPath rt build.longVersion) (d.read .final) build.version with
    | .ok _ => some (.ended (.ok ⟨compilerPath rt build.longVersion, build.version, build.longVersion⟩), d)
    | .error message => some (.removeFresh message, d)
  | .removeFresh message, .go => some (.ended (.error message), d.remove .final)
  | _, _ => none

/-! ## Any number of processes -/

/-- The cache directory and the processes that share it. -/
structure Downloads where
  dir : Directory CacheName
  procs : Nat → DownloadPc

def Downloads.step (rt : DownloadRuntime) (build : Build) (s : Downloads) (c : Nat × DownloadAct) :
    Option (Unit × Downloads) :=
  (downloadInner rt build s.dir (s.procs c.1) c.2).map fun r => ((), ⟨r.2, Function.update s.procs c.1 r.1⟩)

/-- Every process is about to call `downloadInner`. -/
def startDownloads (d : Directory CacheName) : Downloads := ⟨d, fun _ => .checkFinal⟩

/-- At the compiler path is nothing, the file of before the run, or a whole
file with the hash of the manifest. -/
def FinalWhole (rt : DownloadRuntime) (build : Build) (before d : Directory CacheName) : Prop :=
  ∀ f, d.entry .final = some f →
    before.entry .final = some f ∧ d.contents f = before.contents f ∨ Verified rt build (d.contents f)

/-- A process has verified what is at `f` and is about to rename it. -/
def Downloads.Awaits (s : Downloads) (f : Nat) : Prop := s.dir.entry .tmp = some f ∧ ∃ j, s.procs j = .rename

/-- The step leaves the files alone that count as verified: no process opens the
staged file while one is about to rename it, and no chunk changes what is at the
compiler path or about to be moved there. -/
def LeavesVerified (s : Downloads) (c : Nat × DownloadAct) : Prop :=
  (s.procs c.1 = .create → c.2 = .go → ∀ j, s.procs j ≠ .rename) ∧
    ∀ f offset bytes, s.procs c.1 = .stream f offset → c.2 = .chunk bytes → s.dir.entry .final = some f ∨ s.Awaits f →
      Directory.splice (s.dir.contents f) offset bytes = s.dir.contents f

/-! ## The invariant -/

structure DownloadInv (rt : DownloadRuntime) (build : Build) (before : Directory CacheName) (s : Downloads) : Prop where
  whole : FinalWhole rt build before s.dir
  staged : ∀ f, s.Awaits f → Verified rt build (s.dir.contents f)

variable {rt : DownloadRuntime} {build : Build}

/-- What a step does to the directory. -/
inductive DownloadEffect (rt : DownloadRuntime) (build : Build) (d : Directory CacheName) (pc : DownloadPc)
    (act : DownloadAct) : DownloadPc → Directory CacheName → Prop
  | moves {pc'} (h : pc' ≠ .rename) : DownloadEffect rt build d pc act pc' d
  | verifies {bytes} (hread : d.read .tmp = some bytes) (hok : Verified rt build bytes) :
      DownloadEffect rt build d pc act .rename d
  | removes {pc'} (n : CacheName) (h : pc' ≠ .rename) : DownloadEffect rt build d pc act pc' (d.remove n)
  | opens (hpc : pc = .create) (hact : act = .go) :
      DownloadEffect rt build d pc act (.stream (d.fileFor .tmp) 0) (d.create .tmp)
  | writes {file offset bytes} (hpc : pc = .stream file offset) (hact : act = .chunk bytes) :
      DownloadEffect rt build d pc act (.stream file (offset + bytes.length)) (d.writeAt file offset bytes)
  | renames {d'} (hpc : pc = .rename) (h : d.rename .tmp .final = some d') :
      DownloadEffect rt build d pc act .loadFresh d'

theorem DownloadPc.fault_ne_rename (message : String) (pc : DownloadPc) : pc.fault message ≠ .rename := by
  cases pc <;> simp [DownloadPc.fault]

section

variable {d d' : Directory CacheName} {pc pc' q : DownloadPc} {act : DownloadAct}

theorem DownloadEffect.of_move (hq : q ≠ .rename) (h : some (q, d) = some (pc', d')) :
    DownloadEffect rt build d pc act pc' d' := by
  obtain ⟨rfl, rfl⟩ := Prod.mk.inj (Option.some.inj h)
  exact .moves hq

theorem DownloadEffect.of_remove (n : CacheName) (hq : q ≠ .rename) (h : some (q, d.remove n) = some (pc', d')) :
    DownloadEffect rt build d pc act pc' d' := by
  obtain ⟨rfl, rfl⟩ := Prod.mk.inj (Option.some.inj h)
  exact .removes n hq

theorem downloadInner_effect (h : downloadInner rt build d pc act = some (pc', d')) :
    DownloadEffect rt build d pc act pc' d' := by
  unfold downloadInner at h
  split at h
  · cases h
  · cases h
  · exact .of_move (by simp) h
  · exact .of_move (DownloadPc.fault_ne_rename _ _) h
  · -- `checkFinal`
    exact .of_move (by split <;> simp) h
  · -- `hashFinal`
    split at h
    · exact .of_move (by simp) h
    · exact .of_move (by split <;> simp) h
  · -- `loadFinal`
    split at h <;> exact .of_move (by simp) h
  · exact .of_remove .final (by simp) h
  · exact .of_remove .tmp (by simp) h
  · -- `fetch`
    split at h <;> exact .of_move (by simp) h
  · obtain ⟨rfl, rfl⟩ := Prod.mk.inj (Option.some.inj h)
    exact .opens rfl rfl
  · obtain ⟨rfl, rfl⟩ := Prod.mk.inj (Option.some.inj h)
    exact .writes rfl rfl
  · exact .of_move (by simp) h
  · -- `hashTmp`
    split at h
    · exact .of_move (by simp) h
    · rename_i bytes hread
      split at h
      · rename_i hok
        obtain ⟨rfl, rfl⟩ := Prod.mk.inj (Option.some.inj h)
        exact .verifies hread hok
      · exact .of_move (by simp) h
  · exact .of_remove .tmp (by simp) h
  · -- `rename`
    split at h
    · exact .of_move (by simp) h
    · rename_i d'' hrename
      obtain ⟨rfl, rfl⟩ := Prod.mk.inj (Option.some.inj h)
      exact .renames rfl hrename
  · -- `loadFresh`
    split at h <;> exact .of_move (by simp) h
  · exact .of_remove .final (by simp) h
  · cases h

end

/-! ## Every run -/

section

variable {before : Directory CacheName} {s s' : Downloads} {c : Nat × DownloadAct}

/-- A process that does not come to a rename awaits nothing new. -/
theorem Downloads.Awaits.of_step {i : Nat} {pc' : DownloadPc} {d' : Directory CacheName} {f : Nat}
    (h : Downloads.Awaits ⟨d', Function.update s.procs i pc'⟩ f) (hpc : pc' ≠ .rename)
    (htmp : d'.entry .tmp = some f → s.dir.entry .tmp = some f) : s.Awaits f := by
  obtain ⟨hf, j, hj⟩ := h
  refine ⟨htmp hf, j, ?_⟩
  have hne : j ≠ i := by
    rintro rfl
    exact hpc (by simpa using hj)
  simpa [hne] using hj

/-- A chunk that may be written leaves what counts as verified. -/
theorem LeavesVerified.contents_writeAt {file offset f : Nat} {bytes : List UInt8} (hok : LeavesVerified s c)
    (hpc : s.procs c.1 = .stream file offset) (hact : c.2 = .chunk bytes)
    (hf : s.dir.entry .final = some f ∨ s.Awaits f) :
    (s.dir.writeAt file offset bytes).contents f = s.dir.contents f := by
  by_cases hfile : f = file
  · subst hfile
    simpa [Directory.writeAt] using hok.2 f offset bytes hpc hact hf
  · exact Directory.contents_writeAt_of_ne hfile

theorem DownloadInv.step (hi : DownloadInv rt build before s) (hok : LeavesVerified s c)
    (hst : s.step rt build c = some ((), s')) : DownloadInv rt build before s' := by
  obtain ⟨⟨pc', d'⟩, hinner, heq⟩ := Option.map_eq_some_iff.1 hst
  obtain rfl := (Prod.mk.inj heq).2
  cases downloadInner_effect hinner with
  | moves hmove => exact ⟨hi.whole, fun f hf => hi.staged f (hf.of_step hmove id)⟩
  | verifies hread hverified =>
    refine ⟨hi.whole, ?_⟩
    rintro f ⟨hf, -⟩
    obtain ⟨f', hf', rfl⟩ := Directory.read_eq_some.1 hread
    obtain rfl : f' = f := Option.some.inj (hf'.symm.trans hf)
    exact hverified
  | removes n hmove =>
    have hentry : ∀ {m f}, (s.dir.remove n).entry m = some f → s.dir.entry m = some f := by
      intro m f hf
      rw [Directory.entry_remove] at hf
      split at hf
      · cases hf
      · exact hf
    exact ⟨fun f hf => hi.whole f (hentry hf), fun f hf => hi.staged f (hf.of_step hmove hentry)⟩
  | opens hpc hact =>
    refine ⟨?_, ?_⟩
    · intro f hf
      replace hf : s.dir.entry .final = some f := by
        simpa [Directory.entry_create] using hf
      show _ ∧ (s.dir.create .tmp).contents f = _ ∨ Verified rt build ((s.dir.create .tmp).contents f)
      rw [Directory.contents_create_of_entry hf (by decide)]
      exact hi.whole f hf
    · rintro f ⟨-, j, hj⟩
      have hne : j ≠ c.1 := by
        rintro rfl
        simp at hj
      exact (hok.1 hpc hact j (by simpa [hne] using hj)).elim
  | writes hpc hact =>
    refine ⟨?_, ?_⟩
    · intro f hf
      show _ ∧ (s.dir.writeAt _ _ _).contents f = _ ∨ Verified rt build ((s.dir.writeAt _ _ _).contents f)
      rw [hok.contents_writeAt hpc hact (.inl hf)]
      exact hi.whole f hf
    · intro f hf
      replace hf := hf.of_step (by simp) id
      show Verified rt build ((s.dir.writeAt _ _ _).contents f)
      rw [hok.contents_writeAt hpc hact (.inr hf)]
      exact hi.staged f hf
  | renames hpc hrename =>
    obtain ⟨f, hf, hcontents, -, hentry⟩ := Directory.rename_eq_some hrename
    refine ⟨?_, ?_⟩
    · intro g hg
      rw [hentry, if_pos rfl] at hg
      obtain rfl := Option.some.inj hg
      rw [hcontents]
      exact .inr (hi.staged f ⟨hf, c.1, hpc⟩)
    · rintro g ⟨hg, -⟩
      rw [hentry, if_neg (by decide), if_pos rfl] at hg
      cases hg

theorem downloadInv_start (rt : DownloadRuntime) (build : Build) (before : Directory CacheName) :
    DownloadInv rt build before (startDownloads before) where
  whole f hf := .inl ⟨hf, rfl⟩
  staged f hf := by
    obtain ⟨-, j, hj⟩ := hf
    cases hj

/-- **No partial compiler.** In every run whose steps leave verified files alone,
the compiler path holds nothing, the old file or a verified one. -/
theorem final_path_whole {h} (hr : Run (Downloads.step rt build) LeavesVerified (startDownloads before) h s) :
    FinalWhole rt build before s.dir := by
  have hinv : DownloadInv rt build before s := by
    apply Run.inv (fun _ s => DownloadInv rt build before s) (downloadInv_start rt build before) _ hr
    intro h s c r s' _ hi hok hst
    exact hi.step hok hst
  exact hinv.whole

/-- A process alone leaves verified files alone, but for chunks to the compiler path. -/
theorem LeavesVerified.of_alone (halone : ∀ j ≠ c.1, s.procs j = .checkFinal)
    (hopen : ∀ f offset, s.procs c.1 = .stream f offset → s.dir.entry .final ≠ some f) : LeavesVerified s c := by
  have hothers : ∀ j, s.procs j = .rename → j = c.1 := by
    intro j hj
    by_contra hne
    rw [halone j hne] at hj
    cases hj
  refine ⟨?_, ?_⟩
  · intro hpc _ j hj
    obtain rfl := hothers j hj
    rw [hpc] at hj
    cases hj
  · rintro f offset bytes hpc - (hf | ⟨-, j, hj⟩)
    · exact absurd hf (hopen f offset hpc)
    · obtain rfl := hothers j hj
      rw [hpc] at hj
      cases hj

end

/-! ## Runs with and without another process -/

def emptyCache : Directory CacheName := ⟨fun _ => none, fun _ => [], 0, by simp, by simp⟩

/-- The bytes of `abc`. -/
def abc : List UInt8 := [97, 98, 99]

/-- SHA-256 on `abc` and on no bytes at all. -/
def abcRuntime : DownloadRuntime where
  compilerCacheDir := "/cache"
  mirror := "https://mirror/"
  sha256 bytes :=
    if bytes = abc then "ba7816bf8f01cfea414140de5dae2223b00361a396177a9cb410ff61f20015ad".toList
    else "e3b0c44298fc1c149afbf4c8996fb92427ae41e4649b934ca495991b7852b855".toList
  load _ := .ok (some "0.8.26+commit.733b4d28")
  notFound := "ENOENT"

/-- A build whose file is `abc`. -/
def abcBuild : Build where
  path := "soljson-v0.8.26+commit.733b4d28.js"
  version := "0.8.26"
  longVersion := "0.8.26+commit.733b4d28"
  sha256 := "0xba7816bf8f01cfea414140de5dae2223b00361a396177a9cb410ff61f20015ad".toList

/-- One process downloads the compiler. -/
theorem final_path_whole_alone :
    ∃ h s, Run (Downloads.step abcRuntime abcBuild) LeavesVerified (startDownloads emptyCache) h s ∧
      s.dir.read .final = some abc ∧ FinalWhole abcRuntime abcBuild emptyCache s.dir := by
  have h₀ : Run (Downloads.step abcRuntime abcBuild) LeavesVerified (startDownloads emptyCache) _ _ := .nil
  have hidle : ∀ (procs : Nat → DownloadPc) pc, (∀ j ≠ 0, procs j = .checkFinal) →
      ∀ j ≠ 0, Function.update procs 0 pc j = .checkFinal := by
    intro procs pc hprocs j hj
    rw [Function.update_of_ne hj]
    exact hprocs j hj
  have i₀ : ∀ j ≠ 0, (startDownloads emptyCache).procs j = .checkFinal := fun _ _ => rfl
  have h₁ := h₀.snoc (0, .go) (.of_alone i₀ (by simp [startDownloads])) rfl
  have i₁ := hidle _ .removeTmp i₀
  have h₂ := h₁.snoc (0, .go) (.of_alone i₁ (fun _ _ h => by cases h)) rfl
  have i₂ := hidle _ .fetch i₁
  have h₃ := h₂.snoc (0, .response .body) (.of_alone i₂ (fun _ _ h => by cases h)) rfl
  have i₃ := hidle _ .create i₂
  have h₄ := h₃.snoc (0, .go) (.of_alone i₃ (fun _ _ h => by cases h)) rfl
  have i₄ := hidle _ (.stream 0 0) i₃
  have h₅ := h₄.snoc (0, .chunk abc) (.of_alone i₄ (fun _ _ _ h => by cases h)) rfl
  have i₅ := hidle _ (.stream 0 3) i₄
  have h₆ := h₅.snoc (0, .endOfBody) (.of_alone i₅ (fun _ _ _ h => by cases h)) rfl
  have i₆ := hidle _ .hashTmp i₅
  have h₇ := h₆.snoc (0, .go) (.of_alone i₆ (fun _ _ h => by cases h)) rfl
  have i₇ := hidle _ .rename i₆
  have h₈ := h₇.snoc (0, .go) (.of_alone i₇ (fun _ _ h => by cases h)) rfl
  exact ⟨_, _, h₈, rfl, final_path_whole h₈⟩

/-- Process 0 has verified its file; process 1 removes it and opens a new one under
the same name, which process 0 then renames. -/
theorem partial_compiler_visible :
    ¬ ∀ (rt : DownloadRuntime) (build : Build) (before : Directory CacheName) h (s : Downloads),
      Run (Downloads.step rt build) (fun _ _ => True) (startDownloads before) h s →
      FinalWhole rt build before s.dir := by
  intro hall
  have hp : play (Downloads.step abcRuntime abcBuild) (fun _ _ => True) (startDownloads emptyCache)
    [(0, .go), (0, .go), (0, .response .body), (0, .go), (0, .chunk abc), (0, .endOfBody), (0, .go),
      (1, .go), (1, .go), (1, .response .body), (1, .go), (0, .go)] = some (_, _) := rfl
  have hwhole := hall _ _ _ _ _ (.of_play hp)
  rcases hwhole 1 rfl with ⟨hold, -⟩ | hverified
  · cases hold
  · exact absurd hverified (by decide)

end HardhatTron

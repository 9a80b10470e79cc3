import HardhatTron.Lib.OrderedMap
import HardhatTron.Lib.Runs
import HardhatTron.Runtime.JsValue
/-!
# Artifacts, found once

`loadArtifact` remembers what it has read by name, and looks a bare name up in an
index of the artifact directories that it builds once, and again before it says
that a name is missing. The files change while a process runs: every compilation
rewrites them.

`loadArtifact_explained` says what every answer of every run tells of the disk:
an artifact is the one read first under the name, from the one file of that name
when the index was built; a name that is reported missing is missing now.

One call is one step: nobody writes while it runs.
-/
namespace HardhatTron.Artifacts

open Lib

/-! ## The disk -/

/-- What `fs` shows: which paths exist, the entries of a directory and of all below
it, and the text of a file, `none` when reading throws. -/
structure Disk where
  existsSync : JsString → Bool
  readdirSync : JsString → List JsString
  readFileSync : JsString → Option JsString

/-- `config.paths.artifacts`, `path` of node, and `JSON.parse`, `none` when it
throws, with what `if (cached)` makes of its values. -/
structure ArtifactEnv (A : Type) where
  artifactsDir : JsString
  join : List JsString → JsString
  basename : JsString → JsString → JsString
  parse : JsString → Option A
  truthy : A → Bool

variable {A : Type}

abbrev ArtifactIndex := OrderedMap JsString (List JsString)

/-! ## The index -/

section

variable (env : ArtifactEnv A)

def isArtifactEntry (entry : JsString) : Bool :=
  ".json".toList.isSuffixOf entry && !".dbg.json".toList.isSuffixOf entry

/-- The body of the inner loop of `_buildArtifactIndex`. -/
def addEntry (root : JsString) (idx : ArtifactIndex) (entry : JsString) : ArtifactIndex :=
  if isArtifactEntry entry then
    let base := env.basename entry ".json".toList
    idx.put base ((idx.get? base).getD [] ++ [env.join [root, entry]])
  else idx

def _buildArtifactIndex (d : Disk) (roots : List JsString) : ArtifactIndex :=
  roots.foldl (fun idx root => if d.existsSync root then (d.readdirSync root).foldl (addEntry env root) idx else idx)
    .empty

def _artifactRoots : List JsString :=
  [env.join [env.artifactsDir, "contracts".toList], env.join [env.artifactsDir, "contracts-exposed".toList]]

end

/-! ## Loading -/

inductive LoadError where
  | notFoundAt (abs : JsString)
  | notFound (name : JsString) (roots : List JsString)
  | multiple (name : JsString) (paths : List JsString)
  /-- Thrown by `readFileSync` or `JSON.parse`. -/
  | unreadable (path : JsString)

def joinedWith (separator : JsString) : List JsString → JsString
  | [] => []
  | [s] => s
  | s :: rest => s ++ (separator ++ joinedWith separator rest)

/-- The message, of the errors that are thrown here. -/
def LoadError.message : LoadError → Option JsString
  | .notFoundAt abs => some ("Artifact not found at ".toList ++ abs)
  | .notFound name roots =>
    some ("Artifact for contract \"".toList ++ name ++ "\" not found in ".toList ++ joinedWith ", ".toList roots)
  | .multiple name paths =>
    some ("Multiple artifacts named \"".toList ++ name ++
      "\" found, please use a fully-qualified name:\n  ".toList ++ joinedWith "\n  ".toList paths)
  | .unreadable _ => none

structure ArtifactCaches (A : Type) where
  _artifactCache : OrderedMap JsString A
  _artifactIndex : Option ArtifactIndex

section

variable (env : ArtifactEnv A)

/-- `JSON.parse(fs.readFileSync(path))`, remembered under the name. -/
def readArtifact (d : Disk) (name path : JsString) (s : ArtifactCaches A) : Except LoadError A × ArtifactCaches A :=
  match (d.readFileSync path).bind env.parse with
  | some a => (.ok a, { s with _artifactCache := s._artifactCache.put name a })
  | none => (.error (.unreadable path), s)

/-- The only candidate is read. -/
def readOnly (d : Disk) (name : JsString) (candidates : List JsString) (s : ArtifactCaches A) :
    Except LoadError A × ArtifactCaches A :=
  match candidates with
  | [] => (.error (.notFound name (_artifactRoots env)), s)
  | [path] => readArtifact env d name path s
  | paths => (.error (.multiple name paths), s)

/-- The file of a fully-qualified name. -/
def qualifiedPath (name : JsString) : JsString :=
  env.join [env.artifactsDir, name.takeWhile (· ≠ ':'), (name.dropWhile (· ≠ ':')).tail ++ ".json".toList]

def loadArtifact (d : Disk) (name : JsString) (s : ArtifactCaches A) : Except LoadError A × ArtifactCaches A :=
  match (s._artifactCache.get? name).filter env.truthy with
  | some a => (.ok a, s)
  | none =>
    if name.contains ':' then
      if d.existsSync (qualifiedPath env name) then readArtifact env d name (qualifiedPath env name) s
      else (.error (.notFoundAt (qualifiedPath env name)), s)
    else
      let index := s._artifactIndex.getD (_buildArtifactIndex env d (_artifactRoots env))
      match (index.get? name).getD [] with
      | [] =>
        let index := _buildArtifactIndex env d (_artifactRoots env)
        readOnly env d name ((index.get? name).getD []) { s with _artifactIndex := some index }
      | candidates => readOnly env d name candidates { s with _artifactIndex := some index }

end

/-! ## A process and its disk -/

inductive ArtifactAct where
  /-- Somebody writes, compiles or cleans. -/
  | write (d : Disk)
  | load (name : JsString)

inductive ArtifactReply (A : Type) where
  | written
  | loaded (r : Except LoadError A)

def step (env : ArtifactEnv A) (s : Disk × ArtifactCaches A) :
    ArtifactAct → Option (ArtifactReply A × Disk × ArtifactCaches A)
  | .write d => some (.written, d, s.2)
  | .load name =>
    let r := loadArtifact env s.1 name s.2
    some (.loaded r.1, s.1, r.2)

/-- A process that has loaded nothing. -/
def start (d : Disk) : Disk × ArtifactCaches A := (d, ⟨.empty, none⟩)

/-! ## What an answer tells -/

section

variable (env : ArtifactEnv A)

/-- The files of a bare name, in the order they are listed. -/
def candidates (d : Disk) (name : JsString) : List JsString :=
  (_artifactRoots env).flatMap fun root =>
    if d.existsSync root then
      ((d.readdirSync root).filter fun entry =>
        isArtifactEntry entry && env.basename entry ".json".toList = name).map fun entry => env.join [root, entry]
    else []

/-- The disks there have been. -/
def disks (d₀ : Disk) (h : List (ArtifactAct × ArtifactReply A)) : List Disk :=
  d₀ :: h.filterMap fun e =>
    match e.1 with
    | .write d => some d
    | .load _ => none

/-- The file that a name stands for: the path it spells out, which is there now; or
the only one of a bare name, on some disk there has been. -/
def Located (past : List Disk) (d : Disk) (name path : JsString) : Prop :=
  if name.contains ':' then path = qualifiedPath env name ∧ d.existsSync path = true
  else ∃ d₀ ∈ past, candidates env d₀ name = [path]

def Explained (past : List Disk) (h : List (ArtifactAct × ArtifactReply A)) (d : Disk) (name : JsString) :
    Except LoadError A → Prop
  | .ok a => (ArtifactAct.load name, ArtifactReply.loaded (.ok a)) ∈ h ∨
      ∃ path, Located env past d name path ∧ (d.readFileSync path).bind env.parse = some a
  | .error (.notFoundAt path) => name.contains ':' = true ∧ path = qualifiedPath env name ∧ d.existsSync path = false
  | .error (.notFound name' roots) =>
    name.contains ':' = false ∧ name' = name ∧ roots = _artifactRoots env ∧ candidates env d name = []
  | .error (.multiple name' paths) =>
    name.contains ':' = false ∧ name' = name ∧ 2 ≤ paths.length ∧ ∃ d₀ ∈ past, candidates env d₀ name = paths
  | .error (.unreadable path) => Located env past d name path ∧ (d.readFileSync path).bind env.parse = none

end

/-! ## The index is the directory when it was built -/

section

variable {env : ArtifactEnv A} {d d₀ : Disk} {name : JsString} {s s' : ArtifactCaches A}

theorem get?_addEntry (root : JsString) (idx : ArtifactIndex) (entry : JsString) :
    ((addEntry env root idx entry).get? name).getD [] = (idx.get? name).getD [] ++
      (if isArtifactEntry entry && env.basename entry ".json".toList = name then [env.join [root, entry]] else []) := by
  unfold addEntry
  by_cases hentry : isArtifactEntry entry = true
  · rw [if_pos hentry, hentry]
    generalize env.basename entry ".json".toList = base
    by_cases hbase : base = name
    · simp [hbase]
    · simp [hbase, Ne.symm hbase]
  · simp [hentry]

theorem get?_foldl_addEntry (root : JsString) (entries : List JsString) (idx : ArtifactIndex) :
    ((entries.foldl (addEntry env root) idx).get? name).getD [] = (idx.get? name).getD [] ++
      ((entries.filter fun entry => isArtifactEntry entry && env.basename entry ".json".toList = name).map
        fun entry => env.join [root, entry]) := by
  induction entries generalizing idx with
  | nil => simp
  | cons entry entries ih =>
    rw [List.foldl_cons, ih, get?_addEntry, List.append_assoc, List.filter_cons]
    congr 1
    split <;> simp

/-- A bucket holds the files of its name. -/
theorem get?_buildArtifactIndex (d : Disk) (name : JsString) :
    ((_buildArtifactIndex env d (_artifactRoots env)).get? name).getD [] = candidates env d name := by
  have hroots : ∀ (roots : List JsString) (idx : ArtifactIndex),
      ((roots.foldl (fun idx root =>
        if d.existsSync root then (d.readdirSync root).foldl (addEntry env root) idx else idx) idx).get? name).getD [] =
      (idx.get? name).getD [] ++ roots.flatMap fun root =>
        if d.existsSync root then
          ((d.readdirSync root).filter fun entry =>
            isArtifactEntry entry && env.basename entry ".json".toList = name).map fun entry => env.join [root, entry]
        else [] := by
    intro roots
    induction roots with
    | nil => simp
    | cons root roots ih =>
      intro idx
      rw [List.foldl_cons, ih, List.flatMap_cons, ← List.append_assoc]
      congr 1
      split
      · exact get?_foldl_addEntry root _ idx
      · simp
  exact hroots _ _

/-! ## One call -/

/-- The index was built on a disk there has been. -/
def IndexOf (env : ArtifactEnv A) (past : List Disk) (idx : ArtifactIndex) : Prop :=
  ∃ d₀ ∈ past, ∀ name, (idx.get? name).getD [] = candidates env d₀ name

/-- What is known of the caches: the index is of a disk there has been, and what is
remembered was an answer. -/
structure CachesInv (env : ArtifactEnv A) (past : List Disk) (h : List (ArtifactAct × ArtifactReply A))
    (s : ArtifactCaches A) : Prop where
  index : ∀ idx, s._artifactIndex = some idx → IndexOf env past idx
  answered : ∀ name a, s._artifactCache.get? name = some a → (ArtifactAct.load name, ArtifactReply.loaded (.ok a)) ∈ h
  kept : ∀ name a, env.truthy a = true → (ArtifactAct.load name, ArtifactReply.loaded (.ok a)) ∈ h →
    s._artifactCache.get? name = some a

/-- What a call that finds nothing remembered does: it may build the index anew, and
it remembers what it answers. -/
structure LoadEffect (env : ArtifactEnv A) (past : List Disk) (h : List (ArtifactAct × ArtifactReply A)) (d : Disk)
    (name : JsString) (s : ArtifactCaches A) (r : Except LoadError A) (s' : ArtifactCaches A) : Prop where
  explained : Explained env past h d name r
  index : ∀ idx, s'._artifactIndex = some idx → IndexOf env past idx
  cache : (∃ a, r = .ok a ∧ s'._artifactCache = s._artifactCache.put name a) ∨
    (∀ a, r ≠ .ok a) ∧ s'._artifactCache = s._artifactCache

variable {past : List Disk} {h : List (ArtifactAct × ArtifactReply A)} {r : Except LoadError A}

theorem readArtifact_effect {path : JsString} (hlocated : Located env past d name path)
    (hindex : ∀ idx, s._artifactIndex = some idx → IndexOf env past idx)
    (hr : readArtifact env d name path s = (r, s')) : LoadEffect env past h d name s r s' := by
  unfold readArtifact at hr
  split at hr <;> rename_i hread <;> obtain ⟨rfl, rfl⟩ := Prod.mk.inj hr
  · exact ⟨.inr ⟨path, hlocated, hread⟩, hindex, .inl ⟨_, rfl, rfl⟩⟩
  · exact ⟨⟨hlocated, hread⟩, hindex, .inr ⟨by simp, rfl⟩⟩

/-- Candidates of a disk there has been; none are candidates of the disk now. -/
theorem readOnly_effect (hbare : name.contains ':' = false) {paths : List JsString}
    (hpaths : ∃ d₀ ∈ past, candidates env d₀ name = paths) (hnone : paths = [] → candidates env d name = [])
    (hindex : ∀ idx, s._artifactIndex = some idx → IndexOf env past idx)
    (hr : readOnly env d name paths s = (r, s')) : LoadEffect env past h d name s r s' := by
  unfold readOnly at hr
  split at hr
  · obtain ⟨rfl, rfl⟩ := Prod.mk.inj hr
    exact ⟨⟨hbare, rfl, rfl, hnone rfl⟩, hindex, .inr ⟨by simp, rfl⟩⟩
  · rename_i path
    apply readArtifact_effect _ hindex hr
    rw [Located, hbare]
    exact hpaths
  · rename_i hne hone
    obtain ⟨rfl, rfl⟩ := Prod.mk.inj hr
    refine ⟨⟨hbare, rfl, ?_, hpaths⟩, hindex, .inr ⟨by simp, rfl⟩⟩
    match paths, hne, hone with
    | [], hne, _ => exact absurd rfl hne
    | [path], _, hone => exact absurd rfl (hone path)
    | _ :: _ :: _, _, _ => exact Nat.le_add_left 2 _

theorem loadArtifact_effect (hnow : d ∈ past) (hi : CachesInv env past h s)
    (hnone : (s._artifactCache.get? name).filter env.truthy = none) (hr : loadArtifact env d name s = (r, s')) :
    LoadEffect env past h d name s r s' := by
  unfold loadArtifact at hr
  rw [hnone] at hr
  simp only at hr
  have hbuilt : ∀ idx, some (_buildArtifactIndex env d (_artifactRoots env)) = some idx →
      IndexOf env past idx := by
    rintro idx ⟨⟩
    exact ⟨d, hnow, get?_buildArtifactIndex d⟩
  split at hr
  · rename_i hqualified
    split at hr
    · rename_i hexists
      apply readArtifact_effect _ hi.index hr
      rw [Located, if_pos hqualified]
      exact ⟨rfl, hexists⟩
    · rename_i hmissing
      obtain ⟨rfl, rfl⟩ := Prod.mk.inj hr
      exact ⟨⟨hqualified, rfl, by simpa using hmissing⟩, hi.index, .inr ⟨by simp, rfl⟩⟩
  · rename_i hbare
    rw [Bool.not_eq_true] at hbare
    have hindex : ∀ idx, some (s._artifactIndex.getD (_buildArtifactIndex env d (_artifactRoots env))) = some idx →
        IndexOf env past idx := by
      cases hs : s._artifactIndex with
      | none => exact hbuilt
      | some idx' =>
        rintro idx ⟨⟩
        exact hi.index idx' hs
    split at hr
    · have hbucket : _ = candidates env d name := get?_buildArtifactIndex d name
      obtain ⟨hexplained, hindex', hcache⟩ := readOnly_effect hbare ⟨d, hnow, hbucket.symm⟩ hbucket.symm.trans hbuilt hr
      exact ⟨hexplained, hindex', hcache⟩
    · rename_i hne
      obtain ⟨d₀, hd₀, hbuckets⟩ := hindex _ rfl
      obtain ⟨hexplained, hindex', hcache⟩ :=
        readOnly_effect hbare ⟨d₀, hd₀, (hbuckets name).symm⟩ (fun hp => absurd hp hne) hindex hr
      exact ⟨hexplained, hindex', hcache⟩

/-- What is remembered is answered. -/
theorem loadArtifact_remembered {a : A} (ha : (s._artifactCache.get? name).filter env.truthy = some a) :
    loadArtifact env d name s = (.ok a, s) := by
  unfold loadArtifact
  rw [ha]

/-- An answer is explained, and it is the first artifact that was read under the name. -/
theorem CachesInv.explained (hnow : d ∈ past) (hi : CachesInv env past h s) :
    Explained env past h d name (loadArtifact env d name s).1 ∧
      ∀ a, env.truthy a = true → (ArtifactAct.load name, ArtifactReply.loaded (.ok a)) ∈ h →
        (loadArtifact env d name s).1 = .ok a := by
  cases hget : (s._artifactCache.get? name).filter env.truthy with
  | some a =>
    rw [loadArtifact_remembered hget]
    have ha := (Option.filter_eq_some_iff.1 hget).1
    refine ⟨.inl (hi.answered name a ha), ?_⟩
    intro a' htruthy hmem
    rw [hi.kept name a' htruthy hmem] at ha
    rw [Option.some.inj ha]
  | none =>
    refine ⟨(loadArtifact_effect hnow hi hget rfl).explained, ?_⟩
    intro a htruthy hmem
    rw [hi.kept name a htruthy hmem] at hget
    simp [htruthy] at hget

/-! ## Every run -/

theorem CachesInv.mono {past' : List Disk} {h' : List (ArtifactAct × ArtifactReply A)} (hi : CachesInv env past h s)
    (hpast : past ⊆ past') (hsub : h ⊆ h')
    (hnew : ∀ name a, (ArtifactAct.load name, ArtifactReply.loaded (.ok a)) ∈ h' →
      (ArtifactAct.load name, ArtifactReply.loaded (.ok a)) ∈ h) : CachesInv env past' h' s where
  index idx hidx := by
    obtain ⟨d₀, hd₀, hbuckets⟩ := hi.index idx hidx
    exact ⟨d₀, hpast hd₀, hbuckets⟩
  answered name a ha := hsub (hi.answered name a ha)
  kept name a htruthy hmem := hi.kept name a htruthy (hnew name a hmem)

/-- The caches after a call, with the call in the history. -/
theorem CachesInv.load (hnow : d ∈ past) (hi : CachesInv env past h s) :
    CachesInv env past (h ++ [(.load name, .loaded (loadArtifact env d name s).1)]) (loadArtifact env d name s).2 := by
  cases hget : (s._artifactCache.get? name).filter env.truthy with
  | some a =>
    rw [loadArtifact_remembered hget]
    have ha := (Option.filter_eq_some_iff.1 hget).1
    apply hi.mono (List.Subset.refl _) (List.subset_append_left _ _)
    intro name' a' hmem
    rcases List.mem_append.1 hmem with hmem | hmem
    · exact hmem
    · obtain ⟨hname, hreply⟩ := Prod.mk.inj (List.mem_singleton.1 hmem)
      obtain rfl := ArtifactAct.load.inj hname
      obtain rfl := Except.ok.inj (ArtifactReply.loaded.inj hreply)
      exact hi.answered name' a' ha
  | none =>
    have hr : loadArtifact env d name s = ((loadArtifact env d name s).1, (loadArtifact env d name s).2) := rfl
    obtain ⟨-, hindex, hcache⟩ := loadArtifact_effect hnow hi hget hr
    refine ⟨hindex, ?_, ?_⟩
    · intro name' a' ha'
      rcases hcache with ⟨a, hr, hput⟩ | ⟨-, hsame⟩
      · rw [hput, OrderedMap.get?_put] at ha'
        split at ha'
        · rename_i hname
          obtain rfl := Option.some.inj ha'
          rw [hname, hr]
          exact List.mem_append_right _ List.mem_cons_self
        · exact List.mem_append_left _ (hi.answered name' a' ha')
      · rw [hsame] at ha'
        exact List.mem_append_left _ (hi.answered name' a' ha')
    · intro name' a' htruthy hmem
      rcases List.mem_append.1 hmem with hmem | hmem
      · have hkept := hi.kept name' a' htruthy hmem
        rcases hcache with ⟨a, -, hput⟩ | ⟨-, hsame⟩
        · rw [hput, OrderedMap.get?_put, if_neg, hkept]
          rintro rfl
          rw [hkept] at hget
          simp [htruthy] at hget
        · rw [hsame, hkept]
      · obtain ⟨hname, hreply⟩ := Prod.mk.inj (List.mem_singleton.1 hmem)
        obtain rfl := ArtifactAct.load.inj hname
        have hr' := (ArtifactReply.loaded.inj hreply).symm
        rcases hcache with ⟨a, hr, hput⟩ | ⟨hno, -⟩
        · obtain rfl := Except.ok.inj (hr.symm.trans hr')
          rw [hput, OrderedMap.get?_put, if_pos rfl]
        · exact absurd hr' (hno a')

theorem disks_append (d₀ : Disk) (h h' : List (ArtifactAct × ArtifactReply A)) :
    disks d₀ h ⊆ disks d₀ (h ++ h') := by
  rw [disks, disks, List.filterMap_append, ← List.cons_append]
  exact List.subset_append_left _ _

theorem cachesInv_run {d₀ : Disk} {m : Disk × ArtifactCaches A}
    (hr : Run (step env) (fun _ _ => True) (start d₀) h m) :
    m.1 ∈ disks d₀ h ∧ CachesInv env (disks d₀ h) h m.2 := by
  apply Run.inv (fun h s => s.1 ∈ disks d₀ h ∧ CachesInv env (disks d₀ h) h s.2) _ _ hr
  · refine ⟨List.mem_cons_self, ?_, ?_, ?_⟩
    · rintro idx ⟨⟩
    · rintro name a ⟨⟩
    · rintro name a - ⟨⟩
  · rintro h s c r s' - ⟨hnow, hi⟩ - hst
    cases c with
    | write d =>
      obtain ⟨rfl, rfl⟩ := Prod.mk.inj (Option.some.inj hst)
      refine ⟨?_, hi.mono (disks_append d₀ h _) (List.subset_append_left _ _) ?_⟩
      · simp [disks]
      · intro name a hmem
        simpa using hmem
    | load name =>
      obtain ⟨rfl, rfl⟩ := Prod.mk.inj (Option.some.inj hst)
      have hdisks : disks d₀ (h ++ [(.load name, .loaded (loadArtifact env s.1 name s.2).1)]) = disks d₀ h := by
        simp [disks]
      rw [hdisks]
      exact ⟨hnow, hi.load hnow⟩

/-- **Every answer.** However the disk changes between the calls, an answer is
explained by the disks there have been, and once an artifact has been read under a
name it is the answer for good. -/
theorem loadArtifact_explained {d₀ : Disk} {m : Disk × ArtifactCaches A}
    (hr : Run (step env) (fun _ _ => True) (start d₀) (h ++ [(.load name, .loaded r)]) m) :
    Explained env (disks d₀ h) h m.1 name r ∧
      ∀ a, env.truthy a = true → (ArtifactAct.load name, ArtifactReply.loaded (.ok a)) ∈ h → r = .ok a := by
  obtain ⟨s, hrun, -, hst⟩ := hr.last
  obtain ⟨hnow, hi⟩ := cachesInv_run hrun
  obtain ⟨hreply, rfl⟩ := Prod.mk.inj (Option.some.inj hst)
  obtain rfl := ArtifactReply.loaded.inj hreply
  exact hi.explained hnow

end

/-! ### A file that comes later -/

/-- Paths joined by slashes, and artifacts that are their text. -/
def textEnv : ArtifactEnv JsString where
  artifactsDir := "artifacts".toList
  join := joinedWith "/".toList
  basename path suffix :=
    let base := (path.reverse.takeWhile (· ≠ '/')).reverse
    if suffix.isSuffixOf base then base.take (base.length - suffix.length) else base
  parse := some
  truthy a := !a.isEmpty

/-- The files below a directory, with their texts. -/
def filesIn (root : JsString) (files : List (JsString × JsString)) : Disk where
  existsSync path := path == root || files.any fun f => joinedWith "/".toList [root, f.1] == path
  readdirSync path := if path == root then files.map (·.1) else []
  readFileSync path := (files.find? fun f => joinedWith "/".toList [root, f.1] == path).map (·.2)

def oneToken : Disk := filesIn "artifacts/contracts".toList [("Token.sol/Token.json".toList, "one".toList)]

def twoTokens : Disk :=
  filesIn "artifacts/contracts".toList
    [("Token.sol/Token.json".toList, "other".toList), ("mocks/Token.sol/Token.json".toList, "two".toList)]

/-- The name has two files by now, and still stands for the artifact that was read. -/
theorem later_file_explained : candidates textEnv twoTokens "Token".toList ≠ candidates textEnv oneToken "Token".toList ∧
    ∃ r s, Run (step textEnv) (fun _ _ => True) (start oneToken)
      ([(.load "Token".toList, .loaded (.ok "one".toList)), (.write twoTokens, .written)] ++
        [(.load "Token".toList, .loaded r)]) s ∧ r = .ok "one".toList := by
  refine ⟨by decide, ?_⟩
  have hfirst : Run (step textEnv) (fun _ _ => True) (start oneToken)
      ([] ++ [(.load "Token".toList, .loaded (.ok "one".toList))]) _ := .snoc _ .nil trivial rfl
  have hrun := (hfirst.snoc (.write twoTokens) trivial rfl).snoc (.load "Token".toList) trivial rfl
  refine ⟨_, _, hrun, ?_⟩
  obtain ⟨-, hfirst⟩ := loadArtifact_explained hrun
  apply hfirst _ _ List.mem_cons_self
  rfl

end HardhatTron.Artifacts

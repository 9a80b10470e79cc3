import HardhatTron.Compile.Manifest
/-!
# The manifests of several mirrors

`list.json` in the cache directory, the fetch in flight and the downloads in
flight are shared by the calls of a process, and the first by those after it.
None of the three is kept by mirror. A list then comes from the mirror it was
asked of in the runs whose calls share with their own mirror only,
`manifest_of_own_mirror`; `list_of_other_mirror` is a run with two mirrors.

What a lookup has loaded is what the download of `CompilerCache` goes on with.
-/
namespace HardhatTron

open Lib

/-! ## A process and the cache directory -/

structure LoadOptions where
  mirror : String
  ttlMs : Int
  forceRefresh : Bool

/-- `list.json`, with the mirror it came from, which the file does not say. -/
structure CachedList where
  manifest : Manifest
  mtimeMs : Int
  mirror : String

/-- A promise of `_inFlight`, and how it has settled. -/
structure ListFetch where
  mirror : String
  result : Option (Except String Manifest)

/-- What a call of `loadManifest` returns: a cached list, or the promise of a fetch. -/
inductive Loading where
  | cached (manifest : Manifest)
  | fetch (j : Nat)

/-- Where a `resolveBuild` stands; at its end it goes by the last manifest. -/
inductive LookupStage where
  | first (l : Loading)
  | second (l : Loading)
  | ended (loaded : Except String Manifest)

structure BuildLookup where
  version : String
  opts : LoadOptions
  stage : LookupStage

def BuildLookup.result (q : BuildLookup) : Option (Except String Build) :=
  match q.stage with
  | .ended loaded => some (loaded.bind (resolvedFrom q.version q.opts.mirror))
  | _ => none

/-- The cached list outlives the process. `downloads` is the map of
`downloader.js`, by the lookups the downloads begin with; `loads` and `gets` are the
calls the process has had. -/
structure ManifestState where
  list : Option CachedList
  _inFlight : Option Nat
  fetches : List ListFetch
  lookups : List BuildLookup
  downloads : String → Option Nat
  loads : List (String × Loading)
  gets : List (String × String × Nat)

/-- A new process. -/
def withList (list : Option CachedList) : ManifestState := ⟨list, none, [], [], fun _ => none, [], []⟩

namespace ManifestState

/-- The list that `loadManifest` returns without a fetch. -/
def freshList (s : ManifestState) (opts : LoadOptions) (now : Int) : Option CachedList :=
  if opts.forceRefresh then none else s.list.filter fun cached => now - cached.mtimeMs < opts.ttlMs

def loadManifest (s : ManifestState) (opts : LoadOptions) (now : Int) : Loading × ManifestState :=
  match s.freshList opts now with
  | some cached => (.cached cached.manifest, s)
  | none =>
    match s._inFlight with
    | some j => (.fetch j, s)
    | none =>
      (.fetch s.fetches.length,
        { s with fetches := s.fetches ++ [⟨opts.mirror, none⟩], _inFlight := some s.fetches.length })

/-- The fallback to the cached list, of any age. -/
def staleList (s : ManifestState) (e : String) : Except String Manifest :=
  match s.list with
  | some cached => .ok cached.manifest
  | none => .error e

/-- How the promise of the fetch settles, and the cached list then. `answer` is
how `fetchUpstream` ends, and `written` how `writeCache` does. -/
def fetchEnd (s : ManifestState) (mirror : String) (answer : Except String Manifest) (written : Except String Unit)
    (mtimeMs : Int) : Except String Manifest × Option CachedList :=
  match answer, written with
  | .ok manifest, .ok () => (.ok manifest, some ⟨manifest, mtimeMs, mirror⟩)
  | .ok _, .error e => (s.staleList e, s.list)
  | .error e, _ => (s.staleList e, s.list)

/-- What an `await` on it gives, once it has settled. -/
def awaited (s : ManifestState) : Loading → Option (Except String Manifest)
  | .cached manifest => some (.ok manifest)
  | .fetch j => s.fetches[j]?.bind ListFetch.result

def startLookup (s : ManifestState) (version : String) (opts : LoadOptions) (now : Int) : ManifestState :=
  let r := s.loadManifest opts now
  { r.2 with lookups := r.2.lookups ++ [⟨version, opts, .first r.1⟩] }

def setStage (s : ManifestState) (t : Nat) (stage : LookupStage) : ManifestState :=
  { s with lookups := s.lookups.modify t fun q => { q with stage } }

/-- `resolveBuild` after the first `await`. -/
def afterFirst (s : ManifestState) (t : Nat) (q : BuildLookup) (loaded : Except String Manifest) (now : Int) :
    ManifestState :=
  match loaded with
  | .error e => s.setStage t (.ended (.error e))
  | .ok manifest =>
    match findBuild manifest q.version with
    | some _ => s.setStage t (.ended (.ok manifest))
    | none =>
      let r := s.loadManifest { q.opts with forceRefresh := true } now
      r.2.setStage t (.second r.1)

def getCompiler (s : ManifestState) (version : String) (opts : LoadOptions) (now : Int) : ManifestState :=
  if version = "" then s
  else
    match s.downloads version with
    | some t => { s with gets := s.gets ++ [(version, opts.mirror, t)] }
    | none =>
      let s' := s.startLookup version opts now
      { s' with
        downloads := Function.update s.downloads version (some s.lookups.length)
        gets := s.gets ++ [(version, opts.mirror, s.lookups.length)] }

end ManifestState

/-- Calls; a lookup that goes on; the end of a fetch; the `finally` of a download,
some time after its lookup; the cache directory removed; a new process. -/
inductive ManifestEvent where
  | load (opts : LoadOptions) (now : Int)
  | resolve (version : String) (opts : LoadOptions) (now : Int)
  | get (version : String) (opts : LoadOptions) (now : Int)
  | wake (t : Nat) (now : Int)
  | fetched (j : Nat) (mirror : String) (answer : Except String Manifest) (written : Except String Unit) (mtimeMs : Int)
  | finish (version : String)
  | clean
  | restart

def ManifestState.step (s : ManifestState) : ManifestEvent → Option (Unit × ManifestState)
  | .load opts now =>
    let r := s.loadManifest opts now
    some ((), { r.2 with loads := r.2.loads ++ [(opts.mirror, r.1)] })
  | .resolve version opts now => some ((), s.startLookup version opts now)
  | .get version opts now => some ((), s.getCompiler version opts now)
  | .wake t now =>
    match s.lookups[t]? with
    | none => none
    | some q =>
      match q.stage with
      | .first l => (s.awaited l).map fun loaded => ((), s.afterFirst t q loaded now)
      | .second l => (s.awaited l).map fun loaded => ((), s.setStage t (.ended loaded))
      | .ended _ => none
  | .fetched j mirror answer written mtimeMs =>
    match s.fetches[j]? with
    | some ⟨mirror', none⟩ =>
      if mirror' = mirror then
        let r := s.fetchEnd mirror answer written mtimeMs
        some ((), { s with
          list := r.2
          fetches := s.fetches.set j ⟨mirror, some r.1⟩
          _inFlight := none })
      else none
    | _ => none
  | .finish version =>
    match (s.downloads version).bind fun t => s.lookups[t]?.bind BuildLookup.result with
    | some _ => some ((), { s with downloads := Function.update s.downloads version none })
    | none => none
  | .clean => some ((), { s with list := none })
  | .restart => some ((), withList s.list)

/-! ## Own mirrors -/

/-- The mirror gave the manifest. -/
def FetchedFrom (h : List (ManifestEvent × Unit)) (mirror : String) (manifest : Manifest) : Prop :=
  ∃ j written mtimeMs, (.fetched j mirror (.ok manifest) written mtimeMs, ()) ∈ h

/-- What the calls of the process have come to. -/
structure OwnMirror (h : List (ManifestEvent × Unit)) (s : ManifestState) : Prop where
  /-- A manifest that `loadManifest` returned is the mirror's. -/
  loads : ∀ mirror l manifest, (mirror, l) ∈ s.loads → s.awaited l = some (.ok manifest) → FetchedFrom h mirror manifest
  /-- A build, and the digest in it, is from a list of the mirror. -/
  builds : ∀ q ∈ s.lookups, ∀ build, q.result = some (.ok build) →
    ∃ manifest entry, FetchedFrom h q.opts.mirror manifest ∧ findBuild manifest q.version = some entry ∧
      checkedBuild q.version entry = .ok build
  /-- A version that is not found is missing in a list of the mirror. -/
  missing : ∀ q ∈ s.lookups, ∀ manifest, q.stage = .ended (.ok manifest) → findBuild manifest q.version = none →
    FetchedFrom h q.opts.mirror manifest
  /-- A download is shared for one mirror. -/
  gets : ∀ version mirror t, (version, mirror, t) ∈ s.gets →
    ∃ q, s.lookups[t]? = some q ∧ q.version = version ∧ q.opts.mirror = mirror

/-- What `loadManifest` returns is of the mirror it is called for. -/
def ManifestState.SharesOwn (s : ManifestState) (opts : LoadOptions) (now : Int) : Prop :=
  match s.freshList opts now with
  | some cached => cached.mirror = opts.mirror
  | none => ∀ j f, s._inFlight = some j → s.fetches[j]? = some f → f.mirror = opts.mirror

/-- The step shares a list, a fetch or a download with a call of its own mirror only. -/
def SameMirror (s : ManifestState) : ManifestEvent → Prop
  | .load opts now | .resolve _ opts now => s.SharesOwn opts now
  | .get version opts now => version ≠ "" →
    (∀ t q, s.downloads version = some t → s.lookups[t]? = some q → q.opts.mirror = opts.mirror) ∧
      (s.downloads version = none → s.SharesOwn opts now)
  | .wake t now => ∀ q l manifest, s.lookups[t]? = some q → q.stage = .first l → s.awaited l = some (.ok manifest) →
    findBuild manifest q.version = none → s.SharesOwn { q.opts with forceRefresh := true } now
  | .fetched _ mirror answer written _ => (∀ manifest, answer = .ok manifest → written ≠ .ok ()) →
    ∀ cached, s.list = some cached → cached.mirror = mirror
  | _ => True

/-! ## What the operations do -/

section
variable {h h' : List (ManifestEvent × Unit)} {s s' : ManifestState}

theorem FetchedFrom.snoc {mirror : String} {manifest : Manifest} (hf : FetchedFrom h mirror manifest)
    (e : ManifestEvent × Unit) : FetchedFrom (h ++ [e]) mirror manifest := by
  obtain ⟨j, written, mtimeMs, hmem⟩ := hf
  exact ⟨j, written, mtimeMs, List.mem_append_left _ hmem⟩

theorem ManifestState.freshList_eq_some {opts : LoadOptions} {now : Int} {cached : CachedList}
    (hc : s.freshList opts now = some cached) : s.list = some cached := by
  unfold freshList at hc
  split at hc
  · cases hc
  · exact (Option.filter_eq_some_iff.1 hc).1

theorem ManifestState.loadManifest_cases (s : ManifestState) (opts : LoadOptions) (now : Int) :
    (∃ cached, s.freshList opts now = some cached ∧ s.loadManifest opts now = (.cached cached.manifest, s)) ∨
    (∃ j, s.freshList opts now = none ∧ s._inFlight = some j ∧ s.loadManifest opts now = (.fetch j, s)) ∨
    s.loadManifest opts now = (.fetch s.fetches.length,
      { s with fetches := s.fetches ++ [⟨opts.mirror, none⟩], _inFlight := some s.fetches.length }) := by
  unfold loadManifest
  cases hfresh : s.freshList opts now with
  | some cached => exact .inl ⟨cached, rfl, rfl⟩
  | none =>
    cases hflight : s._inFlight with
    | some j => exact .inr (.inl ⟨j, rfl, rfl, rfl⟩)
    | none => exact .inr (.inr rfl)

theorem ManifestState.staleList_eq_ok {e : String} {manifest : Manifest} (hok : s.staleList e = .ok manifest) :
    ∃ cached, s.list = some cached ∧ cached.manifest = manifest := by
  unfold staleList at hok
  split at hok
  · rename_i cached hlist
    cases hok
    exact ⟨cached, hlist, rfl⟩
  · cases hok

/-- The fetch comes off, or the cached list is what is left. -/
theorem ManifestState.fetchEnd_cases (s : ManifestState) (mirror : String) (answer : Except String Manifest)
    (written : Except String Unit) (mtimeMs : Int) :
    (∃ manifest, answer = .ok manifest ∧
      s.fetchEnd mirror answer written mtimeMs = (.ok manifest, some ⟨manifest, mtimeMs, mirror⟩)) ∨
    ((∀ manifest, answer = .ok manifest → written ≠ .ok ()) ∧ (s.fetchEnd mirror answer written mtimeMs).2 = s.list ∧
      ∀ manifest, (s.fetchEnd mirror answer written mtimeMs).1 = .ok manifest →
        ∃ cached, s.list = some cached ∧ cached.manifest = manifest) := by
  cases answer with
  | error e => exact .inr ⟨fun _ h => (by cases h), rfl, fun _ h => staleList_eq_ok h⟩
  | ok manifest =>
    cases written with
    | error e => exact .inr ⟨fun _ _ h => (by cases h), rfl, fun _ h => staleList_eq_ok h⟩
    | ok u => exact .inl ⟨manifest, rfl, rfl⟩

end

/-! ## The invariant -/

/-- It is from the mirror, or will be. -/
def Loading.Own (h : List (ManifestEvent × Unit)) (s : ManifestState) (mirror : String) : Loading → Prop
  | .cached manifest => FetchedFrom h mirror manifest
  | .fetch j => ∃ f, s.fetches[j]? = some f ∧ f.mirror = mirror

def LookupStage.Own (h : List (ManifestEvent × Unit)) (s : ManifestState) (mirror : String) : LookupStage → Prop
  | .first l | .second l => l.Own h s mirror
  | .ended loaded => ∀ manifest, loaded = .ok manifest → FetchedFrom h mirror manifest

/-- A fetch keeps its place and its mirror. -/
def ManifestState.KeepsFetches (s s' : ManifestState) : Prop :=
  ∀ (j : Nat) (f : ListFetch), s.fetches[j]? = some f → ∃ f' : ListFetch, s'.fetches[j]? = some f' ∧ f'.mirror = f.mirror

structure ManifestInv (h : List (ManifestEvent × Unit)) (s : ManifestState) : Prop where
  list : ∀ cached, s.list = some cached → FetchedFrom h cached.mirror cached.manifest
  fetches : ∀ f ∈ s.fetches, ∀ manifest, f.result = some (.ok manifest) → FetchedFrom h f.mirror manifest
  flight : ∀ j, s._inFlight = some j → ∃ f, s.fetches[j]? = some f
  loads : ∀ mirror l, (mirror, l) ∈ s.loads → l.Own h s mirror
  lookups : ∀ q ∈ s.lookups, q.stage.Own h s q.opts.mirror
  downloads : ∀ version t, s.downloads version = some t → ∃ q, s.lookups[t]? = some q ∧ q.version = version
  gets : ∀ version mirror t, (version, mirror, t) ∈ s.gets →
    ∃ q, s.lookups[t]? = some q ∧ q.version = version ∧ q.opts.mirror = mirror

section
variable {h h' : List (ManifestEvent × Unit)} {s s' : ManifestState} {mirror : String}

theorem ManifestState.keepsFetches_of_eq (hf : s'.fetches = s.fetches) : s.KeepsFetches s' :=
  fun j f hj => ⟨f, by rw [hf]; exact hj, rfl⟩

/-- What has been fetched stays fetched, and a fetch keeps its mirror. -/
theorem Loading.Own.mono {l : Loading} (hl : l.Own h s mirror)
    (hh : ∀ manifest, FetchedFrom h mirror manifest → FetchedFrom h' mirror manifest)
    (hs : s.KeepsFetches s') : l.Own h' s' mirror := by
  cases l with
  | cached manifest => exact hh manifest hl
  | fetch j =>
    obtain ⟨f, hf, rfl⟩ := hl
    exact hs j f hf

theorem LookupStage.Own.mono {stage : LookupStage} (hst : stage.Own h s mirror)
    (hh : ∀ manifest, FetchedFrom h mirror manifest → FetchedFrom h' mirror manifest)
    (hs : s.KeepsFetches s') : stage.Own h' s' mirror := by
  cases stage with
  | first l | second l => exact Loading.Own.mono hst hh hs
  | ended loaded => exact fun manifest hok => hh manifest (hst manifest hok)

/-- What an `await` gives is from the mirror. -/
theorem ManifestInv.awaited (hi : ManifestInv h s) {l : Loading} (hl : l.Own h s mirror) {manifest : Manifest}
    (ha : s.awaited l = some (.ok manifest)) : FetchedFrom h mirror manifest := by
  cases l with
  | cached manifest' =>
    cases ha
    exact hl
  | fetch j =>
    obtain ⟨f, hf, rfl⟩ := hl
    obtain ⟨f', hf', hres⟩ := Option.bind_eq_some_iff.1 ha
    obtain rfl : f = f' := Option.some.inj (hf.symm.trans hf')
    exact hi.fetches f (List.mem_of_getElem? hf) manifest hres

theorem ManifestInv.snoc (hi : ManifestInv h s) (e : ManifestEvent × Unit) : ManifestInv (h ++ [e]) s where
  list cached hc := (hi.list cached hc).snoc e
  fetches f hf manifest hr := (hi.fetches f hf manifest hr).snoc e
  flight := hi.flight
  loads mirror l hl := (hi.loads mirror l hl).mono (fun _ hf => hf.snoc e) (ManifestState.keepsFetches_of_eq rfl)
  lookups q hq := (hi.lookups q hq).mono (fun _ hf => hf.snoc e) (ManifestState.keepsFetches_of_eq rfl)
  downloads := hi.downloads
  gets := hi.gets

/-- Only the fetches and the cached list have changed. -/
theorem ManifestInv.of_fetches (hi : ManifestInv h s) (hkeeps : s.KeepsFetches s')
    (hlist : ∀ cached, s'.list = some cached → FetchedFrom h cached.mirror cached.manifest)
    (hfetches : ∀ f ∈ s'.fetches, ∀ manifest, f.result = some (.ok manifest) → FetchedFrom h f.mirror manifest)
    (hflight : ∀ j, s'._inFlight = some j → ∃ f, s'.fetches[j]? = some f) (hlookups : s'.lookups = s.lookups)
    (hdownloads : s'.downloads = s.downloads) (hloads : s'.loads = s.loads) (hgets : s'.gets = s.gets) :
    ManifestInv h s' where
  list := hlist
  fetches := hfetches
  flight := hflight
  loads mirror l hl := (hi.loads mirror l (hloads ▸ hl)).mono (fun _ hf => hf) hkeeps
  lookups q hq := (hi.lookups q (hlookups ▸ hq)).mono (fun _ hf => hf) hkeeps
  downloads version t ht := by
    rw [hlookups]
    exact hi.downloads version t (hdownloads ▸ ht)
  gets version mirror t ht := by
    rw [hlookups]
    exact hi.gets version mirror t (hgets ▸ ht)

/-- What a call of `loadManifest` leaves as it was. -/
structure ManifestState.Loaded (s s' : ManifestState) : Prop where
  fetches : s.KeepsFetches s'
  lookups : s'.lookups = s.lookups
  downloads : s'.downloads = s.downloads
  loads : s'.loads = s.loads
  gets : s'.gets = s.gets

theorem ManifestInv.loadManifest (hi : ManifestInv h s) {opts : LoadOptions} {now : Int}
    (hok : s.SharesOwn opts now) :
    ManifestInv h (s.loadManifest opts now).2 ∧ s.Loaded (s.loadManifest opts now).2 ∧
      (s.loadManifest opts now).1.Own h (s.loadManifest opts now).2 opts.mirror := by
  have hsame : s.Loaded s := ⟨ManifestState.keepsFetches_of_eq rfl, rfl, rfl, rfl, rfl⟩
  unfold ManifestState.SharesOwn at hok
  obtain ⟨cached, hfresh, heq⟩ | ⟨j, hfresh, hflight, heq⟩ | heq := s.loadManifest_cases opts now
  · -- the cached list
    rw [hfresh] at hok
    rw [heq]
    refine ⟨hi, hsame, ?_⟩
    show FetchedFrom h opts.mirror cached.manifest
    exact hok ▸ hi.list cached (ManifestState.freshList_eq_some hfresh)
  · -- the fetch that is in flight
    rw [hfresh] at hok
    rw [heq]
    obtain ⟨f, hf⟩ := hi.flight j hflight
    exact ⟨hi, hsame, f, hf, hok j f hflight hf⟩
  · -- a fetch of its own
    rw [heq]
    have hkeeps : s.KeepsFetches
        { s with fetches := s.fetches ++ [⟨opts.mirror, none⟩], _inFlight := some s.fetches.length } := by
      intro j f hj
      refine ⟨f, ?_, rfl⟩
      show (s.fetches ++ _)[j]? = some f
      rw [List.getElem?_append_left (List.getElem?_eq_some_iff.1 hj).1]
      exact hj
    have hnew : (s.fetches ++ [⟨opts.mirror, none⟩])[s.fetches.length]? = some ⟨opts.mirror, none⟩ := by simp
    refine ⟨?_, ⟨hkeeps, rfl, rfl, rfl, rfl⟩, _, hnew, rfl⟩
    refine hi.of_fetches hkeeps hi.list ?_ ?_ rfl rfl rfl rfl
    · intro f hf manifest hres
      rcases List.mem_append.1 hf with hf | hf
      · exact hi.fetches f hf manifest hres
      · cases List.mem_singleton.1 hf
        cases hres
    · intro j hj
      cases hj
      exact ⟨_, hnew⟩

/-- One lookup more. -/
theorem ManifestInv.addLookup (hi : ManifestInv h s) {q : BuildLookup} (hq : q.stage.Own h s q.opts.mirror) :
    ManifestInv h { s with lookups := s.lookups ++ [q] } := by
  have hold : ∀ {t : Nat} {q' : BuildLookup}, s.lookups[t]? = some q' → (s.lookups ++ [q])[t]? = some q' := by
    intro t q' ht
    rw [List.getElem?_append_left (List.getElem?_eq_some_iff.1 ht).1]
    exact ht
  refine ⟨hi.list, hi.fetches, hi.flight, hi.loads, ?_, ?_, ?_⟩
  · intro q' hq'
    rcases List.mem_append.1 hq' with hq' | hq'
    · exact hi.lookups q' hq'
    · cases List.mem_singleton.1 hq'
      exact hq
  · intro version t ht
    obtain ⟨q', hq', hv⟩ := hi.downloads version t ht
    exact ⟨q', hold hq', hv⟩
  · intro version mirror t ht
    obtain ⟨q', hq', hv⟩ := hi.gets version mirror t ht
    exact ⟨q', hold hq', hv⟩

theorem ManifestInv.setStage (hi : ManifestInv h s) {t : Nat} {q : BuildLookup} {stage : LookupStage}
    (hq : s.lookups[t]? = some q) (hst : stage.Own h s q.opts.mirror) : ManifestInv h (s.setStage t stage) := by
  have hold : ∀ {i : Nat} {q' : BuildLookup}, s.lookups[i]? = some q' →
      ∃ q'', (s.setStage t stage).lookups[i]? = some q'' ∧ q''.version = q'.version ∧ q''.opts = q'.opts := by
    intro i q' hi'
    rw [ManifestState.setStage, List.getElem?_modify, hi']
    refine ⟨_, rfl, ?_⟩
    dsimp only
    split <;> exact ⟨rfl, rfl⟩
  refine ⟨hi.list, hi.fetches, hi.flight, hi.loads, ?_, ?_, ?_⟩
  · intro q' hq'
    obtain ⟨i, hi'⟩ := List.mem_iff_getElem?.1 hq'
    rw [ManifestState.setStage, List.getElem?_modify] at hi'
    obtain ⟨q₀, hq₀, rfl⟩ := Option.map_eq_some_iff.1 hi'
    split
    · rename_i hti
      subst hti
      rw [hq] at hq₀
      cases hq₀
      exact hst
    · exact hi.lookups q₀ (List.mem_of_getElem? hq₀)
  · intro version i ht
    obtain ⟨q', hq', rfl⟩ := hi.downloads version i ht
    obtain ⟨q'', hq'', hv, -⟩ := hold hq'
    exact ⟨q'', hq'', hv⟩
  · intro version mirror i ht
    obtain ⟨q', hq', rfl, rfl⟩ := hi.gets version mirror i ht
    obtain ⟨q'', hq'', hv, hopts⟩ := hold hq'
    exact ⟨q'', hq'', hv, by rw [hopts]⟩

theorem ManifestInv.startLookup (hi : ManifestInv h s) {version : String} {opts : LoadOptions} {now : Int}
    (hok : s.SharesOwn opts now) : ManifestInv h (s.startLookup version opts now) := by
  obtain ⟨hi', -, hown⟩ := hi.loadManifest hok
  exact hi'.addLookup hown

theorem ManifestInv.afterFirst (hi : ManifestInv h s) {t : Nat} {q : BuildLookup} {l : Loading} {now : Int}
    {loaded : Except String Manifest} (hq : s.lookups[t]? = some q) (hl : l.Own h s q.opts.mirror)
    (ha : s.awaited l = some loaded)
    (hok : ∀ manifest, loaded = .ok manifest → findBuild manifest q.version = none →
      s.SharesOwn { q.opts with forceRefresh := true } now) :
    ManifestInv h (s.afterFirst t q loaded now) := by
  unfold ManifestState.afterFirst
  cases loaded with
  | error e => exact hi.setStage hq fun manifest h => (by cases h)
  | ok manifest =>
    dsimp only
    split
    · refine hi.setStage hq ?_
      rintro manifest' heq
      cases heq
      exact hi.awaited hl ha
    · rename_i hfind
      obtain ⟨hi', hloaded, hown⟩ := hi.loadManifest (hok manifest rfl hfind)
      exact hi'.setStage (by rw [hloaded.lookups]; exact hq) hown

/-- The call shares the download of a lookup. -/
theorem ManifestInv.addGet (hi : ManifestInv h s) {t : Nat} {q : BuildLookup} (hq : s.lookups[t]? = some q) :
    ManifestInv h { s with gets := s.gets ++ [(q.version, q.opts.mirror, t)] } := by
  refine ⟨hi.list, hi.fetches, hi.flight, hi.loads, hi.lookups, hi.downloads, ?_⟩
  intro version mirror t' ht
  rcases List.mem_append.1 ht with ht | ht
  · exact hi.gets version mirror t' ht
  · cases List.mem_singleton.1 ht
    exact ⟨q, hq, rfl, rfl⟩

/-- The download begins with a lookup. -/
theorem ManifestInv.addDownload (hi : ManifestInv h s) {t : Nat} {q : BuildLookup} (hq : s.lookups[t]? = some q) :
    ManifestInv h { s with downloads := Function.update s.downloads q.version (some t) } := by
  refine ⟨hi.list, hi.fetches, hi.flight, hi.loads, hi.lookups, ?_, hi.gets⟩
  intro version t' ht
  replace ht : Function.update s.downloads q.version (some t) version = some t' := ht
  rw [Function.update_apply] at ht
  split at ht
  · rename_i hv
    cases ht
    exact ⟨q, hq, hv.symm⟩
  · exact hi.downloads version t' ht

theorem ManifestInv.getCompiler (hi : ManifestInv h s) {version : String} {opts : LoadOptions} {now : Int}
    (hok : SameMirror s (.get version opts now)) : ManifestInv h (s.getCompiler version opts now) := by
  unfold ManifestState.getCompiler
  split
  · exact hi
  · rename_i hv
    obtain ⟨hjoin, hstart⟩ := hok hv
    cases hd : s.downloads version with
    | some t =>
      obtain ⟨q, hq, hver⟩ := hi.downloads version t hd
      have hget := hi.addGet hq
      rw [hver, hjoin t q hd hq] at hget
      exact hget
    | none =>
      obtain ⟨-, hloaded, -⟩ := hi.loadManifest (hstart hd)
      have hnew : (s.startLookup version opts now).lookups[s.lookups.length]? =
          some ⟨version, opts, .first (s.loadManifest opts now).1⟩ := by
        simp [ManifestState.startLookup, hloaded.lookups]
      have hboth := ((hi.startLookup (hstart hd)).addGet hnew).addDownload hnew
      rw [show (s.startLookup version opts now).gets = s.gets from hloaded.gets] at hboth
      rw [show (s.startLookup version opts now).downloads = s.downloads from hloaded.downloads] at hboth
      exact hboth

/-- The end of a fetch, on a history that has what it fetched. -/
theorem ManifestInv.fetched (hi : ManifestInv h s) {j : Nat} {answer : Except String Manifest}
    {written : Except String Unit} {mtimeMs : Int} (hj : s.fetches[j]? = some ⟨mirror, none⟩)
    (hh : ∀ manifest, answer = .ok manifest → FetchedFrom h mirror manifest)
    (hok : SameMirror s (.fetched j mirror answer written mtimeMs)) :
    ManifestInv h { s with
      list := (s.fetchEnd mirror answer written mtimeMs).2
      fetches := s.fetches.set j ⟨mirror, some (s.fetchEnd mirror answer written mtimeMs).1⟩
      _inFlight := none } := by
  have hkeeps : ∀ result : Except String Manifest,
      s.KeepsFetches { s with fetches := s.fetches.set j ⟨mirror, some result⟩ } := by
    intro result i f hf
    by_cases hij : j = i
    · subst hij
      rw [hj] at hf
      cases hf
      exact ⟨⟨mirror, some result⟩, List.getElem?_set_self (List.getElem?_eq_some_iff.1 hj).1, rfl⟩
    · exact ⟨f, (List.getElem?_set_ne hij).trans hf, rfl⟩
  have hresult : ∀ manifest, (s.fetchEnd mirror answer written mtimeMs).1 = .ok manifest →
      FetchedFrom h mirror manifest := by
    intro manifest hr
    obtain ⟨manifest', ha, heq⟩ | ⟨hfail, -, hstale⟩ := s.fetchEnd_cases mirror answer written mtimeMs
    · rw [heq] at hr
      cases hr
      exact hh manifest ha
    · obtain ⟨cached, hlist, rfl⟩ := hstale manifest hr
      exact hok hfail cached hlist ▸ hi.list cached hlist
  refine hi.of_fetches (hkeeps _) ?_ ?_ ?_ rfl rfl rfl rfl
  · intro cached hc
    obtain ⟨manifest', ha, heq⟩ | ⟨-, hlist, -⟩ := s.fetchEnd_cases mirror answer written mtimeMs
    · rw [heq] at hc
      cases hc
      exact hh manifest' ha
    · exact hi.list cached (hlist.symm.trans hc)
  · intro f hf manifest hr
    rcases List.mem_or_eq_of_mem_set hf with hf | rfl
    · exact hi.fetches f hf manifest hr
    · exact hresult manifest (Option.some.inj hr)
  · intro i hf
    cases hf

/-! ## Every run -/

theorem ManifestInv.step {ev : ManifestEvent} (hi : ManifestInv h s) (hok : SameMirror s ev)
    (hs : s.step ev = some ((), s')) : ManifestInv (h ++ [(ev, ())]) s' := by
  have hi := hi.snoc (ev, ())
  cases ev with
  | load opts now =>
    cases hs
    obtain ⟨hi', hloaded, hown⟩ := hi.loadManifest hok
    refine ⟨hi'.list, hi'.fetches, hi'.flight, ?_, hi'.lookups, hi'.downloads, hi'.gets⟩
    intro mirror l hl
    rcases List.mem_append.1 hl with hl | hl
    · exact hi'.loads mirror l hl
    · cases List.mem_singleton.1 hl
      exact hown
  | resolve version opts now =>
    cases hs
    exact hi.startLookup hok
  | get version opts now =>
    cases hs
    exact hi.getCompiler hok
  | wake t now =>
    simp only [ManifestState.step] at hs
    split at hs
    · cases hs
    · rename_i q hq
      have hown := hi.lookups q (List.mem_of_getElem? hq)
      split at hs
      · -- the first list; a version that it does not have is looked for in a fresh one
        rename_i l hst
        obtain ⟨loaded, ha, heq⟩ := Option.map_eq_some_iff.1 hs
        cases heq
        rw [hst] at hown
        refine hi.afterFirst hq hown ha ?_
        rintro manifest rfl hfind
        exact hok q l manifest hq hst ha hfind
      · -- the fresh list is the last word
        rename_i l hst
        obtain ⟨loaded, ha, heq⟩ := Option.map_eq_some_iff.1 hs
        cases heq
        rw [hst] at hown
        refine hi.setStage hq ?_
        rintro manifest rfl
        exact hi.awaited hown ha
      · cases hs
  | fetched j mirror answer written mtimeMs =>
    simp only [ManifestState.step] at hs
    split at hs
    · rename_i mirror' hj
      split at hs
      · rename_i hm
        subst hm
        cases hs
        refine hi.fetched hj ?_ hok
        rintro manifest rfl
        exact ⟨j, written, mtimeMs, by simp⟩
      · cases hs
    · cases hs
  | finish version =>
    simp only [ManifestState.step] at hs
    split at hs
    · cases hs
      refine ⟨hi.list, hi.fetches, hi.flight, hi.loads, hi.lookups, ?_, hi.gets⟩
      intro version' t ht
      replace ht : Function.update s.downloads version none version' = some t := ht
      rw [Function.update_apply] at ht
      split at ht
      · cases ht
      · exact hi.downloads version' t ht
    · cases hs
  | clean =>
    cases hs
    exact ⟨fun cached hc => (by cases hc), hi.fetches, hi.flight, hi.loads, hi.lookups, hi.downloads, hi.gets⟩
  | restart =>
    -- only the cached list is left
    cases hs
    exact ⟨hi.list, fun f hf => (by cases hf), fun j hj => (by cases hj), fun mirror l hl => (by cases hl),
      fun q hq => (by cases hq), fun version t ht => (by cases ht), fun version mirror t ht => (by cases ht)⟩

theorem manifestInv_start : ManifestInv [] (withList none) where
  list cached hc := by cases hc
  fetches f hf := by cases hf
  flight j hj := by cases hj
  loads mirror l hl := by cases hl
  lookups q hq := by cases hq
  downloads version t ht := by cases ht
  gets version mirror t ht := by cases ht

theorem BuildLookup.result_eq_ok {q : BuildLookup} {build : Build} (hr : q.result = some (.ok build)) :
    ∃ manifest entry, q.stage = .ended (.ok manifest) ∧ findBuild manifest q.version = some entry ∧
      checkedBuild q.version entry = .ok build := by
  unfold result at hr
  split at hr
  · rename_i loaded hst
    cases loaded with
    | error e => cases hr
    | ok manifest =>
      obtain ⟨entry, hfind, hcheck⟩ := resolvedFrom_ok.1 (Option.some.inj hr)
      exact ⟨manifest, entry, hst, hfind, hcheck⟩
  · cases hr

theorem ManifestInv.ownMirror (hi : ManifestInv h s) : OwnMirror h s where
  loads mirror l manifest hl ha := hi.awaited (hi.loads mirror l hl) ha
  builds q hq build hr := by
    obtain ⟨manifest, entry, hst, hfind, hcheck⟩ := q.result_eq_ok hr
    have hown := hi.lookups q hq
    rw [hst] at hown
    exact ⟨manifest, entry, hown manifest rfl, hfind, hcheck⟩
  missing q hq manifest hst _ := by
    have hown := hi.lookups q hq
    rw [hst] at hown
    exact hown manifest rfl
  gets := hi.gets

/-- **A list of its own mirror.** In every run, over any number of processes, whose
steps share with their own mirror only, a list that is returned or looked into for
a mirror was fetched from it, and a download is shared for one mirror. -/
theorem manifest_of_own_mirror (hr : Run ManifestState.step SameMirror (withList none) h s) : OwnMirror h s := by
  have hinv : ManifestInv h s := by
    apply Run.inv ManifestInv manifestInv_start _ hr
    intro h s ev _ s' _ hi hok hs
    exact hi.step hok hs
  exact hinv.ownMirror

end

/-! ## One mirror and two -/

/-- A day. -/
def DEFAULT_TTL_MS : Int := 24 * 60 * 60 * 1000

/-- A list without entries. -/
def noBuilds : Manifest := ⟨[]⟩

/-- A second call for the mirror, within the day, gets the cached list. -/
theorem manifest_of_own_mirror_cached :
    ∃ h s, Run ManifestState.step SameMirror (withList none) h s ∧
      s.loads = [("https://a", .fetch 0), ("https://a", .cached noBuilds)] ∧ OwnMirror h s := by
  have h₀ : Run ManifestState.step SameMirror (withList none) [] _ := .nil
  have h₁ := h₀.snoc (ManifestEvent.load ⟨"https://a", DEFAULT_TTL_MS, false⟩ 0) (fun j f hj => by cases hj) rfl
  have h₂ := h₁.snoc (ManifestEvent.fetched 0 "https://a" (.ok noBuilds) (.ok ()) 0)
    (fun hfail => absurd rfl (hfail _ rfl)) rfl
  have h₃ := h₂.snoc (ManifestEvent.load ⟨"https://a", DEFAULT_TTL_MS, false⟩ 1) (Eq.refl "https://a") rfl
  exact ⟨_, _, h₃, rfl, manifest_of_own_mirror h₃⟩

/-- A call for another mirror gets it as well. -/
theorem list_of_other_mirror :
    ¬ ∀ h (s : ManifestState), Run ManifestState.step (fun _ _ => True) (withList none) h s → OwnMirror h s := by
  intro hall
  have h₀ : Run ManifestState.step (fun _ _ => True) (withList none) [] _ := .nil
  have h₁ := h₀.snoc (ManifestEvent.load ⟨"https://a", DEFAULT_TTL_MS, false⟩ 0) trivial rfl
  have h₂ := h₁.snoc (ManifestEvent.fetched 0 "https://a" (.ok noBuilds) (.ok ()) 0) trivial rfl
  have h₃ := h₂.snoc (ManifestEvent.load ⟨"https://b", DEFAULT_TTL_MS, false⟩ 1) trivial rfl
  obtain ⟨j, written, mtimeMs, hmem⟩ :=
    (hall _ _ h₃).loads "https://b" (.cached noBuilds) noBuilds (.tail _ (.head _)) rfl
  -- the only fetch was from the other mirror
  simp at hmem

end HardhatTron

import HardhatTron.Compile.Manifest
/-!
# The list file that processes share

Every `loadManifest` reads `list.json` in the cache directory, and one that
fetches writes it: `writeCache` writes `list.json.tmp` and renames it. All
processes stage under that one name, so a process may cut, fill or move a file
that another one is writing, and read a file while it is written.

Where the mirror serves one text, none of this can be seen: what a call returns
is that text's manifest or the one cached before, `returned_known`, and once
nobody is writing the file is the whole text, `written_whole`.
-/
namespace HardhatTron.ListFiles

open Lib

/-! ## One call -/

/-- What a call finds outside the module. -/
structure ListRuntime where
  mirror : String
  /-- `JSON.parse` of the UTF-8 text, with the `builds` of the value where that is an array. -/
  parse : List UInt8 → Except String (Option Manifest)
  /-- The message of an access to a file that is not there. -/
  notFound : String

/-- What `fetch` and `res.text()` give. -/
inductive ListResponse where
  | failed (message : String)
  /-- Not `res.ok`. -/
  | status (code : Nat)
  | brokenOff (message : String)
  | text (bytes : List UInt8)

def listUrl (rt : ListRuntime) : String := mirrorBase rt.mirror ++ "/wasm/list.json"

def fetchUpstream (rt : ListRuntime) : ListResponse → Except String (List UInt8 × Manifest)
  | .failed message => .error ("failed to fetch tron-solc manifest from " ++ listUrl rt ++ ": " ++ message)
  | .status code =>
    .error ("tron-solc manifest fetch returned HTTP " ++ toString code ++ " from " ++ listUrl rt)
  | .brokenOff message => .error message
  | .text bytes =>
    match rt.parse bytes with
    | .error message => .error ("tron-solc manifest at " ++ listUrl rt ++ " is not valid JSON: " ++ message)
    | .ok none => .error ("tron-solc manifest at " ++ listUrl rt ++ " has no builds[] array")
    | .ok (some manifest) => .ok (bytes, manifest)

/-- Where a call of `loadManifest` stands. In `readCached`, `failure` is the error that
made it fall back to the cached list, if one did. -/
inductive LoadPc where
  | start
  | checkFile (failure : Option String)
  | stat (failure : Option String)
  | openFile (failure : Option String)
  | reading (failure : Option String) (file : Nat) (acc : List UInt8)
  | fetch
  | mkdir (text : List UInt8) (manifest : Manifest)
  | create (text : List UInt8) (manifest : Manifest)
  /-- In `writeFileSync`, with the file open and the next offset to write. -/
  | stream (text : List UInt8) (manifest : Manifest) (file offset : Nat)
  | rename (manifest : Manifest)
  | ended (result : Except String Manifest)
  | crashed

/-- A step of a call: its next file access, what the network gives it, an exception, or
the end of its process. The end of a read says whether the list is younger than its TTL. -/
inductive LoadAct where
  | load (forceRefresh : Bool)
  | go
  | read (n : Nat)
  | endOfFile (fresh : Bool)
  | response (r : ListResponse)
  | write (n : Nat)
  | fault (message : String)
  | crash

/-- After `readCached` has found no list. -/
def missing : Option String → LoadPc
  | none => .fetch
  | some e => .ended (.error e)

/-- After `readCached` has found one. -/
def found (manifest : Manifest) (fresh : Bool) : Option String → LoadPc
  | none => if fresh then .ended (.ok manifest) else .fetch
  | some _ => .ended (.ok manifest)

/-- Where an exception takes the call; `none` where nothing throws. -/
def LoadPc.fault (message : String) : LoadPc → Option LoadPc
  | .stat _ => some (.ended (.error message))
  | .openFile failure => some (missing failure)
  | .reading failure _ _ => some (missing failure)
  | .mkdir _ _ | .create _ _ | .stream _ _ _ _ | .rename _ => some (.checkFile (some message))
  | _ => none

/-- A step of a call, with whether it put a file at `list.json`. -/
def loadManifest (rt : ListRuntime) (d : Directory CacheName) :
    LoadPc → LoadAct → Option (Bool × LoadPc × Directory CacheName)
  | .ended _, _ | .crashed, _ => none
  | _, .crash => some (false, .crashed, d)
  | pc, .fault message => (pc.fault message).map fun pc => (false, pc, d)
  | .start, .load forceRefresh => some (false, if forceRefresh then .fetch else .checkFile none, d)
  | .checkFile failure, .go =>
    some (false, if (d.entry .final).isSome then .stat failure else missing failure, d)
  | .stat failure, .go =>
    some (false, if (d.entry .final).isSome then .openFile failure else .ended (.error rt.notFound), d)
  | .openFile failure, .go =>
    match d.entry .final with
    | none => some (false, missing failure, d)
    | some file => some (false, .reading failure file [], d)
  | .reading failure file acc, .read n =>
    some (false, .reading failure file (acc ++ ((d.contents file).drop acc.length).take n), d)
  | .reading failure _ acc, .endOfFile fresh =>
    match rt.parse acc with
    | .ok (some manifest) => some (false, found manifest fresh failure, d)
    | _ => some (false, missing failure, d)
  | .fetch, .response r =>
    match fetchUpstream rt r with
    | .error message => some (false, .checkFile (some message), d)
    | .ok (text, manifest) => some (false, .mkdir text manifest, d)
  | .mkdir text manifest, .go => some (false, .create text manifest, d)
  | .create text manifest, .go => some (false, .stream text manifest (d.fileFor .tmp) 0, d.create .tmp)
  | .stream text manifest file offset, .write n =>
    some (false, .stream text manifest file (offset + ((text.drop offset).take n).length),
      d.writeAt file offset ((text.drop offset).take n))
  | .stream text manifest _ offset, .go => if text.length ≤ offset then some (false, .rename manifest, d) else none
  | .rename manifest, .go =>
    match d.rename .tmp .final with
    | none => some (false, .checkFile (some rt.notFound), d)
    | some d => some (true, .ended (.ok manifest), d)
  | _, _ => none

/-! ## Any number of calls -/

/-- The cache directory and the calls that share it, of one process or of several. -/
structure Loads where
  dir : Directory CacheName
  calls : Nat → LoadPc

def Loads.step (rt : ListRuntime) (s : Loads) (c : Nat × LoadAct) : Option (Bool × Loads) :=
  (loadManifest rt s.dir (s.calls c.1) c.2).map fun r => (r.1, ⟨r.2.2, Function.update s.calls c.1 r.2.1⟩)

def startLoads (d : Directory CacheName) : Loads := ⟨d, fun _ => .start⟩

def LoadAct.serves (text : List UInt8) : LoadAct → Bool
  | .response (.text bytes) => bytes = text
  | _ => true

/-- The mirror serves one text. -/
def Serves (text : List UInt8) (_ : Loads) (c : Nat × LoadAct) : Prop := c.2.serves text = true

instance (text : List UInt8) (s : Loads) (c : Nat × LoadAct) : Decidable (Serves text s c) :=
  inferInstanceAs (Decidable (_ = _))

/-! ## What a step does -/

/-- The call holds nothing of a file or a fetched text. -/
def LoadPc.Idle : LoadPc → Prop
  | .start | .checkFile _ | .stat _ | .openFile _ | .fetch | .ended (.error _) | .crashed => True
  | _ => False

/-- The file a call is writing. -/
def LoadPc.file : LoadPc → Option Nat
  | .stream _ _ file _ => some file
  | _ => none

def LoadAct.fails : LoadAct → Bool
  | .fault _ | .crash => true
  | _ => false

inductive LoadEffect (rt : ListRuntime) (d : Directory CacheName) (pc : LoadPc) (act : LoadAct) :
    Bool → LoadPc → Directory CacheName → Prop
  | idles {pc' : LoadPc} (h : pc'.Idle) (hwrites : pc.file = none ∨ act.fails = true) : LoadEffect rt d pc act false pc' d
  | opens {failure : Option String} {file : Nat} (h : pc = .openFile failure) (hfile : d.entry .final = some file) :
      LoadEffect rt d pc act false (.reading failure file []) d
  | reads {failure : Option String} {file : Nat} {acc : List UInt8} (n : Nat) (h : pc = .reading failure file acc) :
      LoadEffect rt d pc act false (.reading failure file (acc ++ ((d.contents file).drop acc.length).take n)) d
  | returns {failure : Option String} {file : Nat} {acc : List UInt8} {manifest : Manifest}
      (h : pc = .reading failure file acc) (hparse : rt.parse acc = .ok (some manifest)) :
      LoadEffect rt d pc act false (.ended (.ok manifest)) d
  | fetches {text : List UInt8} {manifest : Manifest} (h : pc = .fetch) (hact : act = .response (.text text))
      (hparse : rt.parse text = .ok (some manifest)) : LoadEffect rt d pc act false (.mkdir text manifest) d
  | mkdirs {text : List UInt8} {manifest : Manifest} (h : pc = .mkdir text manifest) :
      LoadEffect rt d pc act false (.create text manifest) d
  | creates {text : List UInt8} {manifest : Manifest} (h : pc = .create text manifest) :
      LoadEffect rt d pc act false (.stream text manifest (d.fileFor .tmp) 0) (d.create .tmp)
  | writes {text : List UInt8} {manifest : Manifest} {file offset : Nat} (n : Nat)
      (h : pc = .stream text manifest file offset) :
      LoadEffect rt d pc act false (.stream text manifest file (offset + ((text.drop offset).take n).length))
        (d.writeAt file offset ((text.drop offset).take n))
  | closes {text : List UInt8} {manifest : Manifest} {file offset : Nat} (h : pc = .stream text manifest file offset)
      (hend : text.length ≤ offset) : LoadEffect rt d pc act false (.rename manifest) d
  | renames {manifest : Manifest} {d' : Directory CacheName} (h : pc = .rename manifest)
      (hrename : d.rename .tmp .final = some d') : LoadEffect rt d pc act true (.ended (.ok manifest)) d'

theorem missing_idle (failure : Option String) : (missing failure).Idle := by
  cases failure <;> trivial

theorem LoadPc.fault_idle {message : String} {pc pc' : LoadPc} (h : pc.fault message = some pc') : pc'.Idle := by
  cases pc <;> simp only [LoadPc.fault, Option.some.injEq, reduceCtorEq] at h <;> subst h
  case openFile | reading => exact missing_idle _
  all_goals trivial

section
variable {rt : ListRuntime} {d d' : Directory CacheName} {pc pc' q : LoadPc} {act : LoadAct} {b : Bool}

/-- The effect of a branch, where the step takes it. -/
theorem LoadEffect.of_branch {b₀ : Bool} {d₀ : Directory CacheName} (h : some (b₀, q, d₀) = some (b, pc', d'))
    (he : LoadEffect rt d pc act b₀ q d₀) : LoadEffect rt d pc act b pc' d' := by
  obtain ⟨rfl, rfl, rfl⟩ : b₀ = b ∧ q = pc' ∧ d₀ = d' := by simpa only [Option.some.injEq, Prod.mk.injEq] using h
  exact he

theorem found_effect {failure : Option String} {file : Nat} {acc : List UInt8} {manifest : Manifest} (fresh : Bool)
    (h : pc = .reading failure file acc) (hparse : rt.parse acc = .ok (some manifest)) :
    LoadEffect rt d pc act false (found manifest fresh failure) d := by
  rcases failure with _ | e
  · rcases fresh with _ | _
    · exact .idles (by simp [found, LoadPc.Idle]) (.inl (by rw [h]; rfl))
    · exact .returns h hparse
  · exact .returns h hparse

theorem fetchUpstream_ok {r : ListResponse} {text : List UInt8} {manifest : Manifest}
    (h : fetchUpstream rt r = .ok (text, manifest)) : r = .text text ∧ rt.parse text = .ok (some manifest) := by
  unfold fetchUpstream at h
  split at h
  case h_4 bytes =>
    split at h
    · cases h
    · cases h
    · rename_i hparse
      obtain ⟨rfl, rfl⟩ := Prod.mk.inj (Except.ok.inj h)
      exact ⟨rfl, hparse⟩
  all_goals cases h

theorem loadManifest_effect (h : loadManifest rt d pc act = some (b, pc', d')) : LoadEffect rt d pc act b pc' d' := by
  unfold loadManifest at h
  split at h
  · cases h
  · cases h
  · exact .of_branch h (.idles trivial (.inr rfl))
  · -- `fault`
    obtain ⟨q, hq, heq⟩ := Option.map_eq_some_iff.1 h
    exact .of_branch (congrArg some heq) (.idles (LoadPc.fault_idle hq) (.inr rfl))
  · exact .of_branch h (.idles (by split <;> trivial) (.inl rfl))
  · -- `checkFile`
    refine .of_branch h (.idles ?_ (.inl rfl))
    split
    · trivial
    · exact missing_idle _
  · exact .of_branch h (.idles (by split <;> trivial) (.inl rfl))
  · -- `openFile`
    split at h
    · exact .of_branch h (.idles (missing_idle _) (.inl rfl))
    · rename_i hfile
      exact .of_branch h (.opens rfl hfile)
  · exact .of_branch h (.reads _ rfl)
  · -- the end of a read
    split at h
    · rename_i hparse
      exact .of_branch h (found_effect _ rfl hparse)
    · exact .of_branch h (.idles (missing_idle _) (.inl rfl))
  · -- `fetch`
    split at h
    · exact .of_branch h (.idles trivial (.inl rfl))
    · rename_i hfetch
      obtain ⟨rfl, hparse⟩ := fetchUpstream_ok hfetch
      exact .of_branch h (.fetches rfl rfl hparse)
  · exact .of_branch h (.mkdirs rfl)
  · exact .of_branch h (.creates rfl)
  · exact .of_branch h (.writes _ rfl)
  · split at h
    · rename_i hend
      exact .of_branch h (.closes rfl hend)
    · cases h
  · -- `rename`
    split at h
    · exact .of_branch h (.idles trivial (.inl rfl))
    · rename_i hrename
      exact .of_branch h (.renames rfl hrename)
  · cases h

end

/-! ## Pieces of a text -/

/-- Bytes of the text at their places, and zeros where it is not written yet. -/
def Piece (text bytes : List UInt8) : Prop :=
  ∀ k b, bytes[k]? = some b → k < text.length ∧ (text[k]? = some b ∨ b = 0)

section
variable {rt : ListRuntime} {text bytes acc : List UInt8}

theorem Piece.nil (text : List UInt8) : Piece text [] := by
  intro k b h
  cases h

/-- A chunk written at its place over a piece. -/
theorem Piece.splice (h : Piece text bytes) {offset : Nat} (hoffset : offset ≤ text.length) (n : Nat) :
    Piece text (Directory.splice bytes offset ((text.drop offset).take n)) := by
  intro k b hk
  rw [Directory.getElem?_splice] at hk
  split at hk
  · split at hk
    · exact h k b hk
    · exact ⟨by omega, .inr (Option.some.inj hk).symm⟩
  · split at hk
    · rename_i hbefore hchunk
      rw [List.length_take, List.length_drop] at hchunk
      refine ⟨by omega, .inl ?_⟩
      rw [List.getElem?_take_of_lt (by omega), List.getElem?_drop] at hk
      rwa [Nat.add_sub_cancel' (by omega)] at hk
    · exact h k b hk

/-- What a read adds to a piece from a file that is one at the time. -/
theorem Piece.read (hacc : Piece text acc) (hfile : Piece text bytes) (n : Nat) :
    Piece text (acc ++ (bytes.drop acc.length).take n) := by
  intro k b hk
  by_cases hlt : k < acc.length
  · rw [List.getElem?_append_left hlt] at hk
    exact hacc k b hk
  · rw [List.getElem?_append_right (Nat.le_of_not_lt hlt)] at hk
    obtain ⟨htake, -⟩ := List.getElem?_eq_some_iff.1 hk
    rw [List.length_take] at htake
    rw [List.getElem?_take_of_lt (by omega), List.getElem?_drop, Nat.add_sub_cancel' (Nat.le_of_not_lt hlt)] at hk
    exact hfile k b hk

/-- What a read adds to the beginning of a file that stays. -/
theorem prefix_read (h : acc <+: bytes) (n : Nat) : acc ++ (bytes.drop acc.length).take n <+: bytes := by
  obtain ⟨rest, rfl⟩ := h
  rw [List.drop_left, List.prefix_append_right_inj]
  exact List.take_prefix n rest

theorem Piece.isPrefix (h : Piece text bytes) (hzero : 0 ∉ bytes) : bytes <+: text := by
  rw [List.prefix_iff_getElem?]
  intro k hk
  rcases h k bytes[k] (List.getElem?_eq_getElem hk) with ⟨-, htext | hb⟩
  · exact htext
  · exact absurd (hb ▸ List.getElem_mem hk) hzero

/-- JSON has no zero byte, not in its strings either. -/
def RejectsZeros (rt : ListRuntime) : Prop := ∀ bytes manifest, 0 ∈ bytes → rt.parse bytes ≠ .ok (some manifest)

/-- No beginning of the text is another list: the brace that ends the value is missing until all of it is there. -/
def SelfDelimiting (rt : ListRuntime) (text : List UInt8) : Prop :=
  ∀ bytes manifest, bytes <+: text → rt.parse bytes = .ok (some manifest) → rt.parse text = .ok (some manifest)

theorem Piece.parsed (hzeros : RejectsZeros rt) (htext : SelfDelimiting rt text) (h : Piece text bytes)
    {manifest : Manifest} (hparse : rt.parse bytes = .ok (some manifest)) : rt.parse text = .ok (some manifest) :=
  htext bytes manifest (h.isPrefix fun hzero => hzeros bytes manifest hzero hparse) hparse

end

/-! ## Every run -/

/-- The manifest of the mirror's text, or of the list that was cached before. -/
def Known (rt : ListRuntime) (text : List UInt8) (before : Directory CacheName) (manifest : Manifest) : Prop :=
  rt.parse text = .ok (some manifest) ∨
    ∃ bytes, before.read .final = some bytes ∧ rt.parse bytes = .ok (some manifest)

/-- Between the opening of the staged file and its rename. -/
def LoadPc.Staged : LoadPc → Prop
  | .stream _ _ _ _ | .rename _ => True
  | _ => False

/-- What a call holds: beginnings of the old list, or pieces of the text in files that are no old list. -/
def CallOk (rt : ListRuntime) (text : List UInt8) (before d : Directory CacheName) : LoadPc → Prop
  | .reading _ file acc =>
    before.entry .final = some file ∧ acc <+: before.contents file ∨
      before.entry .final ≠ some file ∧ Piece text (d.contents file) ∧ Piece text acc
  | .mkdir t manifest | .create t manifest => t = text ∧ rt.parse text = .ok (some manifest)
  | .stream t manifest file offset =>
    (t = text ∧ rt.parse text = .ok (some manifest)) ∧ offset ≤ text.length ∧
      before.entry .final ≠ some file ∧ Piece text (d.contents file)
  | .rename manifest => rt.parse text = .ok (some manifest)
  | .ended (.ok manifest) => Known rt text before manifest
  | _ => True

structure ListInv (rt : ListRuntime) (text : List UInt8) (before : Directory CacheName) (s : Loads) : Prop where
  /-- The old list is in nobody's way. -/
  old : ∀ f, before.entry .final = some f →
    s.dir.contents f = before.contents f ∧ f < s.dir.next ∧ s.dir.entry .tmp ≠ some f
  list : ∀ f, s.dir.entry .final = some f → before.entry .final = some f ∨ Piece text (s.dir.contents f)
  staged : ∀ i, (s.calls i).Staged → ∀ f, s.dir.entry .tmp = some f → Piece text (s.dir.contents f)
  calls : ∀ i, CallOk rt text before s.dir (s.calls i)

section
variable {rt : ListRuntime} {text : List UInt8} {before d d' : Directory CacheName} {s s' : Loads}
variable {c : Nat × LoadAct} {pc pc' : LoadPc} {b : Bool}

theorem CallOk.of_idle (h : pc.Idle) : CallOk rt text before d pc := by
  cases pc with
  | ended result =>
    cases result with
    | ok => exact h.elim
    | error => trivial
  | start | checkFile | stat | openFile | fetch | crashed => trivial
  | reading | mkdir | create | stream | rename => exact h.elim

theorem LoadPc.Idle.not_staged (h : pc.Idle) : ¬ pc.Staged := by
  cases pc <;> first | exact id | exact h.elim

theorem CallOk.mono (hgrow : ∀ f, Piece text (d.contents f) → Piece text (d'.contents f))
    (h : CallOk rt text before d pc) : CallOk rt text before d' pc := by
  cases pc with
  | reading failure file acc =>
    rcases h with h | ⟨hne, hpiece, hacc⟩
    · exact .inl h
    · exact .inr ⟨hne, hgrow _ hpiece, hacc⟩
  | stream t manifest file offset =>
    obtain ⟨htext, hoffset, hne, hpiece⟩ := h
    exact ⟨htext, hoffset, hne, hgrow _ hpiece⟩
  | ended result => cases result <;> exact h
  | start | checkFile | stat | openFile | fetch | crashed | mkdir | create | rename => exact h

/-- A step that keeps the directory's part and leaves its call in order. -/
theorem ListInv.of_step (hi : ListInv rt text before s) {i : Nat}
    (hgrow : ∀ f, Piece text (s.dir.contents f) → Piece text (d'.contents f))
    (hold : ∀ f, before.entry .final = some f →
      d'.contents f = before.contents f ∧ f < d'.next ∧ d'.entry .tmp ≠ some f)
    (hlist : ∀ f, d'.entry .final = some f → before.entry .final = some f ∨ Piece text (d'.contents f))
    (hstaged : pc'.Staged ∨ (∃ j, (s.calls j).Staged) → ∀ f, d'.entry .tmp = some f → Piece text (d'.contents f))
    (hpc : CallOk rt text before d' pc') : ListInv rt text before ⟨d', Function.update s.calls i pc'⟩ where
  old := hold
  list := hlist
  staged j hj := by
    by_cases hji : j = i
    · subst hji
      exact hstaged (.inl (by simpa using hj))
    · exact hstaged (.inr ⟨j, by simpa [hji] using hj⟩)
  calls j := by
    by_cases hji : j = i
    · subst hji
      simpa using hpc
    · simpa [hji] using (hi.calls j).mono hgrow

/-- A step that leaves the files. -/
theorem ListInv.of_move (hi : ListInv rt text before s) {i : Nat} (hstaged : pc'.Staged → ∃ j, (s.calls j).Staged)
    (hpc : CallOk rt text before s.dir pc') : ListInv rt text before ⟨s.dir, Function.update s.calls i pc'⟩ := by
  refine hi.of_step (fun _ h => h) hi.old hi.list ?_ hpc
  intro h
  obtain ⟨j, hj⟩ := h.elim hstaged id
  exact hi.staged j hj

theorem ListInv.step (hzeros : RejectsZeros rt) (htext : SelfDelimiting rt text)
    (hbefore : ∀ bytes, before.read .final = some bytes → SelfDelimiting rt bytes) (hi : ListInv rt text before s)
    (hok : Serves text s c) (hst : s.step rt c = some (b, s')) : ListInv rt text before s' := by
  obtain ⟨⟨b', pc', d'⟩, hload, heq⟩ := Option.map_eq_some_iff.1 hst
  obtain rfl := (Prod.mk.inj heq).2
  have hcall := hi.calls c.1
  cases loadManifest_effect hload with
  | idles hidle _ => exact hi.of_move (fun h => (hidle.not_staged h).elim) (.of_idle hidle)
  | @opens failure file _ hfile =>
    refine hi.of_move (fun h => h.elim) ?_
    by_cases hfirst : before.entry .final = some file
    · exact .inl ⟨hfirst, List.nil_prefix⟩
    · exact .inr ⟨hfirst, (hi.list file hfile).resolve_left hfirst, .nil text⟩
  | @reads failure file acc n hpc =>
    refine hi.of_move (fun h => h.elim) ?_
    rw [hpc] at hcall
    rcases hcall with ⟨hfirst, hacc⟩ | ⟨hne, hpiece, hacc⟩
    · exact .inl ⟨hfirst, by rw [(hi.old file hfirst).1]; exact prefix_read hacc n⟩
    · exact .inr ⟨hne, hpiece, hacc.read hpiece n⟩
  | @returns failure file acc manifest hpc hparse =>
    refine hi.of_move (fun h => h.elim) ?_
    rw [hpc] at hcall
    rcases hcall with ⟨hfirst, hacc⟩ | ⟨-, -, hacc⟩
    · have hread : before.read .final = some (before.contents file) := Directory.read_eq_some.2 ⟨file, hfirst, rfl⟩
      exact .inr ⟨_, hread, hbefore _ hread acc manifest hacc hparse⟩
    · exact .inl (hacc.parsed hzeros htext hparse)
  | fetches _ hact hparse =>
    obtain rfl : _ = text := by simpa [Serves, hact, LoadAct.serves] using hok
    exact hi.of_move (fun h => h.elim) ⟨rfl, hparse⟩
  | mkdirs hpc =>
    rw [hpc] at hcall
    exact hi.of_move (fun h => h.elim) hcall
  | @creates t manifest hpc =>
    rw [hpc] at hcall
    have hgrow (f : Nat) (h : Piece text (s.dir.contents f)) : Piece text ((s.dir.create .tmp).contents f) := by
      by_cases hf : f = s.dir.fileFor .tmp
      · subst hf
        simpa [Directory.create] using Piece.nil text
      · rwa [Directory.contents_create_of_ne hf]
    have hcut : Piece text ((s.dir.create .tmp).contents (s.dir.fileFor .tmp)) := by
      simpa [Directory.create] using Piece.nil text
    have hfirst (f : Nat) (hf : before.entry .final = some f) : f ≠ s.dir.fileFor .tmp := by
      obtain ⟨-, hnext, htmp⟩ := hi.old f hf
      rintro rfl
      rcases hentry : s.dir.entry .tmp with _ | g
      · simp [Directory.fileFor, hentry] at hnext
      · exact htmp (by rw [Directory.fileFor_of_entry hentry]; exact hentry)
    refine hi.of_step hgrow ?_ ?_ ?_ ⟨hcall, Nat.zero_le _, fun hf => hfirst _ hf rfl, hcut⟩
    · intro f hf
      obtain ⟨hcontents, hnext, -⟩ := hi.old f hf
      refine ⟨by rw [Directory.contents_create_of_ne (hfirst f hf)]; exact hcontents, Nat.lt_of_lt_of_le hnext (Nat.le_max_left _ _), ?_⟩
      rw [Directory.entry_create, if_pos rfl]
      exact fun h => hfirst f hf (Option.some.inj h).symm
    · intro f hf
      rw [Directory.entry_create, if_neg (by decide)] at hf
      exact (hi.list f hf).imp_right (hgrow f)
    · intro _ f hf
      rw [Directory.entry_create, if_pos rfl] at hf
      obtain rfl := Option.some.inj hf
      exact hcut
  | @writes t manifest file offset n hpc =>
    rw [hpc] at hcall
    obtain ⟨⟨rfl, hparse⟩, hoffset, hne, hpiece⟩ := hcall
    have hgrow (f : Nat) (h : Piece t (s.dir.contents f)) :
        Piece t ((s.dir.writeAt file offset ((t.drop offset).take n)).contents f) := by
      by_cases hf : f = file
      · subst hf
        simpa [Directory.writeAt] using h.splice hoffset n
      · rwa [Directory.contents_writeAt_of_ne hf]
    refine hi.of_step hgrow ?_ ?_ ?_ ⟨⟨rfl, hparse⟩, ?_, hne, hgrow file hpiece⟩
    · intro f hf
      obtain ⟨hcontents, hnext, htmp⟩ := hi.old f hf
      refine ⟨?_, hnext, htmp⟩
      rw [Directory.contents_writeAt_of_ne (by rintro rfl; exact hne hf)]
      exact hcontents
    · exact fun f hf => (hi.list f hf).imp_right (hgrow f)
    · intro _ f hf
      exact hgrow f (hi.staged c.1 (by rw [hpc]; trivial) f hf)
    · rw [List.length_take, List.length_drop]
      omega
  | closes hpc hend =>
    rw [hpc] at hcall
    exact hi.of_move (fun _ => ⟨c.1, by rw [hpc]; trivial⟩) hcall.1.2
  | renames hpc hrename =>
    rw [hpc] at hcall
    obtain ⟨g, hg, hcontents, hnext, hentry⟩ := Directory.rename_eq_some hrename
    refine hi.of_step (fun f h => by rwa [hcontents]) ?_ ?_ ?_ (.inl hcall)
    · intro f hf
      rw [hcontents, hnext, hentry, if_neg (by decide), if_pos rfl]
      obtain ⟨hold, hlt, -⟩ := hi.old f hf
      exact ⟨hold, hlt, by simp⟩
    · intro f hf
      rw [hentry, if_pos rfl] at hf
      obtain rfl := Option.some.inj hf
      rw [hcontents]
      exact .inr (hi.staged c.1 (by rw [hpc]; trivial) g hg)
    · intro _ f hf
      rw [hentry, if_neg (by decide), if_pos rfl] at hf
      cases hf

theorem listInv_start (rt : ListRuntime) (text : List UInt8) {before : Directory CacheName} :
    ListInv rt text before (startLoads before) where
  old f hf := ⟨rfl, before.entry_lt hf, fun htmp => by cases before.entry_inj hf htmp⟩
  list _ hf := .inl hf
  staged _ h := h.elim
  calls _ := trivial

theorem listInv_of_run (hzeros : RejectsZeros rt) (htext : SelfDelimiting rt text)
    (hbefore : ∀ bytes, before.read .final = some bytes → SelfDelimiting rt bytes) {h}
    (hr : Run (Loads.step rt) (Serves text) (startLoads before) h s) : ListInv rt text before s := by
  apply Run.inv (fun _ s => ListInv rt text before s) (listInv_start rt text) _ hr
  intro h s c b s' _ hi hok hst
  exact hi.step hzeros htext hbefore hok hst

/-- **No list of pieces.** However the calls interleave and wherever they fail, what
one returns is the mirror's manifest or the one that was cached before. -/
theorem returned_known (hzeros : RejectsZeros rt) (htext : SelfDelimiting rt text)
    (hbefore : ∀ bytes, before.read .final = some bytes → SelfDelimiting rt bytes) {h}
    (hr : Run (Loads.step rt) (Serves text) (startLoads before) h s) {i : Nat} {manifest : Manifest}
    (hreturned : s.calls i = .ended (.ok manifest)) : Known rt text before manifest := by
  have hcall := (listInv_of_run hzeros htext hbefore hr).calls i
  rw [hreturned] at hcall
  exact hcall

end

/-! ## Runs in which nothing fails -/

/-- No call ends early, and the mirror serves one text. -/
def Unbroken (text : List UInt8) (s : Loads) (c : Nat × LoadAct) : Prop := Serves text s c ∧ c.2.fails = false

instance (text : List UInt8) (s : Loads) (c : Nat × LoadAct) : Decidable (Unbroken text s c) :=
  inferInstanceAs (Decidable (_ ∧ _))

/-- All of the text is there, or a call is at it: what that call has passed is there. -/
def Covered (text : List UInt8) (s : Loads) (f : Nat) : Prop :=
  s.dir.contents f = text ∨
    ∃ i manifest offset, s.calls i = .stream text manifest f offset ∧
      ∀ k < offset, (s.dir.contents f)[k]? = text[k]?

structure WholeInv (text : List UInt8) (before : Directory CacheName) (h : List ((Nat × LoadAct) × Bool)) (s : Loads) :
    Prop where
  list : ∀ f, s.dir.entry .final = some f → before.entry .final = some f ∨ Covered text s f
  staged : ∀ i, (s.calls i).Staged → ∀ f, s.dir.entry .tmp = some f → Covered text s f
  put : (∃ e ∈ h, e.2 = true) → ∃ f, s.dir.entry .final = some f ∧ before.entry .final ≠ some f
  kept : (∀ e ∈ h, e.2 = false) → s.dir.entry .final = before.entry .final

section
variable {rt : ListRuntime} {text : List UInt8} {before d' : Directory CacheName} {s s' : Loads}
variable {h : List ((Nat × LoadAct) × Bool)} {c : Nat × LoadAct} {pc' : LoadPc} {b : Bool}

theorem Piece.eq_text {bytes : List UInt8} (hpiece : Piece text bytes) (hall : ∀ k < text.length, bytes[k]? = text[k]?) :
    bytes = text := by
  apply List.ext_getElem?
  intro k
  by_cases hk : k < text.length
  · exact hall k hk
  · rw [List.getElem?_eq_none (Nat.le_of_not_lt hk)]
    rcases hb : bytes[k]? with _ | x
    · rfl
    · exact absurd (hpiece k x hb).1 hk

/-- A chunk of the text leaves what is in place, and puts itself in place. -/
theorem splice_in_place {bytes : List UInt8} {offset n k : Nat} (hoffset : offset ≤ text.length)
    (hk : bytes[k]? = text[k]? ∨ offset ≤ k ∧ k < offset + ((text.drop offset).take n).length) :
    (Directory.splice bytes offset ((text.drop offset).take n))[k]? = text[k]? := by
  have hchunk : ((text.drop offset).take n).length ≤ text.length - offset := by
    rw [List.length_take, List.length_drop]
    exact Nat.min_le_right _ _
  rw [Directory.getElem?_splice]
  split
  · rename_i hbefore
    have hplace := hk.resolve_right (by omega)
    split
    · exact hplace
    · rename_i hshort
      rw [List.getElem?_eq_none (Nat.le_of_not_lt hshort), List.getElem?_eq_getElem (by omega)] at hplace
      cases hplace
  · split
    · rename_i hbefore hin
      rw [List.length_take] at hin
      rw [List.getElem?_take_of_lt (by omega), List.getElem?_drop, Nat.add_sub_cancel' (Nat.le_of_not_lt hbefore)]
    · exact hk.resolve_right (by omega)

/-- A step leaves a file covered that it does not touch and that its call does not write. -/
theorem Covered.of_untouched {f i : Nat} (hcovered : Covered text s f) (hcontents : d'.contents f = s.dir.contents f)
    (hcall : (s.calls i).file ≠ some f) : Covered text ⟨d', Function.update s.calls i pc'⟩ f := by
  rcases hcovered with hwhole | ⟨j, manifest, offset, hj, hpassed⟩
  · exact .inl (hcontents.trans hwhole)
  · have hne : j ≠ i := by
      rintro rfl
      exact hcall (by rw [hj]; rfl)
    refine .inr ⟨j, manifest, offset, by simpa [hne] using hj, fun k hk => ?_⟩
    exact (congrArg (·[k]?) hcontents).trans (hpassed k hk)

/-- A call that has opened the file anew covers it. -/
theorem Covered.of_open (f i : Nat) (manifest : Manifest) (d : Directory CacheName) :
    Covered text ⟨d, Function.update s.calls i (.stream text manifest f 0)⟩ f :=
  .inr ⟨i, manifest, 0, by simp, fun _ hk => absurd hk (Nat.not_lt_zero _)⟩

theorem Covered.write {f file offset i : Nat} {manifest : Manifest} (hcovered : Covered text s f)
    (hi : s.calls i = .stream text manifest file offset) (hoffset : offset ≤ text.length) (n : Nat) :
    Covered text ⟨s.dir.writeAt file offset ((text.drop offset).take n),
      Function.update s.calls i (.stream text manifest file (offset + ((text.drop offset).take n).length))⟩ f := by
  by_cases hf : f = file
  · subst hf
    have hcontents : (s.dir.writeAt f offset ((text.drop offset).take n)).contents f =
        Directory.splice (s.dir.contents f) offset ((text.drop offset).take n) := by
      simp [Directory.writeAt]
    rcases hcovered with hwhole | ⟨j, manifest', offset', hj, hpassed⟩
    · refine .inl (hcontents.trans ?_)
      apply List.ext_getElem?
      intro k
      exact splice_in_place hoffset (.inl (by rw [hwhole]))
    · by_cases hji : j = i
      · subst hji
        obtain ⟨rfl, rfl⟩ : manifest = manifest' ∧ offset = offset' := by simpa [hi] using hj
        refine .inr ⟨j, manifest, _, Function.update_self .., fun k hk => ?_⟩
        refine (congrArg (·[k]?) hcontents).trans (splice_in_place hoffset ?_)
        by_cases hpast : k < offset
        · exact .inl (hpassed k hpast)
        · exact .inr ⟨Nat.le_of_not_lt hpast, hk⟩
      · refine .inr ⟨j, manifest', offset', by simpa [hji] using hj, fun k hk => ?_⟩
        exact (congrArg (·[k]?) hcontents).trans (splice_in_place hoffset (.inl (hpassed k hk)))
  · refine hcovered.of_untouched (Directory.contents_writeAt_of_ne hf) ?_
    rw [hi]
    exact fun h => hf (Option.some.inj h).symm

/-- A call that has written everything has covered its file for good. -/
theorem Covered.close {f file offset i : Nat} {manifest : Manifest} (hcovered : Covered text s f)
    (hi : s.calls i = .stream text manifest file offset) (hend : text.length ≤ offset)
    (hpiece : Piece text (s.dir.contents file)) : Covered text ⟨s.dir, Function.update s.calls i pc'⟩ f := by
  rcases hcovered with hwhole | ⟨j, manifest', offset', hj, hpassed⟩
  · exact .inl hwhole
  · by_cases hji : j = i
    · subst hji
      obtain ⟨rfl, rfl, rfl⟩ : manifest = manifest' ∧ file = f ∧ offset = offset' := by simpa [hi] using hj
      exact .inl (hpiece.eq_text fun k hk => hpassed k (Nat.lt_of_lt_of_le hk hend))
    · exact .inr ⟨j, manifest', offset', by simpa [hji] using hj, hpassed⟩

/-- A step that leaves the entry of the list and puts no file there. -/
theorem WholeInv.of_step (hi : WholeInv text before h s) (hentry : d'.entry .final = s.dir.entry .final)
    (hcovered : ∀ f, s.dir.entry .final = some f ∨ (∃ j, (s.calls j).Staged) ∧ s.dir.entry .tmp = some f →
      Covered text s f → Covered text ⟨d', Function.update s.calls c.1 pc'⟩ f)
    (hstaged : pc'.Staged ∨ (∃ j, (s.calls j).Staged) → ∀ f, d'.entry .tmp = some f →
      ((∃ j, (s.calls j).Staged) ∧ s.dir.entry .tmp = some f) ∨
        Covered text ⟨d', Function.update s.calls c.1 pc'⟩ f) :
    WholeInv text before (h ++ [(c, false)]) ⟨d', Function.update s.calls c.1 pc'⟩ where
  list f hf := by
    replace hf : s.dir.entry .final = some f := hentry.symm.trans hf
    exact (hi.list f hf).imp_right (hcovered f (.inl hf))
  staged j hj f hf := by
    have hopen : pc'.Staged ∨ ∃ j, (s.calls j).Staged := by
      by_cases hji : j = c.1
      · subst hji
        exact .inl (by simpa using hj)
      · exact .inr ⟨j, by simpa [hji] using hj⟩
    rcases hstaged hopen f hf with ⟨⟨k, hk⟩, htmp⟩ | hnew
    · exact hcovered f (.inr ⟨⟨k, hk⟩, htmp⟩) (hi.staged k hk f htmp)
    · exact hnew
  put hput := by
    obtain ⟨e, he, htrue⟩ := hput
    rcases List.mem_append.1 he with he | he
    · obtain ⟨f, hf, hne⟩ := hi.put ⟨e, he, htrue⟩
      exact ⟨f, hentry.trans hf, hne⟩
    · rw [List.mem_singleton.1 he] at htrue
      cases htrue
  kept hkept := hentry.trans (hi.kept fun e he => hkept e (List.mem_append_left _ he))

/-- A step that leaves the files, of a call that writes none and comes to none. -/
theorem WholeInv.of_move (hi : WholeInv text before h s) (hpc : (s.calls c.1).file = none) (hstaged : ¬ pc'.Staged) :
    WholeInv text before (h ++ [(c, false)]) ⟨s.dir, Function.update s.calls c.1 pc'⟩ := by
  refine hi.of_step rfl (fun f _ hf => hf.of_untouched rfl (by simp [hpc])) ?_
  intro hopen f hf
  exact .inl ⟨hopen.resolve_left hstaged, hf⟩

theorem WholeInv.step (hi : WholeInv text before h s) (hlist : ListInv rt text before s) (hok : Unbroken text s c)
    (hst : s.step rt c = some (b, s')) : WholeInv text before (h ++ [(c, b)]) s' := by
  obtain ⟨⟨b', pc', d'⟩, hload, heq⟩ := Option.map_eq_some_iff.1 hst
  obtain ⟨rfl, rfl⟩ := Prod.mk.inj heq
  have hcall := hlist.calls c.1
  cases loadManifest_effect hload with
  | idles hidle hwrites => exact hi.of_move (hwrites.resolve_right (by rw [hok.2]; nofun)) hidle.not_staged
  | opens hpc hfile => exact hi.of_move (by rw [hpc]; rfl) id
  | reads n hpc => exact hi.of_move (by rw [hpc]; rfl) id
  | returns hpc hparse => exact hi.of_move (by rw [hpc]; rfl) id
  | fetches hpc hact hparse => exact hi.of_move (by rw [hpc]; rfl) id
  | mkdirs hpc => exact hi.of_move (by rw [hpc]; rfl) id
  | @creates t manifest hpc =>
    rw [hpc] at hcall
    obtain ⟨rfl, -⟩ := hcall
    have hentry : (s.dir.create .tmp).entry .final = s.dir.entry .final := by
      rw [Directory.entry_create, if_neg (by decide)]
    refine hi.of_step hentry ?_ ?_
    · intro f _ hf
      by_cases hcut : f = s.dir.fileFor .tmp
      · subst hcut
        exact .of_open _ _ manifest _
      · exact hf.of_untouched (Directory.contents_create_of_ne hcut) (by rw [hpc]; nofun)
    · intro _ f hf
      rw [Directory.entry_create, if_pos rfl] at hf
      obtain rfl := Option.some.inj hf
      exact .inr (.of_open _ _ manifest _)
  | @writes t manifest file offset n hpc =>
    rw [hpc] at hcall
    obtain ⟨⟨rfl, -⟩, hoffset, -, -⟩ := hcall
    refine hi.of_step rfl (fun f _ hf => hf.write hpc hoffset n) ?_
    exact fun _ f hf => .inl ⟨⟨c.1, by rw [hpc]; trivial⟩, hf⟩
  | @closes t manifest file offset hpc hend =>
    rw [hpc] at hcall
    obtain ⟨⟨rfl, -⟩, -, -, hpiece⟩ := hcall
    refine hi.of_step rfl (fun f _ hf => hf.close hpc hend hpiece) ?_
    exact fun _ f hf => .inl ⟨⟨c.1, by rw [hpc]; trivial⟩, hf⟩
  | renames hpc hrename =>
    obtain ⟨g, hg, hcontents, -, hentry⟩ := Directory.rename_eq_some hrename
    have hgcovered := hi.staged c.1 (by rw [hpc]; trivial) g hg
    refine ⟨?_, ?_, ?_, ?_⟩
    · intro f hf
      rw [hentry, if_pos rfl] at hf
      obtain rfl := Option.some.inj hf
      exact .inr (hgcovered.of_untouched (congrFun hcontents _) (by rw [hpc]; nofun))
    · intro j _ f hf
      rw [hentry, if_neg (by decide), if_pos rfl] at hf
      cases hf
    · intro _
      refine ⟨g, by rw [hentry, if_pos rfl], ?_⟩
      exact fun hfirst => (hlist.old g hfirst).2.2 hg
    · intro hkept
      cases hkept (c, true) (List.mem_append_right _ List.mem_cons_self)

theorem wholeInv_start (text : List UInt8) (before : Directory CacheName) :
    WholeInv text before [] (startLoads before) where
  list _ hf := .inl hf
  staged _ h := h.elim
  put := by simp
  kept _ := rfl

theorem wholeInv_of_run (hzeros : RejectsZeros rt) (htext : SelfDelimiting rt text)
    (hbefore : ∀ bytes, before.read .final = some bytes → SelfDelimiting rt bytes)
    (hr : Run (Loads.step rt) (Unbroken text) (startLoads before) h s) : WholeInv text before h s := by
  apply Run.inv (fun h s => WholeInv text before h s) (wholeInv_start text before) _ hr
  intro h s c b s' hrun hi hok hst
  have hlist := listInv_of_run hzeros htext hbefore (hrun.mono fun _ _ => And.left)
  exact hi.step hlist hok hst

/-- **The whole list.** Where no call ends early, and none is writing now, the list is the
mirror's whole text if any was put there, and untouched if not. -/
theorem written_whole (hzeros : RejectsZeros rt) (htext : SelfDelimiting rt text)
    (hbefore : ∀ bytes, before.read .final = some bytes → SelfDelimiting rt bytes)
    (hr : Run (Loads.step rt) (Unbroken text) (startLoads before) h s) (hidle : ∀ i, (s.calls i).file = none) :
    ((∃ e ∈ h, e.2 = true) → s.dir.read .final = some text) ∧
      ((∀ e ∈ h, e.2 = false) → s.dir.read .final = before.read .final) := by
  have hi := wholeInv_of_run hzeros htext hbefore hr
  have hlist := listInv_of_run hzeros htext hbefore (hr.mono fun _ _ => And.left)
  refine ⟨?_, ?_⟩
  · intro hput
    obtain ⟨f, hf, hne⟩ := hi.put hput
    refine Directory.read_eq_some.2 ⟨f, hf, ?_⟩
    rcases (hi.list f hf).resolve_left hne with hwhole | ⟨i, manifest, offset, hcall, -⟩
    · exact hwhole
    · cases (hidle i).symm.trans (by rw [hcall]; rfl : (s.calls i).file = some f)
  · intro hkept
    rw [Directory.read, Directory.read, hi.kept hkept]
    rcases hentry : before.entry .final with _ | f
    · rfl
    · exact congrArg some (hlist.old f hentry).1

end

/-! ## Two calls that write at once -/

/-- The bytes of `{"builds":[]}`. -/
def noBuilds : List UInt8 := [123, 34, 98, 117, 105, 108, 100, 115, 34, 58, 91, 93, 125]

def noBuildsRuntime : ListRuntime where
  mirror := "https://mirror/"
  parse bytes := if bytes = noBuilds then .ok (some ⟨[]⟩) else .error "Unexpected end of JSON input"
  notFound := "ENOENT"

theorem noBuilds_parse {bytes : List UInt8} {manifest : Manifest}
    (h : noBuildsRuntime.parse bytes = .ok (some manifest)) : bytes = noBuilds := by
  unfold noBuildsRuntime at h
  dsimp only at h
  split at h
  · assumption
  · cases h

theorem noBuilds_zeros : RejectsZeros noBuildsRuntime := by
  intro bytes manifest hzero hparse
  rw [noBuilds_parse hparse] at hzero
  exact absurd hzero (by decide)

theorem noBuilds_delimited (text : List UInt8) (h : text = noBuilds) : SelfDelimiting noBuildsRuntime text := by
  intro bytes manifest _ hparse
  rw [h, ← noBuilds_parse hparse]
  exact hparse

theorem emptyCache_old (bytes : List UInt8) (h : emptyCache.read .final = some bytes) :
    SelfDelimiting noBuildsRuntime bytes := by
  cases h

/-- Call 1 cuts the file call 0 is writing, call 0 moves it, and call 1 fills it in and finds
nothing to rename. -/
def raced : List (Nat × LoadAct) :=
  [(0, .load true), (0, .response (.text noBuilds)), (0, .go), (0, .go), (0, .write 7),
    (1, .load true), (1, .response (.text noBuilds)), (1, .go), (1, .go), (0, .write 99), (0, .go), (0, .go),
    (1, .write 99), (1, .go), (1, .go), (1, .go), (1, .go), (1, .go), (1, .read 99), (1, .endOfFile true)]

theorem raced_known : ∃ h s, Run (Loads.step noBuildsRuntime) (Serves noBuilds) (startLoads emptyCache) h s ∧
    s.calls 1 = .ended (.ok ⟨[]⟩) ∧ Known noBuildsRuntime noBuilds emptyCache ⟨[]⟩ := by
  have hp : play (Loads.step noBuildsRuntime) (Serves noBuilds) (startLoads emptyCache) raced = some (_, _) := rfl
  exact ⟨_, _, .of_play hp, rfl,
    returned_known noBuilds_zeros (noBuilds_delimited _ rfl) emptyCache_old (.of_play hp) (i := 1) rfl⟩

theorem raced_whole : ∃ h s, Run (Loads.step noBuildsRuntime) (Unbroken noBuilds) (startLoads emptyCache) h s ∧
    ((∃ e ∈ h, e.2 = true) → s.dir.read .final = some noBuilds) ∧
      ((∀ e ∈ h, e.2 = false) → s.dir.read .final = emptyCache.read .final) := by
  have hp : play (Loads.step noBuildsRuntime) (Unbroken noBuilds) (startLoads emptyCache) raced = some (_, _) := rfl
  refine ⟨_, _, .of_play hp,
    written_whole noBuilds_zeros (noBuilds_delimited _ rfl) emptyCache_old (.of_play hp) ?_⟩
  rintro (_ | _ | i) <;> rfl

end HardhatTron.ListFiles

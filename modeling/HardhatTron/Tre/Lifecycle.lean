import HardhatTron.Lib.OrderedMap
import HardhatTron.Lib.Runs
import Mathlib.Logic.Function.Basic
/-!
# The life of a TRE container

The task wrappers bring a container up with `ensureUp` and take it down with
`teardown`; both address it by its name. Other processes run, create, start,
stop and remove containers of their own between any two docker commands; they
leave those launched here alone, and these do not exit by themselves.

`removes_own`: every removal of a running container hits one that this process
launched, and a container it launched is removed by its own wrapper only.
-/
namespace HardhatTron

open Lib

/-! ## Docker -/

/-- `launchedBy` is the wrapper of this process whose `docker run` started the
container, `none` for every other container. -/
structure Container where
  running : Bool
  launchedBy : Option Nat
  deriving DecidableEq

/-- The containers by name; a name is taken once. -/
structure DockerDaemon where
  named : String → Option Container

def DockerDaemon.set (d : DockerDaemon) (name : String) (c : Option Container) : DockerDaemon :=
  ⟨Function.update d.named name c⟩

/-- How `docker run` goes once its name is free: the container may be left behind
without having started. -/
inductive RunOutcome where
  | started
  | notStarted (message : String)
  | refused (message : String)

/-- The error text, or nothing; and what is left. -/
def DockerDaemon.run (d : DockerDaemon) (name : String) (launchedBy : Option Nat) (o : RunOutcome) :
    Option String × DockerDaemon :=
  match d.named name, o with
  | some _, _ => (some ("Conflict. The container name \"/" ++ name ++ "\" is already in use"), d)
  | none, .started => (none, d.set name (some ⟨true, launchedBy⟩))
  | none, .notStarted message => (some message, d.set name (some ⟨false, none⟩))
  | none, .refused message => (some message, d)

inductive ContainerState where
  | running
  | stopped
  deriving DecidableEq

def containerState (d : DockerDaemon) (name : String) : Option ContainerState :=
  (d.named name).map fun c => if c.running then .running else .stopped

/-! ## One wrapper -/

/-- What the wrappers read of `hre.config.tre`. `none` is a `containerName` or
`jarPath` that is not truthy. -/
structure TreConfig where
  containerName : Option String
  jarPath : Option String
  keepRunning : Bool
  readinessTimeoutMs : Nat

structure Wrapper where
  tre : TreConfig
  networkUrl : String

inductive ReadinessProbe where
  | ready
  | notYet
  | deadline

/-- What a step of a wrapper meets outside. -/
structure WrapperEnv where
  reachable : Bool
  /-- The random part of `defaultContainerName`. -/
  random : String
  /-- The absolute form of `jarPath`, and whether it exists. -/
  jar : String × Bool
  run : RunOutcome
  probe : ReadinessProbe
  logs : String
  /-- The error the wrapped task ends with. -/
  task : Option String

/-- Where a wrapper stands. -/
inductive WrapperPc where
  | called
  /-- Before `containerState(name)`. -/
  | inspect (name : String)
  /-- It was stopped: before `docker rm`. -/
  | removeLeftover (name : String)
  | spawn (name : String)
  | waitForReady (name : String)
  /-- In the `catch`, before `docker rm -f`. -/
  | notReady (name : String) (message : String)
  /-- Around the task, with the name of the container it spawned. -/
  | around (spawned : Option String)
  | teardown (name : String) (result : Option String)
  | ended (error : Option String)

/-- Why this process removes a container. -/
inductive Removal where
  | leftover
  | notReady
  | teardown
  deriving DecidableEq

inductive LifecycleEvent where
  | removed (c : Container) (wrapper : Nat) (why : Removal)
  | quiet

/-- The host: docker, the `_launched` of this process, and its wrappers. -/
structure Host where
  docker : DockerDaemon
  launched : OrderedMap String String
  wrappers : Nat → WrapperPc

def Host.goto (s : Host) (w : Nat) (pc : WrapperPc) : Host := { s with wrappers := Function.update s.wrappers w pc }

/-- `docker rm`, which refuses a running container unless it is forced. -/
def Host.rm (s : Host) (force : Bool) (name : String) (w : Nat) (why : Removal) : LifecycleEvent × Host :=
  match s.docker.named name with
  | none => (.quiet, s)
  | some c =>
    if c.running && !force then (.quiet, s)
    else (.removed c w why, { s with docker := s.docker.set name none })

def defaultContainerName (pid random : String) : String := "hardhat-tron-" ++ pid ++ "-" ++ random

/-- `teardown`'s loop: the urls of the container are forgotten. -/
def forgetLaunched (launched : OrderedMap String String) (name : String) : OrderedMap String String :=
  (launched.keys.filter fun url => launched.get? url = some name).foldl OrderedMap.remove launched

/-- `buildRunArgs` throws for a jar that is not there. -/
def jarError (cfg : TreConfig) (v : WrapperEnv) : Option String :=
  if cfg.jarPath.isSome && !v.jar.2 then some ("tre.jarPath points at a file that does not exist: " ++ v.jar.1)
  else none

/-- The next step of wrapper `w`: `ensureUp`, then the task, then `teardown`. -/
def Host.wrapperStep (pid : String) (cfg : Wrapper) (s : Host) (w : Nat) (v : WrapperEnv) :
    WrapperPc → Option (LifecycleEvent × Host)
  | .called =>
    if v.reachable then some (.quiet, s.goto w (.around none))
    else
      match cfg.tre.containerName with
      | some name => some (.quiet, s.goto w (.inspect name))
      | none => some (.quiet, s.goto w (.spawn (defaultContainerName pid v.random)))
  | .inspect name =>
    if containerState s.docker name = some .stopped then some (.quiet, s.goto w (.removeLeftover name))
    else some (.quiet, s.goto w (.spawn name))
  | .removeLeftover name => some ((s.goto w (.spawn name)).rm false name w .leftover)
  | .spawn name =>
    match jarError cfg.tre v with
    | some message => some (.quiet, s.goto w (.ended (some message)))
    | none =>
      match s.docker.run name (some w) v.run with
      | (none, d) => some (.quiet, { s with docker := d }.goto w (.waitForReady name))
      | (some stderr, d) =>
        some (.quiet, { s with docker := d }.goto w (.ended (some ("docker run failed: " ++ stderr))))
  | .waitForReady name =>
    match v.probe with
    | .ready =>
      some (.quiet, { s with launched := s.launched.put cfg.networkUrl name }.goto w (.around (some name)))
    | .notYet => some (.quiet, s)
    | .deadline =>
      let message := "TRE did not become ready at " ++ cfg.networkUrl ++ " within " ++
        toString cfg.tre.readinessTimeoutMs ++ "ms (last: null)\n--- " ++ name ++ " logs ---\n" ++ v.logs
      if !cfg.tre.keepRunning then some (.quiet, s.goto w (.notReady name message))
      else some (.quiet, s.goto w (.ended (some message)))
  | .notReady name message => some ((s.goto w (.ended (some message))).rm true name w .notReady)
  | .around spawned =>
    match spawned with
    | some name =>
      if !cfg.tre.keepRunning then some (.quiet, s.goto w (.teardown name v.task))
      else some (.quiet, s.goto w (.ended v.task))
    | none => some (.quiet, s.goto w (.ended v.task))
  | .teardown name result =>
    if name = "" then some (.quiet, s.goto w (.ended result))
    else
      some (({ s with launched := forgetLaunched s.launched name }.goto w (.ended result)).rm true name w .teardown)
  | .ended _ => none

/-! ## All processes -/

/-- What another process does, to containers this process did not launch. -/
inductive OtherAct where
  | run (name : String) (o : RunOutcome)
  | create (name : String)
  | start (name : String)
  | stop (name : String)
  | remove (name : String)

/-- Change a container that is not ours. -/
def DockerDaemon.foreign (d : DockerDaemon) (name : String) (f : Container → Option Container) : Option DockerDaemon :=
  match d.named name with
  | some c => if c.launchedBy = none then some (d.set name (f c)) else none
  | none => none

def DockerDaemon.other (d : DockerDaemon) : OtherAct → Option DockerDaemon
  | .run name o => some (d.run name none o).2
  | .create name => some (d.run name none (.notStarted "")).2
  | .start name => d.foreign name fun c => some { c with running := true }
  | .stop name => d.foreign name fun c => some { c with running := false }
  | .remove name => d.foreign name fun _ => none

inductive HostAct where
  | wrapper (w : Nat) (v : WrapperEnv)
  | other (a : OtherAct)

def Host.step (pid : String) (cfg : Nat → Wrapper) (s : Host) : HostAct → Option (LifecycleEvent × Host)
  | .wrapper w v => s.wrapperStep pid (cfg w) w v (s.wrappers w)
  | .other a => (s.docker.other a).map fun d => (.quiet, { s with docker := d })

/-- Some names are taken, by running containers or by stopped ones; none is ours,
and every wrapper is about to call `ensureUp`. -/
def startHost (existing : String → Option Bool) : Host where
  docker := ⟨fun name => (existing name).map fun running => ⟨running, none⟩⟩
  launched := .empty
  wrappers _ := .called

/-! ## What may be removed -/

/-- **Only its own.** A running container that goes was launched by this process,
and one it launched goes in the teardown of the wrapper that launched it, or
because it was not ready in time and is not to be kept. -/
def LifecycleEvent.Allowed (cfg : Nat → Wrapper) : LifecycleEvent → Prop
  | .quiet => True
  | .removed c w why =>
    (c.running = true → c.launchedBy ≠ none) ∧
      ∀ v, c.launchedBy = some v → v = w ∧ (why = .teardown ∨ why = .notReady ∧ (cfg v).tre.keepRunning = false)

/-- The name of the container the wrapper has launched and may still remove. -/
def WrapperPc.Holds (name : String) : WrapperPc → Prop
  | .waitForReady n | .notReady n _ | .around (some n) | .teardown n _ => n = name
  | _ => False

structure HostInv (cfg : Nat → Wrapper) (s : Host) : Prop where
  owned : ∀ w name, (s.wrappers w).Holds name → ∃ c, s.docker.named name = some c ∧ c.launchedBy = some w
  running : ∀ name c v, s.docker.named name = some c → c.launchedBy = some v → c.running = true
  notKept : ∀ w name message, s.wrappers w = .notReady name message → (cfg w).tre.keepRunning = false

/-- The containers of the wrappers other than `who` stay, and only `who` launches. -/
structure DockerDaemon.Keeps (d d' : DockerDaemon) (who : Option Nat) : Prop where
  kept : ∀ name c v, d.named name = some c → c.launchedBy = some v → some v ≠ who → d'.named name = some c
  launched : ∀ name c v, d'.named name = some c → c.launchedBy = some v →
    d.named name = some c ∨ some v = who ∧ c.running = true

section

variable {cfg : Nat → Wrapper} {s s' : Host} {d : DockerDaemon} {w : Nat} {who : Option Nat} {pid name : String}

theorem DockerDaemon.keeps_refl (d : DockerDaemon) (who : Option Nat) : d.Keeps d who :=
  ⟨fun _ _ _ h _ _ => h, fun _ _ _ h _ => .inl h⟩

/-- A name may change hands if nobody else of this process has it. -/
theorem DockerDaemon.keeps_set {c' : Option Container}
    (hold : ∀ c v, d.named name = some c → c.launchedBy = some v → some v = who)
    (hnew : ∀ c v, c' = some c → c.launchedBy = some v → some v = who ∧ c.running = true) :
    d.Keeps (d.set name c') who where
  kept n c v hc hv hne := by
    by_cases hn : n = name
    · subst hn
      exact absurd (hold c v hc hv) hne
    · simpa [DockerDaemon.set, hn] using hc
  launched n c v hc hv := by
    by_cases hn : n = name
    · subst hn
      exact .inr (hnew c v (by simpa [DockerDaemon.set] using hc) hv)
    · exact .inl (by simpa [DockerDaemon.set, hn] using hc)

theorem DockerDaemon.keeps_run (d : DockerDaemon) (name : String) (launchedBy : Option Nat) (o : RunOutcome) :
    d.Keeps (d.run name launchedBy o).2 launchedBy := by
  unfold DockerDaemon.run
  split
  · exact d.keeps_refl _
  · rename_i hfree
    apply DockerDaemon.keeps_set
    · simp [hfree]
    · rintro c v hc hv
      obtain rfl := Option.some.inj hc
      exact ⟨hv.symm, rfl⟩
  · rename_i hfree
    apply DockerDaemon.keeps_set
    · simp [hfree]
    · rintro c v hc hv
      obtain rfl := Option.some.inj hc
      cases hv
  · exact d.keeps_refl _

theorem DockerDaemon.run_started {d' : DockerDaemon} {o : RunOutcome} (h : d.run name who o = (none, d')) :
    d'.named name = some ⟨true, who⟩ := by
  unfold DockerDaemon.run at h
  split at h <;> simp only [Prod.mk.injEq, reduceCtorEq, false_and] at h
  obtain ⟨-, rfl⟩ := h
  simp [DockerDaemon.set]

theorem DockerDaemon.keeps_foreign {d' : DockerDaemon} {f : Container → Option Container}
    (hf : ∀ c c', f c = some c' → c'.launchedBy = c.launchedBy) (h : d.foreign name f = some d') : d.Keeps d' none := by
  unfold DockerDaemon.foreign at h
  split at h
  · rename_i c hc
    split at h
    · rename_i hn
      obtain rfl := Option.some.inj h
      apply DockerDaemon.keeps_set
      · intro c₁ v h₁ hv
        obtain rfl := Option.some.inj (hc.symm.trans h₁)
        rw [hn] at hv
        cases hv
      · intro c₁ v h₁ hv
        rw [hf c c₁ h₁, hn] at hv
        cases hv
    · cases h
  · cases h

/-- Other processes leave our containers alone. -/
theorem DockerDaemon.keeps_other {d' : DockerDaemon} {a : OtherAct} (h : d.other a = some d') : d.Keeps d' none := by
  cases a with
  | run name o =>
    obtain rfl := Option.some.inj h
    exact d.keeps_run name none o
  | create name =>
    obtain rfl := Option.some.inj h
    exact d.keeps_run name none _
  | start name => exact DockerDaemon.keeps_foreign (by rintro c _ ⟨⟩; rfl) h
  | stop name => exact DockerDaemon.keeps_foreign (by rintro c _ ⟨⟩; rfl) h
  | remove name => exact DockerDaemon.keeps_foreign (by rintro c _ ⟨⟩) h

/-! ## What a wrapper does -/

/-- A step of wrapper `w` as docker sees it. -/
structure WrapperEffect (cfg : Nat → Wrapper) (s s' : Host) (w : Nat) (ev : LifecycleEvent) (pc : WrapperPc) :
    Prop where
  allowed : ev.Allowed cfg
  keeps : s.docker.Keeps s'.docker (some w)
  moved : s'.wrappers = Function.update s.wrappers w pc
  holds : ∀ name, pc.Holds name → ∃ c, s'.docker.named name = some c ∧ c.launchedBy = some w
  notKept : ∀ name message, pc = .notReady name message → (cfg w).tre.keepRunning = false

/-- A step that leaves docker alone and holds what it held. -/
theorem WrapperEffect.of_goto (hi : HostInv cfg s) {pc : WrapperPc} (hd : s'.docker = s.docker)
    (hw : s'.wrappers = Function.update s.wrappers w pc) (hholds : ∀ name, pc.Holds name → (s.wrappers w).Holds name)
    (hkept : ∀ name message, pc = .notReady name message → (cfg w).tre.keepRunning = false) :
    WrapperEffect cfg s s' w .quiet pc where
  allowed := trivial
  keeps := by
    rw [hd]
    exact DockerDaemon.keeps_refl _ _
  moved := hw
  holds name h := by
    rw [hd]
    exact hi.owned w name (hholds name h)
  notKept := hkept

/-- A forced removal hits the container the wrapper holds. -/
theorem WrapperEffect.of_forced (hi : HostInv cfg s) (name : String) (why : Removal) {t : Host} {pc : WrapperPc}
    (hold : (s.wrappers w).Holds name) (hd : t.docker = s.docker)
    (hw : t.wrappers = Function.update s.wrappers w pc) (hpc : ∀ n, ¬ pc.Holds n)
    (hwhy : why = .teardown ∨ why = .notReady ∧ (cfg w).tre.keepRunning = false) :
    WrapperEffect cfg s (t.rm true name w why).2 w (t.rm true name w why).1 pc := by
  obtain ⟨c, hc, hown⟩ := hi.owned w name hold
  have hrm : t.rm true name w why = (.removed c w why, { t with docker := t.docker.set name none }) := by
    simp [Host.rm, hd, hc]
  rw [hrm]
  refine ⟨⟨?_, ?_⟩, ?_, hw, fun n h => (hpc n h).elim, ?_⟩
  · intro _
    simp [hown]
  · intro v hv
    obtain rfl : w = v := Option.some.inj (hown.symm.trans hv)
    exact ⟨rfl, hwhy⟩
  · rw [hd]
    apply DockerDaemon.keeps_set
    · intro c₁ v h₁ hv
      obtain rfl := Option.some.inj (hc.symm.trans h₁)
      exact hv.symm.trans hown
    · simp
  · rintro n message rfl
    exact (hpc n rfl).elim

/-- An unforced one hits a stopped container, and ours are running. -/
theorem WrapperEffect.of_leftover (hi : HostInv cfg s) (name : String) {t : Host} {pc : WrapperPc}
    (hd : t.docker = s.docker) (hw : t.wrappers = Function.update s.wrappers w pc) (hpc : ∀ n, ¬ pc.Holds n) :
    WrapperEffect cfg s (t.rm false name w .leftover).2 w (t.rm false name w .leftover).1 pc := by
  have hkept : ∀ n message, pc = .notReady n message → (cfg w).tre.keepRunning = false := by
    rintro n message rfl
    exact (hpc n rfl).elim
  unfold Host.rm
  split
  · exact .of_goto hi hd hw (fun n h => (hpc n h).elim) hkept
  · rename_i c hc
    split
    · exact .of_goto hi hd hw (fun n h => (hpc n h).elim) hkept
    · rename_i hstopped
      replace hstopped : c.running = false := by simpa using hstopped
      rw [hd] at hc
      have hforeign : ∀ v, c.launchedBy ≠ some v := by
        intro v hv
        rw [hi.running name c v hc hv] at hstopped
        cases hstopped
      refine ⟨⟨?_, fun v hv => (hforeign v hv).elim⟩, ?_, hw, fun n h => (hpc n h).elim, hkept⟩
      · rw [hstopped]
        rintro ⟨⟩
      · rw [hd]
        apply DockerDaemon.keeps_set
        · intro c₁ v h₁ hv
          obtain rfl := Option.some.inj (hc.symm.trans h₁)
          exact (hforeign v hv).elim
        · simp

/-- A step that only moves on to a place where nothing is held. -/
theorem WrapperEffect.of_some (hi : HostInv cfg s) {t : Host} {ev : LifecycleEvent} {pc : WrapperPc}
    (h : some (LifecycleEvent.quiet, t) = some (ev, s')) (hd : t.docker = s.docker)
    (hw : t.wrappers = Function.update s.wrappers w pc) (hholds : ∀ name, pc.Holds name → (s.wrappers w).Holds name)
    (hkept : ∀ name message, pc = .notReady name message → (cfg w).tre.keepRunning = false) :
    WrapperEffect cfg s s' w ev pc := by
  obtain ⟨rfl, rfl⟩ := Prod.mk.inj (Option.some.inj h)
  exact .of_goto hi hd hw hholds hkept

theorem Host.wrapperStep_effect {v : WrapperEnv} {ev : LifecycleEvent} (hi : HostInv cfg s)
    (h : s.wrapperStep pid (cfg w) w v (s.wrappers w) = some (ev, s')) : ∃ pc, WrapperEffect cfg s s' w ev pc := by
  cases hpc : s.wrappers w with
  | called =>
    simp only [Host.wrapperStep, hpc] at h
    split at h
    · exact ⟨_, .of_some hi h rfl rfl (fun _ => False.elim) (by simp)⟩
    · split at h <;> exact ⟨_, .of_some hi h rfl rfl (fun _ => False.elim) (by simp)⟩
  | inspect name =>
    simp only [Host.wrapperStep, hpc] at h
    split at h <;> exact ⟨_, .of_some hi h rfl rfl (fun _ => False.elim) (by simp)⟩
  | removeLeftover name =>
    simp only [Host.wrapperStep, hpc, Option.some.injEq] at h
    have heffect := WrapperEffect.of_leftover hi name (t := s.goto w (.spawn name)) rfl rfl fun _ => id
    rw [h] at heffect
    exact ⟨_, heffect⟩
  | spawn name =>
    simp only [Host.wrapperStep, hpc] at h
    split at h
    · exact ⟨_, .of_some hi h rfl rfl (fun _ => False.elim) (by simp)⟩
    · have hkeeps := s.docker.keeps_run name (some w) v.run
      split at h <;> rename_i d hrun <;> rw [hrun] at hkeeps <;>
        obtain ⟨rfl, rfl⟩ := Prod.mk.inj (Option.some.inj h)
      · refine ⟨.waitForReady name, trivial, hkeeps, rfl, ?_, by simp⟩
        rintro n rfl
        exact ⟨_, DockerDaemon.run_started hrun, rfl⟩
      · exact ⟨_, trivial, hkeeps, rfl, fun _ => False.elim, by simp⟩
  | waitForReady name =>
    simp only [Host.wrapperStep, hpc] at h
    split at h
    · exact ⟨_, .of_some hi h rfl rfl (by rw [hpc]; exact fun _ => id) (by simp)⟩
    · have hstay := (Function.update_eq_self w s.wrappers).symm
      exact ⟨s.wrappers w, .of_some hi h rfl hstay (fun _ => id) (by simp [hpc])⟩
    · split at h
      · rename_i hkeep
        refine ⟨_, .of_some hi h rfl rfl (by rw [hpc]; exact fun _ => id) fun _ _ _ => by simpa using hkeep⟩
      · exact ⟨_, .of_some hi h rfl rfl (fun _ => False.elim) (by simp)⟩
  | notReady name message =>
    simp only [Host.wrapperStep, hpc, Option.some.injEq] at h
    have heffect := WrapperEffect.of_forced hi name .notReady
      (t := s.goto w (.ended (some message))) (by rw [hpc]; rfl) rfl rfl (fun _ => id)
      (.inr ⟨rfl, hi.notKept w name message hpc⟩)
    rw [h] at heffect
    exact ⟨_, heffect⟩
  | around spawned =>
    cases spawned with
    | none =>
      simp only [Host.wrapperStep, hpc] at h
      exact ⟨_, .of_some hi h rfl rfl (fun _ => False.elim) (by simp)⟩
    | some name =>
      simp only [Host.wrapperStep, hpc] at h
      split at h
      · exact ⟨_, .of_some hi h rfl rfl (by rw [hpc]; exact fun _ => id) (by simp)⟩
      · exact ⟨_, .of_some hi h rfl rfl (fun _ => False.elim) (by simp)⟩
  | teardown name result =>
    simp only [Host.wrapperStep, hpc] at h
    split at h
    · exact ⟨_, .of_some hi h rfl rfl (fun _ => False.elim) (by simp)⟩
    · have heffect := WrapperEffect.of_forced hi name .teardown
        (t := { s with launched := forgetLaunched s.launched name }.goto w (.ended result)) (by rw [hpc]; rfl) rfl rfl
        (fun _ => id) (.inl rfl)
      rw [Option.some.inj h] at heffect
      exact ⟨_, heffect⟩
  | ended error => simp [Host.wrapperStep, hpc] at h

/-! ## Every run -/

theorem hostInv_start (cfg : Nat → Wrapper) (existing : String → Option Bool) : HostInv cfg (startHost existing) where
  owned w name h := h.elim
  running name c v hc hv := by
    obtain ⟨running, -, rfl⟩ := Option.map_eq_some_iff.1 hc
    cases hv
  notKept w name message h := by cases h

/-- What docker keeps is enough while the wrappers hold what is theirs. -/
theorem HostInv.of_keeps (hi : HostInv cfg s) (hkeeps : s.docker.Keeps s'.docker who)
    (hothers : ∀ w, some w ≠ who → s'.wrappers w = s.wrappers w)
    (hwho : ∀ w, some w = who → (∀ name, (s'.wrappers w).Holds name →
        ∃ c, s'.docker.named name = some c ∧ c.launchedBy = some w) ∧
      ∀ name message, s'.wrappers w = .notReady name message → (cfg w).tre.keepRunning = false) : HostInv cfg s' where
  owned w name h := by
    by_cases hw : some w = who
    · exact (hwho w hw).1 name h
    · rw [hothers w hw] at h
      obtain ⟨c, hc, hown⟩ := hi.owned w name h
      exact ⟨c, hkeeps.kept name c w hc hown hw, hown⟩
  running name c v hc hv := by
    rcases hkeeps.launched name c v hc hv with hold | ⟨-, hrunning⟩
    · exact hi.running name c v hold hv
    · exact hrunning
  notKept w name message h := by
    by_cases hw : some w = who
    · exact (hwho w hw).2 name message h
    · rw [hothers w hw] at h
      exact hi.notKept w name message h

theorem HostInv.step {a : HostAct} {ev : LifecycleEvent} (hi : HostInv cfg s)
    (h : s.step pid cfg a = some (ev, s')) : HostInv cfg s' ∧ ev.Allowed cfg := by
  cases a with
  | wrapper w v =>
    obtain ⟨pc, heffect⟩ := Host.wrapperStep_effect hi h
    refine ⟨hi.of_keeps heffect.keeps ?_ ?_, heffect.allowed⟩
    · intro w' hw'
      rw [heffect.moved, Function.update_of_ne fun he => hw' (congrArg some he)]
    · rintro w' hw'
      obtain rfl := Option.some.inj hw'
      rw [heffect.moved, Function.update_self]
      exact ⟨heffect.holds, heffect.notKept⟩
  | other a =>
    obtain ⟨d, hother, heq⟩ := Option.map_eq_some_iff.1 h
    obtain ⟨rfl, rfl⟩ := Prod.mk.inj heq
    exact ⟨hi.of_keeps (DockerDaemon.keeps_other hother) (fun _ _ => rfl) (fun w hw => by cases hw), trivial⟩

/-- **Only its own.** In every run, whatever other processes do in between to
containers that were not launched here, every removal by this process is an
allowed one. -/
theorem removes_own {existing : String → Option Bool} {h}
    (hr : Run (Host.step pid cfg) (fun _ _ => True) (startHost existing) h s) : ∀ e ∈ h, e.2.Allowed cfg := by
  have hinv : HostInv cfg s ∧ ∀ e ∈ h, e.2.Allowed cfg := by
    apply Run.inv (fun h s => HostInv cfg s ∧ ∀ e ∈ h, e.2.Allowed cfg) ⟨hostInv_start cfg existing, by simp⟩ _ hr
    rintro h s c ev s' _ ⟨hi, hh⟩ - hst
    obtain ⟨hi', hev⟩ := hi.step hst
    refine ⟨hi', ?_⟩
    intro e he
    rcases List.mem_append.1 he with he | he
    · exact hh e he
    · rw [List.mem_singleton.1 he]
      exact hev
  exact hinv.2

end

/-- A wrapper that is configured to use the name `tre`. -/
def namedWrapper : Wrapper := ⟨⟨some "tre", none, false, 60000⟩, "http://127.0.0.1:9090/jsonrpc"⟩

/-- Nothing answers before the spawn, which goes well. -/
def freshStart : HostAct := .wrapper 0 ⟨false, "", ("", true), .started, .ready, "", none⟩

/-- A stopped container has the name: it goes, and so does the one launched in its place. -/
theorem removes_own_after_leftover : ∃ h s,
    Run (Host.step "7" fun _ => namedWrapper) (fun _ _ => True)
      (startHost fun name => if name = "tre" then some false else none) h s ∧
    h.map Prod.snd = [.quiet, .quiet, .removed ⟨false, none⟩ 0 .leftover, .quiet, .quiet, .quiet,
      .removed ⟨true, some 0⟩ 0 .teardown] ∧
    ∀ e ∈ h, e.2.Allowed fun _ => namedWrapper := by
  have hp : play (Host.step "7" fun _ => namedWrapper) (fun _ _ => True)
    (startHost fun name => if name = "tre" then some false else none) (List.replicate 7 freshStart) = some (_, _) := rfl
  exact ⟨_, _, .of_play hp, rfl, removes_own (.of_play hp)⟩

end HardhatTron

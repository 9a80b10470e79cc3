import HardhatTron.Tre.Lifecycle
/-!
# The wrappers of `test`, `compile` and `node`

The three tasks are wrapped alike: each brings the container up when it is told
to start one, and runs the task. `test` and `compile` take the container down
again unless it is to be kept, `node` leaves it. `hardhat test` runs `compile`
inside its own wrapper, so wrappers of several kinds are under way in one process.

`tasks_remove_own`: with any wrappers under way at once, each removes what it
launched itself, for the reasons its kind and its configuration give, and a
container that is ready and to be left is running for good, as long as other
processes leave it alone and it does not exit.
-/
namespace HardhatTron

open Lib

/-! ## The three tasks -/

inductive TaskKind where
  | test
  | compile
  | node
  deriving DecidableEq

/-- What `shouldAutoStart` reads of `hre`: of `config.tre`, where a field that is
not set is `none`, and of the network. -/
structure AutoStartConfig where
  autoStart : Bool
  autoStartOnTest : Option Bool
  autoStartOnCompile : Bool
  autoStartOnNode : Option Bool
  tron : Bool

def shouldAutoStart (hre : AutoStartConfig) : TaskKind → Bool
  | .test => hre.autoStart && hre.autoStartOnTest ≠ some false && hre.tron
  | .compile => hre.autoStart && hre.autoStartOnCompile && hre.tron
  | .node => hre.autoStart && hre.autoStartOnNode ≠ some false && hre.tron

structure TaskWrapper extends Wrapper where
  kind : TaskKind
  hre : AutoStartConfig

namespace TaskWrapper

def starts (cfg : TaskWrapper) : Bool := shouldAutoStart cfg.hre cfg.kind

/-- A container that is ready is left when the task ends. -/
def leaves (cfg : TaskWrapper) : Bool := cfg.kind = .node || cfg.tre.keepRunning

end TaskWrapper

/-- The next step of the wrapper of a task. -/
def Host.taskStep (pid : String) (cfg : TaskWrapper) (s : Host) (w : Nat) (v : WrapperEnv) :
    WrapperPc → Option (LifecycleEvent × Host)
  | .called =>
    if cfg.starts then s.wrapperStep pid cfg.toWrapper w v .called else some (.quiet, s.goto w (.around none))
  | .around spawned =>
    if cfg.kind = .node then some (.quiet, s.goto w (.ended v.task))
    else s.wrapperStep pid cfg.toWrapper w v (.around spawned)
  | pc => s.wrapperStep pid cfg.toWrapper w v pc

def Host.tasksStep (pid : String) (cfg : Nat → TaskWrapper) (s : Host) : HostAct → Option (LifecycleEvent × Host)
  | .wrapper w v => s.taskStep pid (cfg w) w v (s.wrappers w)
  | .other a => (s.docker.other a).map fun d => (.quiet, { s with docker := d })

/-! ## What is said of them -/

/-- Removed by the wrapper that launched it, one that is to start containers:
because it was not ready in time and is not to be kept, or because its task has
ended and it is not to be left. -/
def LifecycleEvent.Due (cfg : Nat → TaskWrapper) : LifecycleEvent → Prop
  | .quiet => True
  | .removed c w why =>
    (cfg w).starts = true ∧ (c.running = true → c.launchedBy = some w) ∧ (∀ v, c.launchedBy = some v → v = w) ∧
      (c.launchedBy = some w → why = .notReady ∧ (cfg w).tre.keepRunning = false ∨
        why = .teardown ∧ (cfg w).leaves = false)

/-- Where the wrapper of a task may stand. -/
def WrapperPc.Fits (cfg : TaskWrapper) : WrapperPc → Prop
  | .called | .around none | .ended _ => True
  | .notReady _ _ => cfg.starts = true ∧ cfg.tre.keepRunning = false
  | .teardown _ _ => cfg.starts = true ∧ cfg.leaves = false
  | _ => cfg.starts = true

structure TasksInv (cfg : Nat → TaskWrapper) (s : Host) : Prop where
  host : HostInv (fun w => (cfg w).toWrapper) s
  fits : ∀ w, (s.wrappers w).Fits (cfg w)

section

variable {cfg : Nat → TaskWrapper} {s s' m : Host} {w : Nat} {pid name : String} {ev : LifecycleEvent}

/-! ## One step -/

@[simp] theorem Host.goto_wrappers (s : Host) (w : Nat) (pc : WrapperPc) : (s.goto w pc).wrappers w = pc :=
  Function.update_self _ _ _

@[simp] theorem Host.rm_wrappers (s : Host) (force : Bool) (name : String) (w : Nat) (why : Removal) :
    (s.rm force name w why).2.wrappers = s.wrappers := by
  unfold Host.rm
  split
  · rfl
  · split <;> rfl

/-- What is removed is removed for the reason that is given. -/
theorem Host.rm_removed {force : Bool} {why why' : Removal} {c : Container} {w' : Nat}
    (h : (s.rm force name w why).1 = .removed c w' why') : w' = w ∧ why' = why := by
  unfold Host.rm at h
  split at h
  · cases h
  · split at h
    · cases h
    · cases h
      exact ⟨rfl, rfl⟩

/-- Beside what the step of a wrapper does to docker. -/
theorem Host.taskStep_effect {v : WrapperEnv} (hi : TasksInv cfg s)
    (h : s.taskStep pid (cfg w) w v (s.wrappers w) = some (ev, s')) :
    ∃ pc, WrapperEffect (fun w => (cfg w).toWrapper) s s' w ev pc := by
  cases hpc : s.wrappers w with
  | called =>
    simp only [Host.taskStep, hpc] at h
    split at h
    · rw [← hpc] at h
      exact Host.wrapperStep_effect hi.host h
    · exact ⟨_, .of_some hi.host h rfl rfl (fun _ => False.elim) (by simp)⟩
  | around spawned =>
    simp only [Host.taskStep, hpc] at h
    split at h
    · exact ⟨_, .of_some hi.host h rfl rfl (fun _ => False.elim) (by simp)⟩
    · rw [← hpc] at h
      exact Host.wrapperStep_effect hi.host h
  | inspect | removeLeftover | spawn | waitForReady | notReady | teardown | ended =>
    simp only [Host.taskStep, hpc] at h
    rw [← hpc] at h
    exact Host.wrapperStep_effect hi.host h

/-- Why the wrapper of a task removes a container. -/
def Removal.Fits (cfg : TaskWrapper) : Removal → Prop
  | .leftover => cfg.starts = true
  | .notReady => cfg.starts = true ∧ cfg.tre.keepRunning = false
  | .teardown => cfg.starts = true ∧ cfg.leaves = false

/-- Where a step leads to, and what it removes. -/
structure FitsEffect (cfg : TaskWrapper) (s' : Host) (w : Nat) (ev : LifecycleEvent) : Prop where
  pc : (s'.wrappers w).Fits cfg
  removed : ∀ c w' why, ev = .removed c w' why → w' = w ∧ why.Fits cfg

theorem FitsEffect.of_quiet {t : TaskWrapper} (h : some (LifecycleEvent.quiet, m) = some (ev, s'))
    (hpc : (m.wrappers w).Fits t) : FitsEffect t s' w ev := by
  obtain ⟨rfl, rfl⟩ := Prod.mk.inj (Option.some.inj h)
  exact ⟨hpc, fun _ _ _ he => by cases he⟩

theorem FitsEffect.of_rm {t : TaskWrapper} {force : Bool} {why : Removal} (h : some (m.rm force name w why) = some (ev, s'))
    (hpc : (m.wrappers w).Fits t) (hwhy : why.Fits t) : FitsEffect t s' w ev := by
  obtain ⟨hev, hs'⟩ := Prod.ext_iff.1 (Option.some.inj h)
  subst hev hs'
  refine ⟨?_, ?_⟩
  · rw [Host.rm_wrappers]
    exact hpc
  · intro c w' why' he
    obtain ⟨rfl, rfl⟩ := Host.rm_removed he
    exact ⟨rfl, hwhy⟩

theorem Host.taskStep_fits {v : WrapperEnv} (hi : TasksInv cfg s)
    (h : s.taskStep pid (cfg w) w v (s.wrappers w) = some (ev, s')) : FitsEffect (cfg w) s' w ev := by
  have hfits := hi.fits w
  cases hpc : s.wrappers w with
  | called =>
    simp only [Host.taskStep, Host.wrapperStep, hpc] at h
    split at h
    · rename_i hstarts
      split at h
      · exact .of_quiet h (by simp [WrapperPc.Fits])
      · split at h <;> exact .of_quiet h (by simpa [WrapperPc.Fits] using hstarts)
    · exact .of_quiet h (by simp [WrapperPc.Fits])
  | inspect name =>
    rw [hpc] at hfits
    simp only [Host.taskStep, Host.wrapperStep, hpc] at h
    split at h <;> exact .of_quiet h (by simpa [WrapperPc.Fits] using hfits)
  | removeLeftover name =>
    rw [hpc] at hfits
    simp only [Host.taskStep, Host.wrapperStep, hpc] at h
    exact .of_rm h (by simpa [WrapperPc.Fits] using hfits) hfits
  | spawn name =>
    rw [hpc] at hfits
    simp only [Host.taskStep, Host.wrapperStep, hpc] at h
    split at h
    · exact .of_quiet h (by simp [WrapperPc.Fits])
    · split at h
      · exact .of_quiet h (by simpa [WrapperPc.Fits] using hfits)
      · exact .of_quiet h (by simp [WrapperPc.Fits])
  | waitForReady name =>
    rw [hpc] at hfits
    simp only [Host.taskStep, Host.wrapperStep, hpc] at h
    split at h
    · exact .of_quiet h (by simpa [WrapperPc.Fits] using hfits)
    · exact .of_quiet h (by rwa [hpc])
    · split at h
      · rename_i hkeep
        rw [Bool.not_eq_true'] at hkeep
        exact .of_quiet h (by simpa [WrapperPc.Fits] using ⟨hfits, hkeep⟩)
      · exact .of_quiet h (by simp [WrapperPc.Fits])
  | notReady name message =>
    rw [hpc] at hfits
    simp only [Host.taskStep, Host.wrapperStep, hpc] at h
    exact .of_rm h (by simp [WrapperPc.Fits]) hfits
  | around spawned =>
    rw [hpc] at hfits
    simp only [Host.taskStep, Host.wrapperStep, hpc] at h
    split at h
    · exact .of_quiet h (by simp [WrapperPc.Fits])
    · rename_i hnode
      split at h
      · split at h
        · rename_i hkeep
          rw [Bool.not_eq_true'] at hkeep
          have hleaves : (cfg w).leaves = false := by simp [TaskWrapper.leaves, hnode, hkeep]
          exact .of_quiet h (by simpa [WrapperPc.Fits, hleaves] using hfits)
        · exact .of_quiet h (by simp [WrapperPc.Fits])
      · exact .of_quiet h (by simp [WrapperPc.Fits])
  | teardown name result =>
    rw [hpc] at hfits
    simp only [Host.taskStep, Host.wrapperStep, hpc] at h
    split at h
    · exact .of_quiet h (by simp [WrapperPc.Fits])
    · exact .of_rm h (by simp [WrapperPc.Fits]) hfits
  | ended error => simp [Host.taskStep, Host.wrapperStep, hpc] at h

/-! ## Every run -/

theorem WrapperEffect.inv {cfg : Nat → Wrapper} {pc : WrapperPc} (hi : HostInv cfg s)
    (heffect : WrapperEffect cfg s s' w ev pc) : HostInv cfg s' := by
  apply hi.of_keeps heffect.keeps
  · intro w' hw'
    rw [heffect.moved, Function.update_of_ne fun he => hw' (congrArg some he)]
  · rintro w' hw'
    obtain rfl := Option.some.inj hw'
    rw [heffect.moved, Function.update_self]
    exact ⟨heffect.holds, heffect.notKept⟩

/-- A removal that is allowed and fits its wrapper is due. -/
theorem due_of_allowed (hallowed : ev.Allowed fun w => (cfg w).toWrapper) (hfits : FitsEffect (cfg w) s' w ev) :
    ev.Due cfg := by
  cases ev with
  | quiet => trivial
  | removed c w' why =>
    obtain ⟨rfl, hwhy⟩ := hfits.removed c w' why rfl
    obtain ⟨hrunning, hown⟩ := hallowed
    have hstarts : (cfg w').starts = true := by
      cases why with
      | leftover => exact hwhy
      | notReady => exact hwhy.1
      | teardown => exact hwhy.1
    refine ⟨hstarts, ?_, fun v hv => (hown v hv).1, ?_⟩
    · intro h
      obtain ⟨v, hv⟩ := Option.ne_none_iff_exists'.1 (hrunning h)
      rw [hv, (hown v hv).1]
    · intro h
      rcases (hown w' h).2 with rfl | ⟨rfl, -⟩
      · exact .inr ⟨rfl, hwhy.2⟩
      · exact .inl ⟨rfl, hwhy.2⟩

theorem TasksInv.step {a : HostAct} (hi : TasksInv cfg s) (h : s.tasksStep pid cfg a = some (ev, s')) :
    TasksInv cfg s' ∧ ev.Due cfg := by
  cases a with
  | wrapper w v =>
    obtain ⟨pc, heffect⟩ := Host.taskStep_effect hi h
    have hfits := Host.taskStep_fits hi h
    refine ⟨⟨heffect.inv hi.host, ?_⟩, due_of_allowed heffect.allowed hfits⟩
    intro w'
    by_cases hw : w' = w
    · rw [hw]
      exact hfits.pc
    · rw [heffect.moved, Function.update_of_ne hw]
      exact hi.fits w'
  | other a =>
    obtain ⟨d, hother, heq⟩ := Option.map_eq_some_iff.1 h
    obtain ⟨rfl, rfl⟩ := Prod.mk.inj heq
    refine ⟨⟨?_, hi.fits⟩, trivial⟩
    exact hi.host.of_keeps (DockerDaemon.keeps_other hother) (fun _ _ => rfl) (fun w hw => by cases hw)

theorem tasksInv_start (cfg : Nat → TaskWrapper) (existing : String → Option Bool) :
    TasksInv cfg (startHost existing) :=
  ⟨hostInv_start _ existing, fun _ => trivial⟩

/-- The container is running and the wrapper is around its task, or past it. -/
def Left (s : Host) (w : Nat) (name : String) : Prop :=
  s.docker.named name = some ⟨true, some w⟩ ∧
    (s.wrappers w = .around (some name) ∨ ∃ result, s.wrappers w = .ended result)

/-- Nobody takes a container away that its wrapper leaves. -/
theorem Left.step {a : HostAct} (hleaves : (cfg w).leaves = true) (hi : TasksInv cfg s) (hl : Left s w name)
    (h : s.tasksStep pid cfg a = some (ev, s')) : Left s' w name := by
  obtain ⟨hc, hpc⟩ := hl
  cases a with
  | wrapper w' v =>
    by_cases hw : w' = w
    · subst hw
      change s.taskStep pid (cfg w') w' v (s.wrappers w') = some (ev, s') at h
      rcases hpc with hpc | ⟨result, hpc⟩
      · rw [hpc] at h
        have hended : s' = s.goto w' (.ended v.task) := by
          simp only [Host.taskStep, Host.wrapperStep] at h
          split at h
          · exact (Prod.mk.inj (Option.some.inj h)).2.symm
          · rename_i hnode
            have hkeep : (cfg w').tre.keepRunning = true := by simpa [TaskWrapper.leaves, hnode] using hleaves
            rw [hkeep] at h
            exact (Prod.mk.inj (Option.some.inj h)).2.symm
        rw [hended]
        exact ⟨hc, .inr ⟨v.task, Host.goto_wrappers _ _ _⟩⟩
      · rw [hpc] at h
        cases h
    · obtain ⟨pc, heffect⟩ := Host.taskStep_effect hi h
      refine ⟨heffect.keeps.kept name _ w hc rfl fun he => hw (Option.some.inj he).symm, ?_⟩
      rw [heffect.moved, Function.update_of_ne fun he => hw he.symm]
      exact hpc
  | other a =>
    obtain ⟨d, hother, heq⟩ := Option.map_eq_some_iff.1 h
    obtain ⟨rfl, rfl⟩ := Prod.mk.inj heq
    exact ⟨(DockerDaemon.keeps_other hother).kept name _ w hc rfl (by simp), hpc⟩

theorem TasksInv.run {h} (hi : TasksInv cfg m) (hr : Run (Host.tasksStep pid cfg) (fun _ _ => True) m h s) :
    TasksInv cfg s ∧ ∀ e ∈ h, e.2.Due cfg := by
  apply Run.inv (fun h s => TasksInv cfg s ∧ ∀ e ∈ h, e.2.Due cfg) ⟨hi, by simp⟩ _ hr
  rintro h s c ev s' _ ⟨hi, hh⟩ - hst
  obtain ⟨hi', hev⟩ := hi.step hst
  refine ⟨hi', ?_⟩
  intro e he
  rcases List.mem_append.1 he with he | he
  · exact hh e he
  · rw [List.mem_singleton.1 he]
    exact hev

theorem Left.run {h} (hleaves : (cfg w).leaves = true) (hi : TasksInv cfg m) (hl : Left m w name)
    (hr : Run (Host.tasksStep pid cfg) (fun _ _ => True) m h s) : Left s w name := by
  have hboth : TasksInv cfg s ∧ Left s w name := by
    apply Run.inv (fun _ s => TasksInv cfg s ∧ Left s w name) ⟨hi, hl⟩ _ hr
    rintro h s c ev s' _ ⟨hi, hl⟩ - hst
    exact ⟨(hi.step hst).1, hl.step hleaves hi hst⟩
  exact hboth.2

/-- The container a wrapper is around is its own, and running. -/
theorem TasksInv.left (hi : TasksInv cfg m) (hpc : m.wrappers w = .around (some name)) : Left m w name := by
  obtain ⟨c, hc, hown⟩ := hi.host.owned w name (by rw [hpc]; rfl)
  have hrunning := hi.host.running name c w hc hown
  refine ⟨?_, .inl hpc⟩
  rw [hc, ← hrunning, ← hown]

/-- **The wrappers of all three tasks.** In every run with any of them under way
at once, whatever other processes do in between to containers that were not
launched here: every removal is due, and a container that a wrapper is around and
leaves is running ever after, since the containers launched here neither exit nor
are touched by others. -/
theorem tasks_remove_own {existing : String → Option Bool} {h₁ h₂}
    (hr₁ : Run (Host.tasksStep pid cfg) (fun _ _ => True) (startHost existing) h₁ m)
    (hr₂ : Run (Host.tasksStep pid cfg) (fun _ _ => True) m h₂ s) :
    (∀ e ∈ h₁ ++ h₂, e.2.Due cfg) ∧
      ∀ w name, (cfg w).leaves = true → m.wrappers w = .around (some name) →
        s.docker.named name = some ⟨true, some w⟩ := by
  obtain ⟨hi, hdue₁⟩ := (tasksInv_start cfg existing).run hr₁
  obtain ⟨-, hdue₂⟩ := hi.run hr₂
  refine ⟨?_, ?_⟩
  · intro e he
    rcases List.mem_append.1 he with he | he
    · exact hdue₁ e he
    · exact hdue₂ e he
  · intro w name hleaves hpc
    exact ((hi.left hpc).run hleaves hi hr₂).1

end

/-- Wrapper 0 is that of `node`, under the name `tre`; the others are of `test`,
under names of their own. -/
def nodeAndTests (w : Nat) : TaskWrapper where
  toWrapper := if w = 0 then namedWrapper else { namedWrapper with tre := { namedWrapper.tre with containerName := none } }
  kind := if w = 0 then .node else .test
  hre := ⟨true, none, false, none, true⟩

/-- The host once the container of `node` is ready. -/
def besideNode : Host where
  docker := (⟨fun _ => none⟩ : DockerDaemon).set "tre" (some ⟨true, some 0⟩)
  launched := OrderedMap.empty.put namedWrapper.networkUrl "tre"
  wrappers := ((((startHost fun _ => none).goto 0 (.inspect "tre")).goto 0 (.spawn "tre")).goto 0
    (.waitForReady "tre")).goto 0 (.around (some "tre")) |>.wrappers

/-- `test` starts while the node's container does not answer. -/
def secondStart : HostAct := .wrapper 1 ⟨false, "b", ("", true), .started, .ready, "", none⟩

/-- The container of `node` is there when the test has taken its own away. -/
theorem tasks_remove_own_beside : ∃ h₁ h₂ s,
    Run (Host.tasksStep "7" nodeAndTests) (fun _ _ => True) (startHost fun _ => none) h₁ besideNode ∧
    Run (Host.tasksStep "7" nodeAndTests) (fun _ _ => True) besideNode h₂ s ∧
    h₂.map Prod.snd = [.quiet, .quiet, .quiet, .quiet, .removed ⟨true, some 1⟩ 1 .teardown] ∧
    s.docker.named "tre" = some ⟨true, some 0⟩ := by
  have hp₁ : play (Host.tasksStep "7" nodeAndTests) (fun _ _ => True) (startHost fun _ => none)
    (List.replicate 4 freshStart) = some (_, besideNode) := rfl
  have hp₂ : play (Host.tasksStep "7" nodeAndTests) (fun _ _ => True) besideNode
    (List.replicate 5 secondStart) = some (_, _) := rfl
  have hr₁ := Run.of_play hp₁
  have hr₂ := Run.of_play hp₂
  exact ⟨_, _, _, hr₁, hr₂, rfl, (tasks_remove_own hr₁ hr₂).2 0 "tre" rfl rfl⟩

end HardhatTron

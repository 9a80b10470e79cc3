import HardhatTron.Runtime.InstanceIdFlight
/-!
# One resolution since the last eviction

A resolution is shared while `_inflight` holds its promise. An eviction takes it
out, and so does the `finally` of any resolution of the url. While no `finally`
takes out the promise of another that is still running, the resolution started
since the last eviction is the only one of them, and every call joins it:
`resolution_shared`. `second_resolution_started` is the run in which one does.
-/
namespace HardhatTron

open Lib

/-! ## Running resolutions in a history -/

/-- The resolution has started and not returned. -/
def IdState.running (s : IdState) (rid : Nat) : Bool := s.resolutions[rid]?.any fun r => r.phase.active

/-- `rid` is a resolution of `url` that started after the last eviction of `url`. -/
def StartedSince (h : List (IdEvent × IdOutput)) (url : String) (rid : Nat) : Prop :=
  ∃ pre post, h = pre ++ (.call url, .started rid) :: post ∧ ∀ out, (.evict url, out) ∉ post

/-- No second resolution of the url runs that started since its last eviction,
and a call that finds no committed id awaits the promise of the one that does. -/
def ResolutionShared (h : List (IdEvent × IdOutput)) (s : IdState) : Prop :=
  ∀ url rid, StartedSince h url rid → s.running rid = true →
    (∀ rid', StartedSince h url rid' → s.running rid' = true → rid' = rid) ∧
    ((∀ id, s._instanceIdCache url ≠ some (.committed id)) → instanceId s url = (.joined rid, s))

theorem StartedSince.started {h : List (IdEvent × IdOutput)} {url : String} {rid : Nat} (hs : StartedSince h url rid) :
    Started h url rid := by
  obtain ⟨pre, post, rfl, -⟩ := hs
  exact List.mem_append_right _ (List.mem_cons_self ..)

/-- What the last step of a history adds: a start, or no eviction. -/
theorem StartedSince.snoc {h : List (IdEvent × IdOutput)} {ev : IdEvent} {out : IdOutput} {url : String} {rid : Nat}
    (hs : StartedSince (h ++ [(ev, out)]) url rid) :
    (StartedSince h url rid ∧ ev ≠ .evict url) ∨ (ev = .call url ∧ out = .started rid) := by
  obtain ⟨pre, post, heq, hno⟩ := hs
  rcases List.eq_nil_or_concat post with rfl | ⟨post', e, rfl⟩
  · right
    obtain ⟨-, he⟩ := List.append_inj' heq rfl
    cases he
    exact ⟨rfl, rfl⟩
  · left
    rw [List.concat_eq_append, ← List.cons_append, ← List.append_assoc] at heq
    obtain ⟨rfl, he⟩ := List.append_inj' heq rfl
    obtain rfl : (ev, out) = e := by simpa using he
    refine ⟨⟨pre, post', rfl, fun o hm => hno o (by simp [hm])⟩, ?_⟩
    rintro rfl
    exact hno out (by simp)

/-! ## The promise in flight -/

/-- The `finally` of a resolution deletes no promise of a running one. -/
def keepsRunning (s : IdState) : IdEvent → Bool
  | .cleanup rid =>
    match s.resolutions[rid]? with
    | some r => (s._inflight r.url).all fun j => !s.running j
    | none => true
  | _ => true

/-- The promise of a resolution that runs since the last eviction is in flight. -/
def InFlight (h : List (IdEvent × IdOutput)) (s : IdState) : Prop :=
  ∀ url rid, StartedSince h url rid → s.running rid = true → s._inflight url = some rid

theorem IdState.running_iff {s : IdState} {rid : Nat} :
    s.running rid = true ↔ ∃ r : Resolution, s.resolutions[rid]? = some r ∧ r.phase.active = true := by
  simp [IdState.running, Option.any_eq_true]

/-- A step of the resolution `rid`, which was running, starts no other. -/
theorem IdState.running_of_setPhase {s : IdState} {rid j : Nat} {phase : Phase}
    (hrun : s.running rid = true ∨ phase.active = false) (hj : (s.setPhase rid phase).running j = true) :
    s.running j = true := by
  obtain ⟨r', hr', ha⟩ := running_iff.1 hj
  obtain ⟨r, hr, -, -, -, ⟨rfl, hp⟩ | ⟨-, rfl⟩⟩ := setPhase_getElem? hr'
  · rcases hrun with hrun | hoff
    · exact hrun
    · rw [hp, hoff] at ha
      cases ha
  · exact running_iff.2 ⟨_, hr, ha⟩

theorem IdState.running_of_start {s : IdState} {url : String} {j : Nat} (hlt : j < s.resolutions.length)
    (hj : (s.start url).running j = true) : s.running j = true := by
  obtain ⟨r, hr, ha⟩ := running_iff.1 hj
  rcases start_getElem? hr with hr | ⟨rfl, -⟩
  · exact running_iff.2 ⟨r, hr, ha⟩
  · exact absurd hlt (Nat.lt_irrefl _)

section
variable {h : List (IdEvent × IdOutput)} {s s' : IdState} {ev : IdEvent} {out : IdOutput}

/-- One step, on a history whose resolutions the state knows. -/
theorem inFlight_step (hi : InFlight h s)
    (hknown : ∀ url rid, StartedSince h url rid → ∃ r : Resolution, s.resolutions[rid]? = some r ∧ r.url = url)
    (hok : keepsRunning s ev = true) (hs : idStep s ev = some (out, s')) : InFlight (h ++ [(ev, out)]) s' := by
  intro url rid hsince hrun
  cases idStep_effect hs with
  | returned _ =>
    rcases hsince.snoc with ⟨hold, -⟩ | ⟨-, ho⟩
    · exact hi url rid hold hrun
    · cases ho
  | joined _ _ =>
    rcases hsince.snoc with ⟨hold, -⟩ | ⟨-, ho⟩
    · exact hi url rid hold hrun
    · cases ho
  | @started url' hc hf =>
    show Function.update s._inflight url' _ url = some rid
    rcases hsince.snoc with ⟨hold, -⟩ | ⟨he, ho⟩
    · obtain ⟨r, hr, -⟩ := hknown url rid hold
      have hin := hi url rid hold (IdState.running_of_start (List.getElem?_eq_some_iff.1 hr).1 hrun)
      have hne : url ≠ url' := by
        -- the call found nothing in flight for its url
        rintro rfl
        rw [hf] at hin
        cases hin
      rw [Function.update_of_ne hne]
      exact hin
    · cases he
      cases ho
      exact Function.update_self ..
  | @moved _ _ rid' r phase hr hm =>
    rcases hsince.snoc with ⟨hold, -⟩ | ⟨-, ho⟩
    · exact hi url rid hold (IdState.running_of_setPhase (.inl (IdState.running_iff.2 ⟨r, hr, hm.active.1⟩)) hrun)
    · exact absurd ho (hm.out.2 rid)
  | @settled _ rid' r v hr hv =>
    rw [IdState.settle_inflight]
    have hmoved : (s.setPhase rid' (.settled v.result)).running rid = true := by
      unfold IdState.running at hrun ⊢
      rw [IdState.settle_resolutions] at hrun
      exact hrun
    rcases hsince.snoc with ⟨hold, -⟩ | ⟨-, ho⟩
    · exact hi url rid hold (IdState.running_of_setPhase (.inr rfl) hmoved)
    · cases ho
  | @cleaned rid' r _ hr hp =>
    rcases hsince.snoc with ⟨hold, -⟩ | ⟨-, ho⟩
    · have hcleaned : (s.setPhase rid' .cleaned).running rid = true := hrun
      have hrun : s.running rid = true := IdState.running_of_setPhase (.inr rfl) hcleaned
      have hin := hi url rid hold hrun
      show Function.update s._inflight r.url none url = some rid
      have hne : url ≠ r.url := by
        -- its promise is not the one the `finally` deletes
        rintro rfl
        simp only [keepsRunning, hr, hin, Option.all_some, hrun] at hok
        cases hok
      rw [Function.update_of_ne hne]
      exact hin
    · cases ho
  | @evicted url' =>
    rcases hsince.snoc with ⟨hold, hne⟩ | ⟨he, -⟩
    · show Function.update s._inflight url' none url = some rid
      rw [Function.update_of_ne (by rintro rfl; exact hne rfl)]
      exact hi url rid hold hrun
    · cases he

theorem inFlight_run (hr : IdRun (fun s ev => keepsRunning s ev = true) h s) : InFlight h s := by
  refine Run.inv InFlight ?_ ?_ hr
  · rintro url rid ⟨pre, post, heq, -⟩
    simp at heq
  · intro h s ev out s' hrun hi hok hs
    refine inFlight_step hi (fun url rid hsince => ?_) hok hs
    exact (started_iff hrun url rid).1 hsince.started

/-- What is in flight is what every call that finds no committed id joins. -/
theorem InFlight.shared (hi : InFlight h s) : ResolutionShared h s := by
  intro url rid hsince hrun
  have hin := hi url rid hsince hrun
  constructor
  · intro rid' hsince' hrun'
    exact Option.some.inj ((hi url rid' hsince' hrun').symm.trans hin)
  · intro hc
    unfold instanceId
    split
    · rename_i id hid
      exact absurd hid (hc id)
    · rw [hin]

/-- In every run in which no `finally` deletes the promise of a running resolution. -/
theorem resolution_shared (hr : IdRun (fun s ev => keepsRunning s ev = true) h s) : ResolutionShared h s :=
  (inFlight_run hr).shared

/-! ## The condition is exact -/

theorem StartedSince.append {url : String} {rid : Nat} (hs : StartedSince h url rid) (hne : ev ≠ .evict url) :
    StartedSince (h ++ [(ev, out)]) url rid := by
  obtain ⟨pre, post, rfl, hno⟩ := hs
  refine ⟨pre, post ++ [(ev, out)], by simp, fun o hm => ?_⟩
  rcases List.mem_append.1 hm with hm | hm
  · exact hno o hm
  · obtain ⟨he, -⟩ := Prod.mk.inj (List.mem_singleton.1 hm)
    exact hne he.symm

/-- What is in flight started after the last eviction, which empties the entry. -/
theorem inflight_since {ok : IdState → IdEvent → Prop} (hr : IdRun ok h s) :
    ∀ url rid, s._inflight url = some rid → StartedSince h url rid := by
  refine Run.inv (fun h s => ∀ url rid, s._inflight url = some rid → StartedSince h url rid) (by simp [loadedModule]) ?_ hr
  intro h s ev out s' _ hi _ hs url rid hf
  rcases inflight_cases hs hf with ⟨hf, hne⟩ | ⟨rfl, rfl⟩
  · exact (hi url rid hf).append hne
  · exact ⟨h, [], rfl, by simp⟩

/-- After a `finally`, a call of its url that finds no committed id starts a resolution. -/
theorem call_after_cleanup {rid : Nat} {r : Resolution} (hs : idStep s (.cleanup rid) = some (out, s'))
    (hr : s.resolutions[rid]? = some r) (hc : ∀ id, s._instanceIdCache r.url ≠ some (.committed id)) :
    (∀ j, s.running j = true → s'.running j = true) ∧ ∃ k, (instanceId s' r.url).1 = .started k := by
  cases idStep_effect hs with
  | moved _ hm => cases hm
  | settled _ hv => cases hv
  | @cleaned _ r' _ hr' hp =>
    obtain rfl : r = r' := Option.some.inj (hr.symm.trans hr')
    constructor
    · intro j hj
      obtain ⟨rj, hrj, ha⟩ := IdState.running_iff.1 hj
      have hne : rid ≠ j := by
        -- the resolution that is cleaned up has returned
        rintro rfl
        obtain rfl : r = rj := Option.some.inj (hr.symm.trans hrj)
        rw [hp] at ha
        cases ha
      refine IdState.running_iff.2 ⟨rj, ?_, ha⟩
      simp [IdState.setPhase, hne, hrj]
    · unfold instanceId
      split
      · rename_i id hid
        exact absurd hid (hc id)
      · simp only [Function.update_self]
        exact ⟨_, rfl⟩

/-- While the url has no committed id, a `finally` keeps the resolutions shared
only if it deletes no promise of a running one. -/
theorem cleanup_shared_iff (hr : IdRun (fun s ev => keepsRunning s ev = true) h s) {rid : Nat} {r : Resolution}
    (hs : idStep s (.cleanup rid) = some (out, s')) (hrid : s.resolutions[rid]? = some r)
    (hc : ∀ id, s._instanceIdCache r.url ≠ some (.committed id)) :
    ResolutionShared (h ++ [(.cleanup rid, out)]) s' ↔ keepsRunning s (.cleanup rid) = true := by
  constructor
  · intro hshared
    simp only [keepsRunning, hrid, Option.all_eq_true, Bool.not_eq_true']
    intro j hj
    by_contra hrun
    have hrun : s.running j = true := by simpa using hrun
    obtain ⟨hkeeps, k, hk⟩ := call_after_cleanup hs hrid hc
    have hsince : StartedSince (h ++ [(.cleanup rid, out)]) r.url j := (inflight_since hr r.url j hj).append (by simp)
    have hcall := (hshared r.url j hsince (hkeeps j hrun)).2 ?_
    · rw [hcall] at hk
      cases hk
    · cases idStep_effect hs with
      | moved _ hm => cases hm
      | settled _ hv => cases hv
      | cleaned _ _ => exact hc
  · intro hok
    exact (inFlight_run (Run.snoc (IdEvent.cleanup rid) hr hok hs)).shared

end

/-! ## Two runs -/

/-- `resolution_shared` on two calls before the answer, one of them after an eviction. -/
theorem call_joins_resolution :
    ∃ h s, IdRun (fun s ev => keepsRunning s ev = true) h s ∧ ResolutionShared h s ∧ s.running 1 = true ∧
      h.getLast? = some (.call localUrl, .joined 1) := by
  obtain ⟨⟨h, s⟩, hp⟩ : ∃ p, play idStep (fun s ev => keepsRunning s ev = true) loadedModule
    [.call localUrl, .respond 0 served, .evict localUrl, .call localUrl, .call localUrl] = some p := ⟨_, rfl⟩
  have hr : IdRun (fun s ev => keepsRunning s ev = true) h s := Run.of_play hp
  refine ⟨h, s, hr, resolution_shared hr, ?_⟩
  obtain ⟨rfl, rfl⟩ := Prod.mk.inj (Option.some.inj hp)
  exact ⟨rfl, rfl⟩

/-- Resolution 0 is evicted; its `finally` deletes the promise of resolution 1, and the next call starts resolution 2. -/
def deletedPromise : List (IdEvent × IdOutput) :=
  [(.call localUrl, .started 0), (.evict localUrl, .done), (.call localUrl, .started 1),
    (.respond 0 served, .answered (some servedId)),
    (.resume 0 noDocker, .settled ⟨.ok servedId, false, none, false, none⟩), (.cleanup 0, .done),
    (.call localUrl, .started 2)]

theorem second_resolution_started : ∃ s, IdRun (fun _ _ => True) deletedPromise s ∧
    ¬ ResolutionShared deletedPromise s := by
  obtain ⟨s, hp⟩ : ∃ s, play idStep (fun _ _ => True) loadedModule (deletedPromise.map Prod.fst) =
    some (deletedPromise, s) := ⟨_, rfl⟩
  refine ⟨s, Run.of_play hp, fun hshared => ?_⟩
  have hrun : s.running 1 = true ∧ s.running 2 = true := by
    obtain ⟨-, rfl⟩ := Prod.mk.inj (Option.some.inj hp)
    exact ⟨rfl, rfl⟩
  have hfirst : StartedSince deletedPromise localUrl 1 :=
    ⟨deletedPromise.take 2, deletedPromise.drop 3, rfl, by simp [deletedPromise]⟩
  have hsecond : StartedSince deletedPromise localUrl 2 := ⟨deletedPromise.take 6, [], rfl, by simp⟩
  have h := (hshared localUrl 1 hfirst hrun.1).1 2 hsecond hrun.2
  cases h

end HardhatTron

import HardhatTron.Runtime.InstanceId
import Mathlib.Data.List.Basic
/-!
# One resolution at a time

`IdEffect` lists what a step can do. While the `finally` of an evicted
resolution does not delete its successor's promise, at most one resolution of
the current generation is running, so nothing is written over a committed id:
`committed_id_stays`. `second_resolution_overwrites` is the run in which it does.
-/
namespace HardhatTron

open Lib

/-! ## What a step does -/

/-- The resolution has not returned yet. -/
def Phase.active : Phase → Bool
  | .settled _ => false
  | .cleaned => false
  | _ => true

/-- The resolution an event belongs to. -/
def IdEvent.rid : IdEvent → Option Nat
  | .respond rid _ => some rid
  | .wake rid => some rid
  | .resume rid _ => some rid
  | .genesis rid _ => some rid
  | .cleanup rid => some rid
  | _ => none

/-- The object of a provisional entry. -/
def IdState.object (s : IdState) (cached : Option Nat) : Option Provisional := cached.bind (s.objects[·]?)

/-- The resolution `r` goes from one `await` to the next. -/
inductive Moves (s : IdState) (rid : Nat) (r : Resolution) : IdEvent → IdOutput → Phase → Prop
  | attempt {attempt reply} : r.phase = .probing attempt →
      Moves s rid r (.respond rid reply) (nodeServedInstanceId attempt reply).1 (nodeServedInstanceId attempt reply).2
  | woken {attempt} : r.phase = .sleeping attempt → Moves s rid r (.wake rid) .woken (.probing (attempt + 1))
  | readsGenesis {probe docker} : r.phase = .probed probe → s.object r.cached = none →
      afterProbe r.url (s.evicted r) probe docker = none → Moves s rid r (.resume rid docker) .readsGenesis (.genesis probe)

/-- The last segment of `r` ends with a verdict. -/
inductive Ends (s : IdState) (rid : Nat) (r : Resolution) : IdEvent → Verdict → Prop
  | reprobed {probe docker o} : r.phase = .probed probe → s.object r.cached = some o →
      Ends s rid r (.resume rid docker) (afterReprobe r.url (s.evicted r) o probe)
  | probed {probe docker v} : r.phase = .probed probe → s.object r.cached = none →
      afterProbe r.url (s.evicted r) probe docker = some v → Ends s rid r (.resume rid docker) v
  | readGenesis {probe reply} : r.phase = .genesis probe →
      Ends s rid r (.genesis rid reply) (afterGenesis r.url (s.evicted r) probe reply)

inductive IdEffect (s : IdState) : IdEvent → IdOutput → IdState → Prop
  | returned {url id} : s._instanceIdCache url = some (.committed id) → IdEffect s (.call url) (.returned id) s
  | joined {url rid} : (∀ id, s._instanceIdCache url ≠ some (.committed id)) → s._inflight url = some rid →
      IdEffect s (.call url) (.joined rid) s
  | started {url} : (∀ id, s._instanceIdCache url ≠ some (.committed id)) → s._inflight url = none →
      IdEffect s (.call url) (.started s.resolutions.length) (s.start url)
  | moved {ev out rid r phase} : s.resolutions[rid]? = some r → Moves s rid r ev out phase →
      IdEffect s ev out (s.setPhase rid phase)
  | settled {ev rid r v} : s.resolutions[rid]? = some r → Ends s rid r ev v →
      IdEffect s ev (.settled v) (s.settle rid r v)
  | cleaned {rid r result} : s.resolutions[rid]? = some r → r.phase = .settled result →
      IdEffect s (.cleanup rid) .done
        { s.setPhase rid .cleaned with _inflight := Function.update s._inflight r.url none }
  | evicted {url} : IdEffect s (.evict url) .done (evictInstanceId s url)

theorem idStep_effect {s s' : IdState} {ev : IdEvent} {out : IdOutput} (h : idStep s ev = some (out, s')) :
    IdEffect s ev out s' := by
  cases ev with
  | call url =>
    simp only [idStep, Option.some.injEq] at h
    unfold instanceId at h
    split at h
    · rename_i id hc
      cases h
      exact .returned hc
    · rename_i hc
      split at h
      · rename_i rid hf
        cases h
        exact .joined hc hf
      · rename_i hf
        cases h
        exact .started hc hf
  | evict url =>
    cases h
    exact .evicted
  | respond rid reply =>
    simp only [idStep] at h
    split at h
    · rename_i hr
      cases h
      exact .moved hr (.attempt rfl)
    · cases h
  | wake rid =>
    simp only [idStep] at h
    split at h
    · rename_i hr
      cases h
      exact .moved hr (.woken rfl)
    · cases h
  | resume rid docker =>
    simp only [idStep] at h
    split at h
    · rename_i url gen cached probe hr
      simp only [HardhatTron.resume, Option.some.injEq] at h
      split at h
      · rename_i o ho
        cases h
        exact .settled hr (.reprobed rfl ho)
      · rename_i ho
        split at h
        · rename_i v hv
          cases h
          exact .settled hr (.probed rfl ho hv)
        · rename_i hv
          cases h
          exact .moved hr (.readsGenesis rfl ho hv)
    · cases h
  | genesis rid reply =>
    simp only [idStep] at h
    split at h
    · rename_i hr
      cases h
      exact .settled hr (.readGenesis rfl)
    · cases h
  | cleanup rid =>
    simp only [idStep] at h
    split at h
    · rename_i hr
      cases h
      exact .cleaned hr rfl
    · cases h

/-! ## The verdicts -/

theorem finish_evicted (probe : Probe) (id : String) (tiers : Bool) :
    (finish true probe id tiers).write = none ∧ (finish true probe id tiers).decrement = false := ⟨rfl, rfl⟩

theorem finish_result (evicted : Bool) (probe : Probe) (id : String) (tiers : Bool) :
    (finish evicted probe id tiers).result = .ok id ∧ (finish evicted probe id tiers).tiers = tiers := by
  unfold finish
  split
  · exact ⟨rfl, rfl⟩
  · split <;> exact ⟨rfl, rfl⟩

theorem afterReprobe_result (url : String) (evicted : Bool) (cached : Provisional) (probe : Probe) :
    (∃ id, (afterReprobe url evicted cached probe).result = .ok id) ∧
      (afterReprobe url evicted cached probe).tiers = false := by
  simp only [afterReprobe]
  split
  · exact ⟨⟨_, rfl⟩, rfl⟩
  · split
    · exact ⟨⟨_, rfl⟩, rfl⟩
    · split <;> exact ⟨⟨_, rfl⟩, rfl⟩

/-- A resolution whose url was evicted writes nothing. -/
theorem Ends.evicted {s : IdState} {rid : Nat} {r : Resolution} {ev : IdEvent} {v : Verdict} (h : Ends s rid r ev v)
    (he : s.evicted r = true) : v.write = none ∧ v.decrement = false := by
  cases h with
  | reprobed _ _ =>
    rw [he]
    exact ⟨rfl, rfl⟩
  | @probed probe docker v _ _ hv =>
    rw [he] at hv
    unfold afterProbe at hv
    split at hv
    · cases hv
      exact finish_evicted _ _ _
    · split at hv
      · split at hv
        · cases hv
          exact ⟨rfl, rfl⟩
        · cases hv
          exact finish_evicted _ _ _
      · split at hv
        · cases hv
          exact finish_evicted _ _ _
        · cases hv
  | @readGenesis probe reply _ =>
    rw [he]
    unfold afterGenesis
    split
    · exact ⟨rfl, rfl⟩
    · split
      · exact ⟨rfl, rfl⟩
      · exact finish_evicted _ _ _

theorem Ends.active {s : IdState} {rid : Nat} {r : Resolution} {ev : IdEvent} {v : Verdict} (h : Ends s rid r ev v) :
    r.phase.active = true ∧ ev.rid = some rid := by
  cases h with
  | reprobed hp _ => exact ⟨by rw [hp]; rfl, rfl⟩
  | probed hp _ _ => exact ⟨by rw [hp]; rfl, rfl⟩
  | readGenesis hp => exact ⟨by rw [hp]; rfl, rfl⟩

theorem nodeServedInstanceId_active (attempt : Nat) (reply : ProbeReply) :
    (nodeServedInstanceId attempt reply).2.active = true := by
  unfold nodeServedInstanceId
  split
  · rfl
  · split
    · rfl
    · split <;> rfl

theorem Moves.active {s : IdState} {rid : Nat} {r : Resolution} {ev : IdEvent} {out : IdOutput} {phase : Phase}
    (h : Moves s rid r ev out phase) : r.phase.active = true ∧ phase.active = true ∧ ev.rid = some rid := by
  cases h with
  | attempt hp => exact ⟨by rw [hp]; rfl, nodeServedInstanceId_active _ _, rfl⟩
  | woken hp => exact ⟨by rw [hp]; rfl, rfl, rfl⟩
  | readsGenesis hp _ _ => exact ⟨by rw [hp]; rfl, rfl, rfl⟩

/-- Only a last segment settles, and only a call starts a resolution. -/
theorem Moves.out {s : IdState} {rid : Nat} {r : Resolution} {ev : IdEvent} {out : IdOutput} {phase : Phase}
    (h : Moves s rid r ev out phase) : (∀ v, out ≠ .settled v) ∧ ∀ rid, out ≠ .started rid := by
  cases h with
  | @attempt attempt reply _ =>
    unfold nodeServedInstanceId
    split
    · simp
    · split
      · simp
      · split <;> simp
  | woken _ => simp
  | readsGenesis _ _ _ => simp

theorem idStep_settled {s s' : IdState} {ev : IdEvent} {v : Verdict} (h : idStep s ev = some (.settled v, s')) :
    ∃ rid r, ev.rid = some rid ∧ s.resolutions[rid]? = some r ∧ Ends s rid r ev v ∧ s' = s.settle rid r v := by
  have heff := idStep_effect h
  generalize hout : IdOutput.settled v = out at heff
  cases heff with
  | moved _ hm => exact absurd hout.symm (hm.out.1 v)
  | @settled _ rid r v' hr hv =>
    cases hout
    exact ⟨rid, r, hv.active.2, hr, hv, rfl⟩
  | _ => cases hout

/-! ## The state after a step -/

namespace IdState

variable (s : IdState)

@[simp] theorem setPhase_cache (rid : Nat) (phase : Phase) :
    (s.setPhase rid phase)._instanceIdCache = s._instanceIdCache := rfl

@[simp] theorem setPhase_inflight (rid : Nat) (phase : Phase) : (s.setPhase rid phase)._inflight = s._inflight := rfl

@[simp] theorem setPhase_evictGen (rid : Nat) (phase : Phase) : (s.setPhase rid phase)._evictGen = s._evictGen := rfl

@[simp] theorem setPhase_objects (rid : Nat) (phase : Phase) : (s.setPhase rid phase).objects = s.objects := rfl

@[simp] theorem write_resolutions (url : String) (w : Option CacheWrite) :
    (s.write url w).resolutions = s.resolutions := by
  rcases w with _ | (_ | _) <;> rfl

@[simp] theorem write_inflight (url : String) (w : Option CacheWrite) : (s.write url w)._inflight = s._inflight := by
  rcases w with _ | (_ | _) <;> rfl

@[simp] theorem write_evictGen (url : String) (w : Option CacheWrite) : (s.write url w)._evictGen = s._evictGen := by
  rcases w with _ | (_ | _) <;> rfl

theorem write_cache_of_ne {url url' : String} (h : url' ≠ url) (w : Option CacheWrite) :
    (s.write url w)._instanceIdCache url' = s._instanceIdCache url' := by
  rcases w with _ | (_ | _)
  · rfl
  · exact Function.update_of_ne h _ _
  · exact Function.update_of_ne h _ _

@[simp] theorem countDown_resolutions (cached : Option Nat) (d : Bool) :
    (s.countDown cached d).resolutions = s.resolutions := by
  cases cached <;> cases d <;> rfl

@[simp] theorem countDown_inflight (cached : Option Nat) (d : Bool) :
    (s.countDown cached d)._inflight = s._inflight := by
  cases cached <;> cases d <;> rfl

@[simp] theorem countDown_evictGen (cached : Option Nat) (d : Bool) :
    (s.countDown cached d)._evictGen = s._evictGen := by
  cases cached <;> cases d <;> rfl

@[simp] theorem countDown_cache (cached : Option Nat) (d : Bool) :
    (s.countDown cached d)._instanceIdCache = s._instanceIdCache := by
  cases cached <;> cases d <;> rfl

@[simp] theorem settle_inflight (rid : Nat) (r : Resolution) (v : Verdict) :
    (s.settle rid r v)._inflight = s._inflight := by
  simp [settle]

@[simp] theorem settle_evictGen (rid : Nat) (r : Resolution) (v : Verdict) :
    (s.settle rid r v)._evictGen = s._evictGen := by
  simp [settle]

theorem settle_cache_of_ne {url : String} (rid : Nat) (r : Resolution) (v : Verdict) (h : url ≠ r.url) :
    (s.settle rid r v)._instanceIdCache url = s._instanceIdCache url := by
  simp [settle, write_cache_of_ne _ h]

theorem settle_cache_none (rid : Nat) (r : Resolution) (v : Verdict) (h : v.write = none) :
    (s.settle rid r v)._instanceIdCache = s._instanceIdCache := by
  simp [settle, h, write]

theorem settle_cache_commit (rid : Nat) (r : Resolution) (v : Verdict) {id : String} (h : v.write = some (.commit id)) :
    (s.settle rid r v)._instanceIdCache r.url = some (.committed id) := by
  simp [settle, h, write]

theorem settle_resolutions (rid : Nat) (r : Resolution) (v : Verdict) :
    (s.settle rid r v).resolutions = (s.setPhase rid (.settled v.result)).resolutions := by
  simp [settle, setPhase]

variable {s}

/-- Where a resolution of the new state comes from. -/
theorem setPhase_getElem? {rid j : Nat} {phase : Phase} {r' : Resolution}
    (h : (s.setPhase rid phase).resolutions[j]? = some r') :
    ∃ r, s.resolutions[j]? = some r ∧ r'.url = r.url ∧ r'.gen = r.gen ∧ r'.cached = r.cached ∧
      ((j = rid ∧ r'.phase = phase) ∨ (j ≠ rid ∧ r' = r)) := by
  simp only [setPhase, List.getElem?_modify, Option.map_eq_map, Option.map_eq_some_iff] at h
  obtain ⟨r, hr, rfl⟩ := h
  refine ⟨r, hr, ?_⟩
  by_cases hj : rid = j
  · simp [hj]
  · simp [hj, Ne.symm hj]

theorem resolveInstanceId_url (url : String) : (s.resolveInstanceId url).url = url ∧
    (s.resolveInstanceId url).gen = s._evictGen url := by
  unfold resolveInstanceId
  split <;> exact ⟨rfl, rfl⟩

theorem start_getElem? {url : String} {j : Nat} {r : Resolution} (h : (s.start url).resolutions[j]? = some r) :
    s.resolutions[j]? = some r ∨ (j = s.resolutions.length ∧ r = s.resolveInstanceId url) := by
  simp only [start] at h
  rw [List.getElem?_append] at h
  split at h
  · exact .inl h
  · rename_i hj
    obtain ⟨hlt, rfl⟩ := List.getElem?_eq_some_iff.1 h
    simp only [List.length_singleton] at hlt
    exact .inr ⟨by omega, by simp⟩

end IdState

/-! ## The resolutions of a run -/

/-- What never changes of a resolution. -/
def Resolution.origin (r : Resolution) : String × Nat × Option Nat := (r.url, r.gen, r.cached)

def IdState.origins (s : IdState) : List (String × Nat × Option Nat) := s.resolutions.map Resolution.origin

theorem setPhase_origins (s : IdState) (rid : Nat) (phase : Phase) : (s.setPhase rid phase).origins = s.origins := by
  apply List.ext_getElem?
  intro j
  simp only [IdState.origins, IdState.setPhase, List.getElem?_map, List.getElem?_modify, Option.map_eq_map]
  cases s.resolutions[j]? with
  | none => rfl
  | some r => by_cases h : rid = j <;> simp [h, Resolution.origin]

/-- A step starts one resolution, under the next number, or none. -/
theorem idStep_origins {s s' : IdState} {ev : IdEvent} {out : IdOutput} (hs : idStep s ev = some (out, s')) :
    (∃ url, ev = .call url ∧ out = .started s.resolutions.length ∧
      s'.origins = s.origins ++ [(s.resolveInstanceId url).origin]) ∨
    ((∀ rid, out ≠ .started rid) ∧ s'.origins = s.origins) := by
  cases idStep_effect hs with
  | returned _ => exact .inr ⟨by simp, rfl⟩
  | joined _ _ => exact .inr ⟨by simp, rfl⟩
  | started _ _ => exact .inl ⟨_, rfl, rfl, by simp [IdState.origins, IdState.start]⟩
  | moved _ hm =>
    exact .inr ⟨hm.out.2, setPhase_origins _ _ _⟩
  | @settled _ rid r v _ _ =>
    refine .inr ⟨by simp, ?_⟩
    rw [IdState.origins, IdState.settle_resolutions]
    exact setPhase_origins s rid _
  | cleaned _ _ => exact .inr ⟨by simp, setPhase_origins s _ _⟩
  | evicted => exact .inr ⟨by simp, rfl⟩

/-- The call that started the resolution `rid` of `url` is in `h`. -/
def Started (h : List (IdEvent × IdOutput)) (url : String) (rid : Nat) : Prop := (.call url, .started rid) ∈ h

/-- The resolutions a run starts are the new ones of its last state, in order. -/
theorem run_origins {ok : IdState → IdEvent → Prop} {m s : IdState} {h : List (IdEvent × IdOutput)}
    (hr : Run idStep ok m h s) : m.origins <+: s.origins ∧ ∀ url rid, Started h url rid ↔
      m.resolutions.length ≤ rid ∧ ∃ r : Resolution, s.resolutions[rid]? = some r ∧ r.url = url := by
  have hlen : ∀ s : IdState, s.origins.length = s.resolutions.length := fun s => List.length_map _
  have horigin : ∀ (s : IdState) (url : String) (rid : Nat), (∃ r : Resolution, s.resolutions[rid]? = some r ∧ r.url = url) ↔
      ∃ o : String × Nat × Option Nat, s.origins[rid]? = some o ∧ o.1 = url := by
    intro s url rid
    simp [IdState.origins, Resolution.origin]
  simp only [horigin, ← hlen]
  refine Run.inv (fun h s => m.origins <+: s.origins ∧ ∀ url rid, Started h url rid ↔
      m.origins.length ≤ rid ∧ ∃ o : String × Nat × Option Nat, s.origins[rid]? = some o ∧ o.1 = url) ?_ ?_ hr
  · refine ⟨List.prefix_rfl, fun url rid => ⟨fun h => by simp [Started] at h, ?_⟩⟩
    rintro ⟨hle, o, ho, -⟩
    rw [List.getElem?_eq_none hle] at ho
    cases ho
  · rintro h s ev out s' - ⟨hpre, hst⟩ - hs
    rcases idStep_origins hs with ⟨url', rfl, rfl, ho⟩ | ⟨hne, ho⟩
    · refine ⟨ho ▸ hpre.trans (List.prefix_append _ _), fun url rid => ?_⟩
      have hle := hpre.length_le
      simp only [Started, List.mem_append, List.mem_singleton, Prod.mk.injEq, IdEvent.call.injEq,
        IdOutput.started.injEq, ← hlen] at hst ⊢
      rw [hst, ho, List.getElem?_append]
      constructor
      · rintro (⟨h1, o, h2, h3⟩ | ⟨rfl, rfl⟩)
        · rw [if_pos (List.getElem?_eq_some_iff.1 h2).1]
          exact ⟨h1, o, h2, h3⟩
        · refine ⟨hle, ?_⟩
          rw [if_neg (Nat.lt_irrefl _), Nat.sub_self]
          exact ⟨_, rfl, (IdState.resolveInstanceId_url _).1⟩
      · rintro ⟨h1, o, h2, h3⟩
        split at h2
        · exact .inl ⟨h1, o, h2, h3⟩
        · rename_i hge
          have hone := (List.getElem?_eq_some_iff.1 h2).1
          rw [List.length_singleton] at hone
          have hrid : rid = s.origins.length := by omega
          subst hrid
          rw [Nat.sub_self] at h2
          cases h2
          exact .inr ⟨h3.symm.trans (IdState.resolveInstanceId_url _).1, rfl⟩
    · refine ⟨ho ▸ hpre, fun url rid => ?_⟩
      rw [ho, ← hst, Started, Started, List.mem_append, List.mem_singleton]
      apply or_iff_left
      intro heq
      exact hne rid (Prod.mk.inj heq).2.symm

/-- A resolution keeps its origin. -/
theorem run_origin {ok : IdState → IdEvent → Prop} {m s : IdState} {h : List (IdEvent × IdOutput)}
    (hr : Run idStep ok m h s) {rid : Nat} {r : Resolution} (hrid : m.resolutions[rid]? = some r) :
    ∃ r', s.resolutions[rid]? = some r' ∧ r'.origin = r.origin := by
  obtain ⟨rest, hrest⟩ := (run_origins hr).1
  have ho : m.origins[rid]? = some r.origin := by simp [IdState.origins, hrid]
  have ho' : s.origins[rid]? = some r.origin := by
    rw [← hrest, List.getElem?_append_left (List.getElem?_eq_some_iff.1 ho).1]
    exact ho
  rw [IdState.origins, List.getElem?_map] at ho'
  exact Option.map_eq_some_iff.1 ho'

theorem started_iff {ok : IdState → IdEvent → Prop} {s : IdState} {h : List (IdEvent × IdOutput)} (hr : IdRun ok h s)
    (url : String) (rid : Nat) : Started h url rid ↔ ∃ r : Resolution, s.resolutions[rid]? = some r ∧ r.url = url := by
  rw [(run_origins hr).2]
  simp [loadedModule]

/-- What is in flight after a step was so before, and its url is not evicted, or the step started it. -/
theorem inflight_cases {s s' : IdState} {ev : IdEvent} {out : IdOutput} (hs : idStep s ev = some (out, s'))
    {url : String} {rid : Nat} (hf : s'._inflight url = some rid) :
    (s._inflight url = some rid ∧ ev ≠ .evict url) ∨ (ev = .call url ∧ out = .started rid) := by
  cases idStep_effect hs with
  | returned _ => exact .inl ⟨hf, by simp⟩
  | joined _ _ => exact .inl ⟨hf, by simp⟩
  | started _ _ =>
    rcases update_eq_some hf with ⟨rfl, hrid⟩ | ⟨-, hf⟩
    · cases hrid
      exact .inr ⟨rfl, rfl⟩
    · exact .inl ⟨hf, by simp⟩
  | moved _ hm => exact .inl ⟨hf, by rintro rfl; cases hm.active.2.2⟩
  | settled _ hv =>
    rw [IdState.settle_inflight] at hf
    exact .inl ⟨hf, by rintro rfl; cases hv.active.2⟩
  | cleaned _ _ => exact .inl ⟨(update_none_eq_some hf).2, by simp⟩
  | evicted =>
    obtain ⟨hne, hf⟩ := update_none_eq_some hf
    exact .inl ⟨hf, fun he => hne (IdEvent.evict.inj he).symm⟩

/-- What is in flight for a url is a resolution of that url. -/
theorem inflight_known {ok : IdState → IdEvent → Prop} {s : IdState} {h : List (IdEvent × IdOutput)}
    (hr : IdRun ok h s) : ∀ url rid, s._inflight url = some rid → Started h url rid := by
  refine Run.inv (fun h s => ∀ url rid, s._inflight url = some rid → Started h url rid) (by simp [loadedModule]) ?_ hr
  intro h s ev out s' _ hi _ hs url rid hf
  rcases inflight_cases hs hf with ⟨hf, -⟩ | ⟨rfl, rfl⟩
  · exact List.mem_append_left _ (hi url rid hf)
  · exact List.mem_append_right _ (List.mem_singleton.2 rfl)

/-- A call that is not answered from the cache shares a resolution of its url. -/
theorem call_shares {ok : IdState → IdEvent → Prop} {s s' : IdState} {h : List (IdEvent × IdOutput)} {url : String}
    {out : IdOutput} {rid : Nat} (hr : IdRun ok h s) (hs : idStep s (.call url) = some (out, s'))
    (hout : out = .started rid ∨ out = .joined rid) : Started (h ++ [(.call url, out)]) url rid := by
  rcases hout with rfl | rfl
  · exact List.mem_append_right _ (List.mem_singleton.2 rfl)
  · generalize hout : IdOutput.joined rid = out at hs
    cases idStep_effect hs with
    | joined _ hf =>
      cases hout
      exact List.mem_append_left _ (inflight_known hr url _ hf)
    | returned _ => cases hout
    | started _ _ => cases hout
    | moved _ hm => cases hm
    | settled _ hv => cases hv

/-! ## At most one resolution of the current generation -/

/-- The `finally` of a resolution finds no other promise in flight, and the url
has been evicted fewer than `2 ^ 53` times before an eviction. -/
def coalesces (s : IdState) : IdEvent → Bool
  | .cleanup rid =>
    match s.resolutions[rid]? with
    | some r => s._inflight r.url == none || s._inflight r.url == some rid
    | none => true
  | .evict url => decide (s._evictGen url < 2 ^ 53)
  | _ => true

structure Flight (s : IdState) : Prop where
  gens : ∀ (rid : Nat) (r : Resolution), s.resolutions[rid]? = some r → r.gen ≤ s._evictGen r.url
  single : ∀ (rid : Nat) (r : Resolution), s.resolutions[rid]? = some r → r.phase.active = true → r.gen = s._evictGen r.url →
    s._inflight r.url = some rid
  quiet : ∀ url id, s._instanceIdCache url = some (.committed id) → ∀ (rid : Nat) (r : Resolution), s.resolutions[rid]? = some r →
    r.url = url → r.phase.active = true → r.gen ≠ s._evictGen url

theorem flight_loaded : Flight loadedModule where
  gens := by simp [loadedModule]
  single := by simp [loadedModule]
  quiet := by simp [loadedModule]

theorem Flight.start {s : IdState} (h : Flight s) {url : String} (hf : s._inflight url = none)
    (hc : ∀ id, s._instanceIdCache url ≠ some (.committed id)) : Flight (s.start url) where
  gens := by
    intro rid r hr
    rcases IdState.start_getElem? hr with hr | ⟨-, rfl⟩
    · exact h.gens rid r hr
    · rw [(IdState.resolveInstanceId_url url).1, (IdState.resolveInstanceId_url url).2]
      exact Nat.le_refl _
  single := by
    intro rid r hr ha hg
    show Function.update s._inflight url _ r.url = _
    rcases IdState.start_getElem? hr with hr | ⟨rfl, rfl⟩
    · have hin := h.single rid r hr ha hg
      have hne : r.url ≠ url := by
        rintro rfl
        rw [hf] at hin
        cases hin
      rw [Function.update_of_ne hne]
      exact hin
    · rw [(IdState.resolveInstanceId_url url).1, Function.update_self]
  quiet := by
    intro url' id hid rid r hr hu ha
    rcases IdState.start_getElem? hr with hr | ⟨-, rfl⟩
    · exact h.quiet url' id hid rid r hr hu ha
    · rw [(IdState.resolveInstanceId_url url).1] at hu
      exact absurd hid (hu ▸ hc id)

/-- A step that changes one phase, and no other running resolution. -/
theorem Flight.setPhase {s : IdState} (h : Flight s) {rid : Nat} {r : Resolution} (hr : s.resolutions[rid]? = some r)
    (ha : r.phase.active = true) (phase : Phase) : Flight (s.setPhase rid phase) where
  gens := by
    intro j r' hr'
    obtain ⟨r₀, hr₀, hu, hg, -⟩ := IdState.setPhase_getElem? hr'
    rw [hg, hu]
    exact h.gens j r₀ hr₀
  single := by
    intro j r' hr' ha' hg'
    obtain ⟨r₀, hr₀, hu, hg, -, ⟨rfl, -⟩ | ⟨-, rfl⟩⟩ := IdState.setPhase_getElem? hr'
    · obtain rfl : r = r₀ := Option.some.inj (hr.symm.trans hr₀)
      rw [hu]
      exact h.single j r hr ha (by rw [← hg, ← hu]; exact hg')
    · exact h.single j _ hr₀ ha' hg'
  quiet := by
    intro url id hid j r' hr' hu' ha'
    obtain ⟨r₀, hr₀, hu, hg, -, ⟨rfl, -⟩ | ⟨-, rfl⟩⟩ := IdState.setPhase_getElem? hr'
    · obtain rfl : r = r₀ := Option.some.inj (hr.symm.trans hr₀)
      rw [hg]
      exact h.quiet url id hid j r hr (hu ▸ hu') ha
    · exact h.quiet url id hid j _ hr₀ hu' ha'

/-- A resolution that settles was the only one running, so its commit is unchallenged. -/
theorem Flight.settle {s : IdState} (h : Flight s) {rid : Nat} {r : Resolution} {ev : IdEvent} {v : Verdict}
    (hr : s.resolutions[rid]? = some r) (hv : Ends s rid r ev v) : Flight (s.settle rid r v) := by
  obtain ⟨ha, -⟩ := hv.active
  have hmoved := h.setPhase hr ha (.settled v.result)
  refine ⟨?_, ?_, ?_⟩
  · intro j r' hr'
    rw [IdState.settle_resolutions] at hr'
    rw [IdState.settle_evictGen]
    exact hmoved.gens j r' hr'
  · intro j r' hr' ha' hg'
    rw [IdState.settle_resolutions] at hr'
    rw [IdState.settle_evictGen] at hg'
    rw [IdState.settle_inflight]
    exact hmoved.single j r' hr' ha' hg'
  · intro url id hid j r' hr' hu' ha' hg'
    rw [IdState.settle_resolutions] at hr'
    rw [IdState.settle_evictGen] at hg'
    by_cases hw : v.write = none
    · rw [IdState.settle_cache_none _ _ _ _ hw] at hid
      exact hmoved.quiet url id hid j r' hr' hu' ha' hg'
    · by_cases hurl : url = r.url
      · -- it wrote, so it was of the current generation, and in flight
        have hcur : r.gen = s._evictGen r.url := by
          by_contra hne
          exact hw (hv.evicted (by simp [IdState.evicted, Ne.symm hne])).1
        have hin := h.single rid r hr ha hcur
        have hin' := hmoved.single j r' hr' ha' (by rw [hu']; exact hg')
        rw [hu', hurl] at hin'
        have hj : rid = j := Option.some.inj (hin.symm.trans hin')
        obtain ⟨r₀, hr₀, -, -, -, ⟨-, hp⟩ | ⟨hne, -⟩⟩ := IdState.setPhase_getElem? hr'
        · rw [hp] at ha'
          cases ha'
        · exact hne hj.symm
      · rw [IdState.settle_cache_of_ne _ _ _ _ hurl] at hid
        exact hmoved.quiet url id hid j r' hr' hu' ha' hg'

theorem Flight.cleaned {s : IdState} (h : Flight s) {rid : Nat} {r : Resolution}
    (hf : s._inflight r.url = none ∨ s._inflight r.url = some rid) :
    Flight { s.setPhase rid .cleaned with _inflight := Function.update s._inflight r.url none } where
  gens := by
    intro j r' hr'
    obtain ⟨r₀, hr₀, hu, hg, -⟩ := IdState.setPhase_getElem? hr'
    show r'.gen ≤ s._evictGen r'.url
    rw [hg, hu]
    exact h.gens j r₀ hr₀
  single := by
    intro j r' hr' ha' hg'
    obtain ⟨r₀, hr₀, hu, hg, -, ⟨rfl, hp'⟩ | ⟨hj, rfl⟩⟩ := IdState.setPhase_getElem? hr'
    · rw [hp'] at ha'
      cases ha'
    · have hin := h.single j _ hr₀ ha' hg'
      have hne : r'.url ≠ r.url := by
        intro hu
        rw [hu] at hin
        rcases hf with hf | hf
        · rw [hf] at hin
          cases hin
        · exact hj (Option.some.inj (hin.symm.trans hf))
      show Function.update s._inflight r.url none r'.url = _
      rw [Function.update_of_ne hne]
      exact hin
  quiet := by
    intro url id hid j r' hr' hu' ha'
    obtain ⟨r₀, hr₀, hu, hg, -, ⟨rfl, hp'⟩ | ⟨-, rfl⟩⟩ := IdState.setPhase_getElem? hr'
    · rw [hp'] at ha'
      cases ha'
    · exact h.quiet url id hid j _ hr₀ hu' ha'

theorem Flight.evict {s : IdState} (h : Flight s) {url : String} (hg : s._evictGen url < 2 ^ 53) :
    Flight (evictInstanceId s url) := by
  have hnext : toDouble (s._evictGen url + 1) = s._evictGen url + 1 := toDouble_of_le hg
  refine ⟨?_, ?_, ?_⟩
  · intro rid r hr
    have hle := h.gens rid r hr
    show r.gen ≤ Function.update s._evictGen url _ r.url
    by_cases hu : r.url = url
    · rw [hu, Function.update_self, hnext]
      rw [hu] at hle
      omega
    · rw [Function.update_of_ne hu]
      exact hle
  · intro rid r hr ha hgen
    have hle := h.gens rid r hr
    change r.gen = Function.update s._evictGen url _ r.url at hgen
    show Function.update s._inflight url none r.url = some rid
    by_cases hu : r.url = url
    · rw [hu, Function.update_self, hnext] at hgen
      rw [hu] at hle
      omega
    · rw [Function.update_of_ne hu] at hgen ⊢
      exact h.single rid r hr ha hgen
  · intro url' id hid rid r hr hu ha
    obtain ⟨hu', hid⟩ := update_none_eq_some hid
    show r.gen ≠ Function.update s._evictGen url _ url'
    rw [Function.update_of_ne hu']
    exact h.quiet url' id hid rid r hr hu ha

theorem flight_step {s s' : IdState} {ev : IdEvent} {out : IdOutput} (h : Flight s) (hok : coalesces s ev = true)
    (hs : idStep s ev = some (out, s')) : Flight s' := by
  cases idStep_effect hs with
  | returned _ => exact h
  | joined _ _ => exact h
  | started hc hf => exact h.start hf hc
  | moved hr hm => exact h.setPhase hr hm.active.1 _
  | settled hr hv => exact h.settle hr hv
  | cleaned hr _ =>
    apply h.cleaned
    simpa [coalesces, hr] using hok
  | evicted => exact h.evict (of_decide_eq_true hok)

theorem flight_run {h : List (IdEvent × IdOutput)} {s : IdState}
    (hr : IdRun (fun s ev => coalesces s ev = true) h s) : Flight s :=
  Run.inv (fun _ s => Flight s) flight_loaded (fun _ _ _ _ _ _ hi hok hs => flight_step hi hok hs) hr

/-! ## A committed id stays -/

/-- From a commit to the next eviction, every call returns the committed id at
once and no resolution of the url writes its entry. -/
def CommittedStays (h : List (IdEvent × IdOutput)) : Prop :=
  ∀ url pre ev v id rid mid ev' out' post,
    h = pre ++ (ev, .settled v) :: (mid ++ (ev', out') :: post) → ev.rid = some rid → Started pre url rid →
    v.write = some (.commit id) → (∀ out, (.evict url, out) ∉ mid) →
    (ev' = .call url → out' = .returned id) ∧
    ∀ rid' v', ev'.rid = some rid' → Started h url rid' → out' = .settled v' → v'.write = none ∧ v'.decrement = false

/-- While the url is not evicted, a committed entry is not written. -/
theorem committed_step {s s' : IdState} {ev : IdEvent} {out : IdOutput} (h : Flight s) {url id : String}
    (hc : s._instanceIdCache url = some (.committed id)) (hs : idStep s ev = some (out, s')) (hev : ev ≠ .evict url) :
    s'._instanceIdCache url = some (.committed id) := by
  cases idStep_effect hs with
  | returned _ => exact hc
  | joined _ _ => exact hc
  | started _ _ => exact hc
  | moved _ _ => exact hc
  | @settled _ rid r v hr hv =>
    by_cases hurl : url = r.url
    · have hgen := h.quiet url id hc rid r hr hurl.symm hv.active.1
      have hev : s.evicted r = true := by simpa [IdState.evicted, ← hurl] using hgen.symm
      rw [IdState.settle_cache_none _ _ _ _ (hv.evicted hev).1]
      exact hc
    · rw [IdState.settle_cache_of_ne _ _ _ _ hurl]
      exact hc
  | cleaned _ _ => exact hc
  | @evicted url' =>
    show Function.update s._instanceIdCache url' none url = _
    rw [Function.update_of_ne (by rintro rfl; exact hev rfl)]
    exact hc

/-- In every run in which no `finally` deletes the promise of another
resolution, and no url is evicted more than `2 ^ 53` times. -/
theorem committed_id_stays {h : List (IdEvent × IdOutput)} {s : IdState}
    (hr : IdRun (fun s ev => coalesces s ev = true) h s) : CommittedStays h := by
  rintro url pre ev v id rid mid ev' out' post rfl hrid hstart hw hmid
  obtain ⟨m, m', hpre, hok, hst, hrest⟩ := Run.at hr
  obtain ⟨m₁, m₂, hmidrun, hok', hst', hpost⟩ := Run.at hrest
  have hlater := (Run.snoc ev' .nil hok' hst').append hpost
  have hflight := flight_step (flight_run hpre) hok hst
  -- the commit
  have hcommit : m'._instanceIdCache url = some (.committed id) := by
    obtain ⟨r, hr', hu⟩ := (started_iff hpre url rid).1 hstart
    obtain ⟨rid', r', hrid', hr'', -, rfl⟩ := idStep_settled hst
    obtain rfl : rid = rid' := Option.some.inj (hrid.symm.trans hrid')
    obtain rfl : r = r' := Option.some.inj (hr'.symm.trans hr'')
    rw [← hu]
    exact IdState.settle_cache_commit _ _ _ _ hw
  -- and what the run up to the later step keeps of it
  have hkept : m₁._instanceIdCache url = some (.committed id) ∧ Flight m₁ := by
    refine Run.inv (fun h s => (∀ out, (IdEvent.evict url, out) ∉ h) →
      s._instanceIdCache url = some (.committed id) ∧ Flight s) (fun _ => ⟨hcommit, hflight⟩) ?_ hmidrun hmid
    intro h s c out s' _ hi hok hs hne
    obtain ⟨hc, hf⟩ := hi fun out hm => hne out (List.mem_append_left _ hm)
    refine ⟨committed_step hf hc hs ?_, flight_step hf hok hs⟩
    rintro rfl
    exact hne out (by simp)
  obtain ⟨hc, hf⟩ := hkept
  constructor
  · rintro rfl
    simp only [idStep, instanceId, hc, Option.some.injEq, Prod.mk.injEq] at hst'
    exact hst'.1.symm
  · rintro rid' v' hrid' hstart' rfl
    obtain ⟨rid'', r, hrid'', hr', hv, -⟩ := idStep_settled hst'
    obtain rfl : rid' = rid'' := Option.some.inj (hrid'.symm.trans hrid'')
    obtain rfl : r.url = url := by
      -- the resolution found here is the one whose call the history shows
      obtain ⟨rs, hrs, hu⟩ := (started_iff hr url rid').1 hstart'
      obtain ⟨rs', hrs', ho⟩ := run_origin hlater hr'
      obtain rfl : rs = rs' := Option.some.inj (hrs.symm.trans hrs')
      exact (congrArg Prod.fst ho).symm.trans hu
    have hgen := hf.quiet r.url id hc rid' r hr' rfl hv.active.1
    exact hv.evicted (by simpa [IdState.evicted] using hgen.symm)

/-! ## Two runs -/

def localUrl : String := "http://localhost:9090/jsonrpc"

/-- An id the node serves. -/
def servedId : String := "0x" ++ String.ofList (List.replicate 64 'c')

/-- The node serves its id. -/
def served : ProbeReply := .response 200 (.ok (some servedId))

def timeout : ProbeReply := .throws "TimeoutError"

/-- No container can be attributed to the url. -/
def noDocker : Docker := ⟨none, .error "", none⟩

/-- `committed_id_stays` on a call that resolves the id, and one after it. -/
theorem served_id_stays :
    ∃ h s, IdRun (fun s ev => coalesces s ev = true) h s ∧ CommittedStays h ∧
      h.getLast? = some (.call localUrl, .returned servedId) := by
  obtain ⟨⟨h, s⟩, hp⟩ : ∃ p, play idStep (fun s ev => coalesces s ev = true) loadedModule
    [.call localUrl, .respond 0 served, .resume 0 noDocker, .cleanup 0, .call localUrl] = some p := ⟨_, rfl⟩
  have hr : IdRun (fun s ev => coalesces s ev = true) h s := Run.of_play hp
  refine ⟨h, s, hr, committed_id_stays hr, ?_⟩
  obtain ⟨rfl, rfl⟩ := Prod.mk.inj (Option.some.inj hp)
  rfl

/-- Resolution 0 is evicted, and its `finally` deletes the promise of resolution 1. -/
def beforeCommit : List (IdEvent × IdOutput) :=
  [(.call localUrl, .started 0), (.evict localUrl, .done), (.call localUrl, .started 1),
    (.respond 0 served, .answered (some servedId)),
    (.resume 0 noDocker, .settled ⟨.ok servedId, false, none, false, none⟩), (.cleanup 0, .done),
    (.call localUrl, .started 2), (.respond 1 served, .answered (some servedId))]

/-- Resolution 2, which a third call started, gets no answer. -/
def afterCommit : List (IdEvent × IdOutput) :=
  [(.respond 2 timeout, .retrying), (.wake 2, .woken), (.respond 2 timeout, .unanswered),
    (.resume 2 noDocker, .readsGenesis)]

/-- Resolution 1 commits the served id, and resolution 2 writes its fallback over it. -/
def overwrittenCommit : List (IdEvent × IdOutput) :=
  beforeCommit ++ (.resume 1 noDocker, .settled ⟨.ok servedId, false, some (.commit servedId), false, none⟩) ::
    (afterCommit ++ (.genesis 2 (.hash (some "0xab")),
      .settled ⟨.ok "0xab", false, some (.provisional "0xab"), true, none⟩) :: [])

theorem second_resolution_overwrites : ∃ s, IdRun (fun _ _ => True) overwrittenCommit s ∧
    ¬ CommittedStays overwrittenCommit := by
  obtain ⟨s, hp⟩ : ∃ s, play idStep (fun _ _ => True) loadedModule (overwrittenCommit.map Prod.fst) =
    some (overwrittenCommit, s) := ⟨_, rfl⟩
  refine ⟨s, Run.of_play hp, fun hstays => ?_⟩
  have hw := (hstays localUrl beforeCommit _ _ servedId 1 afterCommit _ _ [] rfl rfl (by simp [Started, beforeCommit])
    rfl (by simp [afterCommit])).2 2 _ rfl (by simp [Started, overwrittenCommit, beforeCommit]) rfl
  cases hw.1

end HardhatTron

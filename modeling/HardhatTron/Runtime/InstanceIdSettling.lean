import HardhatTron.Runtime.InstanceIdEvictions
/-!
# What a url settles on

Without evictions, and with every probe attempt either unanswered or answered
with one id, a url settles on that id, or on the fallback of its first completed
resolution after three unanswered rounds of two attempts: `url_settles`.

`Settling` is the invariant. It counts rounds by the resolutions that made them,
so it needs two facts about all runs first: a resolution that has settled never
runs again, and a provisional entry belongs to one url.
-/
namespace HardhatTron

open Lib

/-! ## Facts about all runs -/

/-- A resolution with a verdict in the history is no longer running. -/
theorem settled_inactive {ok : IdState → IdEvent → Prop} {s : IdState} {h : List (IdEvent × IdOutput)}
    (hr : IdRun ok h s) : ∀ ev v rid, (ev, .settled v) ∈ h → ev.rid = some rid →
      ∃ r, s.resolutions[rid]? = some r ∧ r.phase.active = false := by
  -- an inactive phase stays one
  have hkeep : ∀ (s : IdState) (rid j : Nat) (phase : Phase),
      (phase.active = false ∨ ∀ r, s.resolutions[rid]? = some r → r.phase.active = true) →
      (∃ r, s.resolutions[j]? = some r ∧ r.phase.active = false) →
      ∃ r, (s.setPhase rid phase).resolutions[j]? = some r ∧ r.phase.active = false := by
    rintro s rid j phase hp ⟨r, hr, ha⟩
    simp only [IdState.setPhase, List.getElem?_modify, hr, Option.map_eq_map, Option.map_some]
    refine ⟨_, rfl, ?_⟩
    split
    · rename_i heq
      subst heq
      rcases hp with hp | hp
      · exact hp
      · rw [hp r hr] at ha
        cases ha
    · exact ha
  refine Run.inv (fun h s => ∀ ev v rid, (ev, .settled v) ∈ h → ev.rid = some rid →
      ∃ r : Resolution, s.resolutions[rid]? = some r ∧ r.phase.active = false) (by simp) ?_ hr
  intro h s ev out s' _ hi _ hs ev' v rid hmem hrid
  rcases List.mem_append.1 hmem with hmem | hmem
  · have hi := hi ev' v rid hmem hrid
    cases idStep_effect hs with
    | returned _ => exact hi
    | joined _ _ => exact hi
    | started _ _ =>
      obtain ⟨r, hr, ha⟩ := hi
      refine ⟨r, ?_, ha⟩
      rw [IdState.start, List.getElem?_append_left (List.getElem?_eq_some_iff.1 hr).1]
      exact hr
    | @moved _ _ rid' r' phase hr' hm =>
      refine hkeep s rid' rid phase (.inr fun r hr => ?_) hi
      rw [Option.some.inj (hr.symm.trans hr')]
      exact hm.active.1
    | settled hr' hv =>
      rw [IdState.settle_resolutions]
      exact hkeep s _ rid _ (.inl rfl) hi
    | cleaned _ _ => exact hkeep s _ rid .cleaned (.inl rfl) hi
    | evicted => exact hi
  · obtain ⟨rfl, rfl⟩ := Prod.mk.inj (List.mem_singleton.1 hmem)
    obtain ⟨rid', r, hrid', hr', hv, rfl⟩ := idStep_settled hs
    obtain rfl : rid = rid' := Option.some.inj (hrid.symm.trans hrid')
    rw [IdState.settle_resolutions]
    simp only [IdState.setPhase, List.getElem?_modify, hr', Option.map_eq_map, Option.map_some, if_true]
    exact ⟨_, rfl, rfl⟩

/-- Every provisional entry belongs to one url, whose cache or resolutions may refer to it. -/
structure Owned (owner : Nat → String) (s : IdState) : Prop where
  cache : ∀ url ref, s._instanceIdCache url = some (.provisional ref) → ref < s.objects.length ∧ owner ref = url
  cached : ∀ o ∈ s.origins, ∀ ref, o.2.2 = some ref → ref < s.objects.length ∧ owner ref = o.1

theorem countDown_length (s : IdState) (cached : Option Nat) (d : Bool) :
    (s.countDown cached d).objects.length = s.objects.length := by
  cases cached <;> cases d <;> simp [IdState.countDown]

theorem settle_origins (s : IdState) (rid : Nat) (r : Resolution) (v : Verdict) :
    (s.settle rid r v).origins = s.origins := by
  rw [IdState.origins, IdState.settle_resolutions]
  exact setPhase_origins s rid _

theorem Owned.settle {owner : Nat → String} {s : IdState} (h : Owned owner s) (rid : Nat) (r : Resolution)
    (v : Verdict) : ∃ owner, Owned owner (s.settle rid r v) := by
  have hlen := countDown_length s r.cached v.decrement
  cases hw : v.write with
  | none =>
    refine ⟨owner, ?_, ?_⟩
    · intro url ref hc
      rw [IdState.settle_cache_none _ _ _ _ hw] at hc
      simpa [IdState.settle, hw, IdState.write, hlen] using h.cache url ref hc
    · rw [settle_origins]
      simpa [IdState.settle, hw, IdState.write, hlen] using h.cached
  | some w =>
    cases w with
    | commit id =>
      refine ⟨owner, ?_, ?_⟩
      · intro url ref hc
        by_cases hu : url = r.url
        · rw [hu, IdState.settle_cache_commit _ _ _ _ hw] at hc
          cases hc
        · rw [IdState.settle_cache_of_ne _ _ _ _ hu] at hc
          simpa [IdState.settle, hw, IdState.write, hlen] using h.cache url ref hc
      · rw [settle_origins]
        simpa [IdState.settle, hw, IdState.write, hlen] using h.cached
    | provisional id =>
      -- the new object goes to the resolution's url
      refine ⟨Function.update owner s.objects.length r.url, ?_, ?_⟩
      · intro url ref hc
        by_cases hu : url = r.url
        · subst hu
          simp only [IdState.settle, hw, IdState.write, IdState.setPhase_cache, Function.update_self, hlen,
            Option.some.injEq, CacheEntry.provisional.injEq] at hc
          subst hc
          simp [IdState.settle, hw, IdState.write, hlen]
        · rw [IdState.settle_cache_of_ne _ _ _ _ hu] at hc
          obtain ⟨hlt, ho⟩ := h.cache url ref hc
          rw [Function.update_of_ne (by omega)]
          simp only [IdState.settle, hw, IdState.write, IdState.setPhase_objects, List.length_append, hlen,
            List.length_singleton]
          exact ⟨by omega, ho⟩
      · rw [settle_origins]
        intro o ho ref href
        obtain ⟨hlt, hown⟩ := h.cached o ho ref href
        rw [Function.update_of_ne (by omega)]
        simp only [IdState.settle, hw, IdState.write, IdState.setPhase_objects, List.length_append, hlen,
          List.length_singleton]
        exact ⟨by omega, hown⟩

theorem owned_run {ok : IdState → IdEvent → Prop} {s : IdState} {h : List (IdEvent × IdOutput)} (hr : IdRun ok h s) :
    ∃ owner, Owned owner s := by
  refine Run.inv (fun _ s => ∃ owner, Owned owner s) ⟨fun _ => "", by simp [loadedModule], by
    simp [IdState.origins, loadedModule]⟩ ?_ hr
  rintro h s ev out s' - ⟨owner, ho⟩ - hs
  cases idStep_effect hs with
  | returned _ => exact ⟨owner, ho⟩
  | joined _ _ => exact ⟨owner, ho⟩
  | @started url _ _ =>
    refine ⟨owner, ho.cache, ?_⟩
    intro o hm ref href
    simp only [IdState.origins, IdState.start, List.map_append, List.map_singleton, List.mem_append,
      List.mem_singleton] at hm
    rcases hm with hm | rfl
    · exact ho.cached o hm ref href
    · simp only [Resolution.origin, (IdState.resolveInstanceId_url url).1] at href ⊢
      unfold IdState.resolveInstanceId at href
      split at href
      · cases href
      · rename_i ref' hc
        cases href
        exact ho.cache url _ hc
      · cases href
  | moved _ _ => exact ⟨owner, ho.cache, by rw [setPhase_origins]; exact ho.cached⟩
  | @settled _ rid r v _ _ => exact ho.settle rid r v
  | @cleaned rid r _ _ _ => exact ⟨owner, ho.cache, by
      rw [show ({ s.setPhase rid .cleaned with _inflight := Function.update s._inflight r.url none } :
        IdState).origins = (s.setPhase rid .cleaned).origins from rfl, setPhase_origins]
      exact ho.cached⟩
  | @evicted url =>
    refine ⟨owner, ?_, ho.cached⟩
    intro url' ref hc
    exact ho.cache url' ref (update_none_eq_some hc).2

/-! ## Attempts that are answered with one id or not at all -/

/-- No answer: a timeout, a dropped connection, or a transient status. -/
def noAnswer : ProbeReply → Bool
  | .throws name => !isDefinitiveProbeError name
  | .response status body => status == 408 || status == 429 || decide (status ≥ 500) ||
      match body with
      | .error name => !isDefinitiveProbeError name
      | .ok _ => false

/-- The node serves the id `S`. -/
def serves (S : String) : ProbeReply → Bool
  | .response status (.ok (some id)) => !(status == 408 || status == 429 || decide (status ≥ 500)) && id == S && isServedId S
  | _ => false

/-- `url` is not evicted, and its attempts are unanswered or answered with `S`. -/
def answersOrSilent (url S : String) (s : IdState) : IdEvent → Bool
  | .evict u => u != url
  | .respond rid reply =>
    match s.resolutions[rid]? with
    | some r => r.url != url || noAnswer reply || serves S reply
    | none => true
  | _ => true

theorem nodeServedInstanceId_serves {S : String} {reply : ProbeReply} (h : serves S reply = true) (attempt : Nat) :
    nodeServedInstanceId attempt reply = (.answered (some S), .probed ⟨some S, true⟩) := by
  unfold serves at h
  split at h
  · rename_i status id
    simp only [Bool.and_eq_true, Bool.not_eq_true', Bool.or_eq_false_iff, beq_eq_false_iff_ne, decide_eq_false_iff_not,
      beq_iff_eq] at h
    obtain ⟨⟨⟨⟨h1, h2⟩, h3⟩, rfl⟩, hid⟩ := h
    simp [nodeServedInstanceId, fetchNodeServedInstanceId, h1, h2, h3, hid]
  · cases h

theorem fetch_noAnswer {reply : ProbeReply} (h : noAnswer reply = true) :
    ∃ name, fetchNodeServedInstanceId reply = .error name ∧ isDefinitiveProbeError name = false := by
  cases reply with
  | throws name => exact ⟨name, rfl, by simpa [noAnswer] using h⟩
  | response status body =>
    simp only [fetchNodeServedInstanceId]
    split
    · exact ⟨"Error", rfl, rfl⟩
    · rename_i hs
      cases body with
      | error name =>
        refine ⟨name, rfl, ?_⟩
        simp only [not_or] at hs
        simpa [noAnswer, hs.1, hs.2.1, hs.2.2] using h
      | ok id =>
        simp only [not_or] at hs
        simp [noAnswer, hs.1, hs.2.1, hs.2.2] at h

theorem nodeServedInstanceId_noAnswer {reply : ProbeReply} (h : noAnswer reply = true) (attempt : Nat) :
    nodeServedInstanceId attempt reply =
      if attempt ≥ 1 then (.unanswered, .probed ⟨none, false⟩) else (.retrying, .sleeping attempt) := by
  obtain ⟨name, hf, hd⟩ := fetch_noAnswer h
  simp [nodeServedInstanceId, hf, hd]

/-! ## What the history of a url says -/

section
variable {url S : String} {h : List (IdEvent × IdOutput)} {s s' : IdState}

/-- The first attempt of `rid` was not answered. -/
def Retried (h : List (IdEvent × IdOutput)) (rid : Nat) : Prop :=
  ∃ reply, noAnswer reply = true ∧ (.respond rid reply, .retrying) ∈ h

/-- Both attempts of `rid`, a resolution of `url`, were not answered. -/
def UnansweredRound (h : List (IdEvent × IdOutput)) (url : String) (rid : Nat) : Prop :=
  Started h url rid ∧ Retried h rid ∧ ∃ reply, noAnswer reply = true ∧ (.respond rid reply, .unanswered) ∈ h

/-- `e` is the end of a resolution of `url` that started in `pre`. -/
def Settles (url : String) (pre : List (IdEvent × IdOutput)) (e : IdEvent × IdOutput) (v : Verdict) : Prop :=
  e.2 = .settled v ∧ ∃ rid, e.1.rid = some rid ∧ Started pre url rid

/-- No resolution of `url` has returned an id. -/
def NoneCompleted (h : List (IdEvent × IdOutput)) (url : String) : Prop :=
  ∀ pre e post v, h = pre ++ e :: post → Settles url pre e v → ∀ id, v.result ≠ .ok id

/-- The first resolution of `url` that returned an id returned `id`, from the fallback tiers. -/
def FirstFallback (h : List (IdEvent × IdOutput)) (url id : String) : Prop :=
  ∃ pre e post v, h = pre ++ e :: post ∧ Settles url pre e v ∧ v.result = .ok id ∧ v.tiers = true ∧
    NoneCompleted pre url

/-- The unanswered rounds of these resolutions of `url`, all of them over. -/
def UnansweredRounds (h : List (IdEvent × IdOutput)) (url : String) (rids : List Nat) : Prop :=
  rids.Nodup ∧ ∀ rid ∈ rids, UnansweredRound h url rid ∧ ∃ ev v, (ev, .settled v) ∈ h ∧ ev.rid = some rid

theorem Retried.append {rid : Nat} (hr : Retried h rid) (h' : List (IdEvent × IdOutput)) : Retried (h ++ h') rid := by
  obtain ⟨reply, hn, hm⟩ := hr
  exact ⟨reply, hn, List.mem_append_left _ hm⟩

theorem UnansweredRound.append {rid : Nat} (hr : UnansweredRound h url rid) (h' : List (IdEvent × IdOutput)) :
    UnansweredRound (h ++ h') url rid := by
  obtain ⟨hs, hr, reply, hn, hm⟩ := hr
  exact ⟨List.mem_append_left _ hs, hr.append h', reply, hn, List.mem_append_left _ hm⟩

theorem UnansweredRounds.append {rids : List Nat} (hr : UnansweredRounds h url rids)
    (h' : List (IdEvent × IdOutput)) : UnansweredRounds (h ++ h') url rids := by
  refine ⟨hr.1, fun rid hrid => ?_⟩
  obtain ⟨hround, ev, v, hm, hev⟩ := hr.2 rid hrid
  exact ⟨hround.append h', ev, v, List.mem_append_left _ hm, hev⟩

theorem FirstFallback.append {id : String} (hf : FirstFallback h url id) (h' : List (IdEvent × IdOutput)) :
    FirstFallback (h ++ h') url id := by
  obtain ⟨pre, e, post, v, rfl, hs⟩ := hf
  exact ⟨pre, e, post ++ h', v, by simp, hs⟩

theorem NoneCompleted.snoc (hn : NoneCompleted h url) {e : IdEvent × IdOutput}
    (he : ∀ v, Settles url h e v → ∀ id, v.result ≠ .ok id) : NoneCompleted (h ++ [e]) url := by
  intro pre e' post v heq hs
  rcases List.eq_nil_or_concat post with rfl | ⟨post', x, rfl⟩
  · obtain ⟨rfl, he'⟩ := List.append_inj' heq rfl
    obtain rfl : e = e' := by simpa using he'
    exact he v hs
  · rw [List.concat_eq_append, ← List.cons_append, ← List.append_assoc] at heq
    obtain ⟨rfl, -⟩ := List.append_inj' heq rfl
    exact hn pre e' post' v rfl hs

/-- A round that ends with its resolution's verdict. -/
theorem UnansweredRounds.cons {rids : List Nat} (hr : UnansweredRounds h url rids) {rid : Nat} {ev : IdEvent}
    {v : Verdict} (hnew : rid ∉ rids) (hround : UnansweredRound h url rid) (hev : ev.rid = some rid) :
    UnansweredRounds (h ++ [(ev, .settled v)]) url (rid :: rids) := by
  have hold := hr.append [(ev, .settled v)]
  refine ⟨List.nodup_cons.2 ⟨hnew, hr.1⟩, ?_⟩
  intro j hj
  rcases List.mem_cons.1 hj with rfl | hj
  · exact ⟨hround.append _, ev, v, by simp, hev⟩
  · exact hold.2 j hj

/-! ## The invariant -/

/-- Where a running resolution of `url` can be suspended. -/
def Suspended (S : String) (h : List (IdEvent × IdOutput)) (url : String) (rid : Nat) (cached : Option Nat) :
    Phase → Prop
  | .probing attempt => attempt = 0 ∨ Retried h rid
  | .sleeping _ => Retried h rid
  | .probed probe => probe = ⟨some S, true⟩ ∨ (probe = ⟨none, false⟩ ∧ UnansweredRound h url rid)
  | .genesis probe => cached = none ∧ probe = ⟨none, false⟩ ∧ UnansweredRound h url rid
  | _ => True

theorem Suspended.append {rid : Nat} {cached : Option Nat} {phase : Phase} (hs : Suspended S h url rid cached phase)
    (h' : List (IdEvent × IdOutput)) : Suspended S (h ++ h') url rid cached phase := by
  cases phase with
  | probing attempt => exact hs.imp_right fun hr => hr.append h'
  | sleeping attempt => exact Retried.append hs h'
  | probed probe => exact hs.imp_right fun hr => ⟨hr.1, hr.2.append h'⟩
  | genesis probe => exact ⟨hs.1, hs.2.1, hs.2.2.append h'⟩
  | settled result => trivial
  | cleaned => trivial

/-- What the cache holds for `url`. -/
inductive Settled (S : String) (h : List (IdEvent × IdOutput)) (url : String) (s : IdState) :
    Option CacheEntry → Prop
  | empty : NoneCompleted h url → Settled S h url s none
  | provisional {ref o rids} : s.objects[ref]? = some o → 0 < o.reprobesLeft → FirstFallback h url o.id →
      UnansweredRounds h url rids → (rids.length : Int) + o.reprobesLeft = 3 → Settled S h url s (some (.provisional ref))
  | served : Settled S h url s (some (.committed S))
  | fallback {id rids} : FirstFallback h url id → UnansweredRounds h url rids → rids.length = 3 →
      Settled S h url s (some (.committed id))

structure Settling (S : String) (h : List (IdEvent × IdOutput)) (url : String) (s : IdState) : Prop where
  gens : ∀ (rid : Nat) (r : Resolution), s.resolutions[rid]? = some r → r.url = url → r.gen = s._evictGen url
  current : ∀ (rid : Nat) (r : Resolution), s.resolutions[rid]? = some r → r.url = url → r.phase ≠ .cleaned →
    s._inflight url = some rid
  cache : Settled S h url s (s._instanceIdCache url)
  running : ∀ (rid : Nat) (r : Resolution), s.resolutions[rid]? = some r → r.url = url → r.phase.active = true →
    s._instanceIdCache url = r.cached.map .provisional ∧ Suspended S h url rid r.cached r.phase

theorem settling_loaded : Settling S [] url loadedModule where
  gens := by simp [loadedModule]
  current := by simp [loadedModule]
  cache := .empty (by intro pre e post v he; simp at he)
  running := by simp [loadedModule]

/-- A step that is not the end of a completed resolution of `url`, and leaves what the url's entry refers to. -/
theorem Settled.step {c : Option CacheEntry} (hc : Settled S h url s c) {e : IdEvent × IdOutput}
    (he : ∀ v, Settles url h e v → ∀ id, v.result ≠ .ok id)
    (hobj : ∀ ref, c = some (.provisional ref) → s'.objects[ref]? = s.objects[ref]?) :
    Settled S (h ++ [e]) url s' c := by
  cases hc with
  | empty hn => exact .empty (hn.snoc he)
  | provisional ho hleft hf hr hlen =>
    exact .provisional ((hobj _ rfl).trans ho) hleft (hf.append _) (hr.append _) hlen
  | served => exact .served
  | fallback hf hr hlen => exact .fallback (hf.append _) (hr.append _) hlen

/-- A step that leaves alone what concerns `url`. -/
theorem Settling.other (hi : Settling S h url s) {e : IdEvent × IdOutput}
    (he : ∀ v, Settles url h e v → ∀ id, v.result ≠ .ok id)
    (hcache : s'._instanceIdCache url = s._instanceIdCache url) (hfl : s'._inflight url = s._inflight url)
    (hgen : s'._evictGen url = s._evictGen url)
    (hres : ∀ (j : Nat) (r : Resolution), s'.resolutions[j]? = some r → r.url = url → s.resolutions[j]? = some r)
    (hobj : ∀ ref, s._instanceIdCache url = some (.provisional ref) → s'.objects[ref]? = s.objects[ref]?) :
    Settling S (h ++ [e]) url s' where
  gens j r hr hu := (hi.gens j r (hres j r hr hu) hu).trans hgen.symm
  current j r hr hu hp := hfl.trans (hi.current j r (hres j r hr hu) hu hp)
  cache := by
    rw [hcache]
    exact hi.cache.step he hobj
  running := by
    intro j r hr hu ha
    obtain ⟨hc, hs⟩ := hi.running j r (hres j r hr hu) hu ha
    exact ⟨hcache.trans hc, hs.append _⟩

/-- A step that is no verdict completes nothing. -/
theorem not_settles {e : IdEvent × IdOutput} (he : ∀ v, e.2 ≠ .settled v) :
    ∀ v, Settles url h e v → ∀ id, v.result ≠ .ok id := fun v hs => absurd hs.1 (he v)

theorem Settling.start (hi : Settling S h url s) {url' : String} (hf : s._inflight url' = none)
    (hc : ∀ id, s._instanceIdCache url' ≠ some (.committed id)) {e : IdEvent × IdOutput}
    (he : ∀ v, e.2 ≠ .settled v) : Settling S (h ++ [e]) url (s.start url') := by
  by_cases hu' : url' = url
  · subst hu'
    -- nothing of the url is in flight, so the new resolution is alone
    have hcleaned : ∀ (j : Nat) (r : Resolution), s.resolutions[j]? = some r → r.url = url' → r.phase = .cleaned := by
      intro j r hr hu
      by_contra hp
      have hin := hi.current j r hr hu hp
      rw [hf] at hin
      cases hin
    refine ⟨?_, ?_, hi.cache.step (not_settles he) fun _ _ => rfl, ?_⟩
    · intro j r hr hu
      rcases IdState.start_getElem? hr with hr | ⟨-, rfl⟩
      · exact hi.gens j r hr hu
      · exact (IdState.resolveInstanceId_url _).2
    · intro j r hr hu hp
      rcases IdState.start_getElem? hr with hr | ⟨rfl, -⟩
      · exact absurd (hcleaned j r hr hu) hp
      · exact Function.update_self _ _ _
    · intro j r hr hu ha
      rcases IdState.start_getElem? hr with hr | ⟨-, rfl⟩
      · rw [hcleaned j r hr hu] at ha
        cases ha
      · unfold IdState.resolveInstanceId
        split
        · rename_i id hid
          exact absurd hid (hc id)
        · rename_i ref hid
          exact ⟨hid, .inl rfl⟩
        · rename_i hid
          exact ⟨hid, .inl rfl⟩
  · refine hi.other (not_settles he) rfl (Function.update_of_ne (Ne.symm hu') _ _) rfl ?_ fun _ _ => rfl
    intro j r hr hu
    rcases IdState.start_getElem? hr with hr | ⟨-, rfl⟩
    · exact hr
    · exact absurd ((IdState.resolveInstanceId_url _).1.symm.trans hu) hu'

/-- A running resolution of another url changes its phase. -/
theorem Settling.setPhase_other (hi : Settling S h url s) {rid : Nat} {r : Resolution} {phase : Phase}
    (hr : s.resolutions[rid]? = some r) (hu : r.url ≠ url) {e : IdEvent × IdOutput} (he : ∀ v, e.2 ≠ .settled v) :
    Settling S (h ++ [e]) url (s.setPhase rid phase) := by
  refine hi.other (not_settles he) rfl rfl rfl ?_ fun _ _ => rfl
  intro j r' hr' hu'
  obtain ⟨r₀, hr₀, hur, -, -, ⟨rfl, -⟩ | ⟨-, rfl⟩⟩ := IdState.setPhase_getElem? hr'
  · obtain rfl : r = r₀ := Option.some.inj (hr.symm.trans hr₀)
    exact absurd (hur.symm.trans hu') hu
  · exact hr₀

/-- A running resolution of `url` goes on. -/
theorem Settling.setPhase (hi : Settling S h url s) {rid : Nat} {r : Resolution} {phase : Phase}
    (hr : s.resolutions[rid]? = some r) (ha : r.phase.active = true) {e : IdEvent × IdOutput}
    (he : ∀ v, e.2 ≠ .settled v) (hs : Suspended S (h ++ [e]) url rid r.cached phase) :
    Settling S (h ++ [e]) url (s.setPhase rid phase) where
  gens := by
    intro j r' hr' hu'
    obtain ⟨r₀, hr₀, hur, hg, -⟩ := IdState.setPhase_getElem? hr'
    exact hg.trans (hi.gens j r₀ hr₀ (hur.symm.trans hu'))
  current := by
    intro j r' hr' hu' hp'
    obtain ⟨r₀, hr₀, hur, -, -, ⟨rfl, -⟩ | ⟨-, rfl⟩⟩ := IdState.setPhase_getElem? hr'
    · obtain rfl : r = r₀ := Option.some.inj (hr.symm.trans hr₀)
      apply hi.current j r hr (hur.symm.trans hu')
      intro hp
      rw [hp] at ha
      cases ha
    · exact hi.current j _ hr₀ hu' hp'
  cache := hi.cache.step (not_settles he) fun _ _ => rfl
  running := by
    intro j r' hr' hu' ha'
    obtain ⟨r₀, hr₀, hur, -, hc, ⟨rfl, hp⟩ | ⟨-, rfl⟩⟩ := IdState.setPhase_getElem? hr'
    · obtain rfl : r = r₀ := Option.some.inj (hr.symm.trans hr₀)
      rw [hc, hp]
      exact ⟨(hi.running j r hr (hur.symm.trans hu') ha).1, hs⟩
    · obtain ⟨hc, hs⟩ := hi.running j _ hr₀ hu' ha'
      exact ⟨hc, hs.append _⟩

/-- The entry a running resolution saw is still there. -/
theorem Settling.object (hi : Settling S h url s) {rid : Nat} {r : Resolution} (hr : s.resolutions[rid]? = some r)
    (hu : r.url = url) (ha : r.phase.active = true) (ho : s.object r.cached = none) : r.cached = none := by
  obtain ⟨hc, -⟩ := hi.running rid r hr hu ha
  cases hcached : r.cached with
  | none => rfl
  | some ref =>
    rw [hcached, Option.map_some] at hc
    have hcache := hi.cache
    rw [hc] at hcache
    cases hcache with
    | provisional hobj _ _ _ _ =>
      rw [hcached, IdState.object, Option.bind_some, hobj] at ho
      cases ho

theorem afterProbe_none {evicted : Bool} {probe : Probe} {docker : Docker}
    (h : afterProbe url evicted probe docker = none) : probe.id = none := by
  unfold afterProbe at h
  split at h
  · cases h
  · assumption

theorem Settling.move (hi : Settling S h url s) {rid : Nat} {r : Resolution} {ev : IdEvent} {out : IdOutput}
    {phase : Phase} (hr : s.resolutions[rid]? = some r) (hm : Moves s rid r ev out phase)
    (hstart : r.url = url → Started h url rid) (hok : answersOrSilent url S s ev = true) :
    Settling S (h ++ [(ev, out)]) url (s.setPhase rid phase) := by
  by_cases hu : r.url = url
  · apply hi.setPhase hr hm.active.1 hm.out.1
    obtain ⟨-, hs⟩ := hi.running rid r hr hu hm.active.1
    cases hm with
    | @attempt attempt reply hp =>
      rw [hp] at hs
      simp only [answersOrSilent, hr, hu, bne_self_eq_false, Bool.false_or, Bool.or_eq_true] at hok
      rcases hok with hno | hserves
      · rw [nodeServedInstanceId_noAnswer hno]
        split
        · rename_i hge
          have hretried : Retried h rid := hs.resolve_left (by omega)
          exact .inr ⟨rfl, List.mem_append_left _ (hstart hu), hretried.append _, reply, hno, by simp⟩
        · exact ⟨reply, hno, by simp⟩
      · rw [nodeServedInstanceId_serves hserves]
        exact .inl rfl
    | @woken attempt hp =>
      rw [hp] at hs
      exact .inr (Retried.append hs _)
    | @readsGenesis probe docker hp ho hnone =>
      rw [hp] at hs
      have hid := afterProbe_none hnone
      rcases hs with rfl | ⟨rfl, hround⟩
      · cases hid
      · exact ⟨hi.object hr hu (by rw [hp]; rfl) ho, rfl, hround.append _⟩
  · exact hi.setPhase_other hr hu hm.out.1

/-- A verdict of another url leaves this url's provisional entry alone. -/
theorem settle_object_of_ne {owner : Nat → String} (ho : Owned owner s) {rid : Nat} {r : Resolution}
    (hr : s.resolutions[rid]? = some r) (hu : r.url ≠ url) (v : Verdict) {ref : Nat}
    (hc : s._instanceIdCache url = some (.provisional ref)) :
    (s.settle rid r v).objects[ref]? = s.objects[ref]? := by
  obtain ⟨hlt, hown⟩ := ho.cache url ref hc
  have hcount : (s.countDown r.cached v.decrement).objects[ref]? = s.objects[ref]? := by
    cases hcached : r.cached with
    | none => rfl
    | some ref' =>
      have hne : ref' ≠ ref := by
        rintro rfl
        have hmem : r.origin ∈ s.origins := List.mem_map.2 ⟨r, List.mem_of_getElem? hr, rfl⟩
        exact hu ((ho.cached _ hmem ref' hcached).2.symm.trans hown)
      cases v.decrement
      · rfl
      · simp [IdState.countDown, hne]
  rw [IdState.settle, IdState.setPhase_objects]
  rcases v.write with _ | (_ | _)
  · exact hcount
  · exact hcount
  · simp only [IdState.write]
    rw [List.getElem?_append_left (by rw [countDown_length]; exact hlt)]
    exact hcount

/-- The first completed resolution falls back: the url gets a provisional entry. -/
theorem Settled.fellBack {rid : Nat} {r : Resolution} {ev : IdEvent} {id : String} (hn : NoneCompleted h r.url)
    (hcached : r.cached = none) (hev : ev.rid = some rid) (hround : UnansweredRound h r.url rid) :
    let v := finish false ⟨none, false⟩ id true
    Settled S (h ++ [(ev, .settled v)]) r.url (s.settle rid r v) ((s.settle rid r v)._instanceIdCache r.url) := by
  intro v
  have hcache : (s.settle rid r v)._instanceIdCache r.url = some (.provisional s.objects.length) := by
    simp [v, IdState.settle, IdState.countDown, IdState.write, finish, hcached]
  have hobj : (s.settle rid r v).objects[s.objects.length]? = some ⟨id, MAX_PROVISIONAL_REPROBES⟩ := by
    simp [v, IdState.settle, IdState.countDown, IdState.write, finish, hcached]
  have hempty : UnansweredRounds h r.url [] := ⟨List.nodup_nil, by simp⟩
  rw [hcache]
  refine .provisional hobj (show (0 : Int) < 2 by decide) ?_ (hempty.cons (by simp) hround hev)
    (show ((1 : Nat) : Int) + 2 = 3 by decide)
  exact ⟨h, (ev, .settled v), [], v, rfl, ⟨rfl, rid, hev, hround.1⟩, rfl, rfl, hn⟩

/-- A first resolution that rejects leaves the url without an entry. -/
theorem Settled.rejected {rid : Nat} {r : Resolution} {ev : IdEvent} {v : Verdict} {m : String}
    (hn : NoneCompleted h r.url) (hc : s._instanceIdCache r.url = none) (hv : v.result = .error m)
    (hw : v.write = none) :
    Settled S (h ++ [(ev, .settled v)]) r.url (s.settle rid r v) ((s.settle rid r v)._instanceIdCache r.url) := by
  rw [IdState.settle_cache_none _ _ _ _ hw, hc]
  refine .empty (hn.snoc ?_)
  rintro v' ⟨he, -⟩ id hid
  obtain rfl := IdOutput.settled.inj he
  rw [hv] at hid
  cases hid

/-- The verdict of a resolution that found no entry. -/
theorem Settling.first_verdict (hi : Settling S h url s) {rid : Nat} {r : Resolution} {ev : IdEvent} {v : Verdict}
    (hr : s.resolutions[rid]? = some r) (hv : Ends s rid r ev v) (hu : r.url = url) (hcached : r.cached = none) :
    v = finish false ⟨some S, true⟩ S false ∨
      (UnansweredRound h url rid ∧ ((∃ m, v = ⟨.error m, false, none, true, none⟩) ∨
        ∃ id, v = finish false ⟨none, false⟩ id true)) := by
  have hev : s.evicted r = false := by simp [IdState.evicted, hi.gens rid r hr hu, hu]
  obtain ⟨-, hs⟩ := hi.running rid r hr hu hv.active.1
  cases hv with
  | reprobed _ ho =>
    rw [hcached] at ho
    cases ho
  | @probed probe docker v hp _ hv =>
    rw [hp] at hs
    rw [hev] at hv
    unfold afterProbe at hv
    rcases hs with rfl | ⟨rfl, hround⟩
    · exact .inl (Option.some.inj hv).symm
    · refine .inr ⟨hround, ?_⟩
      dsimp only at hv
      split at hv
      · split at hv
        · exact .inl ⟨_, (Option.some.inj hv).symm⟩
        · exact .inr ⟨_, (Option.some.inj hv).symm⟩
      · split at hv
        · exact .inr ⟨_, (Option.some.inj hv).symm⟩
        · cases hv
  | @readGenesis probe reply hp =>
    rw [hp] at hs
    obtain ⟨-, rfl, hround⟩ := hs
    refine .inr ⟨hround, ?_⟩
    rw [hev]
    unfold afterGenesis
    split
    · exact .inl ⟨_, rfl⟩
    · split
      · exact .inl ⟨_, rfl⟩
      · exact .inr ⟨_, rfl⟩

/-- The verdict of a resolution that saw the provisional entry `o`. -/
theorem Settling.reprobe_verdict (hi : Settling S h url s) {rid : Nat} {r : Resolution} {ev : IdEvent} {v : Verdict}
    (hr : s.resolutions[rid]? = some r) (hv : Ends s rid r ev v) (hu : r.url = url) {o : Provisional}
    (ho : s.object r.cached = some o) :
    v = afterReprobe url false o ⟨some S, true⟩ ∨
      (UnansweredRound h url rid ∧ v = afterReprobe url false o ⟨none, false⟩) := by
  have hev : s.evicted r = false := by simp [IdState.evicted, hi.gens rid r hr hu, hu]
  obtain ⟨-, hs⟩ := hi.running rid r hr hu hv.active.1
  cases hv with
  | @reprobed probe docker o' hp ho' =>
    obtain rfl : o = o' := Option.some.inj (ho.symm.trans ho')
    rw [hp] at hs
    rw [hev, hu]
    rcases hs with rfl | ⟨rfl, hround⟩
    · exact .inl rfl
    · exact .inr ⟨hround, rfl⟩
  | probed _ ho' _ =>
    rw [ho] at ho'
    cases ho'
  | @readGenesis probe reply hp =>
    rw [hp] at hs
    rw [hs.1] at ho
    cases ho

/-- What a verdict leaves of the url's entry. -/
theorem Settling.settled (hi : Settling S h url s) {rid : Nat} {r : Resolution} {ev : IdEvent} {v : Verdict}
    (hr : s.resolutions[rid]? = some r) (hv : Ends s rid r ev v) (hu : r.url = url)
    (hnew : ∀ ev' v', (ev', .settled v') ∈ h → ev'.rid ≠ some rid) :
    Settled S (h ++ [(ev, .settled v)]) url (s.settle rid r v) ((s.settle rid r v)._instanceIdCache url) := by
  subst hu
  obtain ⟨ha, hrid⟩ := hv.active
  obtain ⟨hc, -⟩ := hi.running rid r hr rfl ha
  have hcache := hi.cache
  cases hcached : r.cached with
  | none =>
    rw [hc, hcached] at hcache
    cases hcache with
    | empty hn =>
      rcases hi.first_verdict hr hv rfl hcached with rfl | ⟨hround, ⟨m, rfl⟩ | ⟨id, rfl⟩⟩
      · rw [IdState.settle_cache_commit s rid r (finish false ⟨some S, true⟩ S false) rfl]
        exact .served
      · exact .rejected hn (by rw [hc, hcached]; rfl) rfl rfl
      · exact .fellBack hn hcached hrid hround
  | some ref =>
    rw [hc, hcached] at hcache
    cases hcache with
    | @provisional _ o rids hobj hleft hf hrounds hlen =>
      have ho : s.object r.cached = some o := by rw [hcached]; exact hobj
      have hfresh : rid ∉ rids := by
        intro hmem
        obtain ⟨-, ev', v', hm, hrid'⟩ := hrounds.2 rid hmem
        exact hnew ev' v' hm hrid'
      rcases hi.reprobe_verdict hr hv rfl ho with rfl | ⟨hround, rfl⟩
      · rw [IdState.settle_cache_commit s rid r (afterReprobe r.url false o ⟨some S, true⟩) rfl]
        exact .served
      · have hrounds' := hrounds.cons hfresh hround hrid (v := afterReprobe r.url false o ⟨none, false⟩)
        by_cases hmore : o.reprobesLeft - 1 > 0
        · -- the count goes down in the entry itself
          have hverdict : afterReprobe r.url false o ⟨none, false⟩ = ⟨.ok o.id, true, none, false, none⟩ := by
            rw [afterReprobe, if_neg (by simp), if_neg (by simp), if_pos hmore]
          rw [hverdict] at hrounds' ⊢
          rw [IdState.settle_cache_none _ _ _ _ rfl, hc, hcached]
          refine .provisional (o := { o with reprobesLeft := o.reprobesLeft - 1 }) ?_ hmore (hf.append _) hrounds' ?_
          · simp [IdState.settle, IdState.countDown, IdState.write, hcached, hobj]
          · rw [List.length_cons]
            push_cast
            omega
        · have hverdict : afterReprobe r.url false o ⟨none, false⟩ =
              ⟨.ok o.id, true, some (.commit o.id), false, some (settlingWarning r.url)⟩ := by
            rw [afterReprobe, if_neg (by simp), if_neg (by simp), if_neg hmore]
          rw [hverdict] at hrounds' ⊢
          rw [IdState.settle_cache_commit _ _ _ _ rfl]
          refine .fallback (hf.append _) hrounds' ?_
          rw [List.length_cons]
          omega

/-- The end of a resolution of `url`. -/
theorem Settling.settle (hi : Settling S h url s) {rid : Nat} {r : Resolution} {ev : IdEvent} {v : Verdict}
    (hr : s.resolutions[rid]? = some r) (hv : Ends s rid r ev v) (hu : r.url = url)
    (hnew : ∀ ev' v', (ev', .settled v') ∈ h → ev'.rid ≠ some rid) :
    Settling S (h ++ [(ev, .settled v)]) url (s.settle rid r v) := by
  have hcache := hi.settled hr hv hu hnew
  have hactive : r.phase ≠ .cleaned := by
    intro hp
    have := hv.active.1
    rw [hp] at this
    cases this
  refine ⟨?_, ?_, hcache, ?_⟩
  · intro j r' hr' hu'
    rw [IdState.settle_resolutions] at hr'
    obtain ⟨r₀, hr₀, hur, hg, -⟩ := IdState.setPhase_getElem? hr'
    rw [IdState.settle_evictGen]
    exact hg.trans (hi.gens j r₀ hr₀ (hur.symm.trans hu'))
  · intro j r' hr' hu' hp'
    rw [IdState.settle_resolutions] at hr'
    rw [IdState.settle_inflight]
    obtain ⟨r₀, hr₀, hur, -, -, ⟨rfl, -⟩ | ⟨-, rfl⟩⟩ := IdState.setPhase_getElem? hr'
    · exact hi.current j r hr hu hactive
    · exact hi.current j _ hr₀ hu' hp'
  · -- it was the only one running
    intro j r' hr' hu' ha'
    rw [IdState.settle_resolutions] at hr'
    obtain ⟨r₀, hr₀, hur, -, -, ⟨rfl, hp⟩ | ⟨hj, rfl⟩⟩ := IdState.setPhase_getElem? hr'
    · rw [hp] at ha'
      cases ha'
    · have hin := hi.current j _ hr₀ hu' (by intro hp; rw [hp] at ha'; cases ha')
      exact absurd (Option.some.inj (hin.symm.trans (hi.current rid r hr hu hactive))) hj

theorem Settling.cleaned (hi : Settling S h url s) {rid : Nat} {r : Resolution} {result : Except String String}
    (hr : s.resolutions[rid]? = some r) (hp : r.phase = .settled result) {e : IdEvent × IdOutput}
    (he : ∀ v, e.2 ≠ .settled v) :
    Settling S (h ++ [e]) url
      { s.setPhase rid .cleaned with _inflight := Function.update s._inflight r.url none } := by
  have hother : ∀ (j : Nat) (r' : Resolution), (s.setPhase rid .cleaned).resolutions[j]? = some r' →
      r'.phase ≠ .cleaned → j ≠ rid ∧ s.resolutions[j]? = some r' := by
    intro j r' hr' hp'
    obtain ⟨r₀, hr₀, -, -, -, ⟨-, hp''⟩ | ⟨hj, rfl⟩⟩ := IdState.setPhase_getElem? hr'
    · exact absurd hp'' hp'
    · exact ⟨hj, hr₀⟩
  by_cases hu : r.url = url
  · -- the url's promise goes, and no other resolution of it is left
    have halone : ∀ (j : Nat) (r' : Resolution), (s.setPhase rid .cleaned).resolutions[j]? = some r' →
        r'.url = url → r'.phase = .cleaned := by
      intro j r' hr' hu'
      by_contra hp'
      obtain ⟨hj, hr₀⟩ := hother j r' hr' hp'
      have hin := hi.current j r' hr₀ hu' hp'
      have hin' := hi.current rid r hr hu (by rw [hp]; simp)
      exact hj (Option.some.inj (hin.symm.trans hin'))
    refine ⟨?_, ?_, hi.cache.step (not_settles he) fun _ _ => rfl, ?_⟩
    · intro j r' hr' hu'
      obtain ⟨r₀, hr₀, hur, hg, -⟩ := IdState.setPhase_getElem? hr'
      exact hg.trans (hi.gens j r₀ hr₀ (hur.symm.trans hu'))
    · intro j r' hr' hu' hp'
      exact absurd (halone j r' hr' hu') hp'
    · intro j r' hr' hu' ha'
      rw [halone j r' hr' hu'] at ha'
      cases ha'
  · refine hi.other (not_settles he) rfl (Function.update_of_ne (Ne.symm hu) _ _) rfl ?_ fun _ _ => rfl
    intro j r' hr' hu'
    obtain ⟨r₀, hr₀, hur, -, -, ⟨rfl, -⟩ | ⟨-, rfl⟩⟩ := IdState.setPhase_getElem? hr'
    · obtain rfl : r = r₀ := Option.some.inj (hr.symm.trans hr₀)
      exact absurd (hur.symm.trans hu') hu
    · exact hr₀

/-! ## Runs -/

theorem settling_step {ev : IdEvent} {out : IdOutput}
    (hr : IdRun (fun s ev => answersOrSilent url S s ev = true) h s) (hi : Settling S h url s)
    (hok : answersOrSilent url S s ev = true) (hs : idStep s ev = some (out, s')) :
    Settling S (h ++ [(ev, out)]) url s' := by
  cases idStep_effect hs with
  | returned _ => exact hi.other (not_settles (by simp)) rfl rfl rfl (fun _ _ hr _ => hr) fun _ _ => rfl
  | joined _ _ => exact hi.other (not_settles (by simp)) rfl rfl rfl (fun _ _ hr _ => hr) fun _ _ => rfl
  | started hc hf => exact hi.start hf hc (by simp)
  | @moved _ _ rid r phase hrid hm =>
    exact hi.move hrid hm (fun hu => (started_iff hr url rid).2 ⟨r, hrid, hu⟩) hok
  | @settled _ rid r v hrid hv =>
    by_cases hu : r.url = url
    · apply hi.settle hrid hv hu
      intro ev' v' hmem hev'
      obtain ⟨r', hr', ha⟩ := settled_inactive hr ev' v' rid hmem hev'
      obtain rfl : r = r' := Option.some.inj (hrid.symm.trans hr')
      rw [hv.active.1] at ha
      cases ha
    · obtain ⟨owner, ho⟩ := owned_run hr
      refine hi.other ?_ (IdState.settle_cache_of_ne _ _ _ _ (Ne.symm hu)) (by rw [IdState.settle_inflight])
        (by rw [IdState.settle_evictGen]) ?_ fun ref hc => settle_object_of_ne ho hrid hu v hc
      · rintro v' ⟨-, rid', hev', hstart⟩
        obtain rfl : rid = rid' := Option.some.inj (hv.active.2.symm.trans hev')
        obtain ⟨r', hr', hu'⟩ := (started_iff hr url rid).1 hstart
        obtain rfl : r = r' := Option.some.inj (hrid.symm.trans hr')
        exact absurd hu' hu
      · intro j r' hr' hu'
        rw [IdState.settle_resolutions] at hr'
        obtain ⟨r₀, hr₀, hur, -, -, ⟨rfl, -⟩ | ⟨-, rfl⟩⟩ := IdState.setPhase_getElem? hr'
        · obtain rfl : r = r₀ := Option.some.inj (hrid.symm.trans hr₀)
          exact absurd (hur.symm.trans hu') hu
        · exact hr₀
  | cleaned hrid hp => exact hi.cleaned hrid hp (by simp)
  | @evicted url' =>
    have hne : url ≠ url' := by
      have : url' ≠ url := by simpa [answersOrSilent] using hok
      exact Ne.symm this
    exact hi.other (not_settles (by simp)) (Function.update_of_ne hne _ _) (Function.update_of_ne hne _ _)
      (Function.update_of_ne hne _ _) (fun _ _ hr _ => hr) fun _ _ => rfl

theorem settling_run (hr : IdRun (fun s ev => answersOrSilent url S s ev = true) h s) : Settling S h url s :=
  Run.inv (fun h s => Settling S h url s) settling_loaded
    (fun _ _ _ _ _ hr hi hok hs => settling_step hr hi hok hs) hr

/-- Without evictions an entry never goes away. -/
theorem cache_stays {m : IdState} (hr : Run idStep (fun s ev => answersOrSilent url S s ev = true) m h s)
    (hm : m._instanceIdCache url ≠ none) : s._instanceIdCache url ≠ none := by
  refine Run.inv (fun _ s => s._instanceIdCache url ≠ none) hm ?_ hr
  intro h s ev out s' _ hi hok hs
  cases idStep_effect hs with
  | returned _ => exact hi
  | joined _ _ => exact hi
  | started _ _ => exact hi
  | moved _ _ => exact hi
  | @settled _ rid r v _ hv =>
    by_cases hu : url = r.url
    · cases hw : v.write with
      | none =>
        rw [IdState.settle_cache_none _ _ _ _ hw]
        exact hi
      | some w =>
        obtain ⟨id, -, hid⟩ := hv.write_result w hw
        obtain ⟨e, he, -⟩ := settle_entry s rid r hw hid
        rw [hu, he]
        simp
    · rw [IdState.settle_cache_of_ne _ _ _ _ hu]
      exact hi
  | cleaned _ _ => exact hi
  | @evicted url' =>
    have hne : url ≠ url' := by
      have : url' ≠ url := by simpa [answersOrSilent] using hok
      exact Ne.symm this
    show Function.update s._instanceIdCache url' none url ≠ none
    rw [Function.update_of_ne hne]
    exact hi

/-- The url's entry by value: the cached id, and how many re-probes are left. -/
def IdState.entry (s : IdState) (url : String) : Option (CacheEntry × Option Provisional) :=
  (s._instanceIdCache url).map fun e =>
    match e with
    | .committed id => (.committed id, none)
    | .provisional ref => (.provisional ref, s.objects[ref]?)

theorem Settling.entry_of_rejected (hi : Settling S h url s) {rid : Nat} {r : Resolution} {ev : IdEvent} {v : Verdict}
    (hr : s.resolutions[rid]? = some r) (hv : Ends s rid r ev v) (hu : r.url = url) {m : String}
    (he : v.result = .error m) : s._instanceIdCache url = none ∧ (s.settle rid r v)._instanceIdCache url = none := by
  obtain ⟨hc, -⟩ := hi.running rid r hr hu hv.active.1
  have hw : v.write = none := by
    cases hw : v.write with
    | none => rfl
    | some w =>
      obtain ⟨id, hid, -⟩ := hv.write_result w hw
      rw [he] at hid
      cases hid
  have hcached : r.cached = none := by
    cases ho : s.object r.cached with
    | none => exact hi.object hr hu hv.active.1 ho
    | some o =>
      have hresult : ∃ id, v.result = .ok id := by
        rcases hi.reprobe_verdict hr hv hu ho with rfl | ⟨-, rfl⟩
        · exact (afterReprobe_result _ _ _ _).1
        · exact (afterReprobe_result _ _ _ _).1
      obtain ⟨id, hid⟩ := hresult
      rw [he] at hid
      cases hid
  rw [hcached] at hc
  exact ⟨hc, by rw [IdState.settle_cache_none _ _ _ _ hw]; exact hc⟩

/-- While the url has an entry its fallback tiers are left alone. -/
theorem Settling.no_tiers (hi : Settling S h url s) (hc : s._instanceIdCache url ≠ none) {ev : IdEvent}
    {out : IdOutput} {rid : Nat} {r : Resolution} (hs : idStep s ev = some (out, s')) (hrid : ev.rid = some rid)
    (hr : s.resolutions[rid]? = some r) (hu : r.url = url) :
    out ≠ .readsGenesis ∧ ∀ v, out = .settled v → v.tiers = false := by
  have hcached : r.phase.active = true → s.object r.cached ≠ none := by
    intro ha ho
    have := (hi.running rid r hr hu ha).1
    rw [hi.object hr hu ha ho] at this
    exact hc this
  constructor
  · rintro rfl
    generalize hout : IdOutput.readsGenesis = out at hs
    cases idStep_effect hs with
    | @moved _ _ rid' r' _ hr' hm =>
      obtain rfl : rid = rid' := Option.some.inj (hrid.symm.trans hm.active.2.2)
      obtain rfl : r = r' := Option.some.inj (hr.symm.trans hr')
      cases hm with
      | readsGenesis hp ho _ => exact hcached (by rw [hp]; rfl) ho
      | woken _ => cases hout
      | @attempt attempt reply _ =>
        unfold nodeServedInstanceId at hout
        split at hout
        · cases hout
        · split at hout
          · cases hout
          · split at hout <;> cases hout
    | _ => cases hout
  · rintro v rfl
    obtain ⟨rid', r', hrid', hr', hv, -⟩ := idStep_settled hs
    obtain rfl : rid = rid' := Option.some.inj (hrid.symm.trans hrid')
    obtain rfl : r = r' := Option.some.inj (hr.symm.trans hr')
    have ha := hv.active.1
    cases hv with
    | reprobed _ _ => exact (afterReprobe_result _ _ _ _).2
    | probed _ ho _ => exact absurd ho (hcached ha)
    | readGenesis hp =>
      obtain ⟨-, hsus⟩ := hi.running rid r hr hu ha
      rw [hp] at hsus
      refine absurd ?_ (hcached ha)
      rw [hsus.1]
      rfl

/-- In every run without evictions of `url` whose attempts for it are answered
with `S` or not at all: a committed id is `S`, or the fallback of the first
completed resolution after three unanswered rounds; once a resolution has
returned an id the fallback tiers are not resolved again; and a call that
rejects leaves the entry as it found it. -/
theorem url_settles (hr : IdRun (fun s ev => answersOrSilent url S s ev = true) h s) :
    (∀ id, s._instanceIdCache url = some (.committed id) →
      id = S ∨ (FirstFallback h url id ∧ ∃ rids, UnansweredRounds h url rids ∧ rids.length = 3)) ∧
    (∀ pre ev v id mid ev' out post, h = pre ++ (ev, .settled v) :: (mid ++ (ev', out) :: post) →
      Settles url pre (ev, .settled v) v → v.result = .ok id →
      ∀ rid, ev'.rid = some rid → Started h url rid → out ≠ .readsGenesis ∧ ∀ v', out = .settled v' → v'.tiers = false) ∧
    ∀ pre out mid ev v post rid e m m', h = pre ++ (.call url, out) :: (mid ++ (ev, .settled v) :: post) →
      (out = .started rid ∨ out = .joined rid) → ev.rid = some rid → v.result = .error e →
      IdRun (fun s ev => answersOrSilent url S s ev = true) pre m →
      IdRun (fun s ev => answersOrSilent url S s ev = true) (pre ++ (.call url, out) :: (mid ++ [(ev, .settled v)])) m' →
      m'.entry url = m.entry url := by
  refine ⟨?_, ?_, ?_⟩
  · intro id hid
    have hcache := (settling_run hr).cache
    rw [hid] at hcache
    cases hcache with
    | served => exact .inl rfl
    | @fallback _ rids hf hrounds hlen => exact .inr ⟨hf, rids, hrounds, hlen⟩
  · rintro pre ev v id mid ev' out post rfl hsettles hid rid hrid hstart
    obtain ⟨m, m', hpre, hok, hst, hrest⟩ := Run.at hr
    obtain ⟨m₁, m₂, hmid, hok', hst', hpost⟩ := Run.at hrest
    have hi := settling_run ((Run.snoc ev hpre hok hst).append hmid)
    -- the completed resolution left an entry
    have hc : m₁._instanceIdCache url ≠ none := by
      intro hc
      have hcache := hi.cache
      rw [hc] at hcache
      cases hcache with
      | empty hn => exact hn pre (ev, .settled v) mid v (by simp) hsettles id hid
    obtain ⟨rs, hrs, hu⟩ := (started_iff hr url rid).1 hstart
    cases hr₁ : m₁.resolutions[rid]? with
    | none =>
      -- a step of `rid` needs it
      exfalso
      cases idStep_effect hst' with
      | returned _ => cases hrid
      | joined _ _ => cases hrid
      | started _ _ => cases hrid
      | moved hr' hm =>
        rw [Option.some.inj (hrid.symm.trans hm.active.2.2), hr'] at hr₁
        cases hr₁
      | settled hr' hv =>
        rw [Option.some.inj (hrid.symm.trans hv.active.2), hr'] at hr₁
        cases hr₁
      | cleaned hr' _ =>
        cases hrid
        rw [hr'] at hr₁
        cases hr₁
      | evicted => cases hrid
    | some r =>
      obtain ⟨rs', hrs', ho⟩ := run_origin ((Run.snoc ev' .nil hok' hst').append hpost) hr₁
      obtain rfl : rs = rs' := Option.some.inj (hrs.symm.trans hrs')
      exact hi.no_tiers hc hst' hrid hr₁ ((congrArg Prod.fst ho).symm.trans hu)
  · rintro pre out mid ev v post rid e m m' rfl hout hrid he hpre hlast
    obtain ⟨m₀, m₁, hpre', hokc, hcall, hrest⟩ := Run.at hlast
    obtain rfl : m = m₀ := hpre.unique hpre'
    obtain ⟨m₂, hmid, hok, hst⟩ := hrest.last
    have hrun : IdRun (fun s ev => answersOrSilent url S s ev = true) (pre ++ [(.call url, out)] ++ mid) m₂ :=
      (Run.snoc _ hpre hokc hcall).append hmid
    obtain ⟨rid', r, hrid', hr', hv, rfl⟩ := idStep_settled hst
    obtain rfl : rid = rid' := Option.some.inj (hrid.symm.trans hrid')
    have hu : r.url = url := by
      have hstart := call_shares hpre hcall hout
      obtain ⟨r₁, hr₁, hu₁⟩ := (started_iff (hpre.snoc _ hokc hcall) url rid).1 hstart
      obtain ⟨r', hr'', ho⟩ := run_origin hmid hr₁
      obtain rfl : r = r' := Option.some.inj (hr'.symm.trans hr'')
      exact (congrArg Prod.fst ho).trans hu₁
    obtain ⟨hbefore, hafter⟩ := (settling_run hrun).entry_of_rejected hr' hv hu he
    -- the entry is missing at the end, so it was at the call
    have hcallee : m._instanceIdCache url = none := by
      by_contra hne
      have hstep : Run idStep (fun s ev => answersOrSilent url S s ev = true) m [(.call url, out)] m₁ :=
        .snoc (IdEvent.call url) .nil hokc hcall
      exact cache_stays (hstep.append hmid) hne hbefore
    rw [IdState.entry, IdState.entry, hcallee, hafter]
    rfl

end

/-- A round of `rid` that is not answered. -/
def silentRound (rid : Nat) : List IdEvent :=
  [.respond rid timeout, .wake rid, .respond rid timeout, .resume rid noDocker]

/-- `url_settles` on three calls that get no answer: the third settles on the genesis hash of the first. -/
theorem genesis_hash_settled :
    ∃ h s, IdRun (fun s ev => answersOrSilent localUrl servedId s ev = true) h s ∧
      s._instanceIdCache localUrl = some (.committed "0xab") ∧ FirstFallback h localUrl "0xab" ∧
      ∃ rids, UnansweredRounds h localUrl rids ∧ rids.length = 3 := by
  obtain ⟨⟨h, s⟩, hp⟩ : ∃ p, play idStep (fun s ev => answersOrSilent localUrl servedId s ev = true) loadedModule
    (.call localUrl :: silentRound 0 ++ [.genesis 0 (.hash (some "0xab")), .cleanup 0, .call localUrl] ++
      silentRound 1 ++ [.cleanup 1, .call localUrl] ++ silentRound 2) = some p := ⟨_, rfl⟩
  have hr : IdRun (fun s ev => answersOrSilent localUrl servedId s ev = true) h s := Run.of_play hp
  have hcache : s._instanceIdCache localUrl = some (.committed "0xab") := by
    obtain ⟨rfl, rfl⟩ := Prod.mk.inj (Option.some.inj hp)
    rfl
  obtain ⟨hcommitted, -, -⟩ := url_settles hr
  exact ⟨h, s, hr, hcache, (hcommitted "0xab" hcache).resolve_left (by decide)⟩

end HardhatTron

import HardhatTron.Runtime.InstanceIdFlight
/-!
# What an eviction cuts off

A resolution started before an eviction of its url writes nothing after it, and
a call made after it obtains an id that was read after it: `evictions_respected`.
The generation of a url is a double that counts its evictions, so this needs at
most `2 ^ 53` of them; `eviction_unnoticed` is a run with one more.
-/
namespace HardhatTron

open Lib

/-! ## Reads and evictions in a history -/

/-- The id a step read, from the node, from docker or from the genesis block,
and the resolution that read it. -/
def readOf : IdEvent × IdOutput → Option (Nat × String)
  | (.respond rid _, .answered (some id)) => some (rid, id)
  | (.resume rid _, .settled ⟨.ok id, _, _, true, _⟩) => some (rid, id)
  | (.genesis rid _, .settled ⟨.ok id, _, _, _, _⟩) => some (rid, id)
  | _ => none

/-- `id` was read in `h` by a resolution of `url` that started in `h`. -/
def ReadIn (h : List (IdEvent × IdOutput)) (url id : String) : Prop :=
  ∃ rid, Started h url rid ∧ ∃ e ∈ h, readOf e = some (rid, id)

theorem ReadIn.append {h : List (IdEvent × IdOutput)} {url id : String} (hr : ReadIn h url id)
    (h' : List (IdEvent × IdOutput)) : ReadIn (h ++ h') url id := by
  obtain ⟨rid, hs, e, he, heq⟩ := hr
  exact ⟨rid, List.mem_append_left _ hs, e, List.mem_append_left _ he, heq⟩

def isEviction (url : String) : IdEvent × IdOutput → Bool
  | (.evict u, _) => u == url
  | _ => false

/-- How often `url` was evicted. -/
def evictions (h : List (IdEvent × IdOutput)) (url : String) : Nat := h.countP (isEviction url)

theorem evictions_append (h h' : List (IdEvent × IdOutput)) (url : String) :
    evictions (h ++ h') url = evictions h url + evictions h' url := List.countP_append

theorem idStep_evictGen {s s' : IdState} {ev : IdEvent} {out : IdOutput} (hs : idStep s ev = some (out, s'))
    (url : String) : s'._evictGen url =
      if isEviction url (ev, out) then toDouble (s._evictGen url + 1) else s._evictGen url := by
  cases idStep_effect hs with
  | returned _ => rfl
  | joined _ _ => rfl
  | started _ _ => rfl
  | moved _ hm => cases hm <;> rfl
  | settled _ hv => cases hv <;> simp [isEviction]
  | cleaned _ _ => rfl
  | @evicted url' =>
    show Function.update s._evictGen url' _ url = _
    by_cases hu : url' = url
    · subst hu
      simp [isEviction]
    · rw [Function.update_of_ne (Ne.symm hu)]
      simp [isEviction, hu]

/-- The generation counts the evictions, up to `2 ^ 53`. -/
theorem evictGen_eq {ok : IdState → IdEvent → Prop} {m s : IdState} {h : List (IdEvent × IdOutput)}
    (hr : Run idStep ok m h s) (url : String) (hle : m._evictGen url + evictions h url ≤ 2 ^ 53) :
    s._evictGen url = m._evictGen url + evictions h url := by
  refine Run.inv (fun h s => m._evictGen url + evictions h url ≤ 2 ^ 53 →
    s._evictGen url = m._evictGen url + evictions h url) (fun _ => rfl) ?_ hr hle
  intro h s ev out s' _ hi _ hs hle
  rw [evictions_append] at hle ⊢
  have hone : evictions [(ev, out)] url = if isEviction url (ev, out) then 1 else 0 := by
    simp [evictions, List.countP_cons]
  rw [hone] at hle ⊢
  rw [idStep_evictGen hs url, hi (by omega)]
  split
  · rename_i he
    rw [if_pos he] at hle
    rw [toDouble_of_le (by omega), Nat.add_assoc]
  · rfl

/-- No resolution is ahead of its url. -/
theorem gen_le {ok : IdState → IdEvent → Prop} {s : IdState} {h : List (IdEvent × IdOutput)} (hr : IdRun ok h s)
    {url : String} (hle : evictions h url ≤ 2 ^ 53) {rid : Nat} {r : Resolution} (hrid : s.resolutions[rid]? = some r)
    (hu : r.url = url) : r.gen ≤ evictions h url := by
  have horigin : ∀ o ∈ s.origins, o.1 = url → o.2.1 ≤ evictions h url := by
    refine Run.inv (fun h s => evictions h url ≤ 2 ^ 53 → ∀ o ∈ s.origins, o.1 = url → o.2.1 ≤ evictions h url)
      (by simp [IdState.origins, loadedModule]) ?_ hr hle
    intro h s ev out s' hrun hi _ hs hle o ho hu
    have hadd := evictions_append h [(ev, out)] url
    have hi := hi (by omega)
    rcases idStep_origins hs with ⟨url', -, -, horig⟩ | ⟨-, horig⟩
    · rw [horig, List.mem_append, List.mem_singleton] at ho
      rcases ho with ho | rfl
      · exact (hi o ho hu).trans (by omega)
      · have hgen := evictGen_eq hrun url (by simp only [loadedModule]; omega)
        simp only [loadedModule, Nat.zero_add] at hgen
        simp only [Resolution.origin, (IdState.resolveInstanceId_url _).1, (IdState.resolveInstanceId_url _).2] at hu ⊢
        rw [hu, hgen]
        omega
    · rw [horig] at ho
      exact (hi o ho hu).trans (by omega)
  exact horigin r.origin (List.mem_map.2 ⟨r, List.mem_of_getElem? hrid, rfl⟩) hu

/-! ## Where ids come from -/

/-- The id of a cache entry. -/
def IdState.entryId (s : IdState) : CacheEntry → Option String
  | .committed id => some id
  | .provisional ref => (s.objects[ref]?).map (·.id)

/-- No step changes the id of a provisional entry. -/
theorem idStep_objects {s s' : IdState} {ev : IdEvent} {out : IdOutput} (hs : idStep s ev = some (out, s'))
    {ref : Nat} {id : String} (ho : (s.objects[ref]?).map (·.id) = some id) :
    (s'.objects[ref]?).map (·.id) = some id := by
  have hcount : ∀ cached d, (((s.countDown cached d).objects)[ref]?).map (·.id) = some id := by
    intro cached d
    rcases cached with _ | ref'
    · exact ho
    · cases d
      · exact ho
      · simp only [IdState.countDown, List.getElem?_modify, Option.map_eq_map, Option.map_map]
        rw [← ho]
        congr 1
        funext o
        by_cases h : ref' = ref <;> simp [h]
  cases idStep_effect hs with
  | returned _ => exact ho
  | joined _ _ => exact ho
  | started _ _ => exact ho
  | moved _ _ => exact ho
  | @settled _ rid r v _ _ =>
    have hc := hcount r.cached v.decrement
    rw [IdState.settle, IdState.setPhase_objects]
    rcases v.write with _ | (_ | _)
    · exact hc
    · exact hc
    · obtain ⟨o, ho', hid⟩ := Option.map_eq_some_iff.1 hc
      simp only [IdState.write]
      rw [List.getElem?_append_left (List.getElem?_eq_some_iff.1 ho').1, ho', ← hid]
      rfl
  | cleaned _ _ => exact ho
  | evicted => exact ho

/-- Where the result of a resolution comes from: its probe, the provisional
entry it saw, or the fallback it read in this very step. -/
theorem Ends.source {s : IdState} {rid : Nat} {r : Resolution} {ev : IdEvent} {v : Verdict} {id : String}
    (h : Ends s rid r ev v) (hv : v.result = .ok id) :
    (∃ d, r.phase = .probed ⟨some id, d⟩) ∨ (∃ ref, r.cached = some ref ∧ (s.objects[ref]?).map (·.id) = some id) ∨
      readOf (ev, .settled v) = some (rid, id) := by
  cases h with
  | @reprobed probe docker o hp ho =>
    obtain ⟨ref, href, hobj⟩ := Option.bind_eq_some_iff.1 ho
    have hid : id = probe.id.getD o.id ∨ id = o.id := by
      unfold afterReprobe at hv
      split at hv
      · exact .inl (Except.ok.inj hv).symm
      · split at hv
        · exact .inl (Except.ok.inj hv).symm
        · split at hv
          · exact .inr (Except.ok.inj hv).symm
          · exact .inr (Except.ok.inj hv).symm
    have hcached : id = o.id → (s.objects[ref]?).map (·.id) = some id := by
      rintro rfl
      rw [hobj]
      rfl
    obtain ⟨pid, d⟩ := probe
    cases pid with
    | none =>
      have hid : id = o.id := by rcases hid with h | h <;> exact h
      exact .inr (.inl ⟨ref, href, hcached hid⟩)
    | some pid =>
      rcases hid with hid | hid
      · exact .inl ⟨d, by rw [hp, hid]; rfl⟩
      · exact .inr (.inl ⟨ref, href, hcached hid⟩)
  | @probed probe docker v hp ho hv' =>
    unfold afterProbe at hv'
    obtain ⟨pid, d⟩ := probe
    cases pid with
    | some pid =>
      cases hv'
      rw [(finish_result _ _ _ _).1] at hv
      cases hv
      exact .inl ⟨d, hp⟩
    | none =>
      right; right
      -- a verdict of the fallback tiers is a read of this step
      have hread : ∀ w : Verdict, w.result = .ok id → w.tiers = true → readOf (.resume rid docker, .settled w) =
          some (rid, id) := by
        rintro ⟨_, _, _, _, _⟩ rfl rfl
        rfl
      dsimp only at hv'
      split at hv'
      · split at hv'
        · cases hv'
          cases hv
        · cases hv'
          exact hread _ hv (finish_result _ _ _ _).2
      · split at hv'
        · cases hv'
          exact hread _ hv (finish_result _ _ _ _).2
        · cases hv'
  | @readGenesis probe reply hp =>
    right; right
    generalize afterGenesis r.url (s.evicted r) probe reply = v at hv ⊢
    obtain ⟨_, _, _, _, _⟩ := v
    cases hv
    rfl

theorem finish_write (evicted : Bool) (probe : Probe) (id : String) (tiers : Bool) :
    ∀ w ∈ (finish evicted probe id tiers).write, w = .commit id ∨ w = .provisional id := by
  unfold finish
  split
  · simp
  · split <;> simp

/-- A resolution writes the id it returns. -/
theorem Ends.write_result {s : IdState} {rid : Nat} {r : Resolution} {ev : IdEvent} {v : Verdict}
    (h : Ends s rid r ev v) :
    ∀ w ∈ v.write, ∃ id, v.result = .ok id ∧ (w = .commit id ∨ w = .provisional id) := by
  have hfinish : ∀ e p id t, ∀ w ∈ (finish e p id t).write,
      ∃ id', (finish e p id t).result = .ok id' ∧ (w = .commit id' ∨ w = .provisional id') :=
    fun e p id t w hw => ⟨id, (finish_result e p id t).1, finish_write e p id t w hw⟩
  cases h with
  | @reprobed probe docker o _ _ =>
    unfold afterReprobe
    split
    · simp
    · split
      · simp
      · split <;> simp
  | @probed probe docker v _ _ hv =>
    unfold afterProbe at hv
    split at hv
    · cases hv
      exact hfinish _ _ _ _
    · split at hv
      · split at hv
        · cases hv
          simp
        · cases hv
          exact hfinish _ _ _ _
      · split at hv
        · cases hv
          exact hfinish _ _ _ _
        · cases hv
  | @readGenesis probe reply _ =>
    unfold afterGenesis
    split
    · simp
    · split
      · simp
      · exact hfinish _ _ _ _

theorem idStep_entryId {s s' : IdState} {ev : IdEvent} {out : IdOutput} (hs : idStep s ev = some (out, s'))
    {e : CacheEntry} {id : String} (he : s.entryId e = some id) : s'.entryId e = some id := by
  cases e with
  | committed id' => exact he
  | provisional ref => exact idStep_objects hs he

/-- The entry a settling resolution writes holds its id. -/
theorem settle_entry (s : IdState) (rid : Nat) (r : Resolution) {v : Verdict} {w : CacheWrite} {id : String}
    (hw : v.write = some w) (hid : w = .commit id ∨ w = .provisional id) :
    ∃ e, (s.settle rid r v)._instanceIdCache r.url = some e ∧ (s.settle rid r v).entryId e = some id := by
  rcases hid with rfl | rfl
  · exact ⟨.committed id, IdState.settle_cache_commit _ _ _ _ hw, rfl⟩
  · refine ⟨.provisional (s.countDown r.cached v.decrement).objects.length, ?_, ?_⟩
    · simp [IdState.settle, hw, IdState.write]
    · simp [IdState.settle, hw, IdState.write, IdState.entryId]

/-! ## After an eviction -/

/-- The state after an eviction of `url` and the history `h`: the `N` resolutions
started before are of an older generation, and every id in the cache, in the
hands of a newer resolution or in a probe's answer was read in `h`. -/
structure Fresh (url : String) (N g : Nat) (h : List (IdEvent × IdOutput)) (s : IdState) : Prop where
  old : ∀ (rid : Nat) (r : Resolution), rid < N → s.resolutions[rid]? = some r → r.url = url → r.gen ≤ g
  gen : g < s._evictGen url
  inflight : ∀ rid, s._inflight url = some rid →
    N ≤ rid ∧ ∃ r : Resolution, s.resolutions[rid]? = some r ∧ r.url = url
  cache : ∀ e, s._instanceIdCache url = some e → ∃ id, s.entryId e = some id ∧ ReadIn h url id
  captured : ∀ (rid : Nat) (r : Resolution) (ref : Nat), N ≤ rid → s.resolutions[rid]? = some r → r.url = url →
    r.cached = some ref → ∃ id, (s.objects[ref]?).map (·.id) = some id ∧ ReadIn h url id
  probed : ∀ (rid : Nat) (r : Resolution) (id : String) (d : Bool), N ≤ rid → s.resolutions[rid]? = some r →
    r.url = url → r.phase = .probed ⟨some id, d⟩ → ReadIn h url id

section
variable {url : String} {N g : Nat} {h : List (IdEvent × IdOutput)} {s s' : IdState} {ev : IdEvent} {out : IdOutput}

theorem Fresh.no_write (hi : Fresh url N g h s) {rid : Nat} {r : Resolution} {v : Verdict}
    (hr : s.resolutions[rid]? = some r) (hv : Ends s rid r ev v) (hlt : rid < N) (hu : r.url = url) :
    v.write = none ∧ v.decrement = false := by
  apply hv.evicted
  have hle := hi.old rid r hlt hr hu
  have hgen := hi.gen
  simp only [IdState.evicted, bne_iff_ne, ne_eq, hu]
  omega

/-- What a resolution started after the eviction returns was read after it. -/
theorem Fresh.result (hi : Fresh url N g h s) {rid : Nat} {r : Resolution} {v : Verdict}
    (hr : s.resolutions[rid]? = some r) (hv : Ends s rid r ev v) (hle : N ≤ rid) (hu : r.url = url)
    (hstart : Started h url rid) {id : String} (hid : v.result = .ok id) :
    ReadIn (h ++ [(ev, .settled v)]) url id := by
  rcases hv.source hid with ⟨d, hp⟩ | ⟨ref, href, hobj⟩ | hread
  · exact (hi.probed rid r id d hle hr hu hp).append _
  · obtain ⟨id', hid', hin⟩ := hi.captured rid r ref hle hr hu href
    obtain rfl : id = id' := Option.some.inj (hobj.symm.trans hid')
    exact hin.append _
  · exact ⟨rid, List.mem_append_left _ hstart, _, List.mem_append_right _ (List.mem_singleton.2 rfl), hread⟩

theorem nodeServedInstanceId_probed {attempt : Nat} {reply : ProbeReply} {id : String} {d : Bool}
    (h : (nodeServedInstanceId attempt reply).2 = .probed ⟨some id, d⟩) :
    (nodeServedInstanceId attempt reply).1 = .answered (some id) := by
  unfold nodeServedInstanceId at h ⊢
  split at h
  · cases h
    simp_all
  · split at h
    · cases h
    · split at h <;> cases h

/-- The phase a resolution moves to holds a served id only if this step read it. -/
theorem Moves.probed {rid : Nat} {r : Resolution} {phase : Phase} (hm : Moves s rid r ev out phase) {id : String}
    {d : Bool} (hp : phase = .probed ⟨some id, d⟩) : readOf (ev, out) = some (rid, id) := by
  cases hm with
  | @attempt attempt reply _ =>
    rw [nodeServedInstanceId_probed hp]
    rfl
  | woken _ => cases hp
  | readsGenesis _ _ _ => cases hp

theorem Fresh.cache_step (hi : Fresh url N g h s) (hs : idStep s ev = some (out, s')) {e : CacheEntry}
    (he : s._instanceIdCache url = some e) :
    ∃ id, s'.entryId e = some id ∧ ReadIn (h ++ [(ev, out)]) url id := by
  obtain ⟨id, hid, hin⟩ := hi.cache e he
  exact ⟨id, idStep_entryId hs hid, hin.append _⟩

theorem Fresh.captured_step (hi : Fresh url N g h s) (hs : idStep s ev = some (out, s')) {rid : Nat} {r : Resolution}
    {ref : Nat} (hle : N ≤ rid) (hr : s.resolutions[rid]? = some r) (hu : r.url = url) (href : r.cached = some ref) :
    ∃ id, (s'.objects[ref]?).map (·.id) = some id ∧ ReadIn (h ++ [(ev, out)]) url id := by
  obtain ⟨id, hid, hin⟩ := hi.captured rid r ref hle hr hu href
  exact ⟨id, idStep_objects hs hid, hin.append _⟩

theorem Fresh.probed_step (hi : Fresh url N g h s) {rid : Nat} {r : Resolution} {id : String} {d : Bool} (hle : N ≤ rid)
    (hr : s.resolutions[rid]? = some r) (hu : r.url = url) (hp : r.phase = .probed ⟨some id, d⟩) :
    ReadIn (h ++ [(ev, out)]) url id :=
  (hi.probed rid r id d hle hr hu hp).append _

/-- A step that changes one phase. -/
theorem Fresh.setPhase (hi : Fresh url N g h s)
    (hstart : ∀ (rid : Nat) (r : Resolution), N ≤ rid → s.resolutions[rid]? = some r → r.url = url → Started h url rid)
    (hs : idStep s ev = some (out, s')) (hgen : g < s'._evictGen url) {rid : Nat} {phase : Phase}
    (hread : ∀ id d, phase = .probed ⟨some id, d⟩ → readOf (ev, out) = some (rid, id))
    (hres : s'.resolutions = (s.setPhase rid phase).resolutions)
    (hfl : ∀ j, s'._inflight url = some j → s._inflight url = some j)
    (hcache : ∀ e, s'._instanceIdCache url = some e → ∃ id, s'.entryId e = some id ∧ ReadIn (h ++ [(ev, out)]) url id) :
    Fresh url N g (h ++ [(ev, out)]) s' where
  old := by
    intro j r' hj hr' hu
    rw [hres] at hr'
    obtain ⟨r₀, hr₀, hu', hg', -⟩ := IdState.setPhase_getElem? hr'
    rw [hg']
    exact hi.old j r₀ hj hr₀ (hu'.symm.trans hu)
  gen := hgen
  inflight := by
    intro j hj
    obtain ⟨hle, r₀, hr₀, hu⟩ := hi.inflight j (hfl j hj)
    refine ⟨hle, ?_⟩
    rw [hres]
    simp only [IdState.setPhase, List.getElem?_modify, hr₀, Option.map_eq_map, Option.map_some]
    refine ⟨_, rfl, ?_⟩
    split <;> exact hu
  cache := hcache
  captured := by
    intro j r' ref hle hr' hu href
    rw [hres] at hr'
    obtain ⟨r₀, hr₀, hu', -, hc', -⟩ := IdState.setPhase_getElem? hr'
    exact hi.captured_step hs hle hr₀ (hu'.symm.trans hu) (hc'.symm.trans href)
  probed := by
    intro j r' id d hle hr' hu hp
    rw [hres] at hr'
    obtain ⟨r₀, hr₀, hu', -, -, ⟨rfl, hp'⟩ | ⟨-, rfl⟩⟩ := IdState.setPhase_getElem? hr'
    · refine ⟨j, List.mem_append_left _ (hstart j r₀ hle hr₀ (hu'.symm.trans hu)), _,
        List.mem_append_right _ (List.mem_singleton.2 rfl), hread id d (hp'.symm.trans hp)⟩
    · exact hi.probed_step hle hr₀ hu hp

/-- What a settling resolution leaves in the cache was read after the eviction. -/
theorem Fresh.settled_cache (hi : Fresh url N g h s) {rid : Nat} {r : Resolution} {v : Verdict}
    (hr : s.resolutions[rid]? = some r) (hv : Ends s rid r ev v)
    (hs : idStep s ev = some (.settled v, s.settle rid r v)) (hstart : N ≤ rid → r.url = url → Started h url rid)
    {e : CacheEntry} (he : (s.settle rid r v)._instanceIdCache url = some e) :
    ∃ id, (s.settle rid r v).entryId e = some id ∧ ReadIn (h ++ [(ev, .settled v)]) url id := by
  by_cases hu : url = r.url
  · cases hw : v.write with
    | none =>
      rw [IdState.settle_cache_none _ _ _ _ hw] at he
      exact hi.cache_step hs he
    | some w =>
      have hle : N ≤ rid := by
        by_contra hlt
        rw [(hi.no_write hr hv (by omega) hu.symm).1] at hw
        cases hw
      obtain ⟨id, hid, hwid⟩ := hv.write_result w hw
      obtain ⟨e', he', hid'⟩ := settle_entry s rid r hw hwid
      rw [← hu] at he'
      obtain rfl : e = e' := Option.some.inj (he.symm.trans he')
      exact ⟨id, hid', hi.result hr hv hle hu.symm (hstart hle hu.symm) hid⟩
  · rw [IdState.settle_cache_of_ne _ _ _ _ hu] at he
    exact hi.cache_step hs he

/-- A new resolution sees the cache as it is. -/
theorem Fresh.started (hi : Fresh url N g h s) (hlen : N ≤ s.resolutions.length) {url' : String}
    (hs : idStep s ev = some (out, s.start url')) (hgen : g < (s.start url')._evictGen url) :
    Fresh url N g (h ++ [(ev, out)]) (s.start url') where
  old := by
    intro j r hj hr hu
    rcases IdState.start_getElem? hr with hr | ⟨rfl, -⟩
    · exact hi.old j r hj hr hu
    · omega
  gen := hgen
  inflight := by
    intro j hj
    rcases update_eq_some hj with ⟨rfl, hrid⟩ | ⟨-, hj⟩
    · cases hrid
      refine ⟨hlen, s.resolveInstanceId url, ?_, (IdState.resolveInstanceId_url _).1⟩
      simp [IdState.start]
    · obtain ⟨hle, r, hr, hur⟩ := hi.inflight j hj
      refine ⟨hle, r, ?_, hur⟩
      simp only [IdState.start]
      rw [List.getElem?_append_left (List.getElem?_eq_some_iff.1 hr).1]
      exact hr
  cache := fun e he => hi.cache_step hs he
  captured := by
    intro j r ref hle hr hu href
    rcases IdState.start_getElem? hr with hr | ⟨-, rfl⟩
    · exact hi.captured_step hs hle hr hu href
    · rw [(IdState.resolveInstanceId_url _).1] at hu
      subst hu
      unfold IdState.resolveInstanceId at href
      split at href
      · cases href
      · rename_i ref' hentry
        cases href
        exact hi.cache_step hs hentry
      · cases href
  probed := by
    intro j r id d hle hr hu hp
    rcases IdState.start_getElem? hr with hr | ⟨-, rfl⟩
    · exact hi.probed_step hle hr hu hp
    · unfold IdState.resolveInstanceId at hp
      split at hp <;> cases hp

theorem Fresh.step (hi : Fresh url N g h s) (hlen : N ≤ s.resolutions.length)
    (hstart : ∀ (rid : Nat) (r : Resolution), N ≤ rid → s.resolutions[rid]? = some r → r.url = url → Started h url rid)
    (hs : idStep s ev = some (out, s')) (hgen : g < s'._evictGen url) : Fresh url N g (h ++ [(ev, out)]) s' := by
  have hcache : ∀ e, s._instanceIdCache url = some e → ∃ id, s'.entryId e = some id ∧ ReadIn (h ++ [(ev, out)]) url id :=
    fun e he => hi.cache_step hs he
  cases idStep_effect hs with
  | returned _ =>
    exact ⟨hi.old, hgen, hi.inflight, hcache, fun _ _ _ => hi.captured_step hs, fun _ _ _ _ => hi.probed_step⟩
  | joined _ _ =>
    exact ⟨hi.old, hgen, hi.inflight, hcache, fun _ _ _ => hi.captured_step hs, fun _ _ _ _ => hi.probed_step⟩
  | moved hr hm => exact hi.setPhase hstart hs hgen (fun id d => hm.probed) rfl (fun _ hj => hj) hcache
  | @settled _ rid r v hr hv =>
    apply hi.setPhase hstart hs hgen (by simp) (IdState.settle_resolutions _ _ _ _)
    · intro j hj
      rwa [IdState.settle_inflight] at hj
    · intro e he
      exact hi.settled_cache hr hv hs (fun hle hu => hstart rid r hle hr hu) he
  | @cleaned rid r result hr hp =>
    apply hi.setPhase hstart hs hgen (by simp) rfl _ hcache
    exact fun j hj => (update_none_eq_some hj).2
  | started _ _ => exact hi.started hlen hs hgen
  | @evicted url' =>
    refine ⟨hi.old, hgen, ?_, ?_, fun _ _ _ => hi.captured_step hs, fun _ _ _ _ => hi.probed_step⟩
    · exact fun j hj => hi.inflight j (update_none_eq_some hj).2
    · exact fun e he => hcache e (update_none_eq_some he).2

end

/-- Right after the eviction nothing of the url is left but its old resolutions. -/
theorem fresh_evicted {s : IdState} {url : String} {g : Nat}
    (hold : ∀ (rid : Nat) (r : Resolution), s.resolutions[rid]? = some r → r.url = url → r.gen ≤ g)
    (hgen : g < (evictInstanceId s url)._evictGen url) :
    Fresh url s.resolutions.length g [] (evictInstanceId s url) where
  old rid r _ hr hu := hold rid r hr hu
  gen := hgen
  inflight := by
    intro rid hf
    exact absurd rfl (update_none_eq_some hf).1
  cache := by
    intro e he
    exact absurd rfl (update_none_eq_some he).1
  captured := by
    intro rid r ref hle hr
    have := (List.getElem?_eq_some_iff.1 hr).1
    exact absurd hle (Nat.not_le_of_lt this)
  probed := by
    intro rid r id d hle hr
    have := (List.getElem?_eq_some_iff.1 hr).1
    exact absurd hle (Nat.not_le_of_lt this)

/-- Every state that a run goes through after the eviction is fresh. -/
theorem fresh_of_run {ok : IdState → IdEvent → Prop} {m s : IdState} {url : String} {pre post : List (IdEvent × IdOutput)}
    (hpre : IdRun ok pre m) (hpost : Run idStep ok (evictInstanceId m url) post s)
    (hle : evictions pre url + (evictions post url + 1) ≤ 2 ^ 53) :
    Fresh url m.resolutions.length (evictions pre url) post s := by
  have hgen₀ : m._evictGen url = evictions pre url := by
    have := evictGen_eq hpre url (by simp only [loadedModule]; omega)
    simpa [loadedModule] using this
  have hgen₁ : (evictInstanceId m url)._evictGen url = evictions pre url + 1 := by
    have hst : idStep m (.evict url) = some (.done, evictInstanceId m url) := rfl
    rw [idStep_evictGen hst url, hgen₀]
    simp only [isEviction, beq_self_eq_true, if_true]
    exact toDouble_of_le (by omega)
  have hold : ∀ (rid : Nat) (r : Resolution), m.resolutions[rid]? = some r → r.url = url →
      r.gen ≤ evictions pre url := fun rid r hrid hu => gen_le hpre (by omega) hrid hu
  induction hpost with
  | nil => exact fresh_evicted hold (by omega)
  | @snoc h s₁ s₂ out ev hrun hok hs ih =>
    have hadd := evictions_append h [(ev, out)] url
    have horigins := run_origins hrun
    refine (ih (by omega)).step ?_ ?_ hs ?_
    · have hlen := horigins.1.length_le
      simpa [IdState.origins, evictInstanceId] using hlen
    · exact fun rid r hrid hr hu => (horigins.2 url rid).2 ⟨hrid, r, hr, hu⟩
    · rw [evictGen_eq (.snoc ev hrun hok hs) url (by omega)]
      omega

/-- A verdict of a run, and the state it was given in. -/
theorem ends_of_settled {ok : IdState → IdEvent → Prop} {m s : IdState} {post : List (IdEvent × IdOutput)}
    (hpost : Run idStep ok m post s) {ev : IdEvent} {v : Verdict} (hmem : (ev, .settled v) ∈ post) :
    ∃ mid rest s₁ h₂ rid r, post = mid ++ (ev, .settled v) :: rest ∧ Run idStep ok m mid s₁ ∧
      Run idStep ok s₁ h₂ s ∧ ev.rid = some rid ∧ s₁.resolutions[rid]? = some r ∧ Ends s₁ rid r ev v := by
  obtain ⟨mid, rest, rfl⟩ := List.append_of_mem hmem
  obtain ⟨s₁, s₂, hmid, hok, hs, hrest⟩ := Run.at hpost
  obtain ⟨rid, r, hrid, hr', hv, -⟩ := idStep_settled hs
  exact ⟨mid, rest, s₁, _, rid, r, rfl, hmid, (Run.snoc ev .nil hok hs).append hrest, hrid, hr', hv⟩

theorem idStep_returned {s s' : IdState} {url id : String} (hs : idStep s (.call url) = some (.returned id, s')) :
    s._instanceIdCache url = some (.committed id) := by
  generalize hout : IdOutput.returned id = out at hs
  cases idStep_effect hs with
  | returned hc =>
    cases hout
    exact hc
  | joined _ _ => cases hout
  | started _ _ => cases hout
  | moved _ hm => cases hm
  | settled _ hv => cases hv

theorem idStep_joined {s s' : IdState} {url : String} {rid : Nat} (hs : idStep s (.call url) = some (.joined rid, s')) :
    s._inflight url = some rid := by
  generalize hout : IdOutput.joined rid = out at hs
  cases idStep_effect hs with
  | joined _ hfl =>
    cases hout
    exact hfl
  | returned _ => cases hout
  | started _ _ => cases hout
  | moved _ hm => cases hm
  | settled _ hv => cases hv

/-- What holds after every eviction of `url` in `h`: no resolution started before
it writes the entry of the url; and a call made after it is answered with an id
read after it, or shares a resolution started after it, whose result was read after it. -/
def EvictionsRespected (url : String) (h : List (IdEvent × IdOutput)) : Prop :=
  ∀ pre out post, h = pre ++ (.evict url, out) :: post →
    (∀ ev v rid, (ev, .settled v) ∈ post → ev.rid = some rid → Started pre url rid →
      v.write = none ∧ v.decrement = false) ∧
    ∀ mid out' rest, post = mid ++ (.call url, out') :: rest →
      (∀ id, out' = .returned id → ReadIn mid url id) ∧
      ∀ rid, out' = .joined rid ∨ out' = .started rid → Started (mid ++ [(.call url, out')]) url rid ∧
        ∀ ev v id, (ev, .settled v) ∈ post → ev.rid = some rid → v.result = .ok id → ReadIn post url id

/-- In every run that evicts the url at most `2 ^ 53` times. -/
theorem evictions_respected {h : List (IdEvent × IdOutput)} {s : IdState} {url : String}
    (hr : IdRun (fun _ _ => True) h s) (hle : evictions h url ≤ 2 ^ 53) : EvictionsRespected url h := by
  rintro pre out post rfl
  obtain ⟨m, m', hpre, -, hst, hpost⟩ := Run.at hr
  obtain rfl : evictInstanceId m url = m' := by
    cases hst
    rfl
  rw [evictions_append, show evictions ((.evict url, out) :: post) url = evictions post url + 1 by
    simp [evictions, isEviction]] at hle
  have hfresh : ∀ mid rest s', post = mid ++ rest → Run idStep (fun _ _ => True) (evictInstanceId m url) mid s' →
      Fresh url m.resolutions.length (evictions pre url) mid s' := by
    rintro mid rest s' rfl hmid
    rw [evictions_append] at hle
    exact fresh_of_run hpre hmid (by omega)
  have hstarted := fun mid s' (hmid : Run idStep (fun _ _ => True) (evictInstanceId m url) mid s') =>
    (run_origins hmid).2 url
  refine ⟨?_, ?_⟩
  · intro ev v rid hmem hrid hstart
    obtain ⟨mid, rest, s₁, h₂, rid', r, hsplit, hmid, -, hrid', hr', hv⟩ := ends_of_settled hpost hmem
    obtain rfl : rid = rid' := Option.some.inj (hrid.symm.trans hrid')
    obtain ⟨r₀, hr₀, hu⟩ := (started_iff hpre url rid).1 hstart
    -- the resolution is still the one that started before the eviction
    obtain ⟨r', hr'', ho⟩ := run_origin (m := evictInstanceId m url) hmid hr₀
    obtain rfl : r = r' := Option.some.inj (hr'.symm.trans hr'')
    have hurl : r.url = url := (congrArg Prod.fst ho).trans hu
    exact (hfresh mid _ s₁ hsplit hmid).no_write hr' hv (List.getElem?_eq_some_iff.1 hr₀).1 hurl
  · rintro mid out' rest rfl
    obtain ⟨s₁, s₂, hmid, -, hs, -⟩ := Run.at hpost
    have hf := hfresh mid _ s₁ rfl hmid
    constructor
    · rintro id rfl
      obtain ⟨id', hid', hin⟩ := hf.cache _ (idStep_returned hs)
      cases hid'
      exact hin
    · intro rid hout
      have hrid : Started (mid ++ [(.call url, out')]) url rid := by
        rcases hout with rfl | rfl
        · obtain ⟨hle, r, hr', hu⟩ := hf.inflight _ (idStep_joined hs)
          exact List.mem_append_left _ ((hstarted mid s₁ hmid rid).2 ⟨hle, r, hr', hu⟩)
        · exact List.mem_append_right _ (List.mem_singleton.2 rfl)
      refine ⟨hrid, ?_⟩
      intro ev v id hmem hev hid
      obtain ⟨mid₁, rest₁, s₃, h₂, rid', r, hsplit, hmid₁, hlater, hrid', hr', hv⟩ := ends_of_settled hpost hmem
      obtain rfl : rid = rid' := Option.some.inj (hev.symm.trans hrid')
      have hstart : Started (mid ++ (.call url, out') :: rest) url rid := by
        rw [List.append_cons]
        exact List.mem_append_left _ hrid
      obtain ⟨hle, rs, hrs, hu⟩ := (hstarted _ s hpost rid).1 hstart
      obtain ⟨rs', hrs', ho⟩ := run_origin hlater hr'
      obtain rfl : rs = rs' := Option.some.inj (hrs.symm.trans hrs')
      have hurl : r.url = url := (congrArg Prod.fst ho).symm.trans hu
      have hin := (hfresh mid₁ _ s₃ hsplit hmid₁).result hr' hv hle hurl
        ((hstarted mid₁ s₃ hmid₁ rid).2 ⟨hle, r, hr', hurl⟩) hid
      rw [hsplit, List.append_cons]
      exact hin.append rest₁

/-- `evictions_respected` on a call that an eviction overtakes, and one after it. -/
theorem late_answer_not_cached :
    ∃ h s, IdRun (fun _ _ => True) h s ∧ EvictionsRespected localUrl h ∧ evictions h localUrl = 1 ∧
      h.getLast? = some (.call localUrl, .started 1) := by
  obtain ⟨⟨h, s⟩, hp⟩ : ∃ p, play idStep (fun _ _ => True) loadedModule
    [.call localUrl, .evict localUrl, .respond 0 served, .resume 0 noDocker, .call localUrl] = some p := ⟨_, rfl⟩
  have hr : IdRun (fun _ _ => True) h s := Run.of_play hp
  obtain ⟨rfl, rfl⟩ := Prod.mk.inj (Option.some.inj hp)
  exact ⟨_, _, hr, evictions_respected hr (by decide), rfl, rfl⟩

/-! ## Past `2 ^ 53` -/

/-- The module after `k` evictions of one url. -/
def evictedTimes (k : ℕ) : IdState := { loadedModule with _evictGen := Function.update (fun _ => 0) localUrl k }

theorem evictedTimes_run {k : ℕ} (hk : k < 2 ^ 53) :
    Run idStep (fun _ _ => True) (evictedTimes k) [(.evict localUrl, .done)] (evictedTimes (k + 1)) := by
  refine .snoc (IdEvent.evict localUrl) .nil trivial ?_
  have hcache : Function.update (fun _ : String => (none : Option CacheEntry)) localUrl none = fun _ => none :=
    Function.update_eq_self localUrl _
  have hinflight : Function.update (fun _ : String => (none : Option Nat)) localUrl none = fun _ => none :=
    Function.update_eq_self localUrl _
  simp only [idStep, evictInstanceId, evictedTimes, loadedModule, hcache, hinflight, Function.update_self,
    Function.update_idem, toDouble_of_le (show k + 1 ≤ 2 ^ 53 from hk)]

/-- The eviction after which the generation stays `2 ^ 53`. -/
def unnoticed : List (IdEvent × IdOutput) :=
  [(.respond 0 served, .answered (some servedId)),
    (.resume 0 noDocker, .settled ⟨.ok servedId, false, some (.commit servedId), false, none⟩)]

theorem unnoticed_run : ∃ s, Run idStep (fun _ _ => True) (evictedTimes (2 ^ 53))
    ([(.call localUrl, .started 0)] ++ (.evict localUrl, .done) :: unnoticed) s := by
  obtain ⟨s, hp⟩ : ∃ s, play idStep (fun _ _ => True) (evictedTimes (2 ^ 53))
    [.call localUrl, .evict localUrl, .respond 0 served, .resume 0 noDocker] =
    some ([(.call localUrl, .started 0)] ++ (.evict localUrl, .done) :: unnoticed, s) := ⟨_, rfl⟩
  exact ⟨s, Run.of_play hp⟩

/-- Evict the url `2 ^ 53` times; then an eviction during a resolution goes unnoticed. -/
theorem eviction_unnoticed : ∃ h s, IdRun (fun _ _ => True) h s ∧ ¬ EvictionsRespected localUrl h := by
  have hrounds := Run.rounds (f := evictedTimes) (e := fun _ => [(IdEvent.evict localUrl, IdOutput.done)]) (2 ^ 53)
    fun k hk => evictedTimes_run hk
  have hstart : evictedTimes 0 = loadedModule := by
    have hgen : Function.update (fun _ : String => 0) localUrl 0 = fun _ => 0 := Function.update_eq_self localUrl _
    simp only [evictedTimes, hgen, loadedModule]
  rw [hstart] at hrounds
  obtain ⟨s, hlast⟩ := unnoticed_run
  refine ⟨_, s, hrounds.append hlast, fun h => ?_⟩
  rw [← List.append_assoc] at h
  obtain ⟨hw, -⟩ := h _ _ _ rfl
  obtain ⟨hnone, -⟩ := hw (.resume 0 noDocker) ⟨.ok servedId, false, some (.commit servedId), false, none⟩ 0
    (by simp [unnoticed]) rfl (by simp [Started])
  cases hnone

end HardhatTron

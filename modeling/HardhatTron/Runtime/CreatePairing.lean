import HardhatTron.Runtime.CreateMappingRuns
/-!
# How predictions meet creations

`registerCreateMappingsFromReceipt` searches the queue backwards by index and
splices entries out of the list it is scanning. `pairCreate` is that loop, and
`pairing_refines` shows that over any run of records and creations it computes
the map of a machine that keeps one candidate a contract.

`kth_pairs_iff` is about the header's reading of the queue: the K-th return is
the prediction for the K-th CREATE.
-/
namespace HardhatTron

open Lib

/-! ## The loops -/

/-- `pending[i].callerTronHex === callerHex` -/
def queuedBy (pending : List StaticReturn) (callerHex : JsString) (i : Nat) : Bool :=
  (pending[i]?).map (·.callerTronHex) = some callerHex

/-- The search from index `n - 1` down for an entry of the caller. -/
def pairedIdx (pending : List StaticReturn) (callerHex : JsString) : Nat → Option Nat
  | 0 => none
  | i + 1 => if queuedBy pending callerHex i then some i else pairedIdx pending callerHex i

/-- The sweep from index `n - 1` down: every entry of the caller is spliced out. -/
def sweep (callerHex : JsString) : List StaticReturn → Nat → List StaticReturn
  | pending, 0 => pending
  | pending, i + 1 =>
    if queuedBy pending callerHex i then sweep callerHex (pending.eraseIdx i) i else sweep callerHex pending i

theorem sweep_length_le (callerHex : JsString) (pending : List StaticReturn) (n : Nat) :
    (sweep callerHex pending n).length ≤ pending.length := by
  induction n generalizing pending with
  | zero => exact le_rfl
  | succ i ih =>
    rw [sweep]
    split
    · exact (ih _).trans (List.length_eraseIdx_le _ _)
    · exact ih _

/-- One round of the loop over the internal transactions. -/
def CreateMaps.pairCreate (s : CreateMaps) (itx : InternalTransaction) : CreateMaps :=
  if itx.isCreate then
    match pairedIdx s.pendingStaticReturns itx.callerHex s.pendingStaticReturns.length with
    | none => s
    | some i =>
      match s.pendingStaticReturns[i]? with
      | none => s
      | some paired =>
        { evmToTvm := Function.update s.evmToTvm paired.returnedEvmHex (some itx.actualEvm)
          pendingStaticReturns := sweep itx.callerHex (s.pendingStaticReturns.eraseIdx i) i
          bounded := (sweep_length_le _ _ _).trans ((List.length_eraseIdx_le _ _).trans s.bounded) }
  else s

/-! ## What the loops do -/

theorem queuedBy_append {older newer : List StaticReturn} {e : StaticReturn} (callerHex : JsString) :
    queuedBy (older ++ e :: newer) callerHex older.length = decide (e.callerTronHex = callerHex) := by
  simp [queuedBy]

/-- What the search finds is the newest entry of the caller. -/
theorem pairedIdx_eq_some {pending : List StaticReturn} {callerHex : JsString} {n i : Nat}
    (h : pairedIdx pending callerHex n = some i) :
    i < n ∧ queuedBy pending callerHex i = true ∧ ∀ j, i < j → j < n → queuedBy pending callerHex j = false := by
  induction n with
  | zero => cases h
  | succ m ih =>
    rw [pairedIdx] at h
    split at h
    · rename_i hm
      obtain rfl : m = i := Option.some.inj h
      exact ⟨Nat.lt_succ_self m, hm, fun j hj hj' => absurd hj' (by omega)⟩
    · rename_i hm
      obtain ⟨hlt, hq, hnewer⟩ := ih h
      refine ⟨Nat.lt_succ_of_lt hlt, hq, fun j hj hj' => ?_⟩
      rcases Nat.lt_succ_iff_lt_or_eq.1 hj' with hj' | rfl
      · exact hnewer j hj hj'
      · simpa using hm

theorem pairedIdx_eq_none {pending : List StaticReturn} {callerHex : JsString} {n : Nat}
    (h : pairedIdx pending callerHex n = none) : ∀ j < n, queuedBy pending callerHex j = false := by
  induction n with
  | zero => simp
  | succ m ih =>
    rw [pairedIdx] at h
    split at h
    · cases h
    · rename_i hm
      intro j hj
      rcases Nat.lt_succ_iff_lt_or_eq.1 hj with hj | rfl
      · exact ih h j hj
      · simpa using hm

/-- The sweep takes out the caller's entries below its start and no others. -/
theorem sweep_append (callerHex : JsString) (older newer : List StaticReturn) :
    sweep callerHex (older ++ newer) older.length =
      (older.filter fun e => e.callerTronHex ≠ callerHex) ++ newer := by
  induction older using List.reverseRecOn generalizing newer with
  | nil => rfl
  | append_singleton older e ih =>
    rw [List.length_append, List.length_singleton, sweep, List.append_assoc, List.singleton_append, queuedBy_append,
      List.filter_append]
    by_cases he : e.callerTronHex = callerHex
    · have herase : (older ++ e :: newer).eraseIdx older.length = older ++ newer := by
        rw [List.eraseIdx_append_of_length_le le_rfl, Nat.sub_self, List.eraseIdx_cons_zero]
      simp [he, herase, ih]
    · simp [he, ih]

/-- The loop pairs as `registerCreate` says. -/
theorem CreateMaps.pairCreate_eq (s : CreateMaps) (itx : InternalTransaction) : s.pairCreate itx = s.registerCreate itx := by
  unfold pairCreate registerCreate
  split
  · cases hi : pairedIdx s.pendingStaticReturns itx.callerHex s.pendingStaticReturns.length with
    | none =>
      have hnone : newestReturn s.pendingStaticReturns itx.callerHex = none := by
        rw [newestReturn_eq_none_iff]
        intro e he
        obtain ⟨j, hj, rfl⟩ := List.getElem_of_mem he
        simpa [queuedBy, hj] using pairedIdx_eq_none hi j hj
      simp only [hnone]
    | some i =>
      obtain ⟨hlt, hq, hnewer⟩ := pairedIdx_eq_some hi
      obtain ⟨older, e, newer, hpending, rfl⟩ :
          ∃ older e newer, s.pendingStaticReturns = older ++ e :: newer ∧ older.length = i :=
        ⟨s.pendingStaticReturns.take i, s.pendingStaticReturns[i], s.pendingStaticReturns.drop (i + 1), by simp,
          by simp; omega⟩
      have hcaller : e.callerTronHex = itx.callerHex := by
        rw [hpending, queuedBy_append] at hq
        exact of_decide_eq_true hq
      have hothers : ∀ x ∈ newer, x.callerTronHex ≠ itx.callerHex := by
        intro x hx
        obtain ⟨j, hj, rfl⟩ := List.getElem_of_mem hx
        have hread : s.pendingStaticReturns[older.length + (j + 1)]? = some newer[j] := by
          rw [hpending, List.getElem?_append_right (Nat.le_add_right _ _), Nat.add_sub_cancel_left,
            List.getElem?_cons_succ, List.getElem?_eq_getElem hj]
        have hfalse := hnewer (older.length + (j + 1)) (by omega)
          (by rw [hpending, List.length_append, List.length_cons]; omega)
        simpa [queuedBy, hread] using hfalse
      have hnewest : newestReturn s.pendingStaticReturns itx.callerHex = some e.returnedEvmHex := by
        rw [newestReturn, hpending, List.reverse_append, List.reverse_cons, List.append_assoc, List.find?_append,
          List.find?_eq_none.2 (by simpa using hothers)]
        simp [hcaller]
      have hread : s.pendingStaticReturns[older.length]? = some e := by
        rw [hpending]
        simp
      simp only [hread, hnewest]
      apply CreateMaps.ext_of
      · rfl
      · simp only [hpending]
        rw [List.eraseIdx_append_of_length_le le_rfl, Nat.sub_self, List.eraseIdx_cons_zero, sweep_append,
          List.filter_append, List.filter_cons_of_neg (by simpa using hcaller)]
        congr 1
        exact (List.filter_eq_self.2 (by simpa using hothers)).symm
  · rfl

/-! ## One candidate a contract -/

/-- A simulated call that returned an address, or an internal transaction of a receipt. -/
inductive PairingEvent where
  | record (caller : JsString) (returned : JsValue)
  | create (itx : InternalTransaction)

def PairingEvent.run (codec : AddressCodec) (s : CreateMaps) : PairingEvent → CreateMaps
  | .record caller returned => recordStaticReturnAddress codec s caller returned
  | .create itx => s.pairCreate itx

/-- The entry an event queues, if it queues one. -/
def PairingEvent.queued (codec : AddressCodec) : PairingEvent → Option StaticReturn
  | .record caller returned => staticReturn codec caller returned
  | .create _ => none

/-- The event is a record or a CREATE of this contract. -/
def PairingEvent.Concerns (codec : AddressCodec) (caller : JsString) : PairingEvent → Prop
  | .record c returned => ∃ r, staticReturn codec c returned = some ⟨caller, r⟩
  | .create itx => itx.isCreate = true ∧ itx.callerHex = caller

/-- A machine without a queue: the map, and at most one candidate for every contract. -/
structure Candidates where
  evmToTvm : EvmToTvm
  candidate : JsString → Option JsString

def Candidates.init : Candidates := ⟨fun _ => none, fun _ => none⟩

/-- A record replaces the contract's candidate. -/
def Candidates.record (t : Candidates) (e : StaticReturn) : Candidates :=
  { t with candidate := Function.update t.candidate e.callerTronHex (some e.returnedEvmHex) }

/-- A CREATE maps the contract's candidate, if any, to the new contract and clears it. -/
def Candidates.create (t : Candidates) (caller actualEvm : JsString) : Candidates :=
  match t.candidate caller with
  | some returned => ⟨Function.update t.evmToTvm returned (some actualEvm), Function.update t.candidate caller none⟩
  | none => t

def PairingEvent.runCandidates (codec : AddressCodec) (t : Candidates) (x : PairingEvent) : Candidates :=
  match x with
  | .record _ _ => (x.queued codec).elim t t.record
  | .create itx => if itx.isCreate then t.create itx.callerHex itx.actualEvm else t

/-- The bridge's state after the events of a process. -/
def pairedAfter (codec : AddressCodec) (events : List PairingEvent) : CreateMaps :=
  events.foldl (PairingEvent.run codec) .init

def candidatesAfter (codec : AddressCodec) (events : List PairingEvent) : Candidates :=
  events.foldl (PairingEvent.runCandidates codec) .init

/-- The queue never exceeds its limit: no record finds it full. -/
def QueueFits (codec : AddressCodec) (events : List PairingEvent) : Prop :=
  ∀ pre x post, events = pre ++ x :: post → (x.queued codec).isSome = true →
    (pairedAfter codec pre).pendingStaticReturns.length < pendingLimit

/-- The contract's last event was the record of `returned`. -/
def LastRecord (codec : AddressCodec) (events : List PairingEvent) (caller returned : JsString) : Prop :=
  ∃ pre x post, events = pre ++ x :: post ∧ x.queued codec = some ⟨caller, returned⟩ ∧
    ∀ y ∈ post, ¬ y.Concerns codec caller

/-- The queue's newest entry of each contract is its candidate. -/
structure RefinesCandidates (s : CreateMaps) (t : Candidates) : Prop where
  evmToTvm : s.evmToTvm = t.evmToTvm
  newest : ∀ caller, newestReturn s.pendingStaticReturns caller = t.candidate caller

section

variable {codec : AddressCodec}

theorem pairedAfter_snoc (events : List PairingEvent) (x : PairingEvent) :
    pairedAfter codec (events ++ [x]) = x.run codec (pairedAfter codec events) :=
  List.foldl_append

theorem candidatesAfter_snoc (events : List PairingEvent) (x : PairingEvent) :
    candidatesAfter codec (events ++ [x]) = x.runCandidates codec (candidatesAfter codec events) :=
  List.foldl_append

/-- An event queues at most one entry. -/
theorem PairingEvent.run_length (codec : AddressCodec) (s : CreateMaps) (x : PairingEvent) :
    (x.run codec s).pendingStaticReturns.length ≤ s.pendingStaticReturns.length + 1 := by
  cases x with
  | record caller returned =>
    rw [run, recordStaticReturnAddress]
    split
    · rw [CreateMaps.queue_pending, List.rtake]
      simp only [List.length_drop, List.length_append, List.length_singleton]
      omega
    · omega
  | create itx =>
    rw [run, CreateMaps.pairCreate_eq]
    by_cases h : ∃ returned, s.Pairs itx returned
    · obtain ⟨returned, hp⟩ := h
      rw [(CreateMaps.registerCreate_of_pairs hp).2]
      exact (List.length_filter_le _ _).trans (Nat.le_succ _)
    · rw [CreateMaps.registerCreate_of_not_pairs (not_exists.1 h)]
      omega

theorem QueueFits.of_append {events post : List PairingEvent} (h : QueueFits codec (events ++ post)) :
    QueueFits codec events := by
  rintro pre x mid rfl hx
  exact h pre x (mid ++ post) (by simp) hx

/-- In front of a full queue's limit, a record is appended. -/
theorem CreateMaps.queue_of_room {s : CreateMaps} (h : s.pendingStaticReturns.length < pendingLimit) (e : StaticReturn) :
    (s.queue e).pendingStaticReturns = s.pendingStaticReturns ++ [e] := by
  rw [queue_pending, List.rtake, List.length_append, List.length_singleton, Nat.sub_eq_zero_of_le h, List.drop_zero]

theorem newestReturn_snoc (pending : List StaticReturn) (e : StaticReturn) (caller : JsString) :
    newestReturn (pending ++ [e]) caller =
      Function.update (newestReturn pending) e.callerTronHex (some e.returnedEvmHex) caller := by
  rw [newestReturn, List.reverse_append, List.reverse_singleton, List.singleton_append, List.find?_cons]
  by_cases h : e.callerTronHex = caller
  · simp [h]
  · rw [Function.update_of_ne (Ne.symm h)]
    simp [h, newestReturn]

/-- A record keeps the refinement while there is room. -/
theorem RefinesCandidates.queue {s : CreateMaps} {t : Candidates} (h : RefinesCandidates s t)
    (hroom : s.pendingStaticReturns.length < pendingLimit) (e : StaticReturn) :
    RefinesCandidates (s.queue e) (t.record e) where
  evmToTvm := h.evmToTvm
  newest := by
    intro caller
    rw [CreateMaps.queue_of_room hroom, newestReturn_snoc, Candidates.record, funext h.newest]

/-- A CREATE keeps it. -/
theorem RefinesCandidates.create {s : CreateMaps} {t : Candidates} (h : RefinesCandidates s t)
    {itx : InternalTransaction} (hc : itx.isCreate = true) :
    RefinesCandidates (s.registerCreate itx) (t.create itx.callerHex itx.actualEvm) := by
  have hnew := h.newest itx.callerHex
  cases hcand : t.candidate itx.callerHex with
  | none =>
    have hnot : ∀ returned, ¬ s.Pairs itx returned := by
      rintro returned ⟨-, hr⟩
      rw [hnew, hcand] at hr
      cases hr
    rw [CreateMaps.registerCreate_of_not_pairs hnot, Candidates.create, hcand]
    exact h
  | some returned =>
    obtain ⟨hmap, hpending⟩ := CreateMaps.registerCreate_of_pairs ⟨hc, hnew.trans hcand⟩
    constructor
    · rw [hmap, Candidates.create, hcand, h.evmToTvm]
    · intro caller
      rw [hpending, newestReturn_filter, Candidates.create, hcand]
      by_cases he : caller = itx.callerHex
      · simp [he]
      · simp [he, h.newest]

/-- Every event keeps it. -/
theorem RefinesCandidates.step {s : CreateMaps} {t : Candidates} (h : RefinesCandidates s t) (x : PairingEvent)
    (hroom : (x.queued codec).isSome = true → s.pendingStaticReturns.length < pendingLimit) :
    RefinesCandidates (x.run codec s) (x.runCandidates codec t) := by
  cases x with
  | record caller returned =>
    simp only [PairingEvent.queued] at hroom
    simp only [PairingEvent.run, PairingEvent.runCandidates, PairingEvent.queued, recordStaticReturnAddress]
    cases he : staticReturn codec caller returned with
    | none => exact h
    | some e => exact h.queue (hroom (by rw [he]; rfl)) e
  | create itx =>
    simp only [PairingEvent.run, PairingEvent.runCandidates, CreateMaps.pairCreate_eq]
    split
    · rename_i hc
      exact h.create hc
    · rename_i hc
      rw [CreateMaps.registerCreate, if_neg hc]
      exact h

/-- The queue refines the candidates over every run. -/
theorem refinesCandidates_after (events : List PairingEvent) (hfits : QueueFits codec events) :
    RefinesCandidates (pairedAfter codec events) (candidatesAfter codec events) := by
  induction events using List.reverseRecOn with
  | nil => exact ⟨rfl, fun _ => rfl⟩
  | append_singleton events x ih =>
    rw [pairedAfter_snoc, candidatesAfter_snoc]
    exact (ih hfits.of_append).step x fun hx => hfits events x [] rfl hx

/-! ## Which prediction a CREATE meets -/

theorem lastRecord_snoc {events : List PairingEvent} {x : PairingEvent} {caller returned : JsString} :
    LastRecord codec (events ++ [x]) caller returned ↔
      x.queued codec = some ⟨caller, returned⟩ ∨
        ¬ x.Concerns codec caller ∧ LastRecord codec events caller returned := by
  constructor
  · rintro ⟨pre, y, post, he, hy, hpost⟩
    rcases List.eq_nil_or_concat post with rfl | ⟨post, z, rfl⟩
    · obtain ⟨rfl, hxy⟩ := List.append_inj' he rfl
      obtain rfl : x = y := by simpa using hxy
      exact .inl hy
    · rw [List.concat_eq_append, ← List.cons_append, ← List.append_assoc] at he
      obtain ⟨rfl, hxz⟩ := List.append_inj' he rfl
      obtain rfl : x = z := by simpa using hxz
      exact .inr ⟨hpost x (by simp), pre, y, post, rfl, hy, fun z hz => hpost z (by simp [hz])⟩
  · rintro (hx | ⟨hx, pre, y, post, rfl, hy, hpost⟩)
    · exact ⟨events, x, [], rfl, hx, by simp⟩
    · refine ⟨pre, y, post ++ [x], by simp, hy, ?_⟩
      intro z hz
      rcases List.mem_append.1 hz with hz | hz
      · exact hpost z hz
      · obtain rfl := List.mem_singleton.1 hz
        exact hx

/-- A contract's candidate is the address its last event recorded. -/
theorem candidate_iff (events : List PairingEvent) (caller returned : JsString) :
    (candidatesAfter codec events).candidate caller = some returned ↔ LastRecord codec events caller returned := by
  induction events using List.reverseRecOn generalizing caller returned with
  | nil => simp [candidatesAfter, Candidates.init, LastRecord]
  | append_singleton events x ih =>
    rw [candidatesAfter_snoc, lastRecord_snoc]
    cases x with
    | record c v =>
      simp only [PairingEvent.runCandidates, PairingEvent.queued, PairingEvent.Concerns]
      cases he : staticReturn codec c v with
      | none => simp [ih]
      | some e =>
        obtain ⟨ec, er⟩ := e
        simp only [Option.elim_some, Candidates.record]
        by_cases hc : caller = ec
        · subst hc
          simp
        · simp [Function.update_of_ne hc, ih, Ne.symm hc]
    | create itx =>
      simp only [PairingEvent.runCandidates, PairingEvent.queued, PairingEvent.Concerns]
      by_cases hc : itx.isCreate = true
      · rw [if_pos hc, Candidates.create]
        cases hcand : (candidatesAfter codec events).candidate itx.callerHex with
        | none =>
          by_cases hcaller : itx.callerHex = caller
          · simp [hcaller ▸ hcand, hc, hcaller]
          · simp [ih, hc, hcaller]
        | some r =>
          by_cases hcaller : itx.callerHex = caller
          · simp [hc, hcaller]
          · simp [Function.update_of_ne (Ne.symm hcaller), ih, hc, hcaller]
      · simp [hc, ih]

/-- Over any run that the queue fits, the splices compute the map of one candidate a contract. A CREATE
pairs with the address its contract's last event recorded and with nothing else, and takes out all
entries of that contract and no others. -/
theorem pairing_refines (codec : AddressCodec) (events : List PairingEvent) (hfits : QueueFits codec events) :
    (pairedAfter codec events).evmToTvm = (candidatesAfter codec events).evmToTvm ∧
    ∀ pre itx post, events = pre ++ .create itx :: post →
      (∀ returned, (pairedAfter codec pre).Pairs itx returned ↔
        itx.isCreate = true ∧ LastRecord codec pre itx.callerHex returned) ∧
      ((∃ returned, (pairedAfter codec pre).Pairs itx returned) →
        (pairedAfter codec (pre ++ [.create itx])).pendingStaticReturns =
          (pairedAfter codec pre).pendingStaticReturns.filter fun e => e.callerTronHex ≠ itx.callerHex) := by
  refine ⟨(refinesCandidates_after events hfits).evmToTvm, ?_⟩
  rintro pre itx post rfl
  have hpre := refinesCandidates_after pre hfits.of_append
  constructor
  · intro returned
    rw [CreateMaps.Pairs, hpre.newest, candidate_iff]
  · rintro ⟨returned, hp⟩
    rw [pairedAfter_snoc, PairingEvent.run, CreateMaps.pairCreate_eq]
    exact (CreateMaps.registerCreate_of_pairs hp).2

/-- No more events than the limit have room in the queue. -/
theorem queueFits_of_short {events : List PairingEvent} (h : events.length ≤ pendingLimit) :
    QueueFits codec events := by
  have hlen : ∀ pre : List PairingEvent, (pairedAfter codec pre).pendingStaticReturns.length ≤ pre.length := by
    intro pre
    induction pre using List.reverseRecOn with
    | nil => exact le_rfl
    | append_singleton pre x ih =>
      rw [pairedAfter_snoc, List.length_append, List.length_singleton]
      exact (x.run_length codec _).trans (Nat.succ_le_succ ih)
  rintro pre x post rfl -
  rw [List.length_append, List.length_cons] at h
  have := hlen pre
  omega

def otherFactory : JsString := "415555555555555555555555555555555555555555".toList

/-- Two contracts predict in turn, the first one twice. -/
def twoFactories : List PairingEvent :=
  [.record factory (.str predicted), .record otherFactory (.str predicted), .record factory (.str predictedNext)]

/-- The second prediction replaced the first; the other contract's waits. -/
theorem pairing_refines_once :
    (pairedAfter actualCodec (twoFactories ++ [.create (creation false)])).evmToTvm =
      (candidatesAfter actualCodec (twoFactories ++ [.create (creation false)])).evmToTvm ∧
    (pairedAfter actualCodec twoFactories).Pairs (creation false) predictedNext ∧
    (pairedAfter actualCodec (twoFactories ++ [.create (creation false)])).pendingStaticReturns =
      [⟨otherFactory, predicted⟩] := by
  obtain ⟨hmaps, hcreates⟩ := pairing_refines actualCodec (twoFactories ++ [.create (creation false)])
    (queueFits_of_short (by decide))
  obtain ⟨hpairs, hqueue⟩ := hcreates twoFactories (creation false) [] rfl
  have hlast : LastRecord actualCodec twoFactories (creation false).callerHex predictedNext :=
    ⟨twoFactories.take 2, .record factory (.str predictedNext), [], rfl, rfl, by simp⟩
  have hpaired := (hpairs predictedNext).2 ⟨rfl, hlast⟩
  refine ⟨hmaps, hpaired, ?_⟩
  rw [hqueue ⟨predictedNext, hpaired⟩]
  rfl

end

/-! ## The K-th prediction and the K-th CREATE -/

/-- A simulated call that records `key` for the contract. -/
def Simulates (codec : AddressCodec) (evmToTvm : EvmToTvm) (caller : JsString) (call : FacadeCall)
    (key : JsString) : Prop :=
  call.receipt = none ∧ call.queues codec evmToTvm = [⟨caller, key⟩]

/-- A successful broadcast in which the contract creates one contract. -/
def Creates (caller : JsString) (call : FacadeCall) (itx : InternalTransaction) : Prop :=
  (∃ fn address isWrite info sim, call = .broadcast fn address isWrite (.mined (some info) sim) ∧
    succeeded (some info) = true ∧
    (internalTransactionsOf (some info)).filter InternalTransaction.isCreate = [itx]) ∧
  itx.callerHex = caller ∧ isTronHex itx.transferTo_address = true

section

variable {codec : AddressCodec} {caller : JsString}

/-- What is queued as an EVM address is itself a spelling of its entry. -/
theorem normalizeAddrText_of_returned {t : JsString} (h : returnedText codec t ≠ []) :
    normalizeAddrText codec t = returnedText codec t := by
  unfold returnedText at h ⊢
  unfold normalizeAddrText
  by_cases hevm : isEvmHex t = true
  · obtain ⟨x, ds, rfl, hlen⟩ : ∃ x ds, t = '0' :: x :: ds ∧ ds.length = 40 := by
      unfold isEvmHex at hevm
      split at hevm
      · rename_i x ds
        simp only [Bool.and_eq_true, decide_eq_true_eq] at hevm
        exact ⟨x, ds, rfl, hevm.1.2⟩
      · cases hevm
    have htron : isTronHex ('0' :: x :: ds) = false := rfl
    have hpre : isPrefixedTronHex ('0' :: x :: ds) = false := by
      have hds : isTronHex ds = false := by
        unfold isTronHex
        split
        · rename_i ds'
          have : ds'.length ≠ 40 := by
            simp only [List.length_cons] at hlen
            omega
          simp [this]
        · rfl
      simp [isPrefixedTronHex, hds]
    simp [htron, hpre, hevm]
  · rw [if_neg hevm] at h ⊢
    by_cases haddr : isTronAddress t = true
    · obtain ⟨cs, rfl⟩ : ∃ cs, t = 'T' :: cs := by
        unfold isTronAddress at haddr
        cases t with
        | nil => simp at haddr
        | cons c cs =>
          simp only [List.head?_cons, Option.some.injEq, Bool.and_eq_true, decide_eq_true_eq] at haddr
          exact ⟨cs, by rw [haddr.1]⟩
      -- no form of a hex address starts with a `T`
      cases codec.toHex ('T' :: cs) with
      | none => rfl
      | some hex => rfl
    · rw [if_neg haddr] at h
      exact absurd rfl h

theorem staticReturn_spelled {c : JsString} {returned : JsValue} {e : StaticReturn}
    (h : staticReturn codec c returned = some e) :
    e.returnedEvmHex ≠ [] ∧ ∃ x, normalizeAddrToEvmHex codec x = e.returnedEvmHex := by
  unfold staticReturn at h
  split at h
  · cases h
  rename_i hne
  obtain rfl := Option.some.inj h
  rw [not_or] at hne
  refine ⟨hne.2, ?_⟩
  have hne := hne.2
  revert hne
  unfold returnedEvmHex
  split
  · rename_i t
    intro hne
    exact ⟨.str t, normalizeAddrText_of_returned hne⟩
  · dsimp only
    split
    · rename_i ch cs _
      intro hne
      exact ⟨.str (ch :: cs), normalizeAddrText_of_returned hne⟩
    · intro hne
      exact absurd rfl hne
  · intro hne
    exact absurd rfl hne

theorem simulatedReturn_spelled {evmToTvm : EvmToTvm} {fn : FnAbi} {address : JsString} {answer : SimAnswer}
    {e : StaticReturn} (h : simulatedReturn codec evmToTvm fn address answer = some e) :
    e.returnedEvmHex ≠ [] ∧ ∃ x, normalizeAddrToEvmHex codec x = e.returnedEvmHex := by
  unfold simulatedReturn at h
  split at h
  · split at h
    · exact staticReturn_spelled h
    · cases h
  · cases h

/-- A recorded prediction is an address that a test can name. -/
theorem Simulates.spelled {evmToTvm : EvmToTvm} {call : FacadeCall} {key : JsString}
    (h : Simulates codec evmToTvm caller call key) :
    key ≠ [] ∧ ∃ x, normalizeAddrToEvmHex codec x = key := by
  obtain ⟨-, hq⟩ := h
  have hmem : (⟨caller, key⟩ : StaticReturn) ∈ call.queues codec evmToTvm := by simp [hq]
  unfold FacadeCall.queues at hmem
  split at hmem
  · exact simulatedReturn_spelled (Option.mem_toList.1 hmem)
  · exact simulatedReturn_spelled (Option.mem_toList.1 hmem)
  · split at hmem
    · exact simulatedReturn_spelled (Option.mem_toList.1 hmem)
    · cases hmem
  · exact simulatedReturn_spelled (Option.mem_toList.1 hmem)
  · exact simulatedReturn_spelled (Option.mem_toList.1 hmem)
  · cases hmem

theorem spelled_of_mem {evmToTvm : EvmToTvm} {sims : List FacadeCall} {keys : List JsString}
    (hsims : List.Forall₂ (Simulates codec evmToTvm caller) sims keys) {key : JsString} (hkey : key ∈ keys) :
    key ≠ [] ∧ ∃ x, normalizeAddrToEvmHex codec x = key := by
  induction hsims with
  | nil => cases hkey
  | cons h _ ih =>
    rcases List.mem_cons.1 hkey with rfl | hkey
    · exact h.spelled
    · exact ih hkey

/-- Simulated calls fill the queue in order. -/
theorem queue_of_simulations {s : CreateMaps} (hempty : s.pendingStaticReturns = []) {sims : List FacadeCall}
    {keys : List JsString} (hsims : List.Forall₂ (Simulates codec s.evmToTvm caller) sims keys)
    (hlimit : keys.length ≤ pendingLimit) :
    (sims.foldl (FacadeCall.run codec) s).evmToTvm = s.evmToTvm ∧
    (sims.foldl (FacadeCall.run codec) s).pendingStaticReturns = keys.map fun key => ⟨caller, key⟩ := by
  have hreceipts : ∀ call ∈ sims, call.receipt = none := by
    clear hlimit
    induction hsims with
    | nil => simp
    | cons h _ ih =>
      rw [List.forall_mem_cons]
      exact ⟨h.1, ih⟩
  obtain ⟨hm, hq⟩ := run_of_no_receipts codec s sims hreceipts
  have hqueued : sims.flatMap (FacadeCall.queues codec s.evmToTvm) = keys.map fun key => ⟨caller, key⟩ := by
    clear hlimit hreceipts hm hq
    induction hsims with
    | nil => rfl
    | cons h _ ih => rw [List.flatMap_cons, h.2, ih, List.map_cons, List.singleton_append]
  refine ⟨hm, ?_⟩
  rw [hq, hempty, List.nil_append, hqueued, List.rtake, List.length_map, Nat.sub_eq_zero_of_le hlimit, List.drop_zero]

theorem Creates.run {call : FacadeCall} {itx : InternalTransaction} (h : Creates caller call itx) (s : CreateMaps) :
    call.run codec s = s.registerCreate itx := by
  obtain ⟨⟨fn, address, isWrite, info, sim, rfl, hs, hitx⟩, -⟩ := h
  simp only [FacadeCall.run, settle, register_of_one_create s (some info) itx hitx, hs, if_true]

theorem Creates.isCreate {call : FacadeCall} {itx : InternalTransaction} (h : Creates caller call itx) :
    itx.isCreate = true := by
  obtain ⟨⟨_, _, _, info, _, -, -, hitx⟩, -⟩ := h
  have hmem : itx ∈ (internalTransactionsOf (some info)).filter InternalTransaction.isCreate := by simp [hitx]
  exact (List.mem_filter.1 hmem).2

/-- With nothing pending, broadcasts leave the state alone. -/
theorem run_creates_of_empty {s : CreateMaps} (hempty : s.pendingStaticReturns = []) {sends : List FacadeCall}
    {itxs : List InternalTransaction} (hsends : List.Forall₂ (Creates caller) sends itxs) :
    sends.foldl (FacadeCall.run codec) s = s := by
  induction hsends with
  | nil => rfl
  | cons h _ ih =>
    rw [List.foldl_cons, h.run, CreateMaps.registerCreate_of_not_pairs, ih]
    rintro returned ⟨-, hr⟩
    rw [hempty] at hr
    cases hr

/-- The k predictions meet k broadcasts: the newest prediction takes the first creation, and the rest
are dropped. -/
theorem run_sims_creates {s : CreateMaps} (hempty : s.pendingStaticReturns = []) {sims : List FacadeCall}
    {older : List JsString} {newest : JsString}
    (hsims : List.Forall₂ (Simulates codec s.evmToTvm caller) sims (older ++ [newest]))
    (hlimit : (older ++ [newest]).length ≤ pendingLimit) {sends : List FacadeCall} {first : InternalTransaction}
    {itxs : List InternalTransaction} (hsends : List.Forall₂ (Creates caller) sends (first :: itxs)) :
    ∃ t : CreateMaps, t.evmToTvm = s.evmToTvm ∧ (∀ key, t.Pairs first key ↔ key = newest) ∧
      (sims ++ sends).foldl (FacadeCall.run codec) s = t.registerCreate first := by
  obtain ⟨hm, hq⟩ := queue_of_simulations hempty hsims hlimit
  obtain ⟨send, sends, hfirst, hrest, rfl⟩ := List.forall₂_cons_right_iff.1 hsends
  refine ⟨_, hm, ?_, ?_⟩
  · intro key
    rw [CreateMaps.Pairs, hq, List.map_append, List.map_singleton, newestReturn_snoc, hfirst.2.1, Function.update_self]
    simp [hfirst.isCreate, eq_comm]
  · rw [List.foldl_append, List.foldl_cons, hfirst.run]
    apply run_creates_of_empty _ hrest
    generalize sims.foldl (FacadeCall.run codec) s = t at hq
    have hp : t.Pairs first newest := by
      rw [CreateMaps.Pairs, hq, List.map_append, List.map_singleton, newestReturn_snoc, hfirst.2.1,
        Function.update_self]
      exact ⟨hfirst.isCreate, rfl⟩
    rw [(CreateMaps.registerCreate_of_pairs hp).2, hq, hfirst.2.1, List.filter_eq_nil_iff]
    intro e he
    obtain ⟨key, -, rfl⟩ := List.mem_map.1 he
    simp

/-- An address that a test can name leads to one place. -/
theorem AllReach.unique {evmToTvm : EvmToTvm} {key a b : JsString} (hkey : ∃ x, normalizeAddrToEvmHex codec x = key)
    (ha : AllReach codec evmToTvm key a) (hb : AllReach codec evmToTvm key b) : a = b := by
  obtain ⟨x, hx⟩ := hkey
  obtain ⟨c, hc, hca⟩ := ha x hx
  obtain ⟨d, hd, hdb⟩ := hb x hx
  obtain rfl : c = d := Option.some.inj (hc.symm.trans hd)
  exact List.append_cancel_left (Option.some.inj (hca.symm.trans hdb))

/-- `k` simulated calls of a contract and then `k` broadcasts of it that create one contract each: the
K-th prediction leads to the K-th contract, for every K, exactly when the first K - 1 predictions led
there before and the last contract is the first one. So it does for one prediction, and not for
several new ones. -/
theorem kth_pairs_iff (codec : AddressCodec) (hcodec : RoundTrips codec) (s : CreateMaps)
    (hempty : s.pendingStaticReturns = []) (caller : JsString) (sims : List FacadeCall) (keys : List JsString)
    (hsims : List.Forall₂ (Simulates codec s.evmToTvm caller) sims keys) (hdistinct : keys.Nodup)
    (hlimit : keys.length ≤ pendingLimit) (sends : List FacadeCall) (itxs : List InternalTransaction)
    (hsends : List.Forall₂ (Creates caller) sends itxs) (hk : keys.length = itxs.length) :
    (∀ p ∈ keys.zip itxs,
        AllReach codec ((sims ++ sends).foldl (FacadeCall.run codec) s).evmToTvm p.1 p.2.createdAt) ↔
      itxs.getLast?.map InternalTransaction.createdAt = itxs.head?.map InternalTransaction.createdAt ∧
        ∀ p ∈ keys.dropLast.zip itxs, AllReach codec s.evmToTvm p.1 p.2.createdAt := by
  rcases List.eq_nil_or_concat keys with rfl | ⟨older, newest, rfl⟩
  · obtain rfl : itxs = [] := List.length_eq_zero_iff.1 hk.symm
    simp
  obtain ⟨first, rest, hitxs⟩ : ∃ first rest, itxs = first :: rest := by
    apply List.exists_cons_of_length_pos
    rw [← hk, List.length_concat]
    exact Nat.succ_pos _
  obtain ⟨init, last, hinit⟩ := (List.eq_nil_or_concat itxs).resolve_left (by simp [hitxs])
  rw [List.concat_eq_append] at hsims hdistinct hlimit hk ⊢ hinit
  have hlen : older.length = init.length := by
    simpa [hinit] using hk
  obtain ⟨t, htm, htp, hrun⟩ := run_sims_creates hempty hsims hlimit (hitxs ▸ hsends)
  obtain ⟨hne, hspelled⟩ := spelled_of_mem hsims (List.mem_append_right older (List.mem_singleton_self newest))
  have hto : isTronHex first.transferTo_address = true := by
    rw [hitxs] at hsends
    obtain ⟨send, _, hfirst, -⟩ := List.forall₂_cons_right_iff.1 hsends
    exact hfirst.2.2
  -- The newest prediction leads to the first contract, and the older ones where they led before.
  have hnewest : AllReach codec (t.registerCreate first).evmToTvm newest first.createdAt :=
    allReach_of_pairs hcodec hne ((htp newest).2 rfl) hto
  have holder : ∀ key ∈ older, ∀ a,
      AllReach codec (t.registerCreate first).evmToTvm key a ↔ AllReach codec s.evmToTvm key a := by
    intro key hkey a
    rw [← htm]
    apply allReach_of_not_pairs
    rw [htp]
    rintro rfl
    exact (List.nodup_append.1 hdistinct).2.2 key hkey key (by simp) rfl
  have hzip : (older ++ [newest]).zip itxs = older.zip init ++ [(newest, last)] := by
    rw [hinit, List.zip_append hlen]
    rfl
  have hdrop : (older ++ [newest]).dropLast.zip itxs = older.zip init := by
    rw [List.dropLast_concat, hinit, ← List.append_nil older, List.zip_append hlen, List.zip_nil_left,
      List.append_nil, List.append_nil]
  rw [hrun, hzip, hdrop, hinit, List.getLast?_concat, ← hinit, hitxs]
  simp only [List.forall_mem_append, List.forall_mem_singleton, List.head?_cons, Option.map_some, Option.some.injEq]
  constructor
  · rintro ⟨hold, hnew⟩
    refine ⟨AllReach.unique hspelled hnew hnewest, ?_⟩
    intro p hp
    exact (holder p.1 (List.of_mem_zip hp).1 _).1 (hold p hp)
  · rintro ⟨hlast, hold⟩
    constructor
    · intro p hp
      exact (holder p.1 (List.of_mem_zip hp).1 _).2 (hold p hp)
    · rw [hlast]
      exact hnewest

end

def actualNext : JsString := "415555555555555555555555555555555555555555".toList

/-- A prediction of the payable factory. -/
def predictCall (returned : JsString) : FacadeCall :=
  .staticCall (addressFn .payable) factory (.returned (.str returned))

def creationAt (address : JsString) : InternalTransaction := { creation false with transferTo_address := address }

theorem payable_isView : (addressFn .payable).isView = false := rfl

/-- Its broadcast, which creates a contract at the address. -/
def createCall (address : JsString) : FacadeCall :=
  .broadcast (addressFn .payable) factory payable_isView
    (.mined (some { creationInfo "SUCCESS" false with internal_transactions := some [creationAt address] }) .threw)

theorem createCall_creates (address : JsString) (h : address ≠ []) (hto : isTronHex address = true) :
    Creates factory (createCall address) (creationAt address) := by
  refine ⟨⟨addressFn .payable, factory, payable_isView, _, .threw, rfl, rfl, ?_⟩, rfl, hto⟩
  have hcreate : (creationAt address).isCreate = true := by
    unfold InternalTransaction.isCreate
    rw [decide_eq_true_eq]
    exact ⟨rfl, List.cons_ne_nil _ _, h⟩
  exact List.filter_cons_of_pos hcreate

/-- One prediction and its broadcast: the two conditions hold of themselves. -/
theorem first_pairs : AllReach actualCodec
    (([predictCall predicted] ++ [createCall actual]).foldl (FacadeCall.run actualCodec) .init).evmToTvm
    predicted (creationAt actual).createdAt :=
  (kth_pairs_iff actualCodec actualCodec_roundTrips .init rfl factory [predictCall predicted] [predicted]
    (.cons ⟨rfl, by decide⟩ .nil) (by decide) (by decide) [createCall actual] [creationAt actual]
    (.cons (createCall_creates actual (by decide) (by decide)) .nil) rfl).2 ⟨rfl, by simp⟩
    (predicted, creationAt actual) List.mem_cons_self

/-- Of two predictions and two broadcasts, the second prediction takes the first contract, and the first
prediction leads nowhere. -/
theorem second_takes_first : ¬ ∀ (codec : AddressCodec) (s : CreateMaps) (caller : JsString) (sims : List FacadeCall)
    (keys : List JsString) (sends : List FacadeCall) (itxs : List InternalTransaction), RoundTrips codec →
    s.pendingStaticReturns = [] → List.Forall₂ (Simulates codec s.evmToTvm caller) sims keys → keys.Nodup →
    1 ≤ keys.length → keys.length ≤ pendingLimit → List.Forall₂ (Creates caller) sends itxs →
    keys.length = itxs.length → ∀ p ∈ keys.zip itxs,
      AllReach codec ((sims ++ sends).foldl (FacadeCall.run codec) s).evmToTvm p.1 p.2.createdAt := by
  intro h
  have hfirst := h actualCodec .init factory [predictCall predicted, predictCall predictedNext]
    [predicted, predictedNext] [createCall actual, createCall actualNext] [creationAt actual, creationAt actualNext]
    actualCodec_roundTrips rfl (.cons ⟨rfl, by decide⟩ (.cons ⟨rfl, by decide⟩ .nil)) (by decide) (by decide) (by decide)
    (.cons (createCall_creates actual (by decide) (by decide))
      (.cons (createCall_creates actualNext (by decide) (by decide)) .nil)) rfl (predicted, creationAt actual) (by simp)
  obtain ⟨b, hb, -⟩ := hfirst (.str predicted) (by decide)
  have hnone : lookupTvmActualBase58 actualCodec
      (([predictCall predicted, predictCall predictedNext] ++ [createCall actual, createCall actualNext]).foldl
        (FacadeCall.run actualCodec) .init).evmToTvm (.str predicted) = none := by decide
  rw [hnone] at hb
  cases hb

end HardhatTron

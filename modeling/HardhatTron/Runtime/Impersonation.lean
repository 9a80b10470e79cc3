import HardhatTron.Lib.Runs
import HardhatTron.Runtime.Rpc
import HardhatTron.Runtime.ValueFlow
import Mathlib.Data.Finset.Basic
/-!
# Impersonated accounts on both sides

The patched `impersonateAccount` and `stopImpersonatingAccount` ask the node
and then update the client's own set. The node's `TreImpersonationRegistry` and
that set must stay in sync, but `callOrFalse` turns a failed RPC into a value:
the one helper takes it for an unpatched node, the other ignores it.

Calls run concurrently. A call is sent, executed by the node or not, answered
or failed, retried once after a transient error, and settled; each is a step of
its own. `impersonations_in_sync`: in every run whose calls keep to `Heeds` the
two sides agree on every address once no call is in progress.
-/
namespace HardhatTron

open Lib

namespace Impersonation

/-! ## The node -/

/-- `TreUtil.decodeAddress`, and the base58 address of its result. -/
structure Env where
  codec : AddressCodec
  decodeAddress : JsString → Except String Bytes
  decode_ne_nil : ∀ {text address}, decodeAddress text = .ok address → address ≠ []
  encodeAddress : Bytes → JsString

/-- `WHITELIST` -/
abbrev Registry := Finset Bytes

def Registry.add (address : Bytes) (r : Registry) : Registry := if address = [] then r else insert address r

def Registry.remove (address : Bytes) (r : Registry) : Registry := if address = [] then r else r.erase address

def Registry.isImpersonated (address : Bytes) (r : Registry) : Bool := address ≠ [] && address ∈ r

inductive Helper where
  | impersonateAccount
  | stopImpersonatingAccount
  deriving DecidableEq

/-- After the helper the node is to accept the address. -/
def Helper.grants : Helper → Bool
  | .impersonateAccount => true
  | .stopImpersonatingAccount => false

/-- `tre_impersonateAccount` and `tre_stopImpersonatingAccount` -/
def answer (env : Env) (helper : Helper) (addressParam : Option JsString) (r : Registry) :
    Except String Bool × Registry :=
  match addressParam with
  | none => (.error "addressParam is required", r)
  | some text =>
    match env.decodeAddress text with
    | .error e => (.error e, r)
    | .ok address =>
      match helper with
      | .impersonateAccount => (.ok true, r.add address)
      | .stopImpersonatingAccount => (.ok true, r.remove address)

/-- The node accepts forged transactions from the address. -/
def accepts (env : Env) (r : Registry) (text : JsString) : Bool :=
  match env.decodeAddress text with
  | .ok address => r.isImpersonated address
  | .error _ => false

/-! ## The helpers -/

/-- Where a call stands: its first or second request on the way, with what the node answered if it executed it,
or what `callOrFalse` made of it. -/
inductive Phase where
  | sent (retried : Bool) (answer : Option (Except String Bool))
  | settled (supported : Bool)

/-- A call in progress. The last three are what only an observer of both sides knows: what they had when the call
began, and whether the node carried one of its requests out. -/
structure HelperCall where
  helper : Helper
  base58 : Option JsString
  phase : Phase
  clientHad : Bool
  nodeHad : Bool
  carriedOut : Bool

structure Sides where
  /-- `_localImpersonations` -/
  client : Finset JsString
  registry : Registry
  calls : Nat → Option HelperCall

inductive Fate where
  | answered
  | fetchThrows (e : FetchError)
  | bodyThrows (e : FetchError)

inductive Event where
  | begin (id : Nat) (helper : Helper) (address : JsValue)
  | execute (id : Nat)
  | fate (id : Nat) (f : Fate)
  | finish (id : Nat)

inductive Reply where
  | quiet
  | resolved (helper : Helper) (base58 : Option JsString)

/-- What a fate makes of a request: `rpcCall`, then `callOrFalse`. -/
def afterFate : Phase → Fate → Option Phase
  | .sent _ (some (.ok _)), .answered => some (.settled true)
  | .sent _ (some (.error _)), .answered => some (.settled false)
  | .sent false _, .fetchThrows e => if isTransientFetchError e then some (.sent true none) else some (.settled false)
  | .sent true _, .fetchThrows _ => some (.settled false)
  | .sent _ _, .bodyThrows _ => some (.settled false)
  | _, _ => none

/-- The last line of each helper. -/
def settle (helper : Helper) (supported : Bool) (base58 : Option JsString) (client : Finset JsString) :
    Finset JsString :=
  match helper, base58 with
  | .impersonateAccount, some b => if supported then insert b client else client
  | .stopImpersonatingAccount, some b => client.erase b
  | _, none => client

/-- A call as it begins. An address that `toBase58` makes no string of is sent as `null`; where `toBase58` throws
nothing is sent, and nothing changes either. -/
def begun (env : Env) (s : Sides) (helper : Helper) (address : JsValue) : HelperCall :=
  let base58 := signersToBase58 env.codec address
  ⟨helper, base58, .sent false none, base58.any fun b => b ∈ s.client, base58.any (accepts env s.registry), false⟩

def step (env : Env) (s : Sides) : Event → Option (Reply × Sides)
  | .begin id helper address =>
    match s.calls id with
    | some _ => none
    | none => some (.quiet, { s with calls := Function.update s.calls id (some (begun env s helper address)) })
  | .execute id =>
    match s.calls id with
    | some ⟨helper, base58, .sent retried none, clientHad, nodeHad, carriedOut⟩ =>
      let (reply, registry) := answer env helper base58 s.registry
      let call := ⟨helper, base58, .sent retried (some reply), clientHad, nodeHad, carriedOut || reply.isOk⟩
      some (.quiet, { s with registry, calls := Function.update s.calls id (some call) })
    | _ => none
  | .fate id f =>
    match s.calls id with
    | some call =>
      (afterFate call.phase f).map fun phase =>
        (.quiet, { s with calls := Function.update s.calls id (some { call with phase }) })
    | none => none
  | .finish id =>
    match s.calls id with
    | some ⟨helper, base58, .settled supported, _, _, _⟩ =>
      some (.resolved helper base58,
        { s with client := settle helper supported base58 s.client, calls := Function.update s.calls id none })
    | _ => none

/-! ## What is asked of a run -/

/-- The text is no address, or the base58 of the address it is. -/
def Canonical (env : Env) (text : JsString) : Prop :=
  ∀ address, env.decodeAddress text = .ok address → text = env.encodeAddress address

/-- What went wrong with a call leaves the sides as they should be. -/
def HelperCall.Spared (call : HelperCall) : Prop :=
  call.phase = .settled false →
    match call.helper with
    | .impersonateAccount => if call.carriedOut then call.clientHad = true else call.clientHad = call.nodeHad
    | .stopImpersonatingAccount => call.carriedOut = true ∨ call.nodeHad = false

/-- A call is for an address in base58 for which none of the other helper is in progress, and it is spared. -/
def Heeds (env : Env) (s : Sides) : Event → Prop
  | .begin _ helper address => ∀ text, signersToBase58 env.codec address = some text →
      Canonical env text ∧ ∀ id call, s.calls id = some call → call.base58 = some text → call.helper = helper
  | .finish id => ∀ call, s.calls id = some call → call.Spared
  | _ => True

abbrev CallHistory := List (Event × Reply)

/-- Which helper resolved for the address. -/
def resolvedFor (text : JsString) : Reply → Option Helper
  | .resolved helper (some b) => if b = text then some helper else none
  | _ => none

/-- The last helper that resolved for the address. -/
def lastResolved (text : JsString) (h : CallHistory) : Option Helper :=
  (h.filterMap fun e => resolvedFor text e.2).getLast?

/-! ## Steps -/

variable {env : Env} {s s' : Sides} {h : CallHistory}

theorem step_cases {e : Event} {reply : Reply} (hst : step env s e = some (reply, s')) :
    (∃ id helper address, e = .begin id helper address ∧ s.calls id = none ∧ reply = .quiet ∧
      s' = { s with calls := Function.update s.calls id (some (begun env s helper address)) }) ∨
    (∃ id call retried, e = .execute id ∧ s.calls id = some call ∧ call.phase = .sent retried none ∧ reply = .quiet ∧
      s' = ⟨s.client, (answer env call.helper call.base58 s.registry).2,
        Function.update s.calls id (some { call with
          phase := .sent retried (some (answer env call.helper call.base58 s.registry).1)
          carriedOut := call.carriedOut || (answer env call.helper call.base58 s.registry).1.isOk })⟩) ∨
    (∃ id f call phase, e = .fate id f ∧ s.calls id = some call ∧ afterFate call.phase f = some phase ∧
      reply = .quiet ∧ s' = { s with calls := Function.update s.calls id (some { call with phase }) }) ∨
    ∃ id call supported, e = .finish id ∧ s.calls id = some call ∧ call.phase = .settled supported ∧
      reply = .resolved call.helper call.base58 ∧
      s' = ⟨settle call.helper supported call.base58 s.client, s.registry, Function.update s.calls id none⟩ := by
  cases e with
  | begin id helper address =>
    simp only [step] at hst
    split at hst
    · cases hst
    · rename_i hcall
      obtain ⟨rfl, rfl⟩ := Prod.mk.inj (Option.some.inj hst)
      exact .inl ⟨id, helper, address, rfl, hcall, rfl, rfl⟩
  | execute id =>
    simp only [step] at hst
    split at hst
    · rename_i helper base58 retried clientHad nodeHad carriedOut hcall
      obtain ⟨rfl, rfl⟩ := Prod.mk.inj (Option.some.inj hst)
      exact .inr (.inl ⟨id, _, retried, rfl, hcall, rfl, rfl, rfl⟩)
    · cases hst
  | fate id f =>
    simp only [step] at hst
    split at hst
    · rename_i call hcall
      obtain ⟨phase, hphase, heq⟩ := Option.map_eq_some_iff.1 hst
      obtain ⟨rfl, rfl⟩ := Prod.mk.inj heq
      exact .inr (.inr (.inl ⟨id, f, call, phase, rfl, hcall, hphase, rfl, rfl⟩))
    · cases hst
  | finish id =>
    simp only [step] at hst
    split at hst
    · rename_i helper base58 supported clientHad nodeHad carriedOut hcall
      obtain ⟨rfl, rfl⟩ := Prod.mk.inj (Option.some.inj hst)
      exact .inr (.inr (.inr ⟨id, _, supported, rfl, hcall, rfl, rfl, rfl⟩))
    · cases hst

/-! ## What the node does to an address -/

/-- What a carried out request makes of the registry. -/
def Registry.after (helper : Helper) (address : Bytes) (r : Registry) : Registry :=
  match helper with
  | .impersonateAccount => r.add address
  | .stopImpersonatingAccount => r.remove address

theorem Registry.isImpersonated_after (helper : Helper) {address : Bytes} (hne : address ≠ []) (r : Registry) :
    (r.after helper address).isImpersonated address = helper.grants := by
  cases helper with
  | impersonateAccount => simp [after, add, isImpersonated, Helper.grants, hne]
  | stopImpersonatingAccount => simp [after, remove, isImpersonated, Helper.grants, hne]

theorem Registry.isImpersonated_after_other (helper : Helper) {address other : Bytes} (hne : other ≠ address)
    (r : Registry) : (r.after helper address).isImpersonated other = r.isImpersonated other := by
  cases helper with
  | impersonateAccount =>
    simp only [after, add]
    split
    · rfl
    · simp [isImpersonated, hne]
  | stopImpersonatingAccount =>
    simp only [after, remove]
    split
    · rfl
    · simp [isImpersonated, hne]

theorem answer_ok {text : JsString} {address : Bytes} (hdecode : env.decodeAddress text = .ok address)
    (helper : Helper) (r : Registry) : answer env helper (some text) r = (.ok true, r.after helper address) := by
  unfold answer
  simp only [hdecode]
  cases helper <;> rfl

theorem answer_error {text : JsString} {e : String} (hdecode : env.decodeAddress text = .error e) (helper : Helper) (r : Registry) :
    answer env helper (some text) r = (.error e, r) := by
  unfold answer
  simp only [hdecode]

theorem accepts_ok {text : JsString} {address : Bytes} (hdecode : env.decodeAddress text = .ok address)
    (r : Registry) : accepts env r text = r.isImpersonated address := by
  unfold accepts
  rw [hdecode]

theorem accepts_error {text : JsString} {e : String} (hdecode : env.decodeAddress text = .error e) (r : Registry) :
    accepts env r text = false := by
  unfold accepts
  rw [hdecode]

/-- A request that is carried out decides whether the node accepts the address; another changes nothing. -/
theorem accepts_answer (helper : Helper) (text : JsString) (r : Registry) :
    accepts env (answer env helper (some text) r).2 text =
      if (answer env helper (some text) r).1.isOk then helper.grants
      else accepts env r text := by
  cases hdecode : env.decodeAddress text with
  | error e =>
    rw [answer_error hdecode]
    rfl
  | ok address =>
    rw [answer_ok hdecode, accepts_ok hdecode, Registry.isImpersonated_after helper (env.decode_ne_nil hdecode)]
    rfl

/-- An address in another base58 is another address. -/
theorem accepts_answer_other {text other : JsString} (htext : Canonical env text) (hother : Canonical env other)
    (hne : other ≠ text) (helper : Helper) (r : Registry) :
    accepts env (answer env helper (some text) r).2 other = accepts env r other := by
  cases hdecode : env.decodeAddress text with
  | error e => rw [answer_error hdecode]
  | ok address =>
    rw [answer_ok hdecode]
    cases hdecode' : env.decodeAddress other with
    | error e => rw [accepts_error hdecode', accepts_error hdecode']
    | ok address' =>
      have hdiff : address' ≠ address := by
        rintro rfl
        exact hne ((hother _ hdecode').trans (htext _ hdecode).symm)
      rw [accepts_ok hdecode', accepts_ok hdecode', Registry.isImpersonated_after_other helper hdiff]

theorem mem_settle_other {text other : JsString} (hne : other ≠ text) (helper : Helper) (supported : Bool)
    (client : Finset JsString) : other ∈ settle helper supported (some text) client ↔ other ∈ client := by
  cases helper with
  | impersonateAccount => cases supported <;> simp [settle, hne]
  | stopImpersonatingAccount => simp [settle, hne]

/-! ## The invariant -/

theorem lastResolved_snoc (text : JsString) (h : CallHistory) (e : Event) (reply : Reply) :
    lastResolved text (h ++ [(e, reply)]) = (resolvedFor text reply).or (lastResolved text h) := by
  unfold lastResolved
  rw [List.filterMap_append]
  cases hr : resolvedFor text reply <;> simp [hr]

/-- A call for the address is in progress. -/
def Busy (s : Sides) (text : JsString) : Prop := ∃ id call, s.calls id = some call ∧ call.base58 = some text

/-- A call in progress for the address was carried out. -/
def CarriedOut (s : Sides) (text : JsString) : Prop :=
  ∃ id call, s.calls id = some call ∧ call.base58 = some text ∧ call.carriedOut = true

/-- What is known of a call in progress, where every other for its address is of the same helper: the node has what
the call asks for if it had it before or has carried the call out, and what a grant finds on one side and not on the
other comes from a grant. -/
structure Tracked (env : Env) (s : Sides) (call : HelperCall) (text : JsString) : Prop where
  done : call.carriedOut = true → accepts env s.registry text = call.helper.grants
  nodeKept : call.nodeHad = call.helper.grants → accepts env s.registry text = call.helper.grants
  clientKept : call.helper = .impersonateAccount → call.clientHad = true → text ∈ s.client
  clientNew : call.helper = .impersonateAccount → text ∈ s.client →
    call.clientHad = true ∨ accepts env s.registry text = true
  nodeNew : call.helper = .impersonateAccount → accepts env s.registry text = true →
    call.nodeHad = true ∨ text ∈ s.client ∨ CarriedOut s text
  answered : ∀ retried reply, call.phase = .sent retried (some reply) → reply.isOk = true → call.carriedOut = true
  supported : call.phase = .settled true → call.carriedOut = true

/-- The sides agree on the address, and after a stop neither has it. -/
structure Agreed (env : Env) (s : Sides) (helper : Helper) (text : JsString) : Prop where
  same : text ∈ s.client ↔ accepts env s.registry text = true
  stopped : helper = .stopImpersonatingAccount → accepts env s.registry text = false

structure Inv (env : Env) (h : CallHistory) (s : Sides) : Prop where
  canonical : ∀ id call text, s.calls id = some call → call.base58 = some text → Canonical env text
  oneHelper : ∀ id id' call call' text, s.calls id = some call → s.calls id' = some call' → call.base58 = some text →
    call'.base58 = some text → call.helper = call'.helper
  tracked : ∀ id call text, s.calls id = some call → call.base58 = some text → Tracked env s call text
  resolved : ∀ text helper, lastResolved text h = some helper →
    Canonical env text ∧ (¬Busy s text → Agreed env s helper text)

/-- Before any call, whatever the sides have. -/
def idle (client : Finset JsString) (registry : Registry) : Sides := ⟨client, registry, fun _ => none⟩

theorem Inv.init (env : Env) (client : Finset JsString) (registry : Registry) : Inv env [] (idle client registry) where
  canonical := by
    intro id call text hcall
    cases hcall
  oneHelper := by
    intro id id' call call' text hcall
    cases hcall
  tracked := by
    intro id call text hcall
    cases hcall
  resolved := by
    intro text helper hlast
    cases hlast

theorem Tracked.begun {helper : Helper} {address : JsValue} {text : JsString}
    (hbase58 : signersToBase58 env.codec address = some text) (calls : Nat → Option HelperCall) :
    Tracked env ⟨s.client, s.registry, calls⟩ (begun env s helper address) text := by
  have hclient : (Impersonation.begun env s helper address).clientHad = decide (text ∈ s.client) := by
    simp [Impersonation.begun, hbase58]
  have hnode : (Impersonation.begun env s helper address).nodeHad = accepts env s.registry text := by
    simp [Impersonation.begun, hbase58]
  constructor
  · intro hdone
    cases hdone
  · exact fun hhad => hnode.symm.trans hhad
  · exact fun _ hhad => of_decide_eq_true (hclient.symm.trans hhad)
  · exact fun _ hmem => .inl (hclient.trans (decide_eq_true hmem))
  · exact fun _ hhad => .inl (hnode.trans hhad)
  · intro retried reply hphase
    cases hphase
  · intro hphase
    cases hphase

/-! ## What a step is to a call -/

/-- What a step may do to an address while calls of the helper are in progress for it. -/
structure Advances (env : Env) (helper : Helper) (s s' : Sides) (text : JsString) : Prop where
  node : accepts env s'.registry text = accepts env s.registry text ∨ accepts env s'.registry text = helper.grants
  clientKept : helper = .impersonateAccount → text ∈ s.client → text ∈ s'.client
  clientNew : helper = .impersonateAccount → text ∈ s'.client →
    text ∈ s.client ∨ accepts env s'.registry text = true
  nodeNew : helper = .impersonateAccount → accepts env s'.registry text = true →
    accepts env s.registry text = true ∨ CarriedOut s' text
  carriedOut : helper = .impersonateAccount → CarriedOut s text → text ∈ s'.client ∨ CarriedOut s' text

theorem Advances.granted {helper : Helper} {text : JsString} (ha : Advances env helper s s' text)
    (hnode : accepts env s.registry text = helper.grants) : accepts env s'.registry text = helper.grants := by
  rcases ha.node with hsame | hnew
  · exact hsame.trans hnode
  · exact hnew

theorem Tracked.advance {call : HelperCall} {text : JsString} (ht : Tracked env s call text)
    (ha : Advances env call.helper s s' text) : Tracked env s' call text where
  done := fun hout => ha.granted (ht.done hout)
  nodeKept := fun hhad => ha.granted (ht.nodeKept hhad)
  clientKept := fun hgrant hhad => ha.clientKept hgrant (ht.clientKept hgrant hhad)
  clientNew := by
    intro hgrant hmem
    rcases ha.clientNew hgrant hmem with hold | hnode
    · rcases ht.clientNew hgrant hold with hhad | hnode
      · exact .inl hhad
      · have hgrants : call.helper.grants = true := by rw [hgrant]; rfl
        exact .inr ((ha.granted (hnode.trans hgrants.symm)).trans hgrants)
    · exact .inr hnode
  nodeNew := by
    intro hgrant hnode
    rcases ha.nodeNew hgrant hnode with hold | hout
    · rcases ht.nodeNew hgrant hold with hhad | hmem | hout
      · exact .inl hhad
      · exact .inr (.inl (ha.clientKept hgrant hmem))
      · exact .inr (ha.carriedOut hgrant hout)
    · exact .inr (.inr hout)
  answered := ht.answered
  supported := ht.supported

/-- Both sides have of the address what they had. -/
def SameAt (env : Env) (s s' : Sides) (text : JsString) : Prop :=
  (text ∈ s'.client ↔ text ∈ s.client) ∧ accepts env s'.registry text = accepts env s.registry text

theorem SameAt.advances {text : JsString} (hsame : SameAt env s s' text) (helper : Helper)
    (hout : CarriedOut s text → CarriedOut s' text) : Advances env helper s s' text where
  node := .inl hsame.2
  clientKept := fun _ hmem => hsame.1.2 hmem
  clientNew := fun _ hmem => .inl (hsame.1.1 hmem)
  nodeNew := fun _ hnode => .inl (hsame.2 ▸ hnode)
  carriedOut := fun _ h => .inr (hout h)

theorem Agreed.congr {helper : Helper} {text : JsString} (ha : Agreed env s helper text)
    (hsame : SameAt env s s' text) : Agreed env s' helper text where
  same := by rw [hsame.1, hsame.2, ha.same]
  stopped := fun hstop => hsame.2.trans (ha.stopped hstop)

/-- What becomes of one call is nothing to the calls for another address. -/
theorem calls_kept {id id' : Nat} {o : Option HelperCall} {call : HelperCall} {text : JsString}
    (hcall : s.calls id' = some call) (htext : call.base58 = some text)
    (hown : ∀ call, s.calls id = some call → call.base58 ≠ some text) (hcalls : s'.calls = Function.update s.calls id o) :
    s'.calls id' = some call := by
  have hid : id' ≠ id := by
    rintro rfl
    exact hown call hcall htext
  rw [hcalls, Function.update_of_ne hid, hcall]

theorem Busy.update {id : Nat} {o : Option HelperCall} {text : JsString} (hbusy : Busy s text)
    (hown : ∀ call, s.calls id = some call → call.base58 ≠ some text) (hcalls : s'.calls = Function.update s.calls id o) :
    Busy s' text := by
  obtain ⟨id', call, hcall, htext⟩ := hbusy
  exact ⟨id', call, calls_kept hcall htext hown hcalls, htext⟩

theorem CarriedOut.update {id : Nat} {o : Option HelperCall} {text : JsString} (hout : CarriedOut s text)
    (hown : ∀ call, s.calls id = some call → call.base58 ≠ some text) (hcalls : s'.calls = Function.update s.calls id o) :
    CarriedOut s' text := by
  obtain ⟨id', call, hcall, htext, hdone⟩ := hout
  exact ⟨id', call, calls_kept hcall htext hown hcalls, htext, hdone⟩

theorem CarriedOut.moves {id : Nat} {call call' : HelperCall} {text : JsString} (hout : CarriedOut s text)
    (hcall : s.calls id = some call) (hcalls : s'.calls = Function.update s.calls id (some call'))
    (hbase58 : call'.base58 = call.base58) (hdone : call.carriedOut = true → call'.carriedOut = true) :
    CarriedOut s' text := by
  obtain ⟨id', c, hc, htext, hcdone⟩ := hout
  by_cases hid : id' = id
  · subst hid
    cases hcall.symm.trans hc
    exact ⟨id', call', by rw [hcalls, Function.update_self], hbase58.trans htext, hdone hcdone⟩
  · exact ⟨id', c, by rw [hcalls, Function.update_of_ne hid, hc], htext, hcdone⟩

/-- A call that moves on: other addresses are left alone, and its own is as the helper may leave it. -/
theorem Inv.moves (hI : Inv env h s) {id : Nat} {call call' : HelperCall} (hcall : s.calls id = some call)
    (hcalls : s'.calls = Function.update s.calls id (some call')) (hbase58 : call'.base58 = call.base58)
    (hhelper : call'.helper = call.helper) (hdone : call.carriedOut = true → call'.carriedOut = true)
    (hother : ∀ text, Canonical env text → call.base58 ≠ some text → SameAt env s s' text)
    (hadvances : ∀ text, call.base58 = some text → Advances env call.helper s s' text)
    (hown : ∀ text, call.base58 = some text → Tracked env s' call' text) (e : Event) :
    Inv env (h ++ [(e, .quiet)]) s' := by
  -- the calls in progress are for the same addresses
  have hold : ∀ id' c', s'.calls id' = some c' → ∃ c, s.calls id' = some c ∧ c.base58 = c'.base58 ∧ c.helper = c'.helper := by
    intro id' c' hc'
    rw [hcalls] at hc'
    rcases update_eq_some hc' with ⟨rfl, ho⟩ | ⟨-, hc'⟩
    · cases ho
      exact ⟨call, hcall, hbase58.symm, hhelper.symm⟩
    · exact ⟨c', hc', rfl, rfl⟩
  have hbusy : ∀ text, Busy s text → Busy s' text := by
    rintro text ⟨id', c, hc, htext⟩
    by_cases hid : id' = id
    · subst hid
      cases hcall.symm.trans hc
      exact ⟨id', call', by rw [hcalls, Function.update_self], hbase58.trans htext⟩
    · exact ⟨id', c, by rw [hcalls, Function.update_of_ne hid, hc], htext⟩
  refine ⟨?_, ?_, ?_, ?_⟩
  · intro id' c' text hc' htext
    obtain ⟨c, hc, hbase, -⟩ := hold id' c' hc'
    exact hI.canonical id' c text hc (hbase.trans htext)
  · intro id₁ id₂ c₁ c₂ text hc₁ hc₂ htext₁ htext₂
    obtain ⟨d₁, hd₁, hbase₁, hhelper₁⟩ := hold id₁ c₁ hc₁
    obtain ⟨d₂, hd₂, hbase₂, hhelper₂⟩ := hold id₂ c₂ hc₂
    rw [← hhelper₁, ← hhelper₂]
    exact hI.oneHelper id₁ id₂ d₁ d₂ text hd₁ hd₂ (hbase₁.trans htext₁) (hbase₂.trans htext₂)
  · intro id' c' text hc' htext
    rw [hcalls] at hc'
    rcases update_eq_some hc' with ⟨rfl, ho⟩ | ⟨hid, hc'⟩
    · cases ho
      exact hown text (hbase58.symm.trans htext)
    · apply (hI.tracked id' c' text hc' htext).advance
      by_cases hbase : call.base58 = some text
      · rw [hI.oneHelper id' id c' call text hc' hcall htext hbase]
        exact hadvances text hbase
      · exact (hother text (hI.canonical id' c' text hc' htext) hbase).advances c'.helper
          fun hout => hout.moves hcall hcalls hbase58 hdone
  · intro text helper hlast
    rw [lastResolved_snoc] at hlast
    obtain ⟨hcanonical, hagreed⟩ := hI.resolved text helper hlast
    refine ⟨hcanonical, ?_⟩
    intro hidle
    have hidle' : ¬Busy s text := fun hb => hidle (hbusy text hb)
    have hdiff : call.base58 ≠ some text := fun hb => hidle' ⟨id, call, hcall, hb⟩
    exact (hagreed hidle').congr (hother text hcanonical hdiff)

theorem Inv.begins (hI : Inv env h s) {id : Nat} {helper : Helper} {address : JsValue} (hnone : s.calls id = none)
    (hok : Heeds env s (.begin id helper address)) (e : Event) :
    Inv env (h ++ [(e, .quiet)]) { s with calls := Function.update s.calls id (some (begun env s helper address)) } := by
  have hfree : ∀ text call, s.calls id = some call → call.base58 ≠ some text := by
    intro text call hcall
    rw [hnone] at hcall
    cases hcall
  refine ⟨?_, ?_, ?_, ?_⟩
  · intro id' c text hc htext
    rcases update_eq_some hc with ⟨-, ho⟩ | ⟨-, hc⟩
    · cases ho
      exact (hok text htext).1
    · exact hI.canonical id' c text hc htext
  · intro id₁ id₂ c₁ c₂ text hc₁ hc₂ htext₁ htext₂
    rcases update_eq_some hc₁ with ⟨-, ho₁⟩ | ⟨-, hold₁⟩
    · cases ho₁
      rcases update_eq_some hc₂ with ⟨-, ho₂⟩ | ⟨-, hold₂⟩
      · cases ho₂
        rfl
      · exact ((hok text htext₁).2 id₂ c₂ hold₂ htext₂).symm
    · rcases update_eq_some hc₂ with ⟨-, ho₂⟩ | ⟨-, hold₂⟩
      · cases ho₂
        exact (hok text htext₂).2 id₁ c₁ hold₁ htext₁
      · exact hI.oneHelper id₁ id₂ c₁ c₂ text hold₁ hold₂ htext₁ htext₂
  · intro id' c text hc htext
    rcases update_eq_some hc with ⟨-, ho⟩ | ⟨-, hc⟩
    · cases ho
      exact .begun htext _
    · have hsame : SameAt env s { s with calls := Function.update s.calls id (some (begun env s helper address)) } text :=
        ⟨Iff.rfl, rfl⟩
      exact (hI.tracked id' c text hc htext).advance (hsame.advances c.helper fun hout => hout.update (hfree text) rfl)
  · intro text last hlast
    rw [lastResolved_snoc] at hlast
    obtain ⟨hcanonical, hagreed⟩ := hI.resolved text last hlast
    refine ⟨hcanonical, ?_⟩
    intro hidle
    exact (hagreed fun hbusy => hidle (hbusy.update (hfree text) rfl)).congr ⟨Iff.rfl, rfl⟩

/-- The node decides about the address of the call, and about no other. -/
theorem Inv.executes (hI : Inv env h s) {id : Nat} {call : HelperCall} {retried : Bool} (hcall : s.calls id = some call)
    (e : Event) : Inv env (h ++ [(e, .quiet)]) ⟨s.client, (answer env call.helper call.base58 s.registry).2,
      Function.update s.calls id (some { call with
        phase := .sent retried (some (answer env call.helper call.base58 s.registry).1)
        carriedOut := call.carriedOut || (answer env call.helper call.base58 s.registry).1.isOk })⟩ := by
  have hadvances : ∀ text, call.base58 = some text → Advances env call.helper s
      ⟨s.client, (answer env call.helper call.base58 s.registry).2, Function.update s.calls id (some { call with
        phase := .sent retried (some (answer env call.helper call.base58 s.registry).1)
        carriedOut := call.carriedOut || (answer env call.helper call.base58 s.registry).1.isOk })⟩ text := by
    intro text hbase58
    have hanswer := @accepts_answer env call.helper text s.registry
    rw [← hbase58] at hanswer
    refine ⟨?_, fun _ hmem => hmem, fun _ hmem => .inl hmem, ?_, ?_⟩
    · rw [hanswer]
      split
      · exact .inr rfl
      · exact .inl rfl
    · intro _ hnode
      rw [hanswer] at hnode
      split at hnode
      · rename_i hok
        exact .inr ⟨id, _, Function.update_self _ _ _, hbase58, by simp [hok]⟩
      · exact .inl hnode
    · intro _ hout
      exact .inr (hout.moves hcall rfl rfl fun hdone => by simp [hdone])
  refine hI.moves hcall rfl ?_ ?_ ?_ ?_ hadvances ?_ e
  · rfl
  · rfl
  · intro hdone
    simp [hdone]
  · intro text htext hdiff
    refine ⟨Iff.rfl, ?_⟩
    cases hbase58 : call.base58 with
    | none => rfl
    | some own =>
      have hne : text ≠ own := fun heq => hdiff (hbase58.trans (congrArg some heq.symm))
      exact accepts_answer_other (hI.canonical id call own hcall hbase58) htext hne call.helper s.registry
  · intro text hbase58
    have htracked := (hI.tracked id call text hcall hbase58).advance (hadvances text hbase58)
    refine ⟨?_, htracked.nodeKept, htracked.clientKept, htracked.clientNew, htracked.nodeNew, ?_, ?_⟩
    · intro hdone
      rcases Bool.or_eq_true_iff.1 hdone with hdone | hok
      · exact htracked.done hdone
      · have hanswer := @accepts_answer env call.helper text s.registry
        rw [← hbase58, if_pos hok] at hanswer
        exact hanswer
    · intro retried' reply hphase hreply
      cases hphase
      simp [hreply]
    · intro hphase
      cases hphase

/-- Only an answered request that was carried out is taken for a success. -/
theorem afterFate_settled {phase : Phase} {f : Fate} (hphase : afterFate phase f = some (.settled true)) :
    ∃ retried reply, phase = .sent retried (some (.ok reply)) := by
  unfold afterFate at hphase
  split at hphase
  · exact ⟨_, _, rfl⟩
  · cases hphase
  · split at hphase <;> cases hphase
  · cases hphase
  · cases hphase
  · cases hphase

theorem afterFate_sent {phase : Phase} {f : Fate} {retried : Bool} {reply : Except String Bool} :
    afterFate phase f ≠ some (.sent retried (some reply)) := by
  intro hphase
  unfold afterFate at hphase
  split at hphase
  · cases hphase
  · cases hphase
  · split at hphase <;> cases hphase
  · cases hphase
  · cases hphase
  · cases hphase

theorem Inv.meets (hI : Inv env h s) {id : Nat} {call : HelperCall} {f : Fate} {phase : Phase}
    (hcall : s.calls id = some call) (hphase : afterFate call.phase f = some phase) (e : Event) :
    Inv env (h ++ [(e, .quiet)]) { s with calls := Function.update s.calls id (some { call with phase }) } := by
  have hadvances : ∀ text, Advances env call.helper s
      { s with calls := Function.update s.calls id (some { call with phase }) } text := by
    intro text
    have hsame : SameAt env s { s with calls := Function.update s.calls id (some { call with phase }) } text :=
      ⟨Iff.rfl, rfl⟩
    exact hsame.advances call.helper fun hout => hout.moves hcall rfl rfl fun hdone => hdone
  refine hI.moves hcall rfl ?_ ?_ ?_ ?_ (fun text _ => hadvances text) ?_ e
  · rfl
  · rfl
  · exact fun hdone => hdone
  · exact fun text _ _ => ⟨Iff.rfl, rfl⟩
  · intro text hbase58
    have htracked := (hI.tracked id call text hcall hbase58).advance (hadvances text)
    refine ⟨htracked.done, htracked.nodeKept, htracked.clientKept, htracked.clientNew, htracked.nodeNew, ?_, ?_⟩
    · rintro retried reply rfl
      exact absurd hphase afterFate_sent
    · rintro rfl
      obtain ⟨retried, reply, hsent⟩ := afterFate_settled hphase
      exact htracked.answered retried _ hsent rfl

/-! ## The end of a call -/

section
variable {id : Nat} {call : HelperCall} {text : JsString} {supported : Bool}

/-- A grant that was carried out, spared if it is taken for failed, leaves the client with the address. -/
theorem Tracked.mem_settle (ht : Tracked env s call text) (hgrant : call.helper = .impersonateAccount)
    (hphase : call.phase = .settled supported) (hspared : call.Spared) (hout : call.carriedOut = true) :
    text ∈ settle call.helper supported (some text) s.client := by
  rw [hgrant]
  cases supported with
  | true => exact Finset.mem_insert_self _ _
  | false =>
    have hkept := hspared hphase
    rw [hgrant] at hkept
    exact ht.clientKept hgrant ((if_pos hout).mp hkept)

/-- To the other calls for its address, which are of the same helper. -/
theorem Tracked.finish_advances (ht : Tracked env s call text) (hcall : s.calls id = some call)
    (hphase : call.phase = .settled supported) (hspared : call.Spared) :
    Advances env call.helper s
      ⟨settle call.helper supported (some text) s.client, s.registry, Function.update s.calls id none⟩ text where
  node := .inl rfl
  clientKept := by
    intro hgrant hmem
    rw [hgrant]
    cases supported with
    | true => exact Finset.mem_insert_of_mem hmem
    | false => exact hmem
  clientNew := by
    intro hgrant hmem
    cases supported with
    | true =>
      have hnode := ht.done (ht.supported hphase)
      rw [hgrant] at hnode
      exact .inr hnode
    | false =>
      rw [hgrant] at hmem
      exact .inl hmem
  nodeNew := fun _ hnode => .inl hnode
  carriedOut := by
    intro hgrant hout
    obtain ⟨id', c, hc, htext, hdone⟩ := hout
    by_cases hid : id' = id
    · subst hid
      cases hcall.symm.trans hc
      exact .inl (ht.mem_settle hgrant hphase hspared hdone)
    · exact .inr ⟨id', c, (Function.update_of_ne hid _ _).trans hc, htext, hdone⟩

/-- The last of the calls for an address leaves the sides agreed. -/
theorem Tracked.settled (ht : Tracked env s call text) (hphase : call.phase = .settled supported)
    (hspared : call.Spared) (hlast : CarriedOut s text → call.carriedOut = true) (calls : Nat → Option HelperCall) :
    Agreed env ⟨settle call.helper supported (some text) s.client, s.registry, calls⟩ call.helper text := by
  cases hhelper : call.helper with
  | impersonateAccount =>
    refine ⟨?_, fun h => nomatch h⟩
    by_cases hout : call.carriedOut = true
    · have hmem := ht.mem_settle hhelper hphase hspared hout
      have hnode := ht.done hout
      rw [hhelper] at hmem hnode
      exact iff_of_true hmem hnode
    · -- the call was taken for failed, and nothing came of it
      obtain rfl : supported = false := by
        cases supported with
        | true => exact absurd (ht.supported hphase) hout
        | false => rfl
      have hhad := hspared hphase
      rw [hhelper] at hhad
      have hhad : call.clientHad = call.nodeHad := (if_neg hout).mp hhad
      have hkept := ht.nodeKept
      rw [hhelper] at hkept
      constructor
      · intro hmem
        rcases ht.clientNew hhelper hmem with hclient | hnode
        · exact hkept (hhad.symm.trans hclient)
        · exact hnode
      · intro hnode
        rcases ht.nodeNew hhelper hnode with hnodeHad | hmem | hcarried
        · exact ht.clientKept hhelper (hhad.trans hnodeHad)
        · exact hmem
        · exact absurd (hlast hcarried) hout
  | stopImpersonatingAccount =>
    have hnode : accepts env s.registry text = false := by
      have hdone := ht.done
      have hkept := ht.nodeKept
      rw [hhelper] at hdone hkept
      cases supported with
      | true => exact hdone (ht.supported hphase)
      | false =>
        have hspare := hspared hphase
        rw [hhelper] at hspare
        rcases hspare with hout | hhad
        · exact hdone hout
        · exact hkept hhad
    have hgone : text ∉ settle .stopImpersonatingAccount supported (some text) s.client := by simp [settle]
    exact ⟨iff_of_false hgone (by simp [hnode]), fun _ => hnode⟩

end

/-- A call that is over: its own address is agreed unless another call for it is in progress. -/
theorem Inv.finishes (hI : Inv env h s) {id : Nat} {call : HelperCall} {supported : Bool}
    (hcall : s.calls id = some call) (hphase : call.phase = .settled supported) (hspared : call.Spared) (e : Event) :
    Inv env (h ++ [(e, .resolved call.helper call.base58)])
      ⟨settle call.helper supported call.base58 s.client, s.registry, Function.update s.calls id none⟩ := by
  have hold : ∀ id' c, Function.update s.calls id none id' = some c → s.calls id' = some c :=
    fun _ _ hc => (update_none_eq_some hc).2
  have hothers : ∀ text, call.base58 ≠ some text → ∀ c, s.calls id = some c → c.base58 ≠ some text := by
    intro text hdiff c hc
    cases hcall.symm.trans hc
    exact hdiff
  have hother : ∀ text, call.base58 ≠ some text → SameAt env s
      ⟨settle call.helper supported call.base58 s.client, s.registry, Function.update s.calls id none⟩ text := by
    intro text hdiff
    refine ⟨?_, rfl⟩
    cases hbase58 : call.base58 with
    | none => cases call.helper <;> rfl
    | some own => exact mem_settle_other (fun heq => hdiff (hbase58.trans (congrArg some heq.symm))) _ _ _
  refine ⟨?_, ?_, ?_, ?_⟩
  · intro id' c text hc htext
    exact hI.canonical id' c text (hold id' c hc) htext
  · intro id₁ id₂ c₁ c₂ text hc₁ hc₂
    exact hI.oneHelper id₁ id₂ c₁ c₂ text (hold id₁ c₁ hc₁) (hold id₂ c₂ hc₂)
  · intro id' c text hc htext
    have hc := hold id' c hc
    apply (hI.tracked id' c text hc htext).advance
    by_cases hbase58 : call.base58 = some text
    · rw [hI.oneHelper id' id c call text hc hcall htext hbase58, hbase58]
      exact (hI.tracked id call text hcall hbase58).finish_advances hcall hphase hspared
    · exact (hother text hbase58).advances c.helper fun hout => hout.update (hothers text hbase58) rfl
  · intro text helper hlast
    rw [lastResolved_snoc] at hlast
    by_cases hbase58 : call.base58 = some text
    · -- this very call was the last
      have hself : resolvedFor text (.resolved call.helper call.base58) = some call.helper := by
        rw [hbase58]
        exact if_pos rfl
      rw [hself, Option.some_or] at hlast
      cases hlast
      refine ⟨hI.canonical id call text hcall hbase58, ?_⟩
      intro hidle
      have halone : CarriedOut s text → call.carriedOut = true := by
        rintro ⟨id', c, hc, htext, hdone⟩
        by_cases hid : id' = id
        · subst hid
          cases hcall.symm.trans hc
          exact hdone
        · exact absurd ⟨id', c, (Function.update_of_ne hid _ _).trans hc, htext⟩ hidle
      rw [hbase58]
      exact (hI.tracked id call text hcall hbase58).settled hphase hspared halone _
    · have hnone : resolvedFor text (.resolved call.helper call.base58) = none := by
        cases hb : call.base58 with
        | none => rfl
        | some own => exact if_neg fun heq => hbase58 (hb.trans (congrArg some heq))
      rw [hnone, Option.none_or] at hlast
      obtain ⟨hcanonical, hagreed⟩ := hI.resolved text helper hlast
      refine ⟨hcanonical, ?_⟩
      intro hidle
      exact (hagreed fun hbusy => hidle (hbusy.update (hothers text hbase58) rfl)).congr (hother text hbase58)

theorem Inv.step {e : Event} {reply : Reply} (hI : Inv env h s) (hok : Heeds env s e)
    (hst : step env s e = some (reply, s')) : Inv env (h ++ [(e, reply)]) s' := by
  obtain ⟨id, helper, address, rfl, hnone, rfl, rfl⟩ | ⟨id, call, retried, rfl, hcall, -, rfl, rfl⟩ |
    ⟨id, f, call, phase, rfl, hcall, hphase, rfl, rfl⟩ | ⟨id, call, supported, rfl, hcall, hphase, rfl, rfl⟩ :=
    step_cases hst
  · exact hI.begins hnone hok _
  · exact hI.executes hcall _
  · exact hI.meets hcall hphase _
  · exact hI.finishes hcall hphase (hok call hcall) _

/-! ## Every run -/

theorem run_inv {client : Finset JsString} {registry : Registry}
    (hr : Run (step env) (Heeds env) (idle client registry) h s) : Inv env h s :=
  hr.inv (Inv env) (.init env client registry) fun _ _ _ _ _ _ hI hok hst => hI.step hok hst

/-- **In sync.** Whatever the two sides had at first: in every run of such calls, once none is in progress, they agree
on each address for which a call resolved, and after a stop the node accepts nothing more from it. -/
theorem impersonations_in_sync (env : Env) (client : Finset JsString) (registry : Registry) {h : CallHistory} {s : Sides}
    (hr : Run (step env) (Heeds env) (idle client registry) h s) (hidle : ∀ id, s.calls id = none) {text : JsString}
    {helper : Helper} (hlast : lastResolved text h = some helper) :
    (text ∈ s.client ↔ accepts env s.registry text = true) ∧
    (helper = .stopImpersonatingAccount → accepts env s.registry text = false) := by
  obtain ⟨-, hagreed⟩ := (run_inv hr).resolved text helper hlast
  have hfree : ¬Busy s text := by
    rintro ⟨id, call, hcall, -⟩
    rw [hidle id] at hcall
    cases hcall
  exact ⟨(hagreed hfree).same, (hagreed hfree).stopped⟩

/-! ## Calls on their own -/

/-- One call in progress. -/
def single (client : Finset JsString) (registry : Registry) (id : Nat) (call : HelperCall) : Sides :=
  ⟨client, registry, Function.update (fun _ => none) id (some call)⟩

section
variable {client : Finset JsString} {registry : Registry} {id : Nat} {call : HelperCall}

@[simp] theorem single_calls : (single client registry id call).calls id = some call := by
  simp [single]

theorem step_execute_single {retried : Bool} (hphase : call.phase = .sent retried none) {reply : Except String Bool}
    {registry' : Registry} (hanswer : answer env call.helper call.base58 registry = (reply, registry')) :
    step env (single client registry id call) (.execute id) = some (.quiet, single client registry' id
      { call with phase := .sent retried (some reply), carriedOut := call.carriedOut || reply.isOk }) := by
  obtain ⟨helper, base58, phase, clientHad, nodeHad, carriedOut⟩ := call
  obtain rfl : phase = .sent retried none := hphase
  have hanswer : answer env helper base58 registry = (reply, registry') := hanswer
  simp only [step, single_calls]
  simp [single, hanswer]

theorem step_fate_single {f : Fate} {phase : Phase} (hphase : afterFate call.phase f = some phase) :
    step env (single client registry id call) (.fate id f) =
      some (.quiet, single client registry id { call with phase }) := by
  simp only [step, single_calls]
  simp [single, hphase]

theorem step_finish_single {supported : Bool} (hphase : call.phase = .settled supported) :
    step env (single client registry id call) (.finish id) =
      some (.resolved call.helper call.base58, idle (settle call.helper supported call.base58 client) registry) := by
  obtain ⟨helper, base58, phase, clientHad, nodeHad, carriedOut⟩ := call
  obtain rfl : phase = .settled supported := hphase
  simp only [step, single_calls]
  simp [single, idle]

end

variable {address : JsValue} {text : JsString}

theorem step_begin_idle (hbase58 : signersToBase58 env.codec address = some text) (client : Finset JsString)
    (registry : Registry) (id : Nat) (helper : Helper) :
    step env (idle client registry) (.begin id helper address) = some (.quiet, single client registry id
      ⟨helper, some text, .sent false none, decide (text ∈ client), accepts env registry text, false⟩) := by
  have hbegun : begun env (idle client registry) helper address =
      ⟨helper, some text, .sent false none, decide (text ∈ client), accepts env registry text, false⟩ := by
    unfold begun
    rw [hbase58]
    rfl
  rw [← hbegun]
  rfl

/-- A call that the node answers. -/
def answeredCall (id : Nat) (helper : Helper) (address : JsValue) (text : JsString) : CallHistory :=
  [(.begin id helper address, .quiet), (.execute id, .quiet), (.fate id .answered, .quiet),
    (.finish id, .resolved helper (some text))]

theorem answeredCall_run (hbase58 : signersToBase58 env.codec address = some text) {a : Bytes}
    (hdecode : env.decodeAddress text = .ok a) (hcanonical : Canonical env text) (client : Finset JsString)
    (registry : Registry) (id : Nat) (helper : Helper) :
    Run (step env) (Heeds env) (idle client registry) (answeredCall id helper address text)
      (idle (settle helper true (some text) client) (registry.after helper a)) := by
  have hbegin : Heeds env (idle client registry) (.begin id helper address) := by
    intro own hown
    obtain rfl : text = own := Option.some.inj (hbase58.symm.trans hown)
    refine ⟨hcanonical, ?_⟩
    intro id' c hc
    cases hc
  have hfinish : ∀ call : HelperCall, call.phase = .settled true → Heeds env (single client
      (registry.after helper a) id call) (.finish id) := by
    intro call hphase c hc hfailed
    rw [single_calls] at hc
    cases hc
    rw [hphase] at hfailed
    cases hfailed
  have hrun : Run (step env) (Heeds env) (idle client registry) [] (idle client registry) := .nil
  have hrun := hrun.snoc (.begin id helper address) hbegin (step_begin_idle hbase58 client registry id helper)
  have hrun := hrun.snoc (.execute id) ?_ (step_execute_single rfl (answer_ok hdecode _ _))
  · have hrun := hrun.snoc (.fate id .answered) ?_ (step_fate_single rfl)
    · exact hrun.snoc (.finish id) (hfinish _ rfl) (step_finish_single rfl)
    · trivial
  · trivial

/-- A call whose two requests never reach the node. -/
def lostCall (id : Nat) (helper : Helper) (address : JsValue) (text : JsString) (e : FetchError) : CallHistory :=
  [(.begin id helper address, .quiet), (.fate id (.fetchThrows e), .quiet), (.fate id (.fetchThrows e), .quiet),
    (.finish id, .resolved helper (some text))]

theorem lostCall_run (hbase58 : signersToBase58 env.codec address = some text) {e : FetchError}
    (he : isTransientFetchError e = true) (client : Finset JsString) (registry : Registry) (id : Nat)
    (helper : Helper) : Run (step env) (fun _ _ => True) (idle client registry) (lostCall id helper address text e)
      (idle (settle helper false (some text) client) registry) := by
  have hretry : afterFate (.sent false none) (.fetchThrows e) = some (.sent true none) := if_pos he
  have hrun : Run (step env) (fun _ _ => True) (idle client registry) [] (idle client registry) := .nil
  have hrun := hrun.snoc (.begin id helper address) trivial (step_begin_idle hbase58 client registry id helper)
  have hrun := hrun.snoc (.fate id (.fetchThrows e)) trivial (step_fate_single hretry)
  have hrun := hrun.snoc (.fate id (.fetchThrows e)) trivial (step_fate_single rfl)
  exact hrun.snoc (.finish id) trivial (step_finish_single rfl)

/-! ## A stop that never arrives -/

def payerAddress : Bytes := 0x41 :: List.replicate 20 0x11

def decodePayer (text : JsString) : Except String Bytes :=
  if text = payer.text then .ok payerAddress else .error "invalid address"

theorem decodePayer_ok {text : JsString} {address : Bytes} (h : decodePayer text = .ok address) :
    text = payer.text ∧ address = payerAddress := by
  unfold decodePayer at h
  split at h
  · rename_i htext
    cases h
    exact ⟨htext, rfl⟩
  · cases h

theorem decodePayer_ne_nil {text : JsString} {address : Bytes} (h : decodePayer text = .ok address) : address ≠ [] := by
  rw [(decodePayer_ok h).2]
  exact List.cons_ne_nil _ _

/-- A node that knows one address. -/
def onePayer : Env where
  codec := twoAddresses.codec
  decodeAddress := decodePayer
  decode_ne_nil := @decodePayer_ne_nil
  encodeAddress _ := payer.text

theorem payer_decode : onePayer.decodeAddress payer.text = .ok payerAddress := by
  change decodePayer payer.text = .ok payerAddress
  exact if_pos rfl

theorem payer_canonical : Canonical onePayer payer.text := fun _ _ => rfl

theorem payer_base58 : signersToBase58 onePayer.codec (.str payer.text) = some payer.text := by
  change signersToBase58Text onePayer.codec payer.text = some payer.text
  exact if_pos (by decide)

/-- What a grant leaves. -/
def granted : Sides := idle {payer.text} {payerAddress}

/-- The grant and its revocation, both answered. -/
def grantAndRevocation : CallHistory :=
  answeredCall 0 .impersonateAccount (.str payer.text) payer.text ++
    answeredCall 1 .stopImpersonatingAccount (.str payer.text) payer.text

theorem grantAndRevocation_run :
    Run (step onePayer) (Heeds onePayer) (idle ∅ ∅) grantAndRevocation (idle ∅ ∅) := by
  have hgrant : Run (step onePayer) (Heeds onePayer) (idle ∅ ∅) _ granted :=
    answeredCall_run payer_base58 payer_decode payer_canonical ∅ ∅ 0 .impersonateAccount
  have hstop : Run (step onePayer) (Heeds onePayer) granted _ (idle ∅ ∅) :=
    answeredCall_run payer_base58 payer_decode payer_canonical _ _ 1 .stopImpersonatingAccount
  exact hgrant.append hstop

theorem grant_revoked : (payer.text ∈ (idle ∅ ∅).client ↔ accepts onePayer (idle ∅ ∅).registry payer.text = true) ∧
    (Helper.stopImpersonatingAccount = .stopImpersonatingAccount →
      accepts onePayer (idle ∅ ∅).registry payer.text = false) :=
  impersonations_in_sync onePayer ∅ ∅ grantAndRevocation_run (fun _ => rfl) (by decide)

def fetchFailed : FetchError := ⟨"TypeError", "fetch failed"⟩

theorem fetchFailed_transient : isTransientFetchError fetchFailed = true := if_pos (.inr rfl)

/-- The grant is answered, the revocation lost: it resolves all the same, and the node goes on accepting. -/
theorem lost_stop_out_of_sync : ¬ ∀ (env : Env) (client : Finset JsString) (registry : Registry) (h : CallHistory)
    (s : Sides), Run (step env) (fun _ _ => True) (idle client registry) h s → (∀ id, s.calls id = none) →
    ∀ text helper, lastResolved text h = some helper →
      (text ∈ s.client ↔ accepts env s.registry text = true) ∧
      (helper = .stopImpersonatingAccount → accepts env s.registry text = false) := by
  intro hsync
  have hgrant : Run (step onePayer) (Heeds onePayer) (idle ∅ ∅) _ granted :=
    answeredCall_run payer_base58 payer_decode payer_canonical ∅ ∅ 0 .impersonateAccount
  have hstop : Run (step onePayer) (fun _ _ => True) granted _ (idle ∅ {payerAddress}) :=
    lostCall_run payer_base58 fetchFailed_transient _ _ 1 .stopImpersonatingAccount
  have hrun := (hgrant.mono fun _ _ _ => trivial).append hstop
  have hlast := hsync onePayer ∅ ∅ _ _ hrun (fun _ => rfl) payer.text .stopImpersonatingAccount (by decide)
  exact absurd (hlast.2 rfl) (by decide)

end Impersonation

end HardhatTron

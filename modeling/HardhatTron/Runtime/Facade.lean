import HardhatTron.Lib.Memo
import HardhatTron.Lib.Runs
import HardhatTron.Runtime.AbiTypes
import HardhatTron.Runtime.Overloads
/-!
# The facade of a contract

`makeFacade` wraps a TronWeb contract for callers that write to an ethers one. A
property is a name, a signature or a selector; it gives a method handle, or a
dispatcher where the name is overloaded. TronWeb tells functions of one name
apart by nothing, so the handle of an overloaded function calls through a
contract that has this function only. Handles and such contracts are remembered
by `canonicalSig`.

`histories_plain` says that in every run the facades answer as if they
remembered nothing.
-/
namespace HardhatTron

open Lib

namespace Facades

/-! ## Tables of an ABI -/

/-- An ABI: its functions, and the entries of other types as their `type`. -/
abbrev AbiEntries := List (JsString ⊕ AbiFunction)

/-- The entries whose `type` is `function`. -/
def functions (abi : AbiEntries) : List AbiFunction := abi.filterMap Sum.getRight?

/-- What the facade asks ethers and the address codec. -/
structure FacadeEnv where
  /-- `FunctionFragment.from(item).selector.toLowerCase()` -/
  selector : AbiFunction → JsString
  /-- Name and input types of `FunctionFragment.from(text)`, unless it throws. -/
  parseFragment : JsString → Option (JsString × List JsString)
  codec : AddressCodec

def overloadsByName (abi : AbiEntries) (name : JsString) : List AbiFunction :=
  (functions abi).filter fun fn => fn.name = name

/-- A later entry takes the place of an earlier one. -/
def fnsBySignature (abi : AbiEntries) (sig : JsString) : Option AbiFunction :=
  (functions abi).reverse.find? fun fn => canonicalSig fn = sig

def fnsBySelector (env : FacadeEnv) (abi : AbiEntries) (selector : JsString) : Option AbiFunction :=
  (functions abi).reverse.find? fun fn => env.selector fn = selector

def lookupBySignature (env : FacadeEnv) (abi : AbiEntries) (prop : JsString) : Option AbiFunction :=
  match fnsBySignature abi prop with
  | some direct => some direct
  | none =>
    match env.parseFragment prop with
    | some (name, types) => fnsBySignature abi (name ++ bracketed '(' ',' ')' types)
    | none => none

/-! ## Facades and dispatchers -/

/-- A TronWeb contract, and the client it sends with. -/
structure TronContract where
  abi : List AbiFunction
  tronAddress : JsString
  tronWeb : Nat

structure MethodHandle where
  fnAbi : AbiFunction
  tronContract : TronContract
  tronWeb : Nat

/-- Where a facade or a dispatcher sends to, and the client it sends with. -/
structure Endpoint where
  tronAddress : JsString
  tronWeb : Nat

/-- A facade, or a dispatcher, with what it remembers. -/
structure Facade extends Endpoint where
  singleContractCache : JsString → Option TronContract
  methodHandleCache : JsString → Option MethodHandle

/-- A facade that remembers nothing yet. -/
def Endpoint.facade (e : Endpoint) : Facade := ⟨e, fun _ => none, fun _ => none⟩

/-- `tronWeb.contract([fn], tronAddress)` -/
def Endpoint.single (e : Endpoint) (fn : AbiFunction) : TronContract := ⟨[fn], e.tronAddress, e.tronWeb⟩

/-- `tronContract` -/
def Endpoint.tronContract (e : Endpoint) (abi : AbiEntries) : TronContract := ⟨functions abi, e.tronAddress, e.tronWeb⟩

namespace Facade

def singleFor (f : Facade) (fn : AbiFunction) : TronContract × Facade :=
  let (single, singleContractCache) := memo canonicalSig f.single f.singleContractCache fn
  (single, { f with singleContractCache })

/-- `contractForCall` -/
def contractFor (abi : AbiEntries) (f : Facade) (fn : AbiFunction) : TronContract × Facade :=
  if (overloadsByName abi fn.name).length > 1 then f.singleFor fn else (f.tronContract abi, f)

/-- The handle that is there, or a new one on the contract that is looked up for it. -/
def handleWith (contractFor : Facade → AbiFunction → TronContract × Facade) (f : Facade) (fn : AbiFunction) :
    MethodHandle × Facade :=
  match f.methodHandleCache (canonicalSig fn) with
  | some cached => (cached, f)
  | none =>
    let (contractForCall, f) := contractFor f fn
    let handle := ⟨fn, contractForCall, f.tronWeb⟩
    (handle, { f with methodHandleCache := Function.update f.methodHandleCache (canonicalSig fn) (some handle) })

def methodFor (abi : AbiEntries) (f : Facade) (fn : AbiFunction) : MethodHandle × Facade :=
  f.handleWith (contractFor abi) fn

/-- `handleFor` of a dispatcher. -/
def handleFor (f : Facade) (fn : AbiFunction) : MethodHandle × Facade := f.handleWith singleFor fn

end Facade

/-! ## Properties -/

/-- `prop in target`: its own fields, and those of every object. -/
def targetKeys : List JsString :=
  ["target", "address", "tronAddress", "interface", "abi", "runner", "provider",
    "constructor", "__defineGetter__", "__defineSetter__", "hasOwnProperty", "__lookupGetter__", "__lookupSetter__",
    "isPrototypeOf", "propertyIsEnumerable", "toString", "valueOf", "__proto__", "toLocaleString"].map String.toList

/-- The properties that the proxy answers itself. -/
def proxyKeys : List JsString :=
  ["getAddress", "getFunction", "connect", "attach", "waitForDeployment", "deploymentTransaction"].map String.toList

/-- `/^0x[0-9a-fA-F]{8}$/` -/
def isSelector : JsString → Bool
  | '0' :: 'x' :: ds => ds.length == 8 && ds.all isHexDigit
  | _ => false

inductive Access where
  | undefined
  /-- A field of the target, or a function of the proxy. -/
  | own (prop : JsString)
  | handle (handle : MethodHandle)
  | dispatcher (overloads : List AbiFunction)

/-- The functions a property or an argument of `getFunction` names. -/
inductive Named where
  | nothing
  | own (prop : JsString)
  | one (fn : AbiFunction)
  | several (overloads : List AbiFunction)

/-- By name, whatever is overloaded. -/
def byName (abi : AbiEntries) (name : JsString) : Named :=
  match overloadsByName abi name with
  | [] => .nothing
  | [fn] => .one fn
  | overloads => .several overloads

def bySignature (env : FacadeEnv) (abi : AbiEntries) (text : JsString) : Named :=
  match (if '(' ∈ text then lookupBySignature env abi text else none) with
  | some fn => .one fn
  | none => byName abi text

/-- The `get` of the proxy, up to the handle. -/
def named (env : FacadeEnv) (abi : AbiEntries) (prop : JsString) : Named :=
  if targetKeys.contains prop then .own prop
  else if proxyKeys.contains prop then .own prop
  else if prop = "then".toList then .nothing
  else
    match (if isSelector prop then fnsBySelector env abi (prop.map Char.toLower) else none) with
    | some fn => .one fn
    | none => bySignature env abi prop

def Facade.access (abi : AbiEntries) (f : Facade) : Named → Access × Facade
  | .nothing => (.undefined, f)
  | .own prop => (.own prop, f)
  | .one fn =>
    let (handle, f) := f.methodFor abi fn
    (.handle handle, f)
  | .several overloads => (.dispatcher overloads, f)

def noMatch (signature : JsString) : JsString := "getFunction: no match for \"".toList ++ signature ++ "\"".toList

/-! ## A program with facades -/

/-- The facades of one ABI, and the dispatchers they gave out. -/
structure FacadeProcess where
  facades : Nat → Option Facade
  dispatchers : Nat → Option (List AbiFunction × Facade)

/-- A dispatcher that an access gives gets the name `d`, a facade that `connect` or `attach` gives the name `k'`. -/
inductive FacadeUse where
  | get (k : Nat) (prop : JsString) (d : Nat)
  | getFunction (k : Nat) (signature : JsString) (d : Nat)
  | dispatch (d : Nat) (rawArgs : List JsValue)
  | connect (k : Nat) (signer : Option Nat) (k' : Nat)
  | attach (k : Nat) (addr : JsValue) (k' : Nat)

inductive FacadeAnswer where
  | access (access : Except JsThrown Access)
  | called (handle : Except JsThrown MethodHandle)
  | facade

/-- The dispatcher of an access, with nothing remembered yet. -/
def FacadeProcess.withDispatcher (s : FacadeProcess) (f : Facade) (d : Nat) : Access → Option FacadeProcess
  | .dispatcher overloads =>
    match s.dispatchers d with
    | some _ => none
    | none =>
      some { s with dispatchers := Function.update s.dispatchers d (some (overloads, f.toEndpoint.facade)) }
  | _ => some s

def FacadeProcess.setFacade (s : FacadeProcess) (k : Nat) (f : Facade) : FacadeProcess :=
  { s with facades := Function.update s.facades k (some f) }

/-- A facade asked for what a property or a signature names. -/
def FacadeProcess.access (abi : AbiEntries) (s : FacadeProcess) (k d : Nat) (found : Named) :
    Option (FacadeAnswer × FacadeProcess) :=
  (s.facades k).bind fun f =>
    let (access, f) := f.access abi found
    ((s.setFacade k f).withDispatcher f d access).map fun s => (.access (.ok access), s)

def FacadeProcess.step (env : FacadeEnv) (abi : AbiEntries) (s : FacadeProcess) :
    FacadeUse → Option (FacadeAnswer × FacadeProcess)
  | .get k prop d => s.access abi k d (named env abi prop)
  | .getFunction k signature d =>
    match bySignature env abi signature with
    | .nothing => (s.facades k).map fun _ => (.access (.error (.error (noMatch signature))), s)
    | found => s.access abi k d found
  | .dispatch d rawArgs =>
    (s.dispatchers d).map fun (overloads, f) =>
      match pickOverload overloads rawArgs with
      | .error e => (.called (.error e), s)
      | .ok fn =>
        let (handle, f) := f.handleFor fn
        (.called (.ok handle), { s with dispatchers := Function.update s.dispatchers d (some (overloads, f)) })
  | .connect k signer k' =>
    match s.facades k, s.facades k' with
    | some f, none => some (.facade, s.setFacade k' (Endpoint.facade ⟨f.tronAddress, signer.getD f.tronWeb⟩))
    | _, _ => none
  | .attach k addr k' =>
    match s.facades k, s.facades k', toTronBase58 env.codec addr with
    | some f, none, some (.str a) => some (.facade, s.setFacade k' (Endpoint.facade ⟨a, f.tronWeb⟩))
    | _, _, _ => none

/-! ## What is remembered -/

variable {env : FacadeEnv} {abi : AbiEntries} {contractOf : Endpoint → AbiFunction → TronContract} {f : Facade}
  {fn : AbiFunction}

/-- The contract `methodFor` wants for a function. -/
def contractForCall (abi : AbiEntries) (e : Endpoint) (fn : AbiFunction) : TronContract :=
  if (overloadsByName abi fn.name).length > 1 then e.single fn else e.tronContract abi

/-- A new handle. -/
def Endpoint.handle (contractOf : Endpoint → AbiFunction → TronContract) (e : Endpoint) (fn : AbiFunction) :
    MethodHandle :=
  ⟨fn, contractOf e fn, e.tronWeb⟩

/-- What is remembered for the functions of the ABI is what would be made for them. -/
structure Remembers (abi : AbiEntries) (contractOf : Endpoint → AbiFunction → TronContract) (f : Facade) : Prop where
  singles : Consistent canonicalSig f.single (fun fn => fn ∈ functions abi) f.singleContractCache
  handles : Consistent canonicalSig (f.handle contractOf) (fun fn => fn ∈ functions abi) f.methodHandleCache

theorem Remembers.facade (e : Endpoint) : Remembers abi contractOf e.facade := ⟨.empty, .empty⟩

/-- No two functions of the ABI have one signature. -/
def DistinctSigs (abi : AbiEntries) : Prop := ((functions abi).map canonicalSig).Nodup

theorem DistinctSigs.separates {β : Type} (h : DistinctSigs abi) (make : AbiFunction → β) :
    Separates canonicalSig make fun fn => fn ∈ functions abi :=
  .of_injOn fun _ _ hfn hfn' hsig => List.inj_on_of_nodup_map h hfn hfn' hsig

/-- A look that gives what it should, and goes on remembering what it should. -/
structure Gives {β : Type} (abi : AbiEntries) (contractOf : Endpoint → AbiFunction → TronContract) (f : Facade) (b : β)
    (out : β × Facade) : Prop where
  fst : out.1 = b
  remembers : Remembers abi contractOf out.2
  endpoint : out.2.toEndpoint = f.toEndpoint

theorem singleFor_gives (hd : DistinctSigs abi) (hf : Remembers abi contractOf f) (hfn : fn ∈ functions abi) :
    Gives abi contractOf f (f.single fn) (f.singleFor fn) where
  fst := memo_fst hf.singles hfn
  remembers := ⟨hf.singles.memo (hd.separates _) hfn, hf.handles⟩
  endpoint := rfl

theorem contractFor_gives (hd : DistinctSigs abi) (hf : Remembers abi contractOf f) (hfn : fn ∈ functions abi) :
    Gives abi contractOf f (contractForCall abi f.toEndpoint fn) (f.contractFor abi fn) := by
  unfold contractForCall Facade.contractFor
  split
  · exact singleFor_gives hd hf hfn
  · exact ⟨rfl, hf, rfl⟩

theorem handleWith_gives {look : Facade → AbiFunction → TronContract × Facade} (hd : DistinctSigs abi)
    (hf : Remembers abi contractOf f) (hfn : fn ∈ functions abi)
    (hlook : Gives abi contractOf f (contractOf f.toEndpoint fn) (look f fn)) :
    Gives abi contractOf f (f.handle contractOf fn) (f.handleWith look fn) := by
  unfold Facade.handleWith
  split
  · rename_i cached hcached
    exact ⟨hf.handles fn hfn cached hcached, hf, rfl⟩
  · obtain ⟨hfst, hrem, hend⟩ := hlook
    generalize look f fn = out at hfst hrem hend
    obtain ⟨contract, f'⟩ := out
    dsimp only at hfst hrem hend ⊢
    have hmade : (⟨fn, contract, f'.tronWeb⟩ : MethodHandle) = f'.handle contractOf fn := by
      rw [hfst, ← hend]
      rfl
    refine ⟨by rw [hmade, hend], ⟨hrem.singles, ?_⟩, hend⟩
    rw [hmade]
    exact hrem.handles.update (hd.separates _) hfn

theorem methodFor_gives (hd : DistinctSigs abi) (hf : Remembers abi (contractForCall abi) f) (hfn : fn ∈ functions abi) :
    Gives abi (contractForCall abi) f (f.handle (contractForCall abi) fn) (f.methodFor abi fn) :=
  handleWith_gives hd hf hfn (contractFor_gives hd hf hfn)

theorem handleFor_gives (hd : DistinctSigs abi) (hf : Remembers abi Endpoint.single f) (hfn : fn ∈ functions abi) :
    Gives abi Endpoint.single f (f.handle Endpoint.single fn) (f.handleFor fn) :=
  handleWith_gives hd hf hfn (singleFor_gives hd hf hfn)

/-! ## What is named -/

/-- The functions of the ABI. -/
def Named.Within (abi : AbiEntries) : Named → Prop
  | .one fn => fn ∈ functions abi
  | .several overloads => ∀ fn ∈ overloads, fn ∈ functions abi
  | _ => True

theorem mem_of_reverse_find {l : List AbiFunction} {p : AbiFunction → Bool} (h : l.reverse.find? p = some fn) : fn ∈ l :=
  List.mem_reverse.1 (List.mem_of_find?_eq_some h)

theorem lookupBySignature_mem {prop : JsString} (h : lookupBySignature env abi prop = some fn) : fn ∈ functions abi := by
  unfold lookupBySignature at h
  split at h
  · rename_i direct hdirect
    cases h
    exact mem_of_reverse_find hdirect
  · split at h
    · exact mem_of_reverse_find h
    · cases h

theorem byName_within (name : JsString) : (byName abi name).Within abi := by
  have hmem : ∀ fn ∈ overloadsByName abi name, fn ∈ functions abi := fun fn h => (List.mem_filter.1 h).1
  unfold byName
  split
  · trivial
  · rename_i fn hone
    exact hmem fn (by rw [hone]; exact List.mem_singleton_self fn)
  · exact hmem

theorem bySignature_within (text : JsString) : (bySignature env abi text).Within abi := by
  unfold bySignature
  split
  · rename_i fn hfn
    split at hfn
    · exact lookupBySignature_mem hfn
    · cases hfn
  · exact byName_within text

theorem named_within (prop : JsString) : (named env abi prop).Within abi := by
  unfold named
  split
  · trivial
  · split
    · trivial
    · split
      · trivial
      · split
        · rename_i fn hfn
          split at hfn
          · exact mem_of_reverse_find hfn
          · cases hfn
        · exact bySignature_within prop

/-- What an access gives without a memory. -/
def Endpoint.access (abi : AbiEntries) (e : Endpoint) : Named → Access
  | .nothing => .undefined
  | .own prop => .own prop
  | .one fn => .handle (e.handle (contractForCall abi) fn)
  | .several overloads => .dispatcher overloads

theorem access_gives (hd : DistinctSigs abi) (hf : Remembers abi (contractForCall abi) f) {found : Named}
    (hfound : found.Within abi) :
    Gives abi (contractForCall abi) f (f.toEndpoint.access abi found) (f.access abi found) := by
  cases found with
  | nothing => exact ⟨rfl, hf, rfl⟩
  | own prop => exact ⟨rfl, hf, rfl⟩
  | one fn =>
    obtain ⟨hfst, hrem, hend⟩ := methodFor_gives hd hf hfound
    exact ⟨congrArg Access.handle hfst, hrem, hend⟩
  | several overloads => exact ⟨rfl, hf, rfl⟩

theorem pickOverload_mem {overloads : List AbiFunction} {rawArgs : List JsValue}
    (h : pickOverload overloads rawArgs = .ok fn) : fn ∈ overloads := by
  unfold pickOverload at h
  have hmem : ∀ o ∈ candidatesFor overloads (splitOverrides rawArgs none).args, o ∈ overloads :=
    fun o ho => (mem_candidatesFor.1 ho).1
  dsimp only at h
  generalize (splitOverrides rawArgs none).args = args at h hmem
  cases hc : candidatesFor overloads args with
  | nil => simp [hc] at h
  | cons o candidates =>
    rw [hc] at h hmem
    cases candidates with
    | nil =>
      obtain rfl := Except.ok.inj h
      exact hmem o (by simp)
    | cons o' candidates =>
      obtain rfl := Except.ok.inj h
      cases hhead : (ranked Prod.snd (scoredFor args (o :: o' :: candidates))).head? with
      | none =>
        simp only [List.headD_eq_head?_getD, hhead, Option.getD_none]
        exact hmem o (by simp)
      | some best =>
        simp only [List.headD_eq_head?_getD, hhead, Option.getD_some]
        obtain ⟨o'', ho'', rfl⟩ := List.mem_map.1 (List.mem_mergeSort.1 (List.mem_of_mem_head? hhead))
        exact hmem o'' ho''

/-! ## A process that remembers, and one that does not -/

namespace FacadeProcess

/-- The process with all caches empty. -/
def forget (s : FacadeProcess) : FacadeProcess where
  facades k := (s.facades k).map fun f => f.toEndpoint.facade
  dispatchers d := (s.dispatchers d).map fun x => (x.1, x.2.toEndpoint.facade)

/-- The process that looks everything up again. -/
def plainStep (env : FacadeEnv) (abi : AbiEntries) (s : FacadeProcess) (c : FacadeUse) :
    Option (FacadeAnswer × FacadeProcess) :=
  (s.step env abi c).map (Prod.map id forget)

/-- What every facade and every dispatcher remembers is right. -/
structure Inv (abi : AbiEntries) (s : FacadeProcess) : Prop where
  facades : ∀ {k f}, s.facades k = some f → Remembers abi (contractForCall abi) f
  overloads : ∀ {d overloads f}, s.dispatchers d = some (overloads, f) → ∀ fn ∈ overloads, fn ∈ functions abi
  dispatchers : ∀ {d overloads f}, s.dispatchers d = some (overloads, f) → Remembers abi Endpoint.single f

/-- The same but for what is remembered. -/
structure Alike (s t : FacadeProcess) : Prop where
  facades : ∀ k, (s.facades k).map Facade.toEndpoint = (t.facades k).map Facade.toEndpoint
  dispatchers : ∀ d, (s.dispatchers d).map (Prod.map id Facade.toEndpoint) =
    (t.dispatchers d).map (Prod.map id Facade.toEndpoint)

variable {s s' t : FacadeProcess}

theorem Alike.symm (h : Alike s t) : Alike t s := ⟨fun k => (h.facades k).symm, fun d => (h.dispatchers d).symm⟩

theorem alike_forget (s : FacadeProcess) : Alike s s.forget where
  facades k := by cases h : s.facades k <;> simp [forget, h, Endpoint.facade]
  dispatchers d := by cases h : s.dispatchers d <;> simp [forget, h, Endpoint.facade, Prod.map]

theorem Alike.facade (h : Alike s t) {k : Nat} {f : Facade} (hf : s.facades k = some f) :
    ∃ g, t.facades k = some g ∧ g.toEndpoint = f.toEndpoint := by
  have hk := h.facades k
  rw [hf] at hk
  obtain ⟨g, hg, heq⟩ := Option.map_eq_some_iff.1 hk.symm
  exact ⟨g, hg, heq⟩

theorem Alike.no_facade (h : Alike s t) {k : Nat} (hf : s.facades k = none) : t.facades k = none := by
  have hk := h.facades k
  rw [hf] at hk
  exact Option.map_eq_none_iff.1 hk.symm

theorem Alike.dispatcher (h : Alike s t) {d : Nat} {overloads : List AbiFunction} {f : Facade}
    (hd : s.dispatchers d = some (overloads, f)) :
    ∃ g, t.dispatchers d = some (overloads, g) ∧ g.toEndpoint = f.toEndpoint := by
  have hk := h.dispatchers d
  rw [hd] at hk
  obtain ⟨⟨overloads', g⟩, hg, heq⟩ := Option.map_eq_some_iff.1 hk.symm
  simp only [Prod.map_apply, id, Prod.mk.injEq] at heq
  obtain ⟨rfl, heq⟩ := heq
  exact ⟨g, hg, heq⟩

theorem Alike.no_dispatcher (h : Alike s t) {d : Nat} (hd : s.dispatchers d = none) : t.dispatchers d = none := by
  have hk := h.dispatchers d
  rw [hd] at hk
  exact Option.map_eq_none_iff.1 hk.symm

theorem Alike.setFacade (h : Alike s t) (k : Nat) {f g : Facade} (hfg : g.toEndpoint = f.toEndpoint) :
    Alike (s.setFacade k f) (t.setFacade k g) where
  facades j := by
    simp only [FacadeProcess.setFacade, Function.update_apply]
    split
    · simp [hfg]
    · exact h.facades j
  dispatchers := h.dispatchers

theorem Alike.setDispatcher (h : Alike s t) (d : Nat) (overloads : List AbiFunction) {f g : Facade}
    (hfg : g.toEndpoint = f.toEndpoint) :
    Alike { s with dispatchers := Function.update s.dispatchers d (some (overloads, f)) }
      { t with dispatchers := Function.update t.dispatchers d (some (overloads, g)) } where
  facades := h.facades
  dispatchers j := by
    simp only [Function.update_apply]
    split
    · simp [hfg]
    · exact h.dispatchers j

theorem Inv.setFacade (h : s.Inv abi) {k : Nat} {f : Facade} (hf : Remembers abi (contractForCall abi) f) :
    (s.setFacade k f).Inv abi where
  facades hk := by
    rcases update_eq_some hk with ⟨-, heq⟩ | ⟨-, hkept⟩
    · cases heq
      exact hf
    · exact h.facades hkept
  overloads := h.overloads
  dispatchers := h.dispatchers

theorem Inv.setDispatcher (h : s.Inv abi) {d : Nat} {overloads : List AbiFunction} {f : Facade}
    (hmem : ∀ fn ∈ overloads, fn ∈ functions abi) (hf : Remembers abi Endpoint.single f) :
    Inv abi { s with dispatchers := Function.update s.dispatchers d (some (overloads, f)) } where
  facades := h.facades
  overloads hd := by
    rcases update_eq_some hd with ⟨-, heq⟩ | ⟨-, hkept⟩
    · cases heq
      exact hmem
    · exact h.overloads hkept
  dispatchers hd := by
    rcases update_eq_some hd with ⟨-, heq⟩ | ⟨-, hkept⟩
    · cases heq
      exact hf
    · exact h.dispatchers hkept

theorem Inv.forget (h : s.Inv abi) : s.forget.Inv abi where
  facades hk := by
    obtain ⟨f, -, rfl⟩ := Option.map_eq_some_iff.1 hk
    exact .facade _
  overloads hd := by
    obtain ⟨⟨overloads, f⟩, hold, heq⟩ := Option.map_eq_some_iff.1 hd
    obtain ⟨rfl, rfl⟩ := Prod.mk.inj heq
    exact h.overloads hold
  dispatchers hd := by
    obtain ⟨⟨overloads, f⟩, -, heq⟩ := Option.map_eq_some_iff.1 hd
    obtain ⟨rfl, rfl⟩ := Prod.mk.inj heq
    exact .facade _

/-- What an access leaves, with the dispatcher it may give. -/
theorem Inv.withDispatcher (h : s.Inv abi) {f : Facade} {d : Nat} {found : Named} (hfound : found.Within abi) {e : Endpoint}
    (hs : s.withDispatcher f d (e.access abi found) = some s') : s'.Inv abi := by
  cases found with
  | several overloads =>
    simp only [Endpoint.access, FacadeProcess.withDispatcher] at hs
    split at hs
    · cases hs
    · cases hs
      exact h.setDispatcher hfound (.facade _)
  | _ => cases hs; exact h

theorem Alike.withDispatcher (h : Alike s t) {f g : Facade} (hfg : g.toEndpoint = f.toEndpoint) {d : Nat} {access : Access}
    (hs : s.withDispatcher f d access = some s') : ∃ t', t.withDispatcher g d access = some t' ∧ Alike s' t' := by
  cases access with
  | dispatcher overloads =>
    simp only [FacadeProcess.withDispatcher] at hs
    split at hs
    · cases hs
    · rename_i hnone
      cases hs
      refine ⟨{ t with dispatchers := Function.update t.dispatchers d (some (overloads, g.toEndpoint.facade)) },
        by simp only [FacadeProcess.withDispatcher, h.no_dispatcher hnone], ?_⟩
      exact h.setDispatcher d overloads (congrArg (fun e : Endpoint => e.facade.toEndpoint) hfg)
  | _ => cases hs; exact ⟨t, rfl, h⟩

theorem access_alike (hd : DistinctSigs abi) (hs : s.Inv abi) (ht : t.Inv abi) (h : Alike s t) {k d : Nat} {found : Named}
    (hfound : found.Within abi) {r : FacadeAnswer} (hst : s.access abi k d found = some (r, s')) :
    ∃ t', t.access abi k d found = some (r, t') ∧ Alike s' t' ∧ s'.Inv abi ∧ t'.Inv abi := by
  obtain ⟨f, hf, hst⟩ := Option.bind_eq_some_iff.1 hst
  obtain ⟨g, hg, hfg⟩ := h.facade hf
  have hgf := access_gives hd (hs.facades hf) hfound
  have hgg := access_gives hd (ht.facades hg) hfound
  generalize hfout : f.access abi found = outf at hst hgf
  generalize hgout : g.access abi found = outg at hgg
  obtain ⟨accessf, f'⟩ := outf
  obtain ⟨accessg, g'⟩ := outg
  have hend : g'.toEndpoint = f'.toEndpoint := by rw [hgg.endpoint, hfg, hgf.endpoint]
  obtain rfl : accessf = f.toEndpoint.access abi found := hgf.fst
  obtain rfl : accessg = f.toEndpoint.access abi found := by
    rw [← hfg]
    exact hgg.fst
  obtain ⟨s'', hs'', heq⟩ := Option.map_eq_some_iff.1 hst
  obtain ⟨rfl, rfl⟩ := Prod.mk.inj heq
  obtain ⟨t', ht', halike⟩ := (h.setFacade k hend).withDispatcher hend hs''
  refine ⟨t', ?_, halike, ?_, ?_⟩
  · simp only [FacadeProcess.access, hg, Option.bind_some, hgout, ht', Option.map_some]
  · exact (hs.setFacade hgf.remembers).withDispatcher hfound hs''
  · exact (ht.setFacade hgg.remembers).withDispatcher hfound ht'

/-- Where one process can go, so can the other, with the same answer. -/
theorem step_alike (hd : DistinctSigs abi) (hs : s.Inv abi) (ht : t.Inv abi) (h : Alike s t) {c : FacadeUse}
    {r : FacadeAnswer} (hst : s.step env abi c = some (r, s')) :
    ∃ t', t.step env abi c = some (r, t') ∧ Alike s' t' ∧ s'.Inv abi ∧ t'.Inv abi := by
  cases c with
  | get k prop d => exact access_alike hd hs ht h (named_within prop) hst
  | getFunction k signature d =>
    have hwithin : (bySignature env abi signature).Within abi := bySignature_within signature
    simp only [FacadeProcess.step] at hst ⊢
    generalize bySignature env abi signature = found at hst hwithin ⊢
    cases found with
    | nothing =>
      obtain ⟨f, hf, heq⟩ := Option.map_eq_some_iff.1 hst
      obtain ⟨rfl, rfl⟩ := Prod.mk.inj heq
      obtain ⟨g, hg, -⟩ := h.facade hf
      exact ⟨t, by simp [hg], h, hs, ht⟩
    | own prop => exact access_alike hd hs ht h hwithin hst
    | one fn => exact access_alike hd hs ht h hwithin hst
    | several overloads => exact access_alike hd hs ht h hwithin hst
  | dispatch d rawArgs =>
    obtain ⟨⟨overloads, f⟩, hf, heq⟩ := Option.map_eq_some_iff.1 hst
    obtain ⟨g, hg, hfg⟩ := h.dispatcher hf
    cases hpick : pickOverload overloads rawArgs with
    | error e =>
      simp only [hpick, Prod.mk.injEq] at heq
      obtain ⟨rfl, rfl⟩ := heq
      exact ⟨t, by simp [FacadeProcess.step, hg, hpick], h, hs, ht⟩
    | ok fn =>
      simp only [hpick, Prod.mk.injEq] at heq
      obtain ⟨rfl, rfl⟩ := heq
      have hmem := hs.overloads hf
      have hgf := handleFor_gives hd (hs.dispatchers hf) (hmem fn (pickOverload_mem hpick))
      have hgg := handleFor_gives hd (ht.dispatchers hg) (hmem fn (pickOverload_mem hpick))
      have hend : (g.handleFor fn).2.toEndpoint = (f.handleFor fn).2.toEndpoint := by
        rw [hgg.endpoint, hfg, hgf.endpoint]
      have hhandle : (g.handleFor fn).1 = (f.handleFor fn).1 := by rw [hgg.fst, hfg, hgf.fst]
      refine ⟨{ t with dispatchers := Function.update t.dispatchers d (some (overloads, (g.handleFor fn).2)) },
        by simp [FacadeProcess.step, hg, hpick, hhandle], h.setDispatcher d overloads hend, ?_, ?_⟩
      · exact hs.setDispatcher hmem hgf.remembers
      · exact ht.setDispatcher hmem hgg.remembers
  | connect k signer k' =>
    simp only [FacadeProcess.step] at hst
    split at hst
    · rename_i f hf hnone
      cases hst
      obtain ⟨g, hg, hfg⟩ := h.facade hf
      refine ⟨t.setFacade k' (Endpoint.facade ⟨g.tronAddress, signer.getD g.tronWeb⟩), ?_, ?_, ?_, ?_⟩
      · simp only [FacadeProcess.step, hg, h.no_facade hnone]
      · exact h.setFacade k' (by rw [hfg])
      · exact hs.setFacade (.facade _)
      · exact ht.setFacade (.facade _)
    · cases hst
  | attach k addr k' =>
    simp only [FacadeProcess.step] at hst
    split at hst
    · rename_i f a hf hnone haddr
      cases hst
      obtain ⟨g, hg, hfg⟩ := h.facade hf
      refine ⟨t.setFacade k' (Endpoint.facade ⟨a, g.tronWeb⟩), ?_, ?_, ?_, ?_⟩
      · simp only [FacadeProcess.step, hg, h.no_facade hnone, haddr]
      · exact h.setFacade k' (by rw [hfg])
      · exact hs.setFacade (.facade _)
      · exact ht.setFacade (.facade _)
    · cases hst

end FacadeProcess

/-! ## Every run -/

/-- One facade, as `makeFacade` returns it. -/
def oneFacade (e : Endpoint) : FacadeProcess := ⟨fun k => if k = 0 then some e.facade else none, fun _ => none⟩

theorem inv_oneFacade (e : Endpoint) : (oneFacade e).Inv abi where
  facades {k f} hk := by
    simp only [oneFacade] at hk
    split at hk
    · cases hk
      exact .facade e
    · cases hk
  overloads hd := by cases hd
  dispatchers hd := by cases hd

variable {e : Endpoint} {h : List (FacadeUse × FacadeAnswer)} {s : FacadeProcess}

abbrev FacadeRun (env : FacadeEnv) (abi : AbiEntries) (e : Endpoint) : List (FacadeUse × FacadeAnswer) → FacadeProcess → Prop :=
  Run (FacadeProcess.step env abi) (fun _ _ => True) (oneFacade e)

/-- The runs of a process that remembers nothing. -/
abbrev PlainRun (env : FacadeEnv) (abi : AbiEntries) (e : Endpoint) : List (FacadeUse × FacadeAnswer) → FacadeProcess → Prop :=
  Run (FacadeProcess.plainStep env abi) (fun _ _ => True) (oneFacade e)

theorem FacadeRun.plain (hd : DistinctSigs abi) (hr : FacadeRun env abi e h s) :
    s.Inv abi ∧ ∃ t, PlainRun env abi e h t ∧ t.Inv abi ∧ s.Alike t := by
  refine Run.inv (fun h (s : FacadeProcess) => s.Inv abi ∧ ∃ t, PlainRun env abi e h t ∧ t.Inv abi ∧ s.Alike t)
    ⟨inv_oneFacade e, oneFacade e, .nil, inv_oneFacade e, fun _ => rfl, fun _ => rfl⟩ ?_ hr
  rintro h s c r s' - ⟨hs, t, hplain, ht, halike⟩ - hst
  obtain ⟨t', ht', halike', hs', hinv'⟩ := FacadeProcess.step_alike hd hs ht halike hst
  have hforget := FacadeProcess.alike_forget t'
  refine ⟨hs', t'.forget, hplain.snoc c trivial (by simp [FacadeProcess.plainStep, ht']), hinv'.forget, ?_⟩
  exact ⟨fun k => (halike'.facades k).trans (hforget.facades k),
    fun d => (halike'.dispatchers d).trans (hforget.dispatchers d)⟩

theorem PlainRun.remembering (hd : DistinctSigs abi) (hr : PlainRun env abi e h s) :
    s.Inv abi ∧ ∃ t, FacadeRun env abi e h t ∧ t.Inv abi ∧ s.Alike t := by
  refine Run.inv (fun h (s : FacadeProcess) => s.Inv abi ∧ ∃ t, FacadeRun env abi e h t ∧ t.Inv abi ∧ s.Alike t)
    ⟨inv_oneFacade e, oneFacade e, .nil, inv_oneFacade e, fun _ => rfl, fun _ => rfl⟩ ?_ hr
  rintro h s c r s' - ⟨hs, t, hrun, ht, halike⟩ - hst
  obtain ⟨⟨r', s''⟩, hs'', heq⟩ := Option.map_eq_some_iff.1 hst
  obtain ⟨rfl, rfl⟩ := Prod.mk.inj heq
  obtain ⟨t', ht', halike', hinv, hinv'⟩ := FacadeProcess.step_alike hd hs ht halike hs''
  have hforget := (FacadeProcess.alike_forget s'').symm
  refine ⟨hinv.forget, t', hrun.snoc c trivial ht', hinv', ?_⟩
  exact ⟨fun k => (hforget.facades k).trans (halike'.facades k),
    fun d => (hforget.dispatchers d).trans (halike'.dispatchers d)⟩

/-- Facades and dispatchers answer as if they remembered nothing: whatever is read, called, connected and attached,
with the memory and without it there are the same histories of answers. -/
theorem histories_plain (env : FacadeEnv) (hd : DistinctSigs abi) (e : Endpoint)
    (h : List (FacadeUse × FacadeAnswer)) :
    (∃ s, FacadeRun env abi e h s) ↔ ∃ s, PlainRun env abi e h s := by
  constructor
  · rintro ⟨s, hr⟩
    obtain ⟨-, t, ht, -⟩ := FacadeRun.plain hd hr
    exact ⟨t, ht⟩
  · rintro ⟨s, hr⟩
    obtain ⟨-, t, ht, -⟩ := PlainRun.remembering hd hr
    exact ⟨t, ht⟩

/-! ## Solidity contracts -/

/-- The functions of a Solidity contract, different in name or in input types, have different signatures, if none takes
a struct in an array of several dimensions. -/
theorem distinctSigs_of_flat {fns : List (JsString × List (JsString × SolType))}
    (hflat : ∀ f ∈ fns, ∀ i ∈ f.2, i.2.FlatStructs) (hname : ∀ f ∈ fns, '(' ∉ f.1)
    (hdistinct : (fns.map fun f => (f.1, f.2.map fun i => i.2.canonical)).Nodup) :
    DistinctSigs (fns.map fun f => .inr ⟨f.1, SolType.abis f.2⟩) := by
  have hfunctions : functions (fns.map fun f => .inr ⟨f.1, SolType.abis f.2⟩) = fns.map fun f => ⟨f.1, SolType.abis f.2⟩ := by
    rw [functions, List.filterMap_map]
    exact congrFun (@List.filterMap_eq_map _ _ fun f : JsString × List (JsString × SolType) =>
      AbiFunction.mk f.1 (SolType.abis f.2)) fns
  have hsig : ∀ f ∈ fns, canonicalSig ⟨f.1, SolType.abis f.2⟩ = solSignature f.1 f.2 := by
    intro f hf
    rw [canonicalSig_abis, solSignature_eq]
    congr 3
    exact List.map_congr_left fun i hi => SolType.printed_of_flat (hflat f hf i hi)
  rw [DistinctSigs, hfunctions, List.map_map]
  refine (List.Nodup.of_map _ hdistinct).map_on fun f hf g hg heq => ?_
  have htexts : solSignature f.1 f.2 = solSignature g.1 g.2 := by
    rw [← hsig f hf, ← hsig g hg]
    exact heq
  rw [solSignature, solSignature, bracketed, bracketed] at htexts
  obtain ⟨hnames, hrest⟩ := append_mark_inj (hname f hf) (hname g hg) htexts
  have hinputs : (f.2.map fun i => i.2.shape) = g.2.map fun i => i.2.shape := by
    apply TypeShape.list_inj
    rw [List.map_map, List.map_map, bracketed, bracketed]
    exact congrArg _ hrest
  refine List.inj_on_of_nodup_map hdistinct hf hg (Prod.ext hnames ?_)
  have hcanonical := congrArg (List.map TypeShape.text) hinputs
  rw [List.map_map, List.map_map] at hcanonical
  exact hcanonical

/-! ## Two functions of one name -/

def noArgs : AbiFunction := ⟨['f'], []⟩

def oneArg : AbiFunction := ⟨['f'], [⟨"uint256".toList, ['x'], none⟩]⟩

/-- `f()`, `f(uint256)` and an event. -/
def overloadedAbi : AbiEntries := [.inr noArgs, .inl "event".toList, .inr oneArg]

def overloadedEnv : FacadeEnv where
  selector fn := if fn.inputs = [] then "0x26121ff0".toList else "0xb3de648b".toList
  parseFragment _ := none
  codec := ⟨fun _ => none, fun _ => none, fun _ => none, @base58_of_throws⟩

theorem overloadedAbi_distinct : DistinctSigs overloadedAbi := by
  unfold DistinctSigs
  decide

def deployed : Endpoint := ⟨"TXYZopYRdj2D9XRtbG411XZZ3kM5VkAeBf".toList, 0⟩

/-- The same signature, read twice. -/
def readTwice : List (FacadeUse × FacadeAnswer) :=
  let read := (FacadeUse.get 0 "f(uint256)".toList 0, FacadeAnswer.access (.ok (.handle ⟨oneArg, deployed.single oneArg, 0⟩)))
  [read, read]

/-- Both reads happen, the second one from the cache; and without the caches they do as well. -/
theorem readTwice_plain : (∃ s, FacadeRun overloadedEnv overloadedAbi deployed readTwice s) ∧
    ∃ s, PlainRun overloadedEnv overloadedAbi deployed readTwice s := by
  have hfirst : FacadeRun overloadedEnv overloadedAbi deployed ([] ++ [(.get 0 "f(uint256)".toList 0,
    .access (.ok (.handle ⟨oneArg, deployed.single oneArg, 0⟩)))]) _ := .snoc _ .nil trivial rfl
  have hread := hfirst.snoc (.get 0 "f(uint256)".toList 0) trivial rfl
  exact ⟨⟨_, hread⟩, (histories_plain overloadedEnv overloadedAbi_distinct deployed readTwice).1 ⟨_, hread⟩⟩

end Facades

end HardhatTron

import HardhatTron.Lib.Serializability
import HardhatTron.Node.Mining
/-!
# Cheatcodes against blocks and snapshots

`tre_setAccountBalance`, `tre_setAccountCode` and `tre_setAccountStorageAt`
read a capsule without a lock and write it back whole under the `dbManager`
lock, one lock per write. `tre_snapshot` and the processing of a block each hold
the lock throughout.

A cheatcode's window is open from its first step, the read of the account, to its
last. `StoreOperation.Spares` says what may happen in it without harm: the account
may not change before it is written, and the entries still to be written may not be
touched after that. `spared_windows_serializable` covers the runs that keep to it;
`block_update_lost` is a run that does not.
-/
namespace HardhatTron

open Lib

/-! ## The stores -/

inductive AccountType where
  | Normal
  | AssetIssue
  | Contract
  deriving DecidableEq

/-- A key of one of the stores. -/
inductive StoreKey where
  | account (address : Bytes)
  | code (address : Bytes)
  | contract (address : Bytes)
  | storageRow (key : Bytes)
  /-- An entry of the `dynamicPropertiesStore`, named after its getter. -/
  | dynamicProperty (name : String)
  deriving DecidableEq

variable {Account SmartContract : Type}

/-- What is stored under a key, `none` for `null`. -/
def Capsule (Account SmartContract : Type) : StoreKey → Type
  | .account _ => Option Account
  | .code _ => Option Bytes
  | .contract _ => Option SmartContract
  | .storageRow _ => Option Bytes
  | .dynamicProperty _ => Option Bytes

abbrev ChainState (Account SmartContract : Type) := (k : StoreKey) → Capsule Account SmartContract k

/-- The four dumps of a snapshot. -/
structure StoreDump (Account SmartContract : Type) where
  accounts : Bytes → Option Account
  codes : Bytes → Option Bytes
  contracts : Bytes → Option SmartContract
  storageRows : Bytes → Option Bytes

inductive CheatcodeFault where
  | rpc (e : RpcException)
  | java (e : JavaException)

/-- `TreUtil`, the capsules and the protocol buffers under them. -/
structure Capsules (Account SmartContract : Type) where
  decodeAddress : Option String → Except CheatcodeFault Bytes
  decodeLong : Option String → Except CheatcodeFault Int
  decodeDataWord : Option String → Except CheatcodeFault Bytes
  decodeHex : Option String → Except CheatcodeFault Bytes
  compose : Bytes → Bytes → Int → Bytes
  sha3 : Bytes → Bytes
  getAllowMultiSign : Option Bytes → Except CheatcodeFault Int
  getLatestBlockHeaderTimestamp : Option Bytes → Except CheatcodeFault Int
  /-- The constructor that is handed the `dynamicPropertiesStore`, here by its contents. -/
  newAccount : Bytes → AccountType → Int → Bool → (String → Option Bytes) → Except CheatcodeFault Account
  newNamedAccount : Bytes → String → AccountType → Account
  setBalance : Account → Int → Account
  getType : Account → AccountType
  updateAccountType : Account → AccountType → Account
  clearOwnerPermission : Account → Account
  clearWitnessPermission : Account → Account
  clearActivePermission : Account → Account
  /-- A `SmartContract` with this address and `consumeUserResourcePercent`, nothing else set. -/
  newContract : Bytes → Int → SmartContract
  getContractVersion : SmartContract → Int
  setCodeHash : SmartContract → Bytes → SmartContract

/-- What an operation ends with. -/
inductive CheatcodeOutcome (Account SmartContract : Type) where
  | answered
  | thrown (e : CheatcodeFault)
  | dumped (entry : StoreDump Account SmartContract)
  | processed

/-! ## The operations, step by step -/

abbrev StoreProgram (Account SmartContract : Type) :=
  Program (Capsule Account SmartContract) (CheatcodeOutcome Account SmartContract)

/-- Go on with a value, or end with the exception. -/
def orThrow {α : Type} (x : Except CheatcodeFault α) (k : α → StoreProgram Account SmartContract) :
    StoreProgram Account SmartContract :=
  match x with
  | .ok a => k a
  | .error e => .ret (.thrown e)

/-- One locked `put`. -/
def forceWrite (key : StoreKey) (value : Capsule Account SmartContract key) (k : StoreProgram Account SmartContract) :
    StoreProgram Account SmartContract :=
  .write key value k

section Cheatcodes

variable (rt : Capsules Account SmartContract)

/-- `setAccountBalance` from the `accountStore.get` on: what it does with the account. -/
def putBalance (address : Bytes) (balance : Int) : Option Account → StoreProgram Account SmartContract
  | some accountCapsule =>
    forceWrite (.account address) (some (rt.setBalance accountCapsule balance)) (.ret .answered)
  | none =>
    .read (.dynamicProperty "AllowMultiSign") fun allowMultiSign =>
    orThrow (rt.getAllowMultiSign allowMultiSign) fun allowMultiSign =>
    let withDefaultPermission := allowMultiSign == 1
    .read (.dynamicProperty "LatestBlockHeaderTimestamp") fun timestamp =>
    orThrow (rt.getLatestBlockHeaderTimestamp timestamp) fun timestamp =>
    .reads (Set.range StoreKey.dynamicProperty) fun stores =>
      orThrow (rt.newAccount address .Normal timestamp withDefaultPermission
        fun name => stores ⟨.dynamicProperty name, name, rfl⟩) fun accountCapsule =>
      forceWrite (.account address) (some (rt.setBalance accountCapsule balance)) (.ret .answered)

def setAccountBalance (addressParam balanceParam : Option String) : StoreProgram Account SmartContract :=
  if addressParam = none then
    .ret (.thrown (.java ⟨"java.lang.NullPointerException", "addressParam is marked non-null but is null"⟩))
  else
    orThrow (rt.decodeAddress addressParam) fun address =>
    orThrow (rt.decodeLong balanceParam) fun balance =>
    if balance < 0 then .ret (.thrown (.rpc (.invalidParams "balance can not be less than 0")))
    else .read (.account address) (putBalance rt address balance)

/-- The account `createContractAccountIfNotExist` writes over what it read. -/
def contractAccount (address : Bytes) : Option Account → Account
  | none => rt.newNamedAccount address "CreatedByTre" .Contract
  | some accountCapsule =>
    let accountCapsule :=
      if rt.getType accountCapsule ≠ .Contract then rt.updateAccountType accountCapsule .Contract else accountCapsule
    rt.clearActivePermission (rt.clearWitnessPermission (rt.clearOwnerPermission accountCapsule))

def createContractAccountIfNotExist (address : Bytes) (k : StoreProgram Account SmartContract) :
    StoreProgram Account SmartContract :=
  .read (.account address) fun accountCapsule =>
  forceWrite (.account address) (some (contractAccount rt address accountCapsule)) <|
  .read (.contract address) fun contractCapsule =>
  forceWrite (.contract address) (some (contractCapsule.getD (rt.newContract address 100))) k

def setAccountStorageAt (addressParam slotParam valueParam : Option String) : StoreProgram Account SmartContract :=
  orThrow (rt.decodeAddress addressParam) fun address =>
  orThrow (rt.decodeDataWord slotParam) fun slot =>
  orThrow (rt.decodeDataWord valueParam) fun value =>
  createContractAccountIfNotExist rt address <|
  .read (.contract address) fun contractCapsule =>
  let contractVersion := (contractCapsule.map rt.getContractVersion).getD 0
  let key := rt.compose slot address contractVersion
  forceWrite (.storageRow key) (some value) (.ret .answered)

def setAccountCode (addressParam codeParam : Option String) : StoreProgram Account SmartContract :=
  orThrow (rt.decodeAddress addressParam) fun address =>
  orThrow (rt.decodeHex codeParam) fun code =>
  createContractAccountIfNotExist rt address <|
  forceWrite (.code address) (some code) <|
  .read (.contract address) fun contractCapsule =>
  match contractCapsule with
  -- A block can have removed the contract again.
  | none => .ret (.thrown (.java ⟨"java.lang.NullPointerException", ""⟩))
  | some contractCapsule =>
    forceWrite (.contract address) (some (rt.setCodeHash contractCapsule (rt.sha3 code))) (.ret .answered)

/-- What `snapshot` dumps. -/
def dumpOf (stores : ChainState Account SmartContract) : StoreDump Account SmartContract where
  accounts address := stores (.account address)
  codes address := stores (.code address)
  contracts address := stores (.contract address)
  storageRows key := stores (.storageRow key)

end Cheatcodes

/-- What runs against the stores. A block changes them as it likes. -/
inductive StoreOperation (Account SmartContract : Type) where
  | setAccountBalance (addressParam balanceParam : Option String)
  | setAccountStorageAt (addressParam slotParam valueParam : Option String)
  | setAccountCode (addressParam codeParam : Option String)
  | snapshot
  | processBlock (change : ChainState Account SmartContract → ChainState Account SmartContract)

def StoreOperation.program (rt : Capsules Account SmartContract) :
    StoreOperation Account SmartContract → StoreProgram Account SmartContract
  | .setAccountBalance addressParam balanceParam => HardhatTron.setAccountBalance rt addressParam balanceParam
  | .setAccountStorageAt addressParam slotParam valueParam =>
    HardhatTron.setAccountStorageAt rt addressParam slotParam valueParam
  | .setAccountCode addressParam codeParam => HardhatTron.setAccountCode rt addressParam codeParam
  | .snapshot => .act id fun stores => .ret (.dumped (dumpOf stores))
  | .processBlock change => .act change fun _ => .ret .processed

/-! ## Their steps and windows -/

/-- A locked `put`. -/
def putTouch (key : StoreKey) : Touch StoreKey := ⟨∅, {key}⟩

/-- An unlocked `get`. -/
def getTouch (key : StoreKey) : Touch StoreKey := ⟨{key}, ∅⟩

/-- The steps of `createContractAccountIfNotExist`. -/
def createSteps (address : Bytes) : List (Touch StoreKey) :=
  [getTouch (.account address), putTouch (.account address), getTouch (.contract address), putTouch (.contract address)]

/-- `setAccountBalance`, for an account that is there and for one that is not. -/
def balanceSteps (address : Bytes) : Bool → List (Touch StoreKey)
  | true => [getTouch (.account address), putTouch (.account address)]
  | false =>
    [getTouch (.account address), getTouch (.dynamicProperty "AllowMultiSign"),
      getTouch (.dynamicProperty "LatestBlockHeaderTimestamp"), ⟨Set.range StoreKey.dynamicProperty, ∅⟩,
      putTouch (.account address)]

def storageSteps (address key : Bytes) : List (Touch StoreKey) :=
  createSteps address ++ [getTouch (.contract address), putTouch (.storageRow key)]

def codeSteps (address : Bytes) : List (Touch StoreKey) :=
  createSteps address ++ [putTouch (.code address), getTouch (.contract address), putTouch (.contract address)]

/-- The steps an operation has taken when it has ended; an exception cuts them short. -/
def StoreOperation.Steps (rt : Capsules Account SmartContract) :
    StoreOperation Account SmartContract → List (Touch StoreKey) → Prop
  | .setAccountBalance addressParam _, ts =>
    ts = [] ∨ ∃ address present, rt.decodeAddress addressParam = .ok address ∧ ts <+: balanceSteps address present
  | .setAccountStorageAt addressParam slotParam _, ts =>
    ts = [] ∨ ∃ address slot version, rt.decodeAddress addressParam = .ok address ∧
      rt.decodeDataWord slotParam = .ok slot ∧ ts <+: storageSteps address (rt.compose slot address version)
  | .setAccountCode addressParam _, ts =>
    ts = [] ∨ ∃ address, rt.decodeAddress addressParam = .ok address ∧ ts <+: codeSteps address
  | .snapshot, ts | .processBlock _, ts => ∃ t, ts = [t]

/-- What a step of another operation may touch while this one, with `n` steps taken, is
under way. -/
def StoreOperation.Spares (rt : Capsules Account SmartContract) :
    StoreOperation Account SmartContract → Nat → Touch StoreKey → Prop
  -- Between the unlocked read and the write the account does not change, nor do
  -- the properties a new account is made from.
  | .setAccountBalance addressParam _, n, t => ∀ address, rt.decodeAddress addressParam = .ok address →
    .account address ∉ t.writes ∧ (1 < n → ∀ name, .dynamicProperty name ∉ t.writes)
  -- The same up to the first write; from there on, what is still to be read does
  -- not change and what is still to be written is not touched.
  | .setAccountStorageAt addressParam slotParam _, n, t => ∀ address slot,
    rt.decodeAddress addressParam = .ok address → rt.decodeDataWord slotParam = .ok slot →
      (n = 1 → .account address ∉ t.writes) ∧
      (1 < n → (n ≤ 3 → .contract address ∉ t.reads) ∧ (n ≤ 4 → .contract address ∉ t.writes) ∧
        ∀ version, .storageRow (rt.compose slot address version) ∉ t.reads ∪ t.writes)
  | .setAccountCode addressParam _, n, t => ∀ address, rt.decodeAddress addressParam = .ok address →
    (n = 1 → .account address ∉ t.writes) ∧
    (1 < n → .contract address ∉ t.reads ∪ t.writes ∧ (n ≤ 4 → .code address ∉ t.reads ∪ t.writes))
  | .snapshot, _, _ | .processBlock _, _, _ => True

/-- The step, of `n`, with which an operation counts as done. -/
def StoreOperation.point (n : Nat) : StoreOperation Account SmartContract → Nat
  | .setAccountStorageAt _ _ _ | .setAccountCode _ _ => min 2 n
  | .setAccountBalance _ _ | .snapshot | .processBlock _ => n

/-! ### What an operation takes -/

theorem takes_orThrow {α : Type} {x : Except CheatcodeFault α} {k : α → StoreProgram Account SmartContract}
    {ts : List (Touch StoreKey)} (h : (orThrow x k).Takes ts) : ts = [] ∨ ∃ a, x = .ok a ∧ (k a).Takes ts := by
  cases x with
  | error e => exact .inl h
  | ok a => exact .inr ⟨a, rfl, h⟩

theorem takes_read {key : StoreKey} {k : Capsule Account SmartContract key → StoreProgram Account SmartContract}
    {ts : List (Touch StoreKey)} (h : (Program.read key k).Takes ts) :
    ∃ v ts', ts = getTouch key :: ts' ∧ (k v).Takes ts' := by
  obtain ⟨s, ts', rfl, h'⟩ := h
  exact ⟨_, ts', rfl, h'⟩

theorem takes_create {rt : Capsules Account SmartContract} {address : Bytes} {k : StoreProgram Account SmartContract}
    {ts : List (Touch StoreKey)} (h : (createContractAccountIfNotExist rt address k).Takes ts) :
    ∃ ts', ts = createSteps address ++ ts' ∧ k.Takes ts' := by
  obtain ⟨_, ts₁, rfl, h₁⟩ := takes_read h
  obtain ⟨ts₂, rfl, h₂⟩ := h₁
  obtain ⟨_, ts₃, rfl, h₃⟩ := takes_read h₂
  obtain ⟨ts₄, rfl, h₄⟩ := h₃
  exact ⟨ts₄, rfl, h₄⟩

theorem takes_putBalance {rt : Capsules Account SmartContract} {address : Bytes} {balance : Int}
    {account : Option Account} {ts : List (Touch StoreKey)} (h : (putBalance rt address balance account).Takes ts) :
    getTouch (.account address) :: ts <+: balanceSteps address account.isSome := by
  cases account with
  | some account =>
    obtain ⟨_, rfl, rfl⟩ := h
    exact List.prefix_rfl
  | none =>
    rw [putBalance] at h
    apply List.cons_prefix_cons.2 ⟨rfl, ?_⟩
    obtain ⟨allowMultiSign, ts₁, rfl, h₁⟩ := takes_read h
    apply List.cons_prefix_cons.2 ⟨rfl, ?_⟩
    rcases takes_orThrow h₁ with rfl | ⟨_, -, h₁⟩
    · exact List.nil_prefix
    obtain ⟨timestamp, ts₂, rfl, h₂⟩ := takes_read h₁
    apply List.cons_prefix_cons.2 ⟨rfl, ?_⟩
    rcases takes_orThrow h₂ with rfl | ⟨_, -, h₂⟩
    · exact List.nil_prefix
    obtain ⟨stores, ts₃, rfl, h₃⟩ := h₂
    apply List.cons_prefix_cons.2 ⟨rfl, ?_⟩
    rcases takes_orThrow h₃ with rfl | ⟨_, -, h₃⟩
    · exact List.nil_prefix
    obtain ⟨_, rfl, rfl⟩ := h₃
    exact List.prefix_rfl

theorem StoreOperation.steps_of_takes (rt : Capsules Account SmartContract)
    {operation : StoreOperation Account SmartContract} {ts : List (Touch StoreKey)}
    (h : (operation.program rt).Takes ts) : operation.Steps rt ts := by
  cases operation with
  | setAccountBalance addressParam balanceParam =>
    simp only [program, HardhatTron.setAccountBalance] at h
    split at h
    · exact .inl h
    rcases takes_orThrow h with rfl | ⟨address, ha, h₁⟩
    · exact .inl rfl
    rcases takes_orThrow h₁ with rfl | ⟨balance, -, h₂⟩
    · exact .inl rfl
    split at h₂
    · exact .inl h₂
    obtain ⟨account, ts', rfl, h₃⟩ := takes_read h₂
    exact .inr ⟨address, account.isSome, ha, takes_putBalance h₃⟩
  | setAccountStorageAt addressParam slotParam valueParam =>
    rcases takes_orThrow h with rfl | ⟨address, ha, h₁⟩
    · exact .inl rfl
    rcases takes_orThrow h₁ with rfl | ⟨slot, hslot, h₂⟩
    · exact .inl rfl
    rcases takes_orThrow h₂ with rfl | ⟨value, -, h₃⟩
    · exact .inl rfl
    obtain ⟨ts₁, rfl, h₄⟩ := takes_create h₃
    obtain ⟨_, ts₂, rfl, h₅⟩ := takes_read h₄
    obtain ⟨_, rfl, rfl⟩ := h₅
    exact .inr ⟨address, slot, _, ha, hslot, List.prefix_rfl⟩
  | setAccountCode addressParam codeParam =>
    rcases takes_orThrow h with rfl | ⟨address, ha, h₁⟩
    · exact .inl rfl
    rcases takes_orThrow h₁ with rfl | ⟨code, -, h₂⟩
    · exact .inl rfl
    refine .inr ⟨address, ha, ?_⟩
    obtain ⟨ts₁, rfl, h₃⟩ := takes_create h₂
    obtain ⟨ts₂, rfl, h₄⟩ := h₃
    obtain ⟨contractCapsule, ts₃, rfl, h₅⟩ := takes_read h₄
    cases contractCapsule with
    | none =>
      obtain rfl := h₅
      exact ⟨[putTouch (.contract address)], rfl⟩
    | some contractCapsule =>
      obtain ⟨_, rfl, rfl⟩ := h₅
      exact List.prefix_rfl
  | snapshot =>
    obtain ⟨t, _, _, rfl, rfl⟩ := h
    exact ⟨t, rfl⟩
  | processBlock change =>
    obtain ⟨t, _, _, rfl, rfl⟩ := h
    exact ⟨t, rfl⟩

/-! ### Before and after the point -/

@[simp] theorem conflict_getTouch {key : StoreKey} {t : Touch StoreKey} :
    (getTouch key).Conflict t ↔ key ∈ t.writes := by
  simp [Touch.Conflict, getTouch]

@[simp] theorem conflict_putTouch {key : StoreKey} {t : Touch StoreKey} :
    (putTouch key).Conflict t ↔ key ∈ t.reads ∪ t.writes := by
  simp [Touch.Conflict, putTouch]

theorem getElem?_of_prefix {ts full : List (Touch StoreKey)} (h : ts <+: full) {s : Nat} {t : Touch StoreKey}
    (hs : ts[s]? = some t) : s < ts.length ∧ ts.length ≤ full.length ∧ full[s]? = some t := by
  obtain ⟨rest, rfl⟩ := h
  obtain ⟨hlt, -⟩ := List.getElem?_eq_some_iff.1 hs
  exact ⟨hlt, by simp, by rwa [List.getElem?_append_left hlt]⟩

/-- Ahead of its point a cheatcode that creates the account has read it. -/
theorem first_of_create {address : Bytes} {rest ts : List (Touch StoreKey)} (h : ts <+: createSteps address ++ rest)
    {s : Nat} {t : Touch StoreKey} (hs : ts[s]? = some t) (hlt : s + 1 < min 2 ts.length) :
    s = 0 ∧ t = getTouch (.account address) := by
  obtain ⟨-, -, hs⟩ := getElem?_of_prefix h hs
  obtain rfl : s = 0 := by omega
  exact ⟨rfl, (Option.some.inj hs).symm⟩

section Windows

variable {rt : Capsules Account SmartContract} {operation operation' : StoreOperation Account SmartContract}
  {ts ts' : List (Touch StoreKey)} {s s' n : Nat} {t t' u : Touch StoreKey}

/-- Up to the point nothing conflicts with the steps taken. -/
theorem StoreOperation.taken_spared (hts : operation.Steps rt ts) (hs : ts[s]? = some t) (hsn : s < n)
    (hn : n < operation.point ts.length) (hspares : operation.Spares rt n u) : ¬ t.Conflict u := by
  cases operation with
  | setAccountBalance addressParam balanceParam =>
    rcases hts with rfl | ⟨address, present, ha, hprefix⟩
    · cases hs
    obtain ⟨haccount, hproperty⟩ := hspares address ha
    obtain ⟨-, hlength, hs⟩ := getElem?_of_prefix hprefix hs
    replace hn : n < ts.length := hn
    cases present with
    | true =>
      have hlength : ts.length ≤ 2 := hlength
      obtain rfl : s = 0 := by omega
      obtain rfl := Option.some.inj hs
      simpa using haccount
    | false =>
      have hlength : ts.length ≤ 5 := hlength
      match s, hs with
      | 0, hs =>
        obtain rfl := Option.some.inj hs
        simpa using haccount
      | 1, hs | 2, hs =>
        obtain rfl := Option.some.inj hs
        simpa using hproperty (by omega) _
      | 3, hs =>
        obtain rfl := Option.some.inj hs
        simpa [Touch.Conflict] using hproperty (by omega)
      | s + 4, _ => omega
  | setAccountStorageAt addressParam slotParam valueParam =>
    rcases hts with rfl | ⟨address, slot, version, ha, hslot, hprefix⟩
    · cases hs
    replace hn : n < min 2 ts.length := hn
    obtain ⟨rfl, rfl⟩ := first_of_create hprefix hs (by omega)
    simpa using (hspares address slot ha hslot).1 (by omega)
  | setAccountCode addressParam codeParam =>
    rcases hts with rfl | ⟨address, ha, hprefix⟩
    · cases hs
    replace hn : n < min 2 ts.length := hn
    obtain ⟨rfl, rfl⟩ := first_of_create hprefix hs (by omega)
    simpa using (hspares address ha).1 (by omega)
  | snapshot | processBlock change =>
    obtain ⟨t, rfl⟩ := hts
    replace hn : n < 1 := hn
    omega

/-- From the point on nothing conflicts with the steps still to come. -/
theorem StoreOperation.ahead_spared (hts : operation.Steps rt ts) (hs : ts[s]? = some t) (hns : n ≤ s)
    (hn : operation.point ts.length ≤ n) (hspares : operation.Spares rt n u) : ¬ u.Conflict t := by
  obtain ⟨hlt, -⟩ := List.getElem?_eq_some_iff.1 hs
  refine mt Touch.Conflict.symm ?_
  cases operation with
  | setAccountBalance addressParam balanceParam =>
    replace hn : ts.length ≤ n := hn
    omega
  | setAccountStorageAt addressParam slotParam valueParam =>
    rcases hts with rfl | ⟨address, slot, version, ha, hslot, hprefix⟩
    · cases hs
    obtain ⟨-, hlength, hs⟩ := getElem?_of_prefix hprefix hs
    replace hn : min 2 ts.length ≤ n := hn
    obtain ⟨hread, hwrite, hrow⟩ := (hspares address slot ha hslot).2 (by omega)
    match s, hs with
    | 0, _ | 1, _ => omega
    | 2, hs | 4, hs =>
      obtain rfl := Option.some.inj hs
      simpa using hwrite (by omega)
    | 3, hs =>
      obtain rfl := Option.some.inj hs
      simpa using ⟨hread (by omega), hwrite (by omega)⟩
    | 5, hs =>
      obtain rfl := Option.some.inj hs
      simpa using hrow version
    | s + 6, hs => cases hs
  | setAccountCode addressParam codeParam =>
    rcases hts with rfl | ⟨address, ha, hprefix⟩
    · cases hs
    obtain ⟨-, hlength, hs⟩ := getElem?_of_prefix hprefix hs
    replace hn : min 2 ts.length ≤ n := hn
    obtain ⟨hcontract, hcode⟩ := (hspares address ha).2 (by omega)
    match s, hs with
    | 0, _ | 1, _ => omega
    | 2, hs | 5, hs =>
      obtain rfl := Option.some.inj hs
      simpa using fun h => hcontract (.inr h)
    | 3, hs | 6, hs =>
      obtain rfl := Option.some.inj hs
      simpa using hcontract
    | 4, hs =>
      obtain rfl := Option.some.inj hs
      simpa using hcode (by omega)
    | s + 7, hs => cases hs
  | snapshot | processBlock change =>
    replace hn : ts.length ≤ n := hn
    omega

/-- An account or a property. -/
def StoreKey.isEarly : StoreKey → Prop
  | .account _ | .dynamicProperty _ => True
  | .code _ | .contract _ | .storageRow _ => False

/-- Ahead of its point an operation only reads, and only accounts and properties. -/
theorem StoreOperation.before_point (hts : operation.Steps rt ts) (hs : ts[s]? = some t)
    (hlt : s + 1 < operation.point ts.length) : t.writes = ∅ ∧ ∀ key ∈ t.reads, key.isEarly := by
  cases operation with
  | setAccountBalance addressParam balanceParam =>
    rcases hts with rfl | ⟨address, present, ha, hprefix⟩
    · cases hs
    obtain ⟨-, hlength, hs⟩ := getElem?_of_prefix hprefix hs
    replace hlt : s + 1 < ts.length := hlt
    cases present with
    | true =>
      have hlength : ts.length ≤ 2 := hlength
      obtain rfl : s = 0 := by omega
      obtain rfl := Option.some.inj hs
      simp [getTouch, StoreKey.isEarly]
    | false =>
      have hlength : ts.length ≤ 5 := hlength
      match s, hs with
      | 0, hs | 1, hs | 2, hs | 3, hs =>
        obtain rfl := Option.some.inj hs
        simp [getTouch, StoreKey.isEarly]
      | s + 4, _ => omega
  | setAccountStorageAt addressParam slotParam valueParam =>
    rcases hts with rfl | ⟨address, slot, version, ha, hslot, hprefix⟩
    · cases hs
    obtain ⟨rfl, rfl⟩ := first_of_create hprefix hs hlt
    simp [getTouch, StoreKey.isEarly]
  | setAccountCode addressParam codeParam =>
    rcases hts with rfl | ⟨address, ha, hprefix⟩
    · cases hs
    obtain ⟨rfl, rfl⟩ := first_of_create hprefix hs hlt
    simp [getTouch, StoreKey.isEarly]
  | snapshot | processBlock change =>
    obtain ⟨t, rfl⟩ := hts
    replace hlt : s + 1 < 1 := hlt
    omega

/-- Behind its point an operation writes no account and no property. -/
theorem StoreOperation.after_point (hts : operation.Steps rt ts) (hs : ts[s]? = some t)
    (hle : operation.point ts.length ≤ s) : ∀ key ∈ t.writes, ¬ key.isEarly := by
  obtain ⟨hlt, -⟩ := List.getElem?_eq_some_iff.1 hs
  cases operation with
  | setAccountBalance addressParam balanceParam =>
    replace hle : ts.length ≤ s := hle
    omega
  | setAccountStorageAt addressParam slotParam valueParam =>
    rcases hts with rfl | ⟨address, slot, version, ha, hslot, hprefix⟩
    · cases hs
    obtain ⟨-, -, hs⟩ := getElem?_of_prefix hprefix hs
    replace hle : min 2 ts.length ≤ s := hle
    match s, hs with
    | 0, _ | 1, _ => omega
    | 2, hs | 3, hs | 4, hs | 5, hs =>
      obtain rfl := Option.some.inj hs
      simp [getTouch, putTouch, StoreKey.isEarly]
    | s + 6, hs => cases hs
  | setAccountCode addressParam codeParam =>
    rcases hts with rfl | ⟨address, ha, hprefix⟩
    · cases hs
    obtain ⟨-, -, hs⟩ := getElem?_of_prefix hprefix hs
    replace hle : min 2 ts.length ≤ s := hle
    match s, hs with
    | 0, _ | 1, _ => omega
    | 2, hs | 3, hs | 4, hs | 5, hs | 6, hs =>
      obtain rfl := Option.some.inj hs
      simp [getTouch, putTouch, StoreKey.isEarly]
    | s + 7, hs => cases hs
  | snapshot | processBlock change =>
    replace hle : ts.length ≤ s := hle
    omega

theorem StoreOperation.apart_of_point (hts : operation.Steps rt ts) (hs : ts[s]? = some t)
    (hlt : s + 1 < operation.point ts.length) (hts' : operation'.Steps rt ts') (hs' : ts'[s']? = some t')
    (hle : operation'.point ts'.length ≤ s') : ¬ t.Conflict t' := by
  obtain ⟨hwrites, hreads⟩ := before_point hts hs hlt
  have hlate := after_point hts' hs' hle
  rintro (⟨key, hkey, -⟩ | ⟨key, hkey, hkey'⟩)
  · rw [hwrites] at hkey
    exact hkey
  · exact hlate key hkey' (hreads key hkey)

end Windows

theorem StoreOperation.point_pos (operation : StoreOperation Account SmartContract) {n : Nat} (hn : 0 < n) :
    0 < operation.point n ∧ operation.point n ≤ n := by
  cases operation <;> simp only [point] <;> omega

/-! ## Which runs are serial -/

section Runs

variable {ι : Type} [DecidableEq ι]

/-- Every operation is called, none has taken a step. -/
def calledOn (rt : Capsules Account SmartContract) (operations : ι → StoreOperation Account SmartContract)
    (stores : ChainState Account SmartContract) :
    Config (Capsule Account SmartContract) (CheatcodeOutcome Account SmartContract) ι :=
  ⟨stores, fun i => (operations i).program rt⟩

/-- The operations that took a step have ended. -/
def AllEnded (d : Config (Capsule Account SmartContract) (CheatcodeOutcome Account SmartContract) ι)
    (h : List (Event StoreKey ι)) : Prop :=
  ∀ a ∈ h, ∃ r, d.programs a.op = .ret r

/-- The four stores and the snapshots are those the operations leave when they
run one after the other, in some order. -/
def SerialOutcome (c d : Config (Capsule Account SmartContract) (CheatcodeOutcome Account SmartContract) ι)
    (h : List (Event StoreKey ι)) : Prop :=
  ∃ order : List ι, order.Nodup ∧ (∀ i, i ∈ order ↔ ∃ a ∈ h, a.op = i) ∧
    dumpOf d.store = dumpOf (c.finishAll order).store ∧
    ∀ i entry, d.programs i = .ret (.dumped entry) ↔ (c.finishAll order).programs i = .ret (.dumped entry)

/-- In a run, no step falls into the window of another operation that does not spare it. -/
def WindowsSpared (rt : Capsules Account SmartContract) (operations : ι → StoreOperation Account SmartContract)
    (h : List (Event StoreKey ι)) : Prop :=
  ∀ h₁ b h₂, h = h₁ ++ b :: h₂ → ∀ i, b.op ≠ i → 0 < stepsOf h₁ i → 0 < stepsOf h₂ i →
    (operations i).Spares rt (stepsOf h₁ i) b.touch

/-- Once ended, an operation has taken the steps of one whole run of it. -/
theorem takes_of_ended {rt : Capsules Account SmartContract} {operations : ι → StoreOperation Account SmartContract}
    {stores : ChainState Account SmartContract} {h : List (Event StoreKey ι)}
    {d : Config (Capsule Account SmartContract) (CheatcodeOutcome Account SmartContract) ι}
    (ht : Trace (calledOn rt operations stores) h d) (hended : AllEnded d h) {a : Event StoreKey ι} (ha : a ∈ h) :
    (operations a.op).Steps rt (touchesOf h a.op) := by
  obtain ⟨r, hr⟩ := hended a ha
  have hdone : (d.programs a.op).Takes [] := by
    rw [hr]
    rfl
  have htakes := ht.takes hdone
  rw [List.append_nil] at htakes
  exact StoreOperation.steps_of_takes rt htakes

theorem touchesOf_split {h h₁ h₂ : List (Event StoreKey ι)} {a : Event StoreKey ι} (hh : h = h₁ ++ a :: h₂) :
    (touchesOf h a.op)[stepsOf h₁ a.op]? = some a.touch := by
  rw [hh, touchesOf_append, touchesOf_cons_self]
  simp [stepsOf]

/-- In a run whose windows are spared, two conflicting steps lie on their sides of the points of their operations. -/
theorem apart_of_spared {rt : Capsules Account SmartContract} {operations : ι → StoreOperation Account SmartContract}
    {h h₁ h₂ h₃ : List (Event StoreKey ι)} {a b : Event StoreKey ι}
    (hsteps : ∀ a ∈ h, (operations a.op).Steps rt (touchesOf h a.op))
    (hpoint : ∀ a ∈ h, 0 < (operations a.op).point (stepsOf h a.op) ∧
      (operations a.op).point (stepsOf h a.op) ≤ stepsOf h a.op)
    (hs : WindowsSpared rt operations h) (hh : h = h₁ ++ a :: (h₂ ++ b :: h₃)) (hop : a.op ≠ b.op)
    (hc : a.touch.Conflict b.touch) : PointsApart (fun i => (operations i).point (stepsOf h i)) h₁ a h₂ b := by
  have hh' : h = (h₁ ++ a :: h₂) ++ b :: h₃ := by simp [hh]
  have ha : a ∈ h := by simp [hh]
  have hb : b ∈ h := by simp [hh]
  have hga := touchesOf_split hh
  have hgb := touchesOf_split hh'
  -- how far either operation is at `b`, and how far it comes
  have hna : stepsOf (h₁ ++ a :: h₂) a.op = stepsOf h₁ a.op + 1 + stepsOf h₂ a.op := by
    rw [stepsOf_append, stepsOf_cons_self]
    omega
  have hnb : stepsOf (h₁ ++ a :: h₂) b.op = stepsOf h₁ b.op + stepsOf h₂ b.op := by
    rw [stepsOf_append, stepsOf_cons_ne hop]
  have hta : stepsOf h a.op = stepsOf (h₁ ++ a :: h₂) a.op + stepsOf h₃ a.op := by
    rw [hh', stepsOf_append, stepsOf_cons_ne (Ne.symm hop)]
  refine ⟨?_, ?_, ?_⟩
  · -- `b` would fall between `a` and the point of its operation.
    by_contra hlt
    have hlt := not_le.1 hlt
    have hrest : 0 < stepsOf h₃ a.op := by
      have := (hpoint a ha).2
      omega
    have hspares := hs (h₁ ++ a :: h₂) b h₃ hh' a.op (Ne.symm hop) (by omega) hrest
    exact StoreOperation.taken_spared (hsteps a ha) hga (by omega) hlt hspares hc
  · -- `a` would fall between the point of `b`'s operation and `b`.
    by_contra hle
    have hle := not_lt.1 hle
    have hrest : 0 < stepsOf (h₂ ++ b :: h₃) b.op := by
      rw [stepsOf_append, stepsOf_cons_self]
      omega
    have hspares := hs h₁ a (h₂ ++ b :: h₃) hh b.op hop ((hpoint b hb).1.trans_le hle) hrest
    exact StoreOperation.ahead_spared (hsteps b hb) hgb (by omega) hle hspares hc
  · -- Before its point an operation writes nothing that another reads after its own.
    by_contra hboth
    obtain ⟨hlt, hle⟩ := not_or.1 hboth
    rw [stepsOf_append, stepsOf_cons_self] at hlt
    exact StoreOperation.apart_of_point (hsteps a ha) hga (by simpa [stepsOf, touchesOf] using hlt) (hsteps b hb) hgb
      (not_lt.1 hle) hc

/-- **Cheatcodes, blocks and snapshots amount to a serial order** when no step falls
into an open window that it does not spare. An operation counts as done with its
first write, `setAccountBalance` with its last step. -/
theorem spared_windows_serializable (rt : Capsules Account SmartContract)
    (operations : ι → StoreOperation Account SmartContract) (stores : ChainState Account SmartContract)
    {h : List (Event StoreKey ι)}
    {d : Config (Capsule Account SmartContract) (CheatcodeOutcome Account SmartContract) ι}
    (ht : Trace (calledOn rt operations stores) h d) (hended : AllEnded d h) (hs : WindowsSpared rt operations h) :
    SerialOutcome (calledOn rt operations stores) d h := by
  have hsteps : ∀ a ∈ h, (operations a.op).Steps rt (touchesOf h a.op) := fun a ha => takes_of_ended ht hended ha
  have hpoint : ∀ a ∈ h, 0 < (operations a.op).point (stepsOf h a.op) ∧
      (operations a.op).point (stepsOf h a.op) ≤ stepsOf h a.op := by
    intro a ha
    obtain ⟨h₁, h₂, hh⟩ := List.append_of_mem ha
    apply StoreOperation.point_pos
    rw [hh, stepsOf_append, stepsOf_cons_self]
    omega
  have hordered : ConflictsOrdered (fun i => stepPosition h i ((operations i).point (stepsOf h i))) h := by
    apply conflictsOrdered_of_points hpoint
    intro h₁ a h₂ b h₃ hh hop hc
    exact apart_of_spared hsteps hpoint hs hh hop hc
  have hinj : ∀ a ∈ h, ∀ b ∈ h, stepPosition h a.op ((operations a.op).point (stepsOf h a.op)) =
      stepPosition h b.op ((operations b.op).point (stepsOf h b.op)) → a.op = b.op :=
    fun a ha b hb => stepPosition_inj (hpoint a ha).1 (hpoint a ha).2 (hpoint b hb).2
  obtain ⟨order, hnodup, hmem, rfl⟩ := ht.serial hordered hinj hended
  exact ⟨order, hnodup, hmem, rfl, fun _ _ => Iff.rfl⟩

end Runs

/-! ## A block between the read and the write -/

/-- A balance is being set while a block is processed. -/
def balanceAndBlock (addressParam balanceParam : Option String)
    (change : ChainState Account SmartContract → ChainState Account SmartContract) :
    Bool → StoreOperation Account SmartContract
  | false => .setAccountBalance addressParam balanceParam
  | true => .processBlock change

/-- The block runs after `setAccountBalance` has read the account. -/
def balanceAroundBlock (address : Bytes) (block : Touch StoreKey) : List (Event StoreKey Bool) :=
  [⟨false, ⟨{.account address}, ∅⟩⟩, ⟨true, block⟩, ⟨false, ⟨∅, {.account address}⟩⟩]

/-- Whatever the block does to the account, what is written is the account read
before it. -/
theorem write_after_block (rt : Capsules Account SmartContract) {a : String} {b : Option String} {address : Bytes}
    {balance : Int} {stores : ChainState Account SmartContract} {account : Account}
    (ha : rt.decodeAddress (some a) = .ok address) (hb : rt.decodeLong b = .ok balance) (h0 : 0 ≤ balance)
    (hstored : stores (.account address) = some account)
    (change : ChainState Account SmartContract → ChainState Account SmartContract) {block : Touch StoreKey}
    (hblock : Touches stores block change
      fun _ => (.ret .processed : StoreProgram Account SmartContract)) :
    ∃ d, Trace (calledOn rt (balanceAndBlock (some a) b change) stores) (balanceAroundBlock address block) d ∧
      AllEnded d (balanceAroundBlock address block) ∧
      d.store = Function.update (change stores) (.account address) (some (rt.setBalance account balance)) := by
  have hcalled : (calledOn rt (balanceAndBlock (some a) b change) stores).programs false =
      .read (.account address) (putBalance rt address balance) := by
    simp [calledOn, balanceAndBlock, StoreOperation.program, setAccountBalance, ha, hb, orThrow, Int.not_lt.2 h0]
  have hread := Trace.nil.read hcalled
  rw [show (calledOn rt (balanceAndBlock (some a) b change) stores).store (.account address) = some account
    from hstored] at hread
  have hchanged := hread.act (i := true) rfl hblock
  have hwritten := hchanged.write (i := false) (e := .account address) rfl
  refine ⟨_, hwritten, ?_, rfl⟩
  intro x hx
  simp only [balanceAroundBlock, List.mem_cons, List.not_mem_nil, or_false] at hx
  rcases hx with rfl | rfl | rfl
  · exact ⟨_, rfl⟩
  · exact ⟨_, rfl⟩
  · exact ⟨_, rfl⟩

/-! ### Named accounts -/

/-- An account of which only these fields are set. -/
structure NamedAccount where
  accountName : String
  balance : Int
  type : AccountType
  deriving DecidableEq

/-- Capsules of such accounts; a contract is its code hash. -/
def namedCapsules : Capsules NamedAccount Bytes where
  decodeAddress p := if p = some "0x01" then .ok [1] else .error (.rpc (.invalidParams "invalid address"))
  decodeLong p := if p = some "0xa" then .ok 10 else .error (.rpc (.invalidParams "invalid number"))
  decodeDataWord _ := .ok []
  decodeHex _ := .ok []
  compose slot address _ := slot ++ address
  sha3 := id
  getAllowMultiSign _ := .ok 0
  getLatestBlockHeaderTimestamp _ := .ok 0
  newAccount _ type _ _ _ := .ok ⟨"", 0, type⟩
  newNamedAccount _ name type := ⟨name, 0, type⟩
  setBalance account balance := { account with balance := balance }
  getType := NamedAccount.type
  updateAccountType account type := { account with type := type }
  clearOwnerPermission := id
  clearWitnessPermission := id
  clearActivePermission := id
  newContract _ _ := []
  getContractVersion _ := 0
  setCodeHash _ codeHash := codeHash

/-- Stores with one account under each of `[1]` and `[2]`. -/
def twoAccounts : ChainState NamedAccount Bytes
  | .account address => if address = [1] ∨ address = [2] then some ⟨"old", 5, .Normal⟩ else none
  | .code _ => none
  | .contract _ => none
  | .storageRow _ => none
  | .dynamicProperty _ => none

/-- A block whose one transaction names the account under `address`. -/
def renameAccount (address : Bytes) (stores : ChainState NamedAccount Bytes) : ChainState NamedAccount Bytes :=
  Function.update stores (.account address)
    ((stores (.account address) : Option NamedAccount).map fun account => { account with accountName := "new" })

/-- A block in the window that names another account is harmless. -/
theorem spared_windows_serializable_other :
    ∃ d, Trace (calledOn namedCapsules (balanceAndBlock (some "0x01") (some "0xa") (renameAccount [2])) twoAccounts)
        (balanceAroundBlock [1] ⟨{.account [2]}, {.account [2]}⟩) d ∧
      SerialOutcome (calledOn namedCapsules (balanceAndBlock (some "0x01") (some "0xa") (renameAccount [2])) twoAccounts)
        d (balanceAroundBlock [1] ⟨{.account [2]}, {.account [2]}⟩) := by
  obtain ⟨d, ht, hended, -⟩ := write_after_block namedCapsules (a := "0x01") (b := some "0xa") rfl rfl (by decide)
    (show twoAccounts (.account [1]) = some ⟨"old", 5, .Normal⟩ from rfl) (renameAccount [2])
    (touches_modify twoAccounts (.account [2]) _ _)
  refine ⟨d, ht, spared_windows_serializable _ _ _ ht hended ?_⟩
  intro h₁ b h₂ hh i hi hopen hrest
  match h₁, hh with
  | [], _ => cases hopen
  | [_], hh =>
    -- The block, after the balance's read.
    obtain ⟨rfl, htail⟩ := List.cons.inj hh.symm
    obtain ⟨rfl, rfl⟩ := List.cons.inj htail
    cases i with
    | true => exact (hi rfl).elim
    | false =>
      rintro address haddress
      obtain rfl : [1] = address := by simpa [namedCapsules] using haddress
      exact ⟨by simp, fun hn => absurd hn (by decide)⟩
  | [_, _], hh =>
    obtain ⟨-, htail⟩ := List.cons.inj (List.cons.inj hh).2
    obtain ⟨rfl, rfl⟩ := List.cons.inj htail
    cases hrest
  | _ :: _ :: _ :: h₁, hh => simp [balanceAroundBlock] at hh

/-- Two operations run one after the other in one of two orders. -/
theorem order_of_two {order : List Bool} (hnodup : order.Nodup) (hmem : ∀ i, i ∈ order) :
    order = [false, true] ∨ order = [true, false] := by
  have hperm : order.Perm [false, true] := by
    apply (List.perm_ext_iff_of_nodup hnodup (by decide)).2
    intro i
    cases i <;> simp [hmem]
  match order, hperm.length_eq with
  | [a, b], _ =>
    revert hnodup
    cases a <;> cases b <;> decide

/-- The block names the account between the read and the write of
`setAccountBalance`, and the name is lost. -/
theorem block_update_lost :
    ∃ h d, Trace (calledOn namedCapsules (balanceAndBlock (some "0x01") (some "0xa") (renameAccount [1])) twoAccounts)
        h d ∧ AllEnded d h ∧
      ¬ SerialOutcome
        (calledOn namedCapsules (balanceAndBlock (some "0x01") (some "0xa") (renameAccount [1])) twoAccounts) d h := by
  obtain ⟨d, ht, hended, hd⟩ := write_after_block namedCapsules (a := "0x01") (b := some "0xa") rfl rfl (by decide)
    (show twoAccounts (.account [1]) = some ⟨"old", 5, .Normal⟩ from rfl) (renameAccount [1])
    (touches_univ twoAccounts (renameAccount [1]) _)
  refine ⟨_, d, ht, hended, ?_⟩
  rintro ⟨order, hnodup, hmem, hdump, -⟩
  have hlost : (dumpOf d.store).accounts [1] = some ⟨"old", 10, .Normal⟩ := by
    rw [hd]
    rfl
  have hall : ∀ i, i ∈ order := by
    intro i
    rw [hmem]
    cases i <;> simp [balanceAroundBlock]
  rw [hdump] at hlost
  -- In both orders the account ends with the new name.
  rcases order_of_two hnodup hall with rfl | rfl
  · exact absurd hlost (by decide)
  · exact absurd hlost (by decide)

end HardhatTron

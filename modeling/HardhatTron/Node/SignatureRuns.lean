import HardhatTron.Node.TransactionCapsule
/-!
# Which transactions a running node takes

The registry of impersonated accounts, the unlocked accounts, the account store
and the transactions themselves change between one validation and the next.
`validates_iff` says what a validation accepts at any point of any run, and
`verified_admitted` that a verdict that was kept goes back to a validation that
accepted the same contract.
-/
namespace HardhatTron

open Lib

namespace Signatures

open Impersonation (Helper)

/-! ## The node -/

/-- `unlockedAccounts` -/
def unlockAccounts (env : CapsuleEnv) : List JsString → List JsString → Except String Bool × List JsString
  | [], unlocked => (.ok true, unlocked)
  | accountStr :: accounts, unlocked =>
    match env.decodeAddress accountStr with
    | .error e => (.error e, unlocked)
    | .ok address =>
      let account := env.encodeAddress address
      unlockAccounts env accounts (if unlocked.contains account then unlocked else unlocked ++ [account])

/-- The two methods that decide. -/
inductive Validator where
  | validateSignature
  | validatePubSignature

def Validator.run (env : CapsuleEnv) (v : Validation) (c : TransactionCapsule) :
    Validator → Except CapsuleError Bool × TransactionCapsule
  | .validateSignature => c.validateSignature env v
  | .validatePubSignature => c.validatePubSignature env v

inductive CapsuleOp where
  | validate (validator : Validator)
  | setVerified (isVerified : Bool)
  | setRawData (update : TransactionCapsule.RawUpdate)
  | sign (privateKey : Bytes)
  | addSign (privateKey : Bytes)
  | getOwnerAddress
  | getTransactionId

inductive CapsuleReply where
  | done
  | validated (verdict : Except CapsuleError Bool)
  | signed (outcome : Except CapsuleError Unit)
  | bytes (bytes : Except CapsuleError Bytes)

def CapsuleOp.run (env : CapsuleEnv) (v : Validation) (c : TransactionCapsule) : CapsuleOp → CapsuleReply × TransactionCapsule
  | .validate validator => Prod.map .validated id (validator.run env v c)
  | .setVerified isVerified => (.done, { c with isVerified })
  | .setRawData update => (.done, c.setRawData (update.apply c.transaction.rawData))
  | .sign privateKey => (.done, c.sign env privateKey)
  | .addSign privateKey => Prod.map .signed id (c.addSign env v privateKey)
  | .getOwnerAddress => Prod.map .bytes id c.getOwnerAddress
  | .getTransactionId => Prod.map (fun id => .bytes (.ok id)) id (c.getTransactionId env)

/-- The node with the transactions it knows. -/
structure Pool where
  validation : Validation
  capsules : Nat → Option TransactionCapsule

inductive PoolCall where
  | impersonation (helper : Helper) (addressParam : Option JsString)
  | unlockedAccounts (accountsParam : List JsString)
  /-- A block rewrites the account store and the properties. -/
  | block (accountStore : Bytes → Option PermissionsOf) (dynamicProperties : DynamicPropertiesStore)
  | received (id : Nat) (transaction : Transaction)
  | capsule (id : Nat) (op : CapsuleOp)

inductive PoolReply where
  | done
  | answered (reply : Except String Bool)
  | replied (reply : CapsuleReply)

def Pool.step (env : CapsuleEnv) (p : Pool) : PoolCall → Option (PoolReply × Pool)
  | .impersonation helper addressParam =>
    let (reply, registry) := Impersonation.answer env.toEnv helper addressParam p.validation.registry
    some (.answered reply, { p with validation := { p.validation with registry } })
  | .unlockedAccounts accountsParam =>
    let (reply, unlockedAccounts) := unlockAccounts env accountsParam p.validation.unlockedAccounts
    some (.answered reply, { p with validation := { p.validation with unlockedAccounts } })
  | .block accountStore dynamicProperties =>
    some (.done, { p with validation := { p.validation with accountStore, dynamicProperties } })
  | .received id transaction =>
    match p.capsules id with
    | some _ => none
    | none => some (.done, { p with capsules := Function.update p.capsules id (some ⟨transaction, false, none, none⟩) })
  | .capsule id op =>
    match p.capsules id with
    | none => none
    | some c =>
      let (reply, c') := op.run env p.validation c
      some (.replied reply, { p with capsules := Function.update p.capsules id (some c') })

/-! ## What a validation accepts -/

/-- A permission of the owner, and signatures of the transaction's own id that reach its threshold. -/
def SignedFor (env : CapsuleEnv) (v : Validation) (t : Transaction) (contract : Contract) : Prop :=
  ∃ permission a, permissionOf env v (getOwner contract) contract.permissionId = some permission ∧
    checkPermission env contract.permissionId permission contract = .ok () ∧
    checkWeight env v.unlockedAccounts permission t.signature (env.rawHash t.rawData) = .ok a ∧
    permission.threshold ≤ a.currentWeight

/-- An impersonated owner needs a signature too, of whatever key. -/
def PubAdmits (env : CapsuleEnv) (v : Validation) (t : Transaction) (contract : Contract) : Prop :=
  t.signature ≠ [] ∧ (t.signature.length : Int) ≤ v.dynamicProperties.totalSignNum ∧
    (v.registry.isImpersonated (getOwner contract) = true ∨ SignedFor env v t contract)

def Validator.Admits (env : CapsuleEnv) (v : Validation) (t : Transaction) (contract : Contract) : Validator → Prop
  | .validatePubSignature => PubAdmits env v t contract
  | .validateSignature =>
    env.encodeAddress (getOwner contract) ∈ v.unlockedAccounts ∨
      if contract.type = .ShieldedTransferContract ∧ getOwner contract = [] then t.signature = []
      else PubAdmits env v t contract

/-- What a capsule has cached is what it would compute. -/
def TransactionCapsule.WellCached (env : CapsuleEnv) (c : TransactionCapsule) : Prop :=
  (∀ id, c.id = some id → id = env.rawHash c.transaction.rawData) ∧
    ∀ owner, c.ownerAddress = some owner →
      ∃ contract rest, c.transaction.rawData.contract = contract :: rest ∧ owner = getOwner contract

variable {env : CapsuleEnv} {v : Validation} {c : TransactionCapsule}

theorem validateSignature_true_iff {t : Transaction} {contract : Contract} {rest : List Contract} {hash : Bytes}
    (hcontract : t.rawData.contract = contract :: rest) (hhash : hash = env.rawHash t.rawData) :
    validateSignature env v t hash = .ok true ↔
      v.registry.isImpersonated (getOwner contract) = true ∨ SignedFor env v t contract := by
  subst hhash
  by_cases himp : v.registry.isImpersonated (getOwner contract) = true
  · simp [validateSignature, hcontract, himp]
  · cases hperm : permissionOf env v (getOwner contract) contract.permissionId with
    | none => simp [validateSignature, hcontract, himp, hperm, SignedFor]
    | some permission =>
      cases hcheck : checkPermission env contract.permissionId permission contract with
      | error e => simp [validateSignature, hcontract, himp, hperm, hcheck, SignedFor]
      | ok u =>
        cases hweight : checkWeight env v.unlockedAccounts permission t.signature (env.rawHash t.rawData) with
        | error e => simp [validateSignature, hcontract, himp, hperm, hcheck, hweight, SignedFor]
        | ok a => simp [validateSignature, hcontract, himp, hperm, hcheck, hweight, SignedFor]

theorem getTransactionId_spec (hc : c.WellCached env) :
    ∃ c', c.getTransactionId env = (env.rawHash c.transaction.rawData, c') ∧ c'.WellCached env ∧
      c'.transaction = c.transaction ∧ c'.isVerified = c.isVerified := by
  cases hid : c.id with
  | some id => exact ⟨c, by simp [TransactionCapsule.getTransactionId, hid, hc.1 id hid], hc, rfl, rfl⟩
  | none =>
    refine ⟨{ c with id := some (env.rawHash c.transaction.rawData) },
      by simp only [TransactionCapsule.getTransactionId, hid], ⟨?_, hc.2⟩, rfl, rfl⟩
    rintro id ⟨⟩
    rfl

theorem getOwnerAddress_spec (hc : c.WellCached env) {contract : Contract} {rest : List Contract}
    (hcontract : c.transaction.rawData.contract = contract :: rest) :
    ∃ c', c.getOwnerAddress = (.ok (getOwner contract), c') ∧ c'.WellCached env ∧
      c'.transaction = c.transaction ∧ c'.isVerified = c.isVerified := by
  cases howner : c.ownerAddress with
  | some owner =>
    obtain ⟨contract', rest', hcontract', rfl⟩ := hc.2 owner howner
    obtain ⟨rfl, rfl⟩ := List.cons.inj (hcontract.symm.trans hcontract')
    exact ⟨c, by simp [TransactionCapsule.getOwnerAddress, howner], hc, rfl, rfl⟩
  | none =>
    refine ⟨{ c with ownerAddress := some (getOwner contract) },
      by simp only [TransactionCapsule.getOwnerAddress, howner, hcontract], ⟨hc.1, ?_⟩, rfl, rfl⟩
    rintro owner ⟨⟩
    exact ⟨contract, rest, hcontract, rfl⟩

/-- What a call leaves of a capsule: its caches right, the contract it had, and the verdict it had unless the call
is one of `allowed`. -/
structure Leaves (env : CapsuleEnv) (allowed : Prop) (c c' : TransactionCapsule) : Prop where
  cached : c'.WellCached env
  contract : c'.transaction.rawData.contract = c.transaction.rawData.contract
  verified : c'.isVerified = true → c.isVerified = true ∨ allowed

/-- What a validation answers and leaves. -/
structure Validates (env : CapsuleEnv) (admits : Prop) (c : TransactionCapsule)
    (out : Except CapsuleError Bool × TransactionCapsule) : Prop where
  accepts : out.1 = .ok true ↔ c.isVerified = true ∨ admits
  never_false : out.1 ≠ .ok false
  leaves : Leaves env admits c out.2

theorem validatePubSignature_spec (hc : c.WellCached env) {contract : Contract} {rest : List Contract}
    (hcontract : c.transaction.rawData.contract = contract :: rest) :
    Validates env (PubAdmits env v c.transaction contract) c (c.validatePubSignature env v) := by
  by_cases hver : c.isVerified = true
  · simp only [TransactionCapsule.validatePubSignature, hver, if_true]
    exact ⟨by simp [hver], by simp, hc, rfl, .inl⟩
  · by_cases hsig : c.transaction.signature = []
    · simp only [TransactionCapsule.validatePubSignature, hver, hsig, true_or, if_true]
      exact ⟨by simp [hver, PubAdmits, hsig], by simp, hc, rfl, .inl⟩
    · by_cases hmany : (c.transaction.signature.length : Int) > v.dynamicProperties.totalSignNum
      · simp only [TransactionCapsule.validatePubSignature, hver, hsig, hcontract, hmany, or_self, reduceCtorEq,
          if_true, if_false]
        exact ⟨by simp [hver, PubAdmits, not_le.2 hmany], by simp, hc, rfl, .inl⟩
      · obtain ⟨c', hid, hc', htrans, hver'⟩ := getTransactionId_spec hc
        have hadmits : PubAdmits env v c.transaction contract ↔
            validateSignature env v c'.transaction (env.rawHash c.transaction.rawData) = .ok true := by
          rw [htrans, validateSignature_true_iff hcontract rfl]
          simp [PubAdmits, hsig, not_lt.1 hmany]
        have hwell : ∀ b, TransactionCapsule.WellCached env { c' with isVerified := b } := fun _ => hc'
        simp only [TransactionCapsule.validatePubSignature, hver, hsig, hcontract, hmany, or_self, reduceCtorEq,
          if_false, hid, hadmits]
        cases hval : validateSignature env v c'.transaction (env.rawHash c.transaction.rawData) with
        | ok b =>
          cases b with
          | true => exact ⟨by simp, by simp, hwell true, by simp [htrans], fun _ => .inr rfl⟩
          | false => exact ⟨by simp [hver], by simp, hwell false, by simp [htrans], nofun⟩
        | error e =>
          cases e with
          | signature message => exact ⟨by simp [hver], by simp, hwell false, by simp [htrans], nofun⟩
          | validateSignature message => exact ⟨by simp [hver], by simp, hc', by simp [htrans], by simp [hver', hver]⟩
          | indexOutOfBounds => exact ⟨by simp [hver], by simp, hc', by simp [htrans], by simp [hver', hver]⟩

theorem verified_spec {admits : Prop} {out : Except CapsuleError Bool × TransactionCapsule}
    (h : Validates env admits c out) : Validates env admits c (TransactionCapsule.verified out) := by
  obtain ⟨verdict, c'⟩ := out
  cases verdict with
  | error e => exact h
  | ok b =>
    obtain rfl : b = true := by
      cases b with
      | true => rfl
      | false => exact absurd rfl h.never_false
    exact ⟨h.accepts, nofun, h.leaves.cached, h.leaves.contract, fun _ => h.accepts.1 rfl⟩

theorem validateSignature_spec (hc : c.WellCached env) {contract : Contract} {rest : List Contract}
    (hcontract : c.transaction.rawData.contract = contract :: rest) :
    Validates env (Validator.Admits env v c.transaction contract .validateSignature) c (c.validateSignature env v) := by
  by_cases hver : c.isVerified = true
  · simp only [TransactionCapsule.validateSignature, hver, if_true]
    exact verified_spec ⟨by simp [hver], by simp, hc, rfl, .inl⟩
  · by_cases hunlocked : env.encodeAddress (getOwner contract) ∈ v.unlockedAccounts
    · have hskip : c.shouldDoSigVerify env v = .ok false := by
        simp [TransactionCapsule.shouldDoSigVerify, hcontract, hunlocked]
      simp only [TransactionCapsule.validateSignature, hver, hskip, hcontract, Validator.Admits, hunlocked, true_or,
        Bool.false_eq_true, if_false]
      exact verified_spec ⟨by simp, by simp, hc, rfl, .inl⟩
    · have hverify : c.shouldDoSigVerify env v = .ok true := by
        simp [TransactionCapsule.shouldDoSigVerify, hcontract, hunlocked]
      have hpub := validatePubSignature_spec (v := v) hc hcontract
      simp only [TransactionCapsule.validateSignature, hver, hverify, hcontract, Validator.Admits, hunlocked, false_or,
        Bool.false_eq_true, if_false]
      by_cases hshielded : contract.type = .ShieldedTransferContract
      · obtain ⟨c', howner, hc', htrans, hver'⟩ := getOwnerAddress_spec hc hcontract
        by_cases hempty : getOwner contract = []
        · by_cases hsig : c.transaction.signature = []
          · simp only [hshielded, howner, hempty, htrans, hsig, ne_eq, not_true, if_false, and_self, if_true]
            exact verified_spec ⟨by simp, by simp, hc', by simp [htrans], by simp⟩
          · simp only [hshielded, howner, hempty, htrans, hsig, ne_eq, not_true, not_false_eq_true, if_false, and_self,
              if_true]
            exact ⟨by simp [hver], by simp, hc', by simp [htrans], by simp [hver', hver]⟩
        · have hpub' := validatePubSignature_spec (v := v) hc' (by rw [htrans]; exact hcontract)
          simp only [hshielded, howner, hempty, ne_eq, not_true, not_false_eq_true, if_false, and_false, if_true]
          refine verified_spec ?_
          rw [htrans] at hpub'
          refine ⟨by rw [← hver']; exact hpub'.accepts, hpub'.never_false, hpub'.leaves.cached, ?_, ?_⟩
          · rw [hpub'.leaves.contract, htrans]
          · rw [← hver']
            exact hpub'.leaves.verified
      · simp only [hshielded, ne_eq, not_false_eq_true, if_true, false_and, if_false]
        exact verified_spec hpub

/-- Without a contract there is nothing to verify. -/
theorem Validator.run_of_nil (hc : c.WellCached env) (hnil : c.transaction.rawData.contract = []) (w : Validator) :
    Validates env False c (w.run env v c) := by
  by_cases hver : c.isVerified = true
  · cases w with
    | validateSignature =>
      simp only [Validator.run, TransactionCapsule.validateSignature, hver, if_true]
      exact verified_spec ⟨by simp [hver], by simp, hc, rfl, .inl⟩
    | validatePubSignature =>
      simp only [Validator.run, TransactionCapsule.validatePubSignature, hver, if_true]
      exact ⟨by simp [hver], by simp, hc, rfl, .inl⟩
  · cases w with
    | validateSignature =>
      simp only [Validator.run, TransactionCapsule.validateSignature, TransactionCapsule.shouldDoSigVerify, hver, hnil]
      exact ⟨by simp [hver], by simp, hc, rfl, .inl⟩
    | validatePubSignature =>
      simp only [Validator.run, TransactionCapsule.validatePubSignature, hver, hnil, or_true, if_true]
      exact ⟨by simp [hver], by simp, hc, rfl, .inl⟩

theorem Validator.run_spec (hc : c.WellCached env) (w : Validator) :
    Validates env (∃ contract, c.transaction.rawData.contract.head? = some contract ∧
      w.Admits env v c.transaction contract) c (w.run env v c) := by
  cases hcontract : c.transaction.rawData.contract with
  | nil => simpa using w.run_of_nil hc hcontract
  | cons contract rest =>
    cases w with
    | validateSignature => simpa [Validator.run] using validateSignature_spec hc hcontract
    | validatePubSignature => simpa [Validator.run, Validator.Admits] using validatePubSignature_spec hc hcontract

/-! ## What the other calls leave -/

/-- The call may add signatures, and caches what is right. -/
structure Keeps (env : CapsuleEnv) (c c' : TransactionCapsule) : Prop where
  cached : c'.WellCached env
  rawData : c'.transaction.rawData = c.transaction.rawData
  verified : c'.isVerified = c.isVerified

theorem Keeps.refl (hc : c.WellCached env) : Keeps env c c := ⟨hc, rfl, rfl⟩

theorem Keeps.trans {c' c'' : TransactionCapsule} (h : Keeps env c c') (h' : Keeps env c' c'') : Keeps env c c'' :=
  ⟨h'.cached, h'.rawData.trans h.rawData, h'.verified.trans h.verified⟩

theorem Keeps.leaves {c' : TransactionCapsule} (h : Keeps env c c') (allowed : Prop) : Leaves env allowed c c' :=
  ⟨h.cached, by rw [h.rawData], fun hver => .inl (by rwa [← h.verified])⟩

theorem keeps_getTransactionId (hc : c.WellCached env) : Keeps env c (c.getTransactionId env).2 := by
  obtain ⟨c', hid, hc', htrans, hver⟩ := getTransactionId_spec hc
  rw [hid]
  exact ⟨hc', by rw [htrans], hver⟩

theorem keeps_getOwnerAddress (hc : c.WellCached env) : Keeps env c c.getOwnerAddress.2 := by
  cases hcontract : c.transaction.rawData.contract with
  | nil =>
    cases howner : c.ownerAddress with
    | none => simpa [TransactionCapsule.getOwnerAddress, howner, hcontract] using Keeps.refl hc
    | some owner => simpa [TransactionCapsule.getOwnerAddress, howner] using Keeps.refl hc
  | cons contract rest =>
    obtain ⟨c', howner, hc', htrans, hver⟩ := getOwnerAddress_spec hc hcontract
    rw [howner]
    exact ⟨hc', by rw [htrans], hver⟩

theorem keeps_sign (hc : c.WellCached env) (privateKey : Bytes) : Keeps env c (c.sign env privateKey) := by
  obtain ⟨hc', hraw, hver⟩ := keeps_getTransactionId hc
  exact ⟨hc', hraw, hver⟩

theorem keeps_approveList (hc : c.WellCached env) (unlockedAccounts : List JsString) (permission : Permission) :
    Keeps env c (c.approveList env unlockedAccounts permission).2 := by
  unfold TransactionCapsule.approveList
  split
  · exact .refl hc
  · exact keeps_getTransactionId hc

theorem keeps_addSignFor (hc : c.WellCached env) (unlockedAccounts : List JsString) (permission : Permission)
    (privateKey : Bytes) : Keeps env c (c.addSignFor env unlockedAccounts permission privateKey).2 := by
  have hread := keeps_approveList hc unlockedAccounts permission
  simp only [TransactionCapsule.addSignFor]
  generalize c.approveList env unlockedAccounts permission = read at hread
  obtain ⟨approveList, c'⟩ := read
  cases approveList with
  | error e => exact hread
  | ok approveList =>
    dsimp only
    split
    · exact hread
    · split
      · exact hread
      · exact hread.trans (keeps_sign hread.cached privateKey)

theorem keeps_addSign (hc : c.WellCached env) (v : Validation) (privateKey : Bytes) :
    Keeps env c (c.addSign env v privateKey).2 := by
  have howner := keeps_getOwnerAddress hc
  simp only [TransactionCapsule.addSign]
  split
  · exact .refl hc
  · generalize c.getOwnerAddress = read at howner
    obtain ⟨owner, c'⟩ := read
    cases owner with
    | error e => exact howner
    | ok owner =>
      dsimp only
      split
      · exact howner
      · split
        · exact howner
        · split
          · exact howner
          · exact howner.trans (keeps_addSignFor howner.cached _ _ _)

/-- The calls that may turn the verdict. -/
def CapsuleOp.Verifies (env : CapsuleEnv) (v : Validation) (t : Transaction) : CapsuleOp → Prop
  | .validate w => ∃ contract, t.rawData.contract.head? = some contract ∧ w.Admits env v t contract
  | .setVerified isVerified => isVerified = true
  | _ => False

theorem CapsuleOp.run_leaves (hc : c.WellCached env) (op : CapsuleOp) :
    Leaves env (op.Verifies env v c.transaction) c (op.run env v c).2 := by
  cases op with
  | validate w => exact (w.run_spec hc).leaves
  | setVerified b => exact ⟨hc, rfl, .inr⟩
  | setRawData update =>
    have hcontract : (update.apply c.transaction.rawData).contract = c.transaction.rawData.contract := by
      cases update <;> rfl
    refine ⟨⟨nofun, ?_⟩, hcontract, .inl⟩
    intro owner howner
    obtain ⟨contract, rest, hcons, rfl⟩ := hc.2 owner howner
    exact ⟨contract, rest, hcontract.trans hcons, rfl⟩
  | sign privateKey => exact (keeps_sign hc privateKey).leaves _
  | addSign privateKey => exact (keeps_addSign hc v privateKey).leaves _
  | getOwnerAddress => exact (keeps_getOwnerAddress hc).leaves _
  | getTransactionId => exact (keeps_getTransactionId hc).leaves _

/-! ## Every run -/

abbrev PoolHistory := List (PoolCall × PoolReply)

abbrev PoolRun (env : CapsuleEnv) (p₀ : Pool) : PoolHistory → Pool → Prop :=
  Run (Pool.step env) (fun _ _ => True) p₀

/-- Some call of the run turned the capsule's verdict, when its transaction had the same contract. -/
def Decided (env : CapsuleEnv) (p₀ : Pool) (h : PoolHistory) (id : Nat) (c : TransactionCapsule) : Prop :=
  ∃ h₁ op reply h₂ q c₀, h = h₁ ++ (.capsule id op, reply) :: h₂ ∧ PoolRun env p₀ h₁ q ∧
    q.capsules id = some c₀ ∧ op.Verifies env q.validation c₀.transaction ∧
    c₀.transaction.rawData.contract = c.transaction.rawData.contract

variable {p₀ p p' : Pool} {h : PoolHistory} {id : Nat}

theorem Pool.step_cases {call : PoolCall} {reply : PoolReply} (hst : p.step env call = some (reply, p')) :
    p'.capsules = p.capsules ∨
    (∃ id t, call = .received id t ∧ p.capsules id = none ∧ p'.validation = p.validation ∧
      p'.capsules = Function.update p.capsules id (some ⟨t, false, none, none⟩)) ∨
    ∃ id op c, call = .capsule id op ∧ p.capsules id = some c ∧ p'.validation = p.validation ∧
      p'.capsules = Function.update p.capsules id (some (op.run env p.validation c).2) := by
  cases call with
  | impersonation helper addressParam => cases hst; exact .inl rfl
  | unlockedAccounts accountsParam => cases hst; exact .inl rfl
  | block accountStore dynamicProperties => cases hst; exact .inl rfl
  | received id t =>
    simp only [Pool.step] at hst
    split at hst
    · cases hst
    · rename_i hnone
      cases hst
      exact .inr (.inl ⟨id, t, rfl, hnone, rfl, rfl⟩)
  | capsule id op =>
    simp only [Pool.step] at hst
    split at hst
    · cases hst
    · rename_i c hcap
      cases hst
      exact .inr (.inr ⟨id, op, c, rfl, hcap, rfl, rfl⟩)

theorem Decided.snoc {c c' : TransactionCapsule} (e : PoolCall × PoolReply) (hd : Decided env p₀ h id c)
    (hcontract : c'.transaction.rawData.contract = c.transaction.rawData.contract) :
    Decided env p₀ (h ++ [e]) id c' := by
  obtain ⟨h₁, op, reply, h₂, q, c₀, rfl, hrun, hcap, hver, hsame⟩ := hd
  exact ⟨h₁, op, reply, h₂ ++ [e], q, c₀, by simp, hrun, hcap, hver, hsame.trans hcontract.symm⟩

/-- What a run keeps of a capsule that came during it: its caches are right, and a verdict was decided. -/
theorem Pool.run_inv (hr : PoolRun env p₀ h p) (hnew : p₀.capsules id = none) {c : TransactionCapsule}
    (hcap : p.capsules id = some c) :
    c.WellCached env ∧ (c.isVerified = true → Decided env p₀ h id c) := by
  refine Run.inv (fun h (p : Pool) => ∀ c, p.capsules id = some c →
    c.WellCached env ∧ (c.isVerified = true → Decided env p₀ h id c)) (by simp [hnew]) ?_ hr c hcap
  intro h p call reply p' hr ih _ hst c hcap
  rcases Pool.step_cases hst with hkept | ⟨id', t, rfl, -, -, hadded⟩ | ⟨id', op, c₀, rfl, hold, -, hset⟩
  · rw [hkept] at hcap
    obtain ⟨hcached, hver⟩ := ih c hcap
    exact ⟨hcached, fun hv => (hver hv).snoc _ rfl⟩
  · rw [hadded] at hcap
    rcases update_eq_some hcap with ⟨rfl, heq⟩ | ⟨-, hkept⟩
    · cases heq
      exact ⟨⟨nofun, nofun⟩, nofun⟩
    · obtain ⟨hcached, hver⟩ := ih c hkept
      exact ⟨hcached, fun hv => (hver hv).snoc _ rfl⟩
  · rw [hset] at hcap
    rcases update_eq_some hcap with ⟨rfl, heq⟩ | ⟨-, hkept⟩
    · cases heq
      obtain ⟨hcached₀, hver₀⟩ := ih c₀ hold
      have hleaves := op.run_leaves (v := p.validation) hcached₀
      refine ⟨hleaves.cached, fun hv => ?_⟩
      rcases hleaves.verified hv with hbefore | hnow
      · exact (hver₀ hbefore).snoc _ hleaves.contract
      · exact ⟨h, op, reply, [], p, c₀, rfl, hr, hold, hnow, hleaves.contract.symm⟩
    · obtain ⟨hcached, hver⟩ := ih c hkept
      exact ⟨hcached, fun hv => (hver hv).snoc _ rfl⟩

/-- At any point of any run a validation accepts a transaction exactly if it was verified before, or is to be admitted
as it is now: by an unlocked owner, as an unsigned transfer from a shielded address, or with signatures, for an
impersonated owner or of the weight a permission wants. -/
theorem validates_iff (hr : PoolRun env p₀ h p) (hnew : p₀.capsules id = none) {c : TransactionCapsule}
    (hcap : p.capsules id = some c) (w : Validator) :
    (w.run env p.validation c).1 = .ok true ↔
      c.isVerified = true ∨ ∃ contract, c.transaction.rawData.contract.head? = some contract ∧
        w.Admits env p.validation c.transaction contract :=
  (w.run_spec (Pool.run_inv hr hnew hcap).1).accepts

/-! ## After an impersonation is stopped -/

theorem Pool.capsules_stay (hr : PoolRun env p₀ h p) {c : TransactionCapsule} (hcap : p₀.capsules id = some c) :
    ∃ c', p.capsules id = some c' := by
  refine Run.inv (fun _ (p : Pool) => ∃ c', p.capsules id = some c') ⟨c, hcap⟩ ?_ hr
  rintro h p call reply p' - ⟨c, hcap⟩ - hst
  rcases Pool.step_cases hst with hkept | ⟨id', t, -, -, -, hadded⟩ | ⟨id', op, c₀, -, -, -, hset⟩
  · exact ⟨c, by rw [hkept, hcap]⟩
  · by_cases hid : id = id'
    · exact ⟨_, by rw [hadded, hid, Function.update_self]⟩
    · exact ⟨c, by rw [hadded, Function.update_of_ne hid, hcap]⟩
  · by_cases hid : id = id'
    · exact ⟨_, by rw [hset, hid, Function.update_self]⟩
    · exact ⟨c, by rw [hset, Function.update_of_ne hid, hcap]⟩

/-- A transaction that a run receives was not there before. -/
theorem Pool.received_new (hr : PoolRun env p₀ h p) {t : Transaction} {reply : PoolReply}
    (hin : (.received id t, reply) ∈ h) : p₀.capsules id = none := by
  obtain ⟨h₁, h₂, rfl⟩ := List.append_of_mem hin
  obtain ⟨m, m', hr₁, -, hst, -⟩ := hr.at
  cases hcap : p₀.capsules id with
  | none => rfl
  | some c =>
    obtain ⟨c', hcap'⟩ := Pool.capsules_stay hr₁ hcap
    simp [Pool.step, hcap'] at hst

/-- The call impersonates the address. -/
def PoolCall.Grants (env : CapsuleEnv) (address : Bytes) : PoolCall → Prop
  | .impersonation .impersonateAccount (some text) => env.decodeAddress text = .ok address
  | _ => False

/-- Only an impersonation of the address grants it. -/
theorem answer_not_impersonated {address : Bytes} (hne : address ≠ []) {helper : Helper} {addressParam : Option JsString}
    {r : Impersonation.Registry} (hgrants : ¬ (PoolCall.impersonation helper addressParam).Grants env address)
    (h : r.isImpersonated address = false) :
    (Impersonation.answer env.toEnv helper addressParam r).2.isImpersonated address = false := by
  cases addressParam with
  | none => exact h
  | some text =>
    cases hdecode : env.decodeAddress text with
    | error e => rwa [Impersonation.answer_error hdecode]
    | ok decoded =>
      rw [Impersonation.answer_ok hdecode]
      by_cases hsame : decoded = address
      · subst hsame
        rw [Impersonation.Registry.isImpersonated_after helper hne]
        cases helper with
        | impersonateAccount => exact absurd hdecode hgrants
        | stopImpersonatingAccount => rfl
      · rwa [Impersonation.Registry.isImpersonated_after_other helper (Ne.symm hsame)]

theorem Pool.run_not_impersonated {address : Bytes} (hne : address ≠ []) (hr : PoolRun env p₀ h p)
    (hnone : ∀ e ∈ h, ¬ e.1.Grants env address) (h0 : p₀.validation.registry.isImpersonated address = false) :
    p.validation.registry.isImpersonated address = false := by
  refine Run.inv (fun h (p : Pool) => (∀ e ∈ h, ¬ e.1.Grants env address) →
    p.validation.registry.isImpersonated address = false) (fun _ => h0) ?_ hr hnone
  intro h p call reply p' _ ih _ hst hnone
  have hbefore := ih fun e he => hnone e (by simp [he])
  have hcall := hnone (call, reply) (by simp)
  cases call with
  | impersonation helper addressParam => cases hst; exact answer_not_impersonated hne hcall hbefore
  | unlockedAccounts accountsParam => cases hst; exact hbefore
  | block accountStore dynamicProperties => cases hst; exact hbefore
  | received id t =>
    simp only [Pool.step] at hst
    split at hst <;> cases hst
    exact hbefore
  | capsule id op =>
    simp only [Pool.step] at hst
    split at hst <;> cases hst
    exact hbefore

/-- A call in the later part of the run verified the transaction's contract, and not because of an impersonation: the
owner was unlocked, or signatures reached a threshold of its permissions. -/
def SignedSince (env : CapsuleEnv) (p₀ : Pool) (pre post : PoolHistory) (id : Nat) (c : TransactionCapsule)
    (contract : Contract) : Prop :=
  ∃ mid op reply rest q c₀, post = mid ++ (.capsule id op, reply) :: rest ∧ PoolRun env p₀ (pre ++ mid) q ∧
    q.capsules id = some c₀ ∧ c₀.transaction.rawData.contract = c.transaction.rawData.contract ∧
    (op = .setVerified true ∨
      ((∃ w, op = .validate w) ∧ (env.encodeAddress (getOwner contract) ∈ q.validation.unlockedAccounts ∨
        SignedFor env q.validation c₀.transaction contract)))

/-- After an impersonation is stopped, and until it is granted again, a transaction that comes from the address is
verified on its own merits only. -/
theorem stopped_owner_signs {pre post : PoolHistory} {text : JsString} {reply : PoolReply}
    (hr : PoolRun env p₀ (pre ++ (.impersonation .stopImpersonatingAccount (some text), reply) :: post) p)
    {c : TransactionCapsule} {contract : Contract} (hdecode : env.decodeAddress text = .ok (getOwner contract))
    (hnone : ∀ e ∈ post, ¬ e.1.Grants env (getOwner contract))
    {t : Transaction} {reply' : PoolReply} (hreceived : (.received id t, reply') ∈ post)
    (hcap : p.capsules id = some c) (hcontract : c.transaction.rawData.contract.head? = some contract)
    (hver : c.isVerified = true) :
    SignedSince env p₀ (pre ++ [(.impersonation .stopImpersonatingAccount (some text), reply)]) post id c contract := by
  obtain ⟨m, m', hpre, -, hst, hpost⟩ := hr.at
  have hne : getOwner contract ≠ [] := env.decode_ne_nil hdecode
  have hstopped : m'.validation.registry.isImpersonated (getOwner contract) = false := by
    have hregistry : m'.validation.registry = (Impersonation.answer env.toEnv .stopImpersonatingAccount (some text)
        m.validation.registry).2 := by
      cases hst
      rfl
    rw [hregistry, Impersonation.answer_ok hdecode]
    exact Impersonation.Registry.isImpersonated_after .stopImpersonatingAccount hne _
  obtain ⟨mid, op, reply'', rest, q, c₀, rfl, hrun, hcap₀, hop, hsame⟩ :=
    (Pool.run_inv hpost (Pool.received_new hpost hreceived) hcap).2 hver
  have hfree : q.validation.registry.isImpersonated (getOwner contract) = false :=
    Pool.run_not_impersonated hne hrun (fun e he => hnone e (by simp [he])) hstopped
  refine ⟨mid, op, reply'', rest, q, c₀, rfl, ?_, hcap₀, hsame, ?_⟩
  · have hstop := Run.append (.snoc _ hpre trivial hst) hrun
    simpa using hstop
  · cases op with
    | setVerified b => exact .inl (by rw [show b = true from hop])
    | validate w =>
      obtain ⟨contract', hhead, hadmits⟩ := hop
      obtain rfl : contract = contract' := by
        rw [hsame, hcontract] at hhead
        exact Option.some.inj hhead
      have hpub : PubAdmits env q.validation c₀.transaction contract →
          SignedFor env q.validation c₀.transaction contract := by
        rintro ⟨-, -, himp | hsigned⟩
        · rw [hfree] at himp
          cases himp
        · exact hsigned
      refine .inr ⟨⟨w, rfl⟩, ?_⟩
      cases w with
      | validatePubSignature => exact .inr (hpub hadmits)
      | validateSignature =>
        rcases hadmits with hunlocked | hsigned
        · exact .inl hunlocked
        · rw [if_neg fun h => hne h.2] at hsigned
          exact .inr (hpub hsigned)
    | setRawData update => exact hop.elim
    | sign privateKey => exact hop.elim
    | addSign privateKey => exact hop.elim
    | getOwnerAddress => exact hop.elim
    | getTransactionId => exact hop.elim

/-! ## A grant, its end, and a transaction of one's own -/

/-- A call of the account with the key `[1]`, signed with it. -/
def ownCall : Transaction :=
  ⟨⟨[⟨.other 31, 0, some ⟨some (keyAddress 1), []⟩⟩], [], [], 0, 0, 7⟩, [keyring.signHash (keyAddress 1) [7]]⟩

def newNode : Pool := ⟨⟨∅, [], fun _ => none, ⟨5, []⟩⟩, fun _ => none⟩

def ownCallVerified : TransactionCapsule := ⟨ownCall, true, none, some [7]⟩

/-- The calls up to the end of the impersonation, and those after it. -/
def untilStop : PoolHistory :=
  [(.impersonation .impersonateAccount (some (spellBytes (keyAddress 1))), .answered (.ok true))]

def afterStop : PoolHistory :=
  [(.received 0 ownCall, .done), (.capsule 0 (.validate .validateSignature), .replied (.validated (.ok true)))]

def lastCall : PoolCall × PoolReply :=
  (.impersonation .stopImpersonatingAccount (some (spellBytes (keyAddress 1))), .answered (.ok true))

theorem ownCall_run : ∃ p, PoolRun keyring newNode (untilStop ++ lastCall :: afterStop) p ∧
    p.capsules 0 = some ownCallVerified := by
  have hr : PoolRun keyring newNode [] newNode := .nil
  have hr := hr.snoc (.impersonation .impersonateAccount (some (spellBytes (keyAddress 1)))) trivial rfl
  have hr := hr.snoc (.impersonation .stopImpersonatingAccount (some (spellBytes (keyAddress 1)))) trivial rfl
  have hr := hr.snoc (.received 0 ownCall) trivial rfl
  have hr := hr.snoc (.capsule 0 (.validate .validateSignature)) trivial rfl
  exact ⟨_, hr, rfl⟩

theorem ownCall_signed : SignedSince keyring newNode (untilStop ++ [lastCall]) afterStop 0 ownCallVerified
    ⟨.other 31, 0, some ⟨some (keyAddress 1), []⟩⟩ := by
  obtain ⟨p, hr, hcap⟩ := ownCall_run
  have hreceived : ((.received 0 ownCall, .done) : PoolCall × PoolReply) ∈ afterStop := .head _
  refine stopped_owner_signs hr rfl ?_ hreceived hcap rfl rfl
  intro e he
  rcases List.mem_cons.1 he with rfl | he
  · exact id
  · obtain rfl := List.mem_singleton.1 he
    exact id

theorem ownCall_validates : ∃ p, PoolRun keyring newNode [(.received 0 ownCall, .done)] p ∧
    (Validator.validatePubSignature.run keyring p.validation ⟨ownCall, false, none, none⟩).1 = .ok true := by
  have hr : PoolRun keyring newNode [] newNode := .nil
  have hr := hr.snoc (.received 0 ownCall) trivial rfl
  refine ⟨_, hr, (@validates_iff keyring newNode _ _ 0 hr rfl _ rfl .validatePubSignature).2
    (.inr ⟨_, rfl, by simp [ownCall], by decide, .inr ?_⟩)⟩
  exact ⟨⟨.Owner, 1, [⟨keyAddress 1, 1⟩], []⟩, ⟨[spellBytes (keyAddress 1)], [keyAddress 1], 1⟩, rfl, rfl, rfl, by decide⟩

end Signatures

end HardhatTron

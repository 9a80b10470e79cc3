import HardhatTron.Lib.HexBytes
import HardhatTron.Lib.MachineInt
import HardhatTron.Lib.Runs
import HardhatTron.Runtime.Impersonation
import Mathlib.Algebra.BigOperators.Group.List.Basic
import Mathlib.Algebra.Order.BigOperators.Group.List
/-!
# Signatures of a transaction

`TransactionCapsule` decides whether the node takes a transaction. It checks the
signatures against a permission of the owner, which wants distinct keys of
enough weight, unless the owner is impersonated or unlocked. The verdict is kept
in `isVerified` and never asked for again, the id the signatures are for is
cached, and setters rewrite the raw data in between.
-/
namespace HardhatTron

open Lib

namespace Signatures

open Impersonation (Helper)

/-! ## Permissions and transactions -/

structure Key where
  address : Bytes
  weight : Int

inductive PermissionType where
  | Owner
  | Witness
  | Active
  deriving DecidableEq

structure Permission where
  type : PermissionType
  threshold : Int
  keys : List Key
  operations : Bytes

inductive ContractType where
  | ShieldedTransferContract
  | other (number : Nat)
  deriving DecidableEq

/-- A contract's message. -/
structure ContractMessage where
  /-- `ownerAddress_`, if the class has it -/
  ownerAddress : Option Bytes
  transparentFromAddress : Bytes

structure Contract where
  type : ContractType
  permissionId : Int
  /-- What `unpack` makes of the parameter, if the type has a class and the bytes parse. -/
  message : Option ContractMessage

structure RawData where
  contract : List Contract
  refBlockBytes : Bytes
  refBlockHash : Bytes
  expiration : Int
  timestamp : Int
  feeLimit : Int

structure Transaction where
  rawData : RawData
  signature : List Bytes

structure TransactionCapsule where
  transaction : Transaction
  isVerified : Bool
  ownerAddress : Option Bytes
  id : Option Bytes

structure DynamicPropertiesStore where
  totalSignNum : Int
  activeDefaultOperations : Bytes

/-- An account, by `getPermissionById`. -/
abbrev PermissionsOf := Int → Option Permission

/-- What validation reads of the node. -/
structure Validation where
  registry : Impersonation.Registry
  unlockedAccounts : List JsString
  accountStore : Bytes → Option PermissionsOf
  dynamicProperties : DynamicPropertiesStore

/-- What the class calls: cryptography, and the helpers of java-tron. -/
structure CapsuleEnv extends Impersonation.Env where
  signatureToAddress : Bytes → JsString → Except String Bytes
  getBase64FromByteString : Bytes → JsString
  /-- `ForkController.instance().pass(VERSION_4_7_1)` -/
  pass : Bool
  checkPermissionOperations : Permission → Contract → Except String Bool
  getDefaultPermission : Bytes → Permission
  createDefaultActivePermission : Bytes → DynamicPropertiesStore → Permission
  rawHash : RawData → Bytes
  /-- `SignUtils.fromPrivate(privateKey, …).getAddress()` -/
  getAddress : Bytes → Bytes
  signHash : Bytes → Bytes → Bytes

inductive CapsuleError where
  /-- `SignatureException`, `PermissionException` or `SignatureFormatException` -/
  | signature (message : String)
  | validateSignature (message : String)
  | indexOutOfBounds
  deriving DecidableEq

variable (env : CapsuleEnv)

/-- `encode58Check` -/
def CapsuleEnv.encode58Check (address : Bytes) : String := .ofList (env.encodeAddress address)

/-! ## The weight of the signatures -/

/-- The loop of `getWeight`. -/
def weightIn (unlockedAccounts : List JsString) (threshold : Int) (address : Bytes) : List Key → Int
  | [] => 0
  | key :: list =>
    -- a TRE addition: an unlocked account counts at full threshold, whichever key signed
    if unlockedAccounts.contains (env.encodeAddress key.address) then threshold
    else if key.address = address then key.weight
    else weightIn unlockedAccounts threshold address list

def getWeight (unlockedAccounts : List JsString) (permission : Permission) (address : Bytes) : Int :=
  weightIn env unlockedAccounts permission.threshold address permission.keys

/-- The variables of `checkWeight`'s loop. -/
structure Approval where
  addMap : List JsString
  approveList : List Bytes
  currentWeight : Int

/-- What a signer is known by in `addMap`. -/
def signerName (sig address : Bytes) : JsString :=
  if env.pass then env.encodeAddress address else env.getBase64FromByteString sig

def approve (unlockedAccounts : List JsString) (permission : Permission) (hash : Bytes) (a : Approval) (sig : Bytes) :
    Except String Approval :=
  if sig.length < 65 then .error s!"Signature size is {sig.length}"
  else
    match env.signatureToAddress hash (env.getBase64FromByteString sig) with
    | .error e => .error e
    | .ok address =>
      let weight := getWeight env unlockedAccounts permission address
      if weight = 0 then
        .error (String.ofList (hexOfBytes hash) ++ " is signed by " ++ env.encode58Check address ++
          " but it is not contained of permission.")
      else if a.addMap.contains (signerName env sig address) then
        .error (env.encode58Check address ++ " has signed twice!")
      else
        .ok ⟨signerName env sig address :: a.addMap, a.approveList ++ [address], toLong (a.currentWeight + weight)⟩

def approveAll (unlockedAccounts : List JsString) (permission : Permission) (hash : Bytes) :
    List Bytes → Approval → Except String Approval
  | [], a => .ok a
  | sig :: sigs, a =>
    match approve env unlockedAccounts permission hash a sig with
    | .error e => .error e
    | .ok a => approveAll unlockedAccounts permission hash sigs a

def checkWeight (unlockedAccounts : List JsString) (permission : Permission) (sigs : List Bytes) (hash : Bytes) :
    Except String Approval :=
  if sigs.length > permission.keys.length then
    .error s!"Signature count is {sigs.length} more than key counts of permission : {permission.keys.length}"
  else approveAll env unlockedAccounts permission hash sigs ⟨[], [], 0⟩

/-! ## The verdict -/

def getOwner (contract : Contract) : Bytes :=
  match contract.message with
  | none => []
  | some message =>
    match contract.type with
    | .ShieldedTransferContract => message.transparentFromAddress
    | .other _ => message.ownerAddress.getD []

def checkPermission (permissionId : Int) (permission : Permission) (contract : Contract) : Except String Unit :=
  if permissionId = 0 then .ok ()
  else if permission.type ≠ .Active then .error "Permission type is error"
  else
    match env.checkPermissionOperations permission contract with
    | .error e => .error e
    | .ok true => .ok ()
    | .ok false => .error "Permission denied"

/-- The permission `validateSignature` checks against: a new account has the two default ones. -/
def permissionOf (v : Validation) (owner : Bytes) (permissionId : Int) : Option Permission :=
  match v.accountStore owner with
  | some account => account permissionId
  | none =>
    if permissionId = 0 then some (env.getDefaultPermission owner)
    else if permissionId = 2 then some (env.createDefaultActivePermission owner v.dynamicProperties)
    else none

/-- The static `validateSignature`. -/
def validateSignature (v : Validation) (transaction : Transaction) (hash : Bytes) : Except CapsuleError Bool :=
  match transaction.rawData.contract with
  | [] => .error .indexOutOfBounds
  | contract :: _ =>
    if v.registry.isImpersonated (getOwner contract) then .ok true
    else
      match permissionOf env v (getOwner contract) contract.permissionId with
      | none => .error (.signature "permission isn't exit")
      | some permission =>
        match checkPermission env contract.permissionId permission contract with
        | .error e => .error (.signature e)
        | .ok () =>
          match checkWeight env v.unlockedAccounts permission transaction.signature hash with
          | .error e => .error (.signature e)
          | .ok a => .ok (a.currentWeight ≥ permission.threshold)

namespace TransactionCapsule

def getTransactionId (c : TransactionCapsule) : Bytes × TransactionCapsule :=
  match c.id with
  | some id => (id, c)
  | none => (env.rawHash c.transaction.rawData, { c with id := some (env.rawHash c.transaction.rawData) })

def getOwnerAddress (c : TransactionCapsule) : Except CapsuleError Bytes × TransactionCapsule :=
  match c.ownerAddress with
  | some owner => (.ok owner, c)
  | none =>
    match c.transaction.rawData.contract with
    | [] => (.error .indexOutOfBounds, c)
    | contract :: _ => (.ok (getOwner contract), { c with ownerAddress := some (getOwner contract) })

def shouldDoSigVerify (v : Validation) (c : TransactionCapsule) : Except CapsuleError Bool :=
  match c.transaction.rawData.contract with
  | [] => .error .indexOutOfBounds
  | contract :: _ => .ok (!v.unlockedAccounts.contains (env.encodeAddress (getOwner contract)))

def validatePubSignature (v : Validation) (c : TransactionCapsule) : Except CapsuleError Bool × TransactionCapsule :=
  if c.isVerified then (.ok true, c)
  else if c.transaction.signature = [] ∨ c.transaction.rawData.contract = [] then
    (.error (.validateSignature "miss sig or contract"), c)
  else if (c.transaction.signature.length : Int) > v.dynamicProperties.totalSignNum then
    (.error (.validateSignature "too many signatures"), c)
  else
    let (hash, c) := c.getTransactionId env
    match Signatures.validateSignature env v c.transaction hash with
    | .ok true => (.ok true, { c with isVerified := true })
    | .ok false => (.error (.validateSignature "sig error"), { c with isVerified := false })
    | .error (.signature message) => (.error (.validateSignature message), { c with isVerified := false })
    | .error e => (.error e, c)

/-- The end of `validateSignature`. -/
def verified : Except CapsuleError Bool × TransactionCapsule → Except CapsuleError Bool × TransactionCapsule
  | (.ok _, c) => (.ok true, { c with isVerified := true })
  | (.error e, c) => (.error e, c)

def validateSignature (v : Validation) (c : TransactionCapsule) : Except CapsuleError Bool × TransactionCapsule :=
  if c.isVerified then verified (.ok true, c)
  else
    match c.shouldDoSigVerify env v, c.transaction.rawData.contract with
    | .ok true, contract :: _ =>
      if contract.type ≠ .ShieldedTransferContract then verified (c.validatePubSignature env v)
      else
        match c.getOwnerAddress with
        | (.error e, c) => (.error e, c)
        | (.ok owner, c) =>
          -- from a transparent address, or from a shielded one
          if owner ≠ [] then verified (c.validatePubSignature env v)
          else if c.transaction.signature ≠ [] then
            (.error (.validateSignature ("there should be no signatures signed by " ++
              "transparent address when transfer from shielded address")), c)
          else verified (.ok true, c)
    | .ok true, [] => (.error .indexOutOfBounds, c)
    | .ok false, _ => verified (.ok true, c)
    | .error e, _ => (.error e, c)

/-! ## What else changes a capsule -/

/-- The setters that go through `setRawData`. -/
inductive RawUpdate where
  | setReference (blockNum : Nat) (blockHash : Bytes)
  | setExpiration (expiration : Int)
  | setTimestamp (timestamp : Int)
  | setFeeLimit (feeLimit : Int)

def RawUpdate.apply (rawData : RawData) : RawUpdate → RawData
  | .setReference blockNum blockHash =>
    { rawData with refBlockHash := (blockHash.drop 8).take 8
                   refBlockBytes := [UInt8.ofNat (blockNum / 256), UInt8.ofNat blockNum] }
  | .setExpiration expiration => { rawData with expiration }
  | .setTimestamp timestamp => { rawData with timestamp }
  | .setFeeLimit feeLimit => { rawData with feeLimit }

def setRawData (rawData : RawData) (c : TransactionCapsule) : TransactionCapsule :=
  { c with transaction := { c.transaction with rawData }, id := none }

def addSignature (sig : Bytes) (c : TransactionCapsule) : TransactionCapsule :=
  { c with transaction := { c.transaction with signature := c.transaction.signature ++ [sig] } }

def sign (privateKey : Bytes) (c : TransactionCapsule) : TransactionCapsule :=
  let (hash, c) := c.getTransactionId env
  c.addSignature (env.signHash privateKey hash)

/-- Who signed before, where there are signatures. -/
def approveList (unlockedAccounts : List JsString) (permission : Permission) (c : TransactionCapsule) :
    Except String (List Bytes) × TransactionCapsule :=
  if c.transaction.signature = [] then (.ok [], c)
  else
    let (hash, c) := c.getTransactionId env
    ((checkWeight env unlockedAccounts permission c.transaction.signature hash).map Approval.approveList, c)

/-- `addSign` behind its checks of the account and the permission. -/
def addSignFor (unlockedAccounts : List JsString) (permission : Permission) (privateKey : Bytes)
    (c : TransactionCapsule) : Except CapsuleError Unit × TransactionCapsule :=
  let address := env.getAddress privateKey
  match c.approveList env unlockedAccounts permission with
  | (.error e, c) => (.error (.signature e), c)
  | (.ok approveList, c) =>
    if approveList.contains address then (.error (.signature (env.encode58Check address ++ " had signed!")), c)
    else if getWeight env unlockedAccounts permission address = 0 then
      (.error (.signature (String.ofList (hexOfBytes privateKey) ++ "'s address is " ++ env.encode58Check address ++
        " but it is not contained of permission.")), c)
    else (.ok (), c.sign env privateKey)

def addSign (v : Validation) (privateKey : Bytes) (c : TransactionCapsule) :
    Except CapsuleError Unit × TransactionCapsule :=
  match c.transaction.rawData.contract with
  | [] => (.error .indexOutOfBounds, c)
  | contract :: _ =>
    match c.getOwnerAddress with
    | (.error e, c) => (.error e, c)
    | (.ok owner, c) =>
      match v.accountStore owner with
      | none => (.error (.signature "Account is not exist!"), c)
      | some account =>
        match account contract.permissionId with
        | none => (.error (.signature "permission isn't exit"), c)
        | some permission =>
          match checkPermission env contract.permissionId permission contract with
          | .error e => (.error (.signature e), c)
          | .ok () => c.addSignFor env v.unlockedAccounts permission privateKey

end TransactionCapsule

/-! ## What the signatures weigh -/

variable {env : CapsuleEnv} {unlockedAccounts : List JsString} {permission : Permission} {hash : Bytes}

/-- The address that signed. -/
def Recovers (env : CapsuleEnv) (hash sig address : Bytes) : Prop :=
  65 ≤ sig.length ∧ env.signatureToAddress hash (env.getBase64FromByteString sig) = .ok address

theorem approve_ok_iff {a b : Approval} {sig : Bytes} :
    approve env unlockedAccounts permission hash a sig = .ok b ↔
      ∃ address, Recovers env hash sig address ∧ getWeight env unlockedAccounts permission address ≠ 0 ∧
        signerName env sig address ∉ a.addMap ∧
        b = ⟨signerName env sig address :: a.addMap, a.approveList ++ [address],
          toLong (a.currentWeight + getWeight env unlockedAccounts permission address)⟩ := by
  by_cases hlen : sig.length < 65
  · simp only [approve, hlen, if_true, reduceCtorEq, false_iff]
    rintro ⟨address, ⟨hle, -⟩, -⟩
    omega
  · cases hrec : env.signatureToAddress hash (env.getBase64FromByteString sig) with
    | error e => simp [approve, Recovers, hlen, hrec]
    | ok address =>
      by_cases hw : getWeight env unlockedAccounts permission address = 0
      · simp [approve, Recovers, hlen, hrec, hw]
      · by_cases hname : signerName env sig address ∈ a.addMap
        · simp [approve, Recovers, hlen, hrec, hw, hname]
        · simp only [approve, Recovers, hlen, hrec, hw, hname, Nat.le_of_not_lt hlen, if_false, true_and,
            Except.ok.injEq, exists_eq_left', List.contains_iff_mem, ne_eq, not_false_eq_true]
          exact eq_comm

theorem toLong_toLong_add (x y : Int) : toLong (toLong x + y) = toLong (x + y) :=
  Int.bmod_add_bmod

/-- The loop takes distinct signers with a weight, and adds it up. -/
theorem approveAll_ok_iff {sigs : List Bytes} {a b : Approval} {w : Int} (hw : a.currentWeight = toLong w)
    (hnodup : a.addMap.Nodup) :
    approveAll env unlockedAccounts permission hash sigs a = .ok b ↔
      ∃ signers, List.Forall₂ (Recovers env hash) sigs signers ∧
        (∀ s ∈ signers, getWeight env unlockedAccounts permission s ≠ 0) ∧
        ((List.zipWith (signerName env) sigs signers).reverse ++ a.addMap).Nodup ∧
        b = ⟨(List.zipWith (signerName env) sigs signers).reverse ++ a.addMap, a.approveList ++ signers,
          toLong (w + (signers.map (getWeight env unlockedAccounts permission)).sum)⟩ := by
  induction sigs generalizing a w with
  | nil => simp [approveAll, hnodup, ← hw, eq_comm]
  | cons sig sigs ih =>
    cases happ : approve env unlockedAccounts permission hash a sig with
    | error e =>
      have hnone : ∀ b, approve env unlockedAccounts permission hash a sig ≠ .ok b := by simp [happ]
      simp only [approveAll, happ, reduceCtorEq, false_iff]
      rintro ⟨signers, hrec, hweight, hnames, -⟩
      cases hrec with
      | cons hsig hrest =>
        rename_i address signers
        refine hnone _ (approve_ok_iff.2 ⟨address, hsig, hweight _ (by simp), ?_, rfl⟩)
        intro hmem
        exact (List.nodup_append.1 hnames).2.2 _ (by simp) _ hmem rfl
    | ok a' =>
      obtain ⟨address, hsig, hweight, hname, rfl⟩ := approve_ok_iff.1 happ
      have hstep := ih (a := ⟨signerName env sig address :: a.addMap, a.approveList ++ [address],
        toLong (a.currentWeight + getWeight env unlockedAccounts permission address)⟩)
        (w := w + getWeight env unlockedAccounts permission address) (by rw [hw, toLong_toLong_add])
        (List.nodup_cons.2 ⟨hname, hnodup⟩)
      simp only [approveAll, happ, hstep]
      constructor
      · rintro ⟨signers, hrec, hw', hnames, rfl⟩
        refine ⟨address :: signers, .cons hsig hrec, ?_, by simpa using hnames, by simp [add_assoc]⟩
        rintro s hs
        rcases List.mem_cons.1 hs with rfl | hs
        · exact hweight
        · exact hw' s hs
      · rintro ⟨signers, hrec, hw', hnames, rfl⟩
        cases hrec with
        | cons hsig' hrest =>
          rename_i address' signers
          obtain rfl : address = address' := Except.ok.inj (hsig.2.symm.trans hsig'.2)
          exact ⟨signers, hrest, fun s hs => hw' s (List.mem_cons_of_mem _ hs), by simpa using hnames,
            by simp [add_assoc]⟩

theorem checkWeight_ok_iff {sigs : List Bytes} {b : Approval} :
    checkWeight env unlockedAccounts permission sigs hash = .ok b ↔
      sigs.length ≤ permission.keys.length ∧
      ∃ signers, List.Forall₂ (Recovers env hash) sigs signers ∧
        (∀ s ∈ signers, getWeight env unlockedAccounts permission s ≠ 0) ∧
        (List.zipWith (signerName env) sigs signers).Nodup ∧
        b = ⟨(List.zipWith (signerName env) sigs signers).reverse, signers,
          toLong (signers.map (getWeight env unlockedAccounts permission)).sum⟩ := by
  by_cases hlen : sigs.length > permission.keys.length
  · simp only [checkWeight, hlen, if_true, reduceCtorEq, false_iff]
    omega
  · have hloop := @approveAll_ok_iff env unlockedAccounts permission hash sigs ⟨[], [], 0⟩ b 0 (by decide) List.nodup_nil
    simp only [checkWeight, hlen, if_false, hloop, Nat.le_of_not_lt hlen, true_and]
    simp

/-- The weight of the keys of the permission that are among the signers. -/
def Permission.weightOf (permission : Permission) (signers : List Bytes) : Int :=
  ((permission.keys.filter fun key => signers.contains key.address).map Key.weight).sum

/-- What java-tron has of every permission it stores: distinct keys, each of some weight, that add up to a `long`. -/
structure Permission.WellFormed (permission : Permission) : Prop where
  distinct : (permission.keys.map Key.address).Nodup
  pos : ∀ key ∈ permission.keys, 0 < key.weight
  fits : (permission.keys.map Key.weight).sum < 2 ^ 63

/-- No key of the permission is an unlocked account. -/
def Permission.Locked (env : CapsuleEnv) (unlockedAccounts : List JsString) (permission : Permission) : Prop :=
  ∀ key ∈ permission.keys, env.encodeAddress key.address ∉ unlockedAccounts

theorem weightIn_eq_zero {threshold : Int} {address : Bytes} {keys : List Key}
    (hlocked : ∀ key ∈ keys, env.encodeAddress key.address ∉ unlockedAccounts)
    (hmem : address ∉ keys.map Key.address) : weightIn env unlockedAccounts threshold address keys = 0 := by
  induction keys with
  | nil => rfl
  | cons key keys ih =>
    simp only [List.map_cons, List.mem_cons, not_or] at hmem
    simp only [weightIn, List.contains_iff_mem, hlocked key (by simp), if_false, Ne.symm hmem.1]
    exact ih (fun k hk => hlocked k (by simp [hk])) hmem.2

theorem weightIn_of_mem {threshold : Int} {keys : List Key}
    (hlocked : ∀ key ∈ keys, env.encodeAddress key.address ∉ unlockedAccounts)
    (hdistinct : (keys.map Key.address).Nodup) {key : Key} (hmem : key ∈ keys) :
    weightIn env unlockedAccounts threshold key.address keys = key.weight := by
  induction keys with
  | nil => cases hmem
  | cons first keys ih =>
    simp only [List.map_cons, List.nodup_cons, List.mem_map, not_exists, not_and] at hdistinct
    simp only [weightIn, List.contains_iff_mem, hlocked first (by simp), if_false]
    rcases List.mem_cons.1 hmem with rfl | hmem
    · simp
    · rw [if_neg fun h => hdistinct.1 key hmem h.symm]
      exact ih (fun k hk => hlocked k (by simp [hk])) hdistinct.2 hmem

/-- Distinct signers with a weight are keys of the permission, and weigh what those do. -/
theorem sum_getWeight (hwf : permission.WellFormed) (hlocked : permission.Locked env unlockedAccounts)
    {signers : List Bytes} (hnodup : signers.Nodup) (hmem : ∀ s ∈ signers, s ∈ permission.keys.map Key.address) :
    (signers.map (getWeight env unlockedAccounts permission)).sum = permission.weightOf signers := by
  have hperm : signers.Perm ((permission.keys.filter fun key => signers.contains key.address).map Key.address) := by
    refine (List.perm_ext_iff_of_nodup hnodup
      (hwf.distinct.sublist (List.filter_sublist.map Key.address))).2 fun s => ?_
    constructor
    · intro hs
      obtain ⟨key, hkey, rfl⟩ := List.mem_map.1 (hmem s hs)
      exact List.mem_map.2 ⟨key, List.mem_filter.2 ⟨hkey, by simpa using hs⟩, rfl⟩
    · intro hs
      obtain ⟨key, hkey, rfl⟩ := List.mem_map.1 hs
      simpa using (List.mem_filter.1 hkey).2
  calc (signers.map (getWeight env unlockedAccounts permission)).sum
      = (((permission.keys.filter fun key => signers.contains key.address).map Key.address).map
          (getWeight env unlockedAccounts permission)).sum := (hperm.map _).sum_eq
    _ = permission.weightOf signers := by
      rw [List.map_map, Permission.weightOf]
      congr 1
      refine List.map_congr_left fun key hkey => ?_
      exact weightIn_of_mem hlocked hwf.distinct (List.mem_filter.1 hkey).1

theorem weightOf_range (hwf : permission.WellFormed) (signers : List Bytes) :
    0 ≤ permission.weightOf signers ∧ permission.weightOf signers < 2 ^ 63 := by
  constructor
  · refine List.sum_nonneg fun w hw => ?_
    obtain ⟨key, hkey, rfl⟩ := List.mem_map.1 hw
    exact (hwf.pos key (List.mem_filter.1 hkey).1).le
  · refine lt_of_le_of_lt ?_ hwf.fits
    refine (List.filter_sublist.map Key.weight).sum_le_sum fun w hw => ?_
    obtain ⟨key, hkey, rfl⟩ := List.mem_map.1 hw
    exact (hwf.pos key hkey).le

/-- Behind fork 4.7.1, signatures reach a threshold exactly if distinct keys of the permission made them and those
keys have the weight. -/
theorem checkWeight_reaches_iff (hfork : env.pass = true) (hencode : Function.Injective env.encodeAddress)
    (hwf : permission.WellFormed) (hlocked : permission.Locked env unlockedAccounts) {sigs : List Bytes}
    (threshold : Int) :
    (∃ a, checkWeight env unlockedAccounts permission sigs hash = .ok a ∧ threshold ≤ a.currentWeight) ↔
      ∃ signers, List.Forall₂ (Recovers env hash) sigs signers ∧ signers.Nodup ∧
        (∀ s ∈ signers, s ∈ permission.keys.map Key.address) ∧ threshold ≤ permission.weightOf signers := by
  have hnames : ∀ signers : List Bytes, List.Forall₂ (Recovers env hash) sigs signers →
      List.zipWith (signerName env) sigs signers = signers.map env.encodeAddress := by
    intro signers hrec
    induction hrec with
    | nil => rfl
    | cons _ _ ih => simp [signerName, hfork, ih]
  have hkeys : ∀ s, getWeight env unlockedAccounts permission s ≠ 0 ↔ s ∈ permission.keys.map Key.address := by
    intro s
    constructor
    · intro hne
      by_contra hmem
      exact hne (weightIn_eq_zero hlocked hmem)
    · intro hmem
      obtain ⟨key, hkey, rfl⟩ := List.mem_map.1 hmem
      rw [getWeight, weightIn_of_mem hlocked hwf.distinct hkey]
      exact (hwf.pos key hkey).ne'
  have hsum : ∀ signers : List Bytes, signers.Nodup → (∀ s ∈ signers, s ∈ permission.keys.map Key.address) →
      toLong (signers.map (getWeight env unlockedAccounts permission)).sum = permission.weightOf signers := by
    intro signers hnodup hmem
    have hrange := weightOf_range hwf signers
    rw [sum_getWeight hwf hlocked hnodup hmem, toLong_of_mem (by omega) hrange.2]
  constructor
  · rintro ⟨a, ha, hreach⟩
    obtain ⟨-, signers, hrec, hweight, hnodup, rfl⟩ := checkWeight_ok_iff.1 ha
    rw [hnames signers hrec] at hnodup
    have hnodup' : signers.Nodup := hnodup.of_map _
    have hmem : ∀ s ∈ signers, s ∈ permission.keys.map Key.address := fun s hs => (hkeys s).1 (hweight s hs)
    exact ⟨signers, hrec, hnodup', hmem, by simpa [hsum signers hnodup' hmem] using hreach⟩
  · rintro ⟨signers, hrec, hnodup, hmem, hreach⟩
    have hlen : signers.length ≤ (permission.keys.map Key.address).length :=
      (List.subperm_of_subset hnodup hmem).length_le
    refine ⟨_, checkWeight_ok_iff.2 ⟨?_, signers, hrec, fun s hs => (hkeys s).2 (hmem s hs), ?_, rfl⟩, ?_⟩
    · simpa [hrec.length_eq] using hlen
    · rw [hnames signers hrec]
      exact hnodup.map hencode
    · simpa [hsum signers hnodup hmem] using hreach

/-! ## Signatures that spell their signer -/

def spellBytes (bytes : Bytes) : JsString := bytes.map fun b => Char.ofNat b.toNat

def readBytes (text : JsString) : Bytes := text.map fun c => UInt8.ofNat c.toNat

theorem readBytes_spellBytes (bytes : Bytes) : readBytes (spellBytes bytes) = bytes := by
  rw [readBytes, spellBytes, List.map_map]
  refine (List.map_congr_left fun b _ => ?_).trans bytes.map_id
  have hlt : b.toNat < 256 := b.toNat_lt
  have hvalid : b.toNat.isValidChar := .inl (by omega)
  have hchar : (Char.ofNat b.toNat).toNat = b.toNat := by
    rw [Char.ofNat, dif_pos hvalid]
    rfl
  simp [hchar]

theorem spellBytes_injective : Function.Injective spellBytes :=
  Function.LeftInverse.injective readBytes_spellBytes

def readAddress (text : JsString) : Except String Bytes :=
  if text = [] then .error "address is required" else .ok (readBytes text)

theorem readAddress_ne_nil {text : JsString} {address : Bytes} (h : readAddress text = .ok address) : address ≠ [] := by
  unfold readAddress at h
  split at h
  · cases h
  · rename_i hne
    cases h
    simpa [readBytes] using hne

/-- The signer's 21 bytes, and what is signed. -/
def signerOf (hash : Bytes) (base64 : JsString) : Except String Bytes :=
  let text := readBytes base64
  if text.length < 21 then .error "Header byte out of range"
  else if hash.isPrefixOf (text.drop 21) then .ok (text.take 21)
  else .error "Could not recover public key from signature"

/-- Keys that are their own addresses. -/
def keyring : CapsuleEnv where
  codec := ⟨fun _ => none, fun _ => none, fun _ => none, @base58_of_throws⟩
  decodeAddress := readAddress
  decode_ne_nil := @readAddress_ne_nil
  encodeAddress := spellBytes
  signatureToAddress := signerOf
  getBase64FromByteString := spellBytes
  pass := true
  checkPermissionOperations _ _ := .ok true
  getDefaultPermission owner := ⟨.Owner, 1, [⟨owner, 1⟩], []⟩
  createDefaultActivePermission owner properties := ⟨.Active, 1, [⟨owner, 1⟩], properties.activeDefaultOperations⟩
  rawHash rawData := [UInt8.ofNat rawData.feeLimit.toNat]
  getAddress := id
  signHash privateKey hash := privateKey ++ hash ++ List.replicate 65 0

theorem keyring_recovers {signer : Bytes} (hlen : signer.length = 21) (hash : Bytes) :
    Recovers keyring hash (keyring.signHash signer hash) signer := by
  constructor
  · simp only [keyring, List.length_append, List.length_replicate]
    omega
  · simp [keyring, signerOf, readBytes_spellBytes, hlen]

/-- The address of a key, after the prefix of the main net. -/
def keyAddress (b : UInt8) : Bytes := 0x41 :: List.replicate 20 b

/-- Two keys, neither of which is enough by itself. -/
def twoKeys : Permission := ⟨.Owner, 3, [⟨keyAddress 1, 1⟩, ⟨keyAddress 2, 2⟩], []⟩

theorem twoKeys_wellFormed : twoKeys.WellFormed where
  distinct := by decide
  pos := by simp [twoKeys]
  fits := by decide

theorem both_keys_reach : ∃ a, checkWeight keyring [] twoKeys
    [keyring.signHash (keyAddress 2) [7], keyring.signHash (keyAddress 1) [7]] [7] = .ok a ∧ 3 ≤ a.currentWeight :=
  (checkWeight_reaches_iff rfl spellBytes_injective twoKeys_wellFormed (by simp [Permission.Locked]) 3).2
    ⟨[keyAddress 2, keyAddress 1], .cons (keyring_recovers rfl [7]) (.cons (keyring_recovers rfl [7]) .nil),
      by decide, by decide, by decide⟩

end Signatures

end HardhatTron

import HardhatTron.Lib.JsonText
import HardhatTron.Node.Cheatcodes
import HardhatTron.Runtime.AddressForms
import HardhatTron.Runtime.BigIntJson
/-!
# Balances set and read

`setBalance` of the network helpers hands the node the numeral of an amount.
`provider.getBalance` does not parse the reply of `/wallet/getaccount`, since
`JSON.parse` rounds what is above `2 ^ 53`: it searches the text for
`/"balance"\s*:\s*(\d+)/`.

`getBalance_document` is what the search gives for any document.
`getBalance_settled`: in every run of calls, with requests lost and made twice, a
read gives to the unit what was set last, or what a call that failed since was
setting.
-/
namespace HardhatTron.Balances

open Lib

/-! ## Reading -/

def balanceName : CodeUnits := units "balance".toList

/-- `BigInt` of digits. -/
def digitsValue (digits : CodeUnits) : Nat := Nat.ofDigitChars 10 (digits.map fun u => Char.ofNat u.toNat) 0

/-- `m ? BigInt(m[1]) : 0n` -/
def balanceOfText (text : CodeUnits) : Nat := ((searchMember balanceName text).map digitsValue).getD 0

/-- A call of `getBalance`, what `_evmToTvm` holds then, whether there is a
TronWeb, and whether `fetch` and `text` succeed. -/
structure BalanceQuery where
  address : JsValue
  evmToTvm : EvmToTvm
  connected : Bool
  fetched : Bool

/-- `lookupTvmActualBase58(address) || signersMod.toBase58(address)` -/
def BalanceQuery.base58 (codec : AddressCodec) (q : BalanceQuery) : Option JsString :=
  match lookupTvmActualBase58 codec q.evmToTvm q.address with
  | some (c :: cs) => some (c :: cs)
  | _ => signersToBase58 codec q.address

/-- `getBalance` over the replies of `/wallet/getaccount`; `none` when the address is not converted. -/
def getBalance (codec : AddressCodec) (getaccount : JsString → CodeUnits) (q : BalanceQuery) : Option Nat :=
  if q.connected then
    ((q.base58 codec).bind codec.toHex).map fun hex => balanceOfText (if q.fetched then getaccount hex else [])
  else some 0

/-! ## Setting -/

/-- `Long.MAX_VALUE` -/
def LONG_MAX : Int := 9223372036854775807

structure SetBalance where
  address : JsValue
  balance : JsValue
  attempts : Attempts

inductive BalanceError where
  /-- `toBase58` or `BigInt` throws, or the node is handed no text for an address. -/
  | unconverted
  | error (message : String)

/-- The message of the JSON-RPC error that an exception becomes. -/
def CheatcodeFault.toRpc : CheatcodeFault → RpcException
  | .rpc e => e
  | .java e => .internal e.message

section

variable {A C : Type}

/-- `tre_setAccountBalance`, run whole. -/
def treSetAccountBalance (rt : Capsules A C) (addressParam balanceParam : JsString) (stores : ChainState A C) :
    Except RpcException Unit × ChainState A C :=
  let done := (HardhatTron.setAccountBalance rt (some (String.ofList addressParam))
    (some (String.ofList balanceParam))).exec stores
  match done.2 with
  | .thrown e => (.error (CheatcodeFault.toRpc e), done.1)
  | _ => (.ok (), done.1)

def setBalance (codec : AddressCodec) (rt : Capsules A C) (c : SetBalance) (stores : ChainState A C) :
    Except BalanceError Unit × ChainState A C :=
  match signersToBase58 codec c.address, toBigInt c.balance with
  | some addr, some b =>
    if LONG_MAX < b then
      (.error (.error ("setBalance: " ++ String.ofList (decimal b) ++ " exceeds Long.MAX_VALUE (9223372036854775807) — " ++
        "TVM stores account balance as a Java long. " ++
        "Cap funding requests at ~9 ether-equivalent for TVM tests.")), stores)
    else
      let r := rpcCall (treSetAccountBalance rt addr (decimal b)) c.attempts stores
      match callOrFalse r.1 with
      | .ok _ => (.ok (), r.2)
      | .error reason => (.error (.error ("setBalance failed: " ++ reason)), r.2)
  | _, _ => (.error .unconverted, stores)

/-! ## The node -/

/-- The node behind the two helpers. `getaccount` is its reply to an address in
hex; `keyOf` is where it stores an account. -/
structure AccountServer (A C : Type) where
  capsules : Capsules A C
  balanceOf : A → Int
  getaccount : JsString → ChainState A C → CodeUnits
  keyOf : Account → Bytes

variable (srv : AccountServer A C)

def AccountServer.balanceAt (key : Bytes) (stores : ChainState A C) : Int :=
  ((stores (.account key) : Option A).map srv.balanceOf).getD 0

/-- What follows the name in the reply: the numeral of a positive balance. -/
def numeralOf (b : Int) : Option CodeUnits := if 0 < b then some (units (Nat.toDigits 10 b.toNat)) else none

/-- The node reads base58 as the account, and numerals as their numbers or not at
all; it keeps the balance it is given, and replies with a JSON document that has
the balance under its name, or no number under it when there is none. -/
structure AccountServer.Lawful (codec : AddressCodec) (base58 : Account → JsString) : Prop where
  decodeAddress : ∀ a, srv.capsules.decodeAddress (some (String.ofList (base58 a))) = .ok (srv.keyOf a)
  decodeLong : ∀ (n m : Int), srv.capsules.decodeLong (some (String.ofList (decimal n))) = .ok m → m = n
  setBalance : ∀ account b, srv.balanceOf (srv.capsules.setBalance account b) = b
  reply : ∀ a hex stores, codec.toHex (base58 a) = some hex → ∃ v : Json NumberText, v.Written ∧
    Spelled v.tokens (srv.getaccount hex stores) ∧
    v.firstNumber balanceName = numeralOf (srv.balanceAt (srv.keyOf a) stores)

inductive BalanceCall (A C : Type) where
  | setBalance (c : SetBalance)
  | getBalance (q : BalanceQuery)
  /-- Whatever else the node does. -/
  | other (change : ChainState A C → ChainState A C)

inductive BalanceReply where
  | set (r : Except BalanceError Unit)
  | balance (n : Option Nat)
  | done

def step (codec : AddressCodec) (stores : ChainState A C) :
    BalanceCall A C → Option (BalanceReply × ChainState A C)
  | .setBalance c =>
    let r := setBalance codec srv.capsules c stores
    some (.set r.1, r.2)
  | .getBalance q => some (.balance (getBalance codec (fun hex => srv.getaccount hex stores) q), stores)
  | .other change => some (.done, change stores)

/-! ## What a read may give -/

/-- The key the node writes to. -/
def SetBalance.target (codec : AddressCodec) (c : SetBalance) : Option Bytes :=
  (signersToBase58 codec c.address).bind fun addr =>
    (srv.capsules.decodeAddress (some (String.ofList addr))).toOption

/-- The values the balance may have after an event: what was set, or with what was
being set when the call failed. -/
def settle (codec : AddressCodec) (key : Bytes) (values : List Int) : BalanceCall A C × BalanceReply → List Int
  | (.setBalance c, .set r) =>
    if c.target srv codec = some key then
      match toBigInt c.balance, r with
      | some b, .ok _ => [b]
      | some b, .error _ => if 0 ≤ b ∧ b ≤ LONG_MAX then b :: values else values
      | none, _ => values
    else values
  | _ => values

def settled (codec : AddressCodec) (key : Bytes) (b₀ : Int) (h : List (BalanceCall A C × BalanceReply)) : List Int :=
  h.foldl (settle srv codec key) [b₀]

/-- What else the node does leaves the balance alone. -/
def Spares (key : Bytes) (stores : ChainState A C) (c : BalanceCall A C) : Prop :=
  ∀ change, c = .other change → srv.balanceAt key (change stores) = srv.balanceAt key stores

/-- The address names the account in a form that `toBase58` converts, and is not remapped. -/
structure BalanceQuery.Names (codec : AddressCodec) (base58 : Account → JsString) (a : Account) (q : BalanceQuery) :
    Prop where
  form : AccountForm base58 a q.address
  converts : Converts q.address
  unmapped : lookupTvmActualBase58 codec q.evmToTvm q.address = none

end

/-! ## Any document -/

theorem balanceName_literal : ∀ u ∈ balanceName, isLiteralUnit u = true := by
  have h : balanceName.all isLiteralUnit = true := by decide
  exact List.all_eq_true.1 h

theorem digitsValue_units (n : Nat) : digitsValue (units (Nat.toDigits 10 n)) = n := by
  rw [digitsValue, chars_units_toDigits, Nat.ofDigitChars_ten_toDigits]

theorem balanceOfText_document {v : Json NumberText} {t : CodeUnits} (hv : v.Written) (ht : Spelled v.tokens t) :
    balanceOfText t = ((v.firstNumber balanceName).map digitsValue).getD 0 := by
  rw [balanceOfText, searchMember_document balanceName_literal hv ht]

/-- **Any document.** With whatever white space and escapes the reply is written,
what is read is the first member `balance`, at any depth, whose value begins with
digits: all these digits, or zero when there is none. A name is what is spelled
between its quotes: one written with an escape is not `balance` to the search. -/
theorem getBalance_document {codec : AddressCodec} {getaccount : JsString → CodeUnits} {q : BalanceQuery}
    {hex : JsString} {v : Json NumberText} (hconnected : q.connected = true) (hfetched : q.fetched = true)
    (hhex : (q.base58 codec).bind codec.toHex = some hex) (hv : v.Written) (ht : Spelled v.tokens (getaccount hex)) :
    getBalance codec getaccount q = some (((v.firstNumber balanceName).map digitsValue).getD 0) := by
  rw [getBalance, if_pos hconnected, hhex, Option.map_some, if_pos hfetched, balanceOfText_document hv ht]

/-! ## One call -/

section

variable {A C : Type} {srv : AccountServer A C} {codec : AddressCodec} {base58 : Account → JsString}
  {stores : ChainState A C} {addr : JsString} {b : Int}

/-- The account is stored. -/
def putAccount (stores : ChainState A C) (key : Bytes) (account : A) : ChainState A C :=
  Function.update stores (.account key) (some account)

theorem AccountServer.balanceAt_putAccount (key : Bytes) (account : A) :
    srv.balanceAt key (putAccount stores key account) = srv.balanceOf account := by
  have hget : putAccount stores key account (.account key) = some account := Function.update_self _ _ _
  unfold AccountServer.balanceAt
  rw [hget]
  rfl

theorem AccountServer.balanceAt_putAccount_of_ne {key key' : Bytes} (h : key ≠ key') (account : A) :
    srv.balanceAt key (putAccount stores key' account) = srv.balanceAt key stores := by
  have hget : putAccount stores key' account (.account key) = stores (.account key) :=
    Function.update_of_ne (by simpa using h) _ _
  unfold AccountServer.balanceAt
  rw [hget]

theorem exec_orThrow {α : Type} (x : Except CheatcodeFault α) (k : α → StoreProgram A C) (stores : ChainState A C) :
    (∃ e, x = .error e ∧ (orThrow x k).exec stores = (stores, .thrown e)) ∨
      ∃ a, x = .ok a ∧ (orThrow x k).exec stores = (k a).exec stores := by
  cases x with
  | error e => exact .inl ⟨e, rfl, rfl⟩
  | ok a => exact .inr ⟨a, rfl, rfl⟩

/-- The account that was read, or a new one, is written with the balance; nothing
is written when an exception is thrown on the way. -/
theorem exec_putBalance (rt : Capsules A C) (key : Bytes) (b : Int) (stores : ChainState A C) :
    (∃ e, (putBalance rt key b (stores (.account key))).exec stores = (stores, .thrown e)) ∨
      ∃ account, (putBalance rt key b (stores (.account key))).exec stores =
        (putAccount stores key (rt.setBalance account b), .answered) := by
  cases (stores (.account key) : Option A) with
  | some account => exact .inr ⟨account, rfl⟩
  | none =>
    rcases exec_orThrow (rt.getAllowMultiSign (stores (.dynamicProperty "AllowMultiSign"))) _ stores with
      ⟨e, -, he⟩ | ⟨allowMultiSign, -, hallow⟩
    · exact .inl ⟨e, he⟩
    · rcases exec_orThrow (rt.getLatestBlockHeaderTimestamp (stores (.dynamicProperty "LatestBlockHeaderTimestamp"))) _
        stores with ⟨e, -, he⟩ | ⟨timestamp, -, htimestamp⟩
      · exact .inl ⟨e, hallow.trans he⟩
      · rcases exec_orThrow (rt.newAccount key .Normal timestamp (allowMultiSign == 1)
          fun name => stores (.dynamicProperty name)) _ stores with ⟨e, -, he⟩ | ⟨account, -, haccount⟩
        · exact .inl ⟨e, hallow.trans (htimestamp.trans he)⟩
        · exact .inr ⟨account, hallow.trans (htimestamp.trans haccount)⟩

/-- What a request to set the balance does: nothing, or that. -/
theorem treSetAccountBalance_cases (hs : srv.Lawful codec base58) (addr : JsString) (b : Int) (stores : ChainState A C) :
    (∃ e, treSetAccountBalance srv.capsules addr (decimal b) stores = (.error e, stores)) ∨
      ∃ key account, srv.capsules.decodeAddress (some (String.ofList addr)) = .ok key ∧ 0 ≤ b ∧
        treSetAccountBalance srv.capsules addr (decimal b) stores =
          (.ok (), putAccount stores key (srv.capsules.setBalance account b)) := by
  have hthrown : ∀ e, (HardhatTron.setAccountBalance srv.capsules (some (String.ofList addr))
      (some (String.ofList (decimal b)))).exec stores = (stores, .thrown e) →
      ∃ e, treSetAccountBalance srv.capsules addr (decimal b) stores = (.error e, stores) := by
    intro e he
    exact ⟨_, by rw [treSetAccountBalance, he]⟩
  have hbody : HardhatTron.setAccountBalance srv.capsules (some (String.ofList addr))
      (some (String.ofList (decimal b))) = orThrow (srv.capsules.decodeAddress (some (String.ofList addr))) _ :=
    if_neg (by simp)
  rw [hbody] at hthrown
  rcases exec_orThrow (srv.capsules.decodeAddress (some (String.ofList addr))) _ stores with
    ⟨e, -, he⟩ | ⟨key, hkey, haddr⟩
  · exact .inl (hthrown e he)
  rw [haddr] at hthrown
  rcases exec_orThrow (srv.capsules.decodeLong (some (String.ofList (decimal b)))) _ stores with
    ⟨e, -, he⟩ | ⟨m, hm, hlong⟩
  · exact .inl (hthrown e he)
  rw [hlong] at hthrown
  obtain rfl := hs.decodeLong b m hm
  by_cases hneg : m < 0
  · rw [if_pos hneg] at hthrown
    exact .inl (hthrown _ rfl)
  rw [if_neg hneg] at hthrown hlong
  rcases exec_putBalance srv.capsules key m stores with ⟨e, he⟩ | ⟨account, haccount⟩
  · exact .inl (hthrown e he)
  · refine .inr ⟨key, account, hkey, by omega, ?_⟩
    rw [treSetAccountBalance, hbody, haddr, hlong]
    simp only [Program.read, Program.exec, haccount]

/-- Every balance is as it was, or it is the one to be set. -/
def SetOrSame (srv : AccountServer A C) (target : Option Bytes) (b : Int) (stores stores' : ChainState A C) : Prop :=
  ∀ key, srv.balanceAt key stores' = srv.balanceAt key stores ∨
    target = some key ∧ 0 ≤ b ∧ srv.balanceAt key stores' = b

theorem SetOrSame.refl (srv : AccountServer A C) (target : Option Bytes) (b : Int) (stores : ChainState A C) :
    SetOrSame srv target b stores stores :=
  fun _ => .inl rfl

theorem treSetAccountBalance_setOrSame (hs : srv.Lawful codec base58) {stores₀ : ChainState A C}
    (h : SetOrSame srv (srv.capsules.decodeAddress (some (String.ofList addr))).toOption b stores₀ stores) :
    SetOrSame srv (srv.capsules.decodeAddress (some (String.ofList addr))).toOption b stores₀
      (treSetAccountBalance srv.capsules addr (decimal b) stores).2 := by
  rcases treSetAccountBalance_cases hs addr b stores with ⟨e, he⟩ | ⟨key, account, hkey, hpos, hset⟩
  · rw [he]
    exact h
  · intro key'
    rw [hset]
    by_cases heq : key' = key
    · subst heq
      right
      rw [hkey]
      exact ⟨rfl, hpos, (srv.balanceAt_putAccount key' _).trans (hs.setBalance account b)⟩
    · rw [srv.balanceAt_putAccount_of_ne heq]
      exact h key'

theorem SetBalance.target_of {c : SetBalance} (h : signersToBase58 codec c.address = some addr) :
    c.target srv codec = (srv.capsules.decodeAddress (some (String.ofList addr))).toOption := by
  rw [SetBalance.target, h, Option.bind_some]

/-- However a call ends, no balance has changed but to the amount asked for, and
only when the amount is a `long` that is not negative. -/
theorem setBalance_setOrSame (hs : srv.Lawful codec base58) {c : SetBalance} (hb : toBigInt c.balance = some b) :
    SetOrSame srv (c.target srv codec) b stores (setBalance codec srv.capsules c stores).2 ∧
      (LONG_MAX < b → (setBalance codec srv.capsules c stores).2 = stores) := by
  unfold setBalance
  cases haddr : signersToBase58 codec c.address with
  | none => exact ⟨.refl _ _ _ _, fun _ => rfl⟩
  | some addr =>
    simp only [hb]
    by_cases hmax : LONG_MAX < b
    · rw [if_pos hmax]
      exact ⟨.refl _ _ _ _, fun _ => rfl⟩
    · rw [if_neg hmax, SetBalance.target_of haddr]
      have hcalled := rpcCall_state (a := c.attempts) (f := treSetAccountBalance srv.capsules addr (decimal b))
        (SetOrSame srv (srv.capsules.decodeAddress (some (String.ofList addr))).toOption b stores)
        (fun _ h => treSetAccountBalance_setOrSame hs h) (.refl _ _ _ stores)
      refine ⟨?_, fun h => absurd h hmax⟩
      split <;> exact hcalled

/-- Nothing changes when there is no amount. -/
theorem setBalance_of_none {rt : Capsules A C} {c : SetBalance} (hb : toBigInt c.balance = none) :
    (setBalance codec rt c stores).2 = stores := by
  unfold setBalance
  rw [hb]
  cases signersToBase58 codec c.address <;> rfl

/-- A call that succeeds has set the amount. -/
theorem setBalance_ok (hs : srv.Lawful codec base58) {c : SetBalance} {stores' : ChainState A C}
    (h : setBalance codec srv.capsules c stores = (.ok (), stores')) :
    ∃ b key, toBigInt c.balance = some b ∧ c.target srv codec = some key ∧ srv.balanceAt key stores' = b := by
  unfold setBalance at h
  cases haddr : signersToBase58 codec c.address with
  | none =>
    rw [haddr] at h
    cases h
  | some addr =>
    cases hb : toBigInt c.balance with
    | none =>
      rw [haddr, hb] at h
      cases h
    | some b =>
      simp only [haddr, hb] at h
      split at h
      · cases h
      · split at h
        · rename_i hok
          obtain ⟨-, rfl⟩ := Prod.mk.inj h
          have hcalled : rpcCall (treSetAccountBalance srv.capsules addr (decimal b)) c.attempts stores =
              (.ok (.ok ()), (rpcCall (treSetAccountBalance srv.capsules addr (decimal b)) c.attempts stores).2) := by
            generalize rpcCall (treSetAccountBalance srv.capsules addr (decimal b)) c.attempts stores = r at hok ⊢
            obtain ⟨r, stores'⟩ := r
            match r, hok with
            | .ok (.ok ()), _ => rfl
          have hlast := (rpcCall_ok_iff.1 hcalled).2
          refine ⟨b, ?_⟩
          rcases treSetAccountBalance_cases hs addr b _ with ⟨e, he⟩ | ⟨key, account, hkey, -, hset⟩
          · rw [he] at hlast
            cases hlast
          · rw [hset] at hlast
            refine ⟨key, rfl, ?_, ?_⟩
            · rw [SetBalance.target_of haddr, hkey]
              rfl
            · rw [← (Prod.mk.inj hlast).2, srv.balanceAt_putAccount]
              exact hs.setBalance account b
        · cases h

/-! ## Every run -/

/-- A balance that some values allow is allowed by what they settle to. -/
theorem settle_setBalance (hs : srv.Lawful codec base58) {key : Bytes} {values : List Int} {c : SetBalance}
    (hi : srv.balanceAt key stores ∈ values) :
    srv.balanceAt key (setBalance codec srv.capsules c stores).2 ∈
      settle srv codec key values (.setBalance c, .set (setBalance codec srv.capsules c stores).1) := by
  simp only [settle]
  cases hb : toBigInt c.balance with
  | none =>
    rw [setBalance_of_none hb]
    split <;> exact hi
  | some b =>
    obtain ⟨heffect, hmax⟩ : SetOrSame srv (c.target srv codec) b stores (setBalance codec srv.capsules c stores).2 ∧ _ :=
      setBalance_setOrSame hs hb
    by_cases htarget : c.target srv codec = some key
    · rw [if_pos htarget]
      cases hr : (setBalance codec srv.capsules c stores).1 with
      | ok =>
        obtain ⟨b', key', hb', htarget', hset⟩ := setBalance_ok hs (Prod.ext hr rfl)
        obtain rfl : key = key' := Option.some.inj (htarget.symm.trans htarget')
        obtain rfl : b = b' := Option.some.inj (hb.symm.trans hb')
        simp [hset]
      | error e =>
        simp only
        rcases heffect key with hsame | ⟨-, hpos, hset⟩
        · rw [hsame]
          split
          · exact List.mem_cons_of_mem _ hi
          · exact hi
        · by_cases hle : b ≤ LONG_MAX
          · rw [if_pos ⟨hpos, hle⟩, hset]
            exact List.mem_cons_self
          · rw [if_neg fun h => hle h.2, hmax (by omega)]
            exact hi
    · rw [if_neg htarget]
      rcases heffect key with hsame | ⟨heq, -⟩
      · rw [hsame]
        exact hi
      · exact absurd heq htarget

theorem balanceAt_settled (hs : srv.Lawful codec base58) {key : Bytes} {s₀ s : ChainState A C} {h}
    (hr : Run (step srv codec) (Spares srv key) s₀ h s) :
    srv.balanceAt key s ∈ settled srv codec key (srv.balanceAt key s₀) h := by
  apply Run.inv (fun h s => srv.balanceAt key s ∈ settled srv codec key (srv.balanceAt key s₀) h) _ _ hr
  · simp [settled]
  · intro h s c r s' _ hi hok hst
    have hsettled : ∀ e, settled srv codec key (srv.balanceAt key s₀) (h ++ [e]) =
        settle srv codec key (settled srv codec key (srv.balanceAt key s₀) h) e := by
      intro e
      rw [settled, List.foldl_append]
      rfl
    rw [hsettled]
    cases c with
    | setBalance c =>
      obtain ⟨rfl, rfl⟩ := Prod.mk.inj (Option.some.inj hst)
      exact settle_setBalance hs hi
    | getBalance q =>
      obtain ⟨rfl, rfl⟩ := Prod.mk.inj (Option.some.inj hst)
      exact hi
    | other change =>
      obtain ⟨rfl, rfl⟩ := Prod.mk.inj (Option.some.inj hst)
      rw [hok change rfl]
      exact hi

theorem BalanceQuery.base58_of_names (hlaws : Base58Laws codec base58) {a : Account} (q : BalanceQuery)
    (hq : q.Names codec base58 a) : q.base58 codec = some (base58 a) := by
  rw [BalanceQuery.base58, hq.unmapped]
  exact (hq.form.toBase58_iff hlaws).2 hq.converts

theorem digitsValue_numeralOf (b : Int) : ((numeralOf b).map digitsValue).getD 0 = b.toNat := by
  unfold numeralOf
  split
  · exact digitsValue_units b.toNat
  · simp only [Option.map_none, Option.getD_none]
    omega

/-- What is read is the balance. -/
theorem getBalance_balanceAt (hs : srv.Lawful codec base58) (hlaws : Base58Laws codec base58) {a : Account}
    {q : BalanceQuery} (hq : q.Names codec base58 a) (hconnected : q.connected = true) (hfetched : q.fetched = true) :
    getBalance codec (fun hex => srv.getaccount hex stores) q =
      some (srv.balanceAt (srv.keyOf a) stores).toNat := by
  obtain ⟨-, hex, hhex, -⟩ := hlaws.reads a
  obtain ⟨v, hv, hspelled, hfirst⟩ := hs.reply a hex stores hhex
  have hread : (q.base58 codec).bind codec.toHex = some hex := by
    rw [q.base58_of_names hlaws hq]
    exact hhex
  rw [getBalance, if_pos hconnected, hread, Option.map_some, if_pos hfetched, balanceOfText_document hv hspelled, hfirst,
    digitsValue_numeralOf]

/-- **Read as it was set.** In every run, whatever else the node does to other
accounts, a read of the account that is answered gives one of the settled values:
the amount of the last call that succeeded in setting it, or an amount that a call
was setting that has failed since. -/
theorem getBalance_settled (hs : srv.Lawful codec base58) (hlaws : Base58Laws codec base58) {a : Account}
    {q : BalanceQuery} (hq : q.Names codec base58 a) (hconnected : q.connected = true) (hfetched : q.fetched = true)
    {s₀ s : ChainState A C} {h n} (hr : Run (step srv codec) (Spares srv (srv.keyOf a)) s₀
      (h ++ [(.getBalance q, .balance n)]) s) :
    ∃ b ∈ settled srv codec (srv.keyOf a) (srv.balanceAt (srv.keyOf a) s₀) h, n = some b.toNat := by
  obtain ⟨m, hrun, -, hst⟩ := hr.last
  obtain ⟨heq, -⟩ := Prod.mk.inj (Option.some.inj hst)
  refine ⟨_, balanceAt_settled hs hrun, ?_⟩
  rw [← BalanceReply.balance.inj heq]
  exact getBalance_balanceAt hs hlaws hq hconnected hfetched

end

/-! ### A balance that no double holds -/

/-- The reply for a balance: a name with a quote in it, another balance, and the balance if there is one. -/
def replyDocument (b : Int) : Json NumberText :=
  .obj ((units "account_name".toList, .str (units "\\\"balance\\\":7".toList)) ::
    (units "frozen_balance".toList, .num (integerLiteral 5)) ::
    (if 0 < b then [(balanceName, .num (integerLiteral b))] else []))

/-- The tokens with a blank before each. -/
def spacedText (ts : List Token) : CodeUnits := ts.flatMap fun k => unitOf ' ' :: k.text

theorem spelled_spacedText (ts : List Token) : Spelled ts (spacedText ts) := by
  induction ts with
  | nil => exact .nil rfl
  | cons k ts ih =>
    have hcons := Spelled.cons (show [unitOf ' '].all isSpaceUnit = true by decide) k ih
    simpa [spacedText] using hcons

/-- Accounts that are their balance, stored under their twenty bytes. -/
def plainServer : AccountServer Int Unit where
  capsules :=
    { decodeAddress := fun p =>
        match p.bind fun s => spellingCodec.toHex s.toList with
        | some hex => .ok (bytesOfHex ((hex.drop 2).map Char.toLower))
        | none => .error (.rpc (.invalidParams "invalid address"))
      decodeLong := fun p =>
        match p with
        | some s =>
          if s.toList.all Char.isDigit then .ok (Nat.ofDigitChars 10 s.toList 0)
          else .error (.rpc (.invalidParams "invalid number"))
        | none => .error (.rpc (.invalidParams "invalid number"))
      decodeDataWord := fun _ => .ok []
      decodeHex := fun _ => .ok []
      compose := fun slot address _ => slot ++ address
      sha3 := id
      getAllowMultiSign := fun _ => .ok 0
      getLatestBlockHeaderTimestamp := fun _ => .ok 0
      newAccount := fun _ _ _ _ _ => .ok 0
      newNamedAccount := fun _ _ _ => 0
      setBalance := fun _ b => b
      getType := fun _ => .Normal
      updateAccountType := fun account _ => account
      clearOwnerPermission := id
      clearWitnessPermission := id
      clearActivePermission := id
      newContract := fun _ _ => ()
      getContractVersion := fun _ => 0
      setCodeHash := fun contract _ => contract }
  balanceOf := id
  getaccount hex stores :=
    spacedText (replyDocument
      ((stores (.account (bytesOfHex ((hex.drop 2).map Char.toLower))) : Option Int).getD 0)).tokens
  keyOf a := bytesOfHex a.text

theorem replyDocument_written (b : Int) : (replyDocument b).Written := by
  unfold replyDocument
  constructor <;> split <;>
    simp only [Json.strings, Json.stringsMembers, Json.keys, Json.keysMembers, List.append_nil, List.nil_append,
      List.cons_append, List.forall_mem_cons, List.not_mem_nil, false_imp_iff, implies_true, and_true]
  · exact ⟨by decide, by decide, by decide, by decide⟩
  · exact ⟨by decide, by decide, by decide⟩
  · exact ⟨by decide, by decide, by decide⟩
  · exact ⟨by decide, by decide⟩

theorem leadingDigits_integerLiteral {b : Int} (h : 0 < b) :
    leadingDigits (integerLiteral b).text = some (units (Nat.toDigits 10 b.toNat)) := by
  have htext : (integerLiteral b).text = units (Nat.toDigits 10 b.toNat) := by
    have habs : b.natAbs = b.toNat := by omega
    have hminus : minus b = [] := if_neg (by omega)
    rw [← habs]
    exact (units_decimal b).trans (by rw [hminus, List.nil_append])
  have hnone : ∀ u ∈ ([] : CodeUnits).head?, isDigitUnit u = false := by simp
  have htake := (takeWhile_digits b.toNat hnone).1
  rw [List.append_nil] at htake
  obtain ⟨u, us, hus, -⟩ := exists_digits b.toNat
  rw [htext, leadingDigits, htake, hus]
  exact if_neg (List.cons_ne_nil u us)

theorem replyDocument_firstNumber (b : Int) : (replyDocument b).firstNumber balanceName = numeralOf b := by
  have haccount : units "account_name".toList ≠ balanceName := by decide
  have hfrozen : units "frozen_balance".toList ≠ balanceName := by decide
  unfold replyDocument numeralOf
  split
  · rename_i h
    simp only [Json.firstNumber, Json.firstNumberMembers, if_neg haccount, if_neg hfrozen, if_pos, Json.digits?,
      leadingDigits_integerLiteral h, Option.none_or, Option.some_or]
  · simp only [Json.firstNumber, Json.firstNumberMembers, if_neg haccount, if_neg hfrozen, Option.none_or]

theorem plainServer_lawful : plainServer.Lawful spellingCodec spelled where
  decodeAddress a := by
    obtain ⟨-, hex, hhex, hlower⟩ := base58_spelled a
    simp only [plainServer, Option.bind_some, String.toList_ofList, hhex, hlower]
  decodeLong n m h := by
    by_cases hneg : n < 0
    · have hdigits : (decimal n).all Char.isDigit = false := by
        rw [decimal, if_pos hneg]
        rfl
      simp only [plainServer, String.toList_ofList, hdigits] at h
      cases h
    · have hdigits : (decimal n).all Char.isDigit = true := by
        rw [decimal, if_neg hneg]
        exact List.all_eq_true.2 (isDigit_toDigits _)
      simp only [plainServer, String.toList_ofList, hdigits, if_true] at h
      obtain rfl := Except.ok.inj h
      rw [decimal, if_neg hneg, Nat.ofDigitChars_ten_toDigits]
      omega
  setBalance _ _ := rfl
  reply a hex stores h := by
    obtain ⟨-, hex', hhex', hlower⟩ := base58_spelled a
    obtain rfl : hex' = hex := Option.some.inj (hhex'.symm.trans h)
    refine ⟨_, replyDocument_written _, spelled_spacedText _, ?_⟩
    rw [replyDocument_firstNumber, hlower]
    simp only [AccountServer.balanceAt, plainServer, Option.map_id, id]

theorem plainServer_decodeLong {b : Int} (h : 0 ≤ b) :
    plainServer.capsules.decodeLong (some (String.ofList (decimal b))) = .ok b := by
  have hdigits : (Nat.toDigits 10 b.natAbs).all Char.isDigit = true := List.all_eq_true.2 (isDigit_toDigits _)
  have hnat : (b.natAbs : Int) = b := by omega
  simp only [plainServer, String.toList_ofList, decimal, if_neg (Int.not_lt.2 h), hdigits, if_true,
    Nat.ofDigitChars_ten_toDigits, hnat]

/-- The plain server sets what it is asked to. -/
theorem plainServer_sets (a : Account) {b : Int} (h : 0 ≤ b) (stores : ChainState Int Unit) :
    (treSetAccountBalance plainServer.capsules (spelled a) (decimal b) stores).1 = .ok () := by
  have hset : HardhatTron.setAccountBalance plainServer.capsules (some (String.ofList (spelled a)))
      (some (String.ofList (decimal b))) =
      .read (.account (plainServer.keyOf a)) (putBalance plainServer.capsules (plainServer.keyOf a) b) := by
    unfold HardhatTron.setAccountBalance
    rw [if_neg (by simp), plainServer_lawful.decodeAddress, plainServer_decodeLong h]
    exact if_neg (Int.not_lt.2 h)
  unfold treSetAccountBalance
  rw [hset]
  simp only [Program.read, Program.exec]
  cases (stores (.account (plainServer.keyOf a)) : Option Int) <;> rfl

theorem plainServer_setBalance {a : Account} {c : SetBalance} {b : Int}
    (haddr : signersToBase58 spellingCodec c.address = some (spelled a)) (hb : toBigInt c.balance = some b)
    (h : 0 ≤ b) (hmax : b ≤ LONG_MAX) (hlast : c.attempts.last = .answered) (stores : ChainState Int Unit) :
    (setBalance spellingCodec plainServer.capsules c stores).1 = .ok () := by
  unfold setBalance
  simp only [haddr, hb, rpcCall_eq, hlast, request, plainServer_sets a h, callOrFalse, if_neg (Int.not_lt.2 hmax)]

/-- The test account's balance is set to the largest `long`, in a request that was executed and made again. -/
def setLargest : SetBalance :=
  ⟨.str ("0x".toList ++ testAccount.text), .bigint LONG_MAX, ⟨.fetchThrows true ⟨"TypeError", "fetch failed"⟩, .answered⟩⟩

/-- And read from a contract at its address. -/
def readContract : BalanceQuery :=
  ⟨.obj [("target".toList, .str ("0x".toList ++ testAccount.text))], fun _ => none, true, true⟩

theorem setLargest_address : signersToBase58 spellingCodec setLargest.address = some (spelled testAccount) := by
  have hform : AccountForm spelled testAccount setLargest.address := .text (.evmHex testAccount.lower)
  exact (hform.toBase58_iff spelling_base58Laws).2 rfl

theorem readContract_names : readContract.Names spellingCodec spelled testAccount where
  form := by
    apply AccountForm.object
    · intro s h
      cases h
    · intro s h
      cases h
      exact .evmHex testAccount.lower
    · intro s h
      cases h
    · exact ⟨_, .inr (.inl rfl)⟩
  converts := rfl
  unmapped := by
    unfold lookupTvmActualBase58
    split <;> rfl

theorem largest_document : getBalance spellingCodec (fun _ => spacedText (replyDocument LONG_MAX).tokens) readContract =
    some 9223372036854775807 := by
  obtain ⟨-, hex, hhex, -⟩ := spelling_base58Laws.reads testAccount
  have hread : (readContract.base58 spellingCodec).bind spellingCodec.toHex = some hex := by
    rw [readContract.base58_of_names spelling_base58Laws readContract_names]
    exact hhex
  rw [getBalance_document rfl rfl hread (replyDocument_written LONG_MAX) (spelled_spacedText _),
    replyDocument_firstNumber, digitsValue_numeralOf]
  rfl

/-- No account, no code, no contract. -/
def noAccounts : ChainState Int Unit
  | .account _ => (none : Option Int)
  | .code _ => (none : Option Bytes)
  | .contract _ => (none : Option Unit)
  | .storageRow _ => (none : Option Bytes)
  | .dynamicProperty _ => (none : Option Bytes)

/-- The largest `long` is read back to the unit. -/
theorem largest_settled : ∃ n s, Run (step plainServer spellingCodec)
      (Spares plainServer (plainServer.keyOf testAccount)) noAccounts
      ([(.setBalance setLargest, .set (.ok ()))] ++ [(.getBalance readContract, .balance n)]) s ∧
    n = some 9223372036854775807 := by
  have hset := plainServer_setBalance setLargest_address (c := setLargest) (b := LONG_MAX) rfl (by decide) le_rfl rfl
    noAccounts
  have hfirst : Run (step plainServer spellingCodec) (Spares plainServer (plainServer.keyOf testAccount)) noAccounts
      [(.setBalance setLargest, .set (.ok ()))]
      (setBalance spellingCodec plainServer.capsules setLargest noAccounts).2 := by
    rw [← hset]
    exact Run.snoc (h := []) (BalanceCall.setBalance setLargest) .nil (fun _ h => by cases h) rfl
  have hrun := hfirst.snoc (.getBalance readContract) (fun _ h => by cases h) rfl
  refine ⟨_, _, hrun, ?_⟩
  obtain ⟨b, hb, hn⟩ := getBalance_settled plainServer_lawful spelling_base58Laws readContract_names rfl rfl hrun
  have htarget : setLargest.target plainServer spellingCodec = some (plainServer.keyOf testAccount) := by
    rw [SetBalance.target_of setLargest_address, plainServer_lawful.decodeAddress]
    rfl
  have hsettled : settled plainServer spellingCodec (plainServer.keyOf testAccount)
      (plainServer.balanceAt (plainServer.keyOf testAccount) noAccounts)
      [(BalanceCall.setBalance setLargest, .set (.ok ()))] = [LONG_MAX] := by
    simp only [settled, List.foldl_cons, List.foldl_nil, settle, if_pos htarget]
    rfl
  rw [hsettled, List.mem_singleton] at hb
  rw [hn, hb]
  rfl

end HardhatTron.Balances

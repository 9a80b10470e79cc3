import HardhatTron.Runtime.BalanceChanges
import Mathlib.Data.List.DropRight
/-!
# The token-balance matcher

`tokenBalanceChange` reads the change of a balance off the Transfer logs of a
receipt. `tokenBalanceChange_eq` compares it with reference ERC20 ledgers that
emit those logs, whatever else is in the receipt.
-/
namespace HardhatTron

open Lib

/-! ## The matcher -/

def zeroAccount : Account := repeated '0' (by decide) (by decide)

/-- The address in a topic: its last 40 characters, in lowercase. -/
def topicAddress (topic : JsString) : JsString := "0x".toList ++ (topic.rtake 40).map Char.toLower

/-- One round of the loop; `none` when `BigInt` throws. -/
def transferChange (erc20TransferTopic tokenAddrLower accountAddrLower : JsString) (change : Int) (log : Log) :
    Option Int :=
  match log.address, log.topics with
  | some (c :: cs), topics =>
    if (c :: cs).map Char.toLower ≠ tokenAddrLower then some change
    else
      match topics with
      | [signature, source, target] =>
        if signature.map Char.toLower ≠ erc20TransferTopic.map Char.toLower then some change
        else do
          let value ← toBigInt (.str (if log.data = [] then "0x0".toList else log.data))
          let change := if topicAddress source = accountAddrLower then change - value else change
          some (if topicAddress target = accountAddrLower then change + value else change)
      | _ => some change
  | _, _ => some change

def tokenBalanceChange (erc20TransferTopic : JsString) (receipt : Option Receipt)
    (tokenAddrLower accountAddrLower : JsString) : Option Int :=
  match receipt with
  | none => some 0
  | some receipt =>
    if accountAddrLower = zeroAccount.evm then some 0
    else receipt.logs.foldlM (transferChange erc20TransferTopic tokenAddrLower accountAddrLower) 0

/-! ## Reference tokens -/

/-- A token's balances; nobody holds the zero address's. -/
structure TokenLedger where
  balanceOf : Account → Nat
  zero_empty : balanceOf zeroAccount = 0

/-- The amounts are words of 32 bytes. -/
abbrev Amount := Fin (16 ^ 64)

inductive TokenOp where
  | mint (target : Account) (amount : Amount)
  | burn (source : Account) (amount : Amount)
  | transfer (source target : Account) (amount : Amount)

def TokenLedger.set (l : TokenLedger) (a : Account) (balance : Nat) (h : a ≠ zeroAccount) : TokenLedger :=
  ⟨Function.update l.balanceOf a balance, (Function.update_of_ne (Ne.symm h) balance l.balanceOf).trans l.zero_empty⟩

/-- What the token does, or that it reverts. -/
def TokenOp.run (l : TokenLedger) : TokenOp → Option TokenLedger
  | .mint target amount =>
    if h : target ≠ zeroAccount then some (l.set target (l.balanceOf target + amount.val) h) else none
  | .burn source amount =>
    if h : source ≠ zeroAccount then
      if amount.val ≤ l.balanceOf source then some (l.set source (l.balanceOf source - amount.val) h) else none
    else none
  | .transfer source target amount =>
    if h : source ≠ zeroAccount ∧ target ≠ zeroAccount then
      if amount.val ≤ l.balanceOf source then
        let l := l.set source (l.balanceOf source - amount.val) h.1
        some (l.set target (l.balanceOf target + amount.val) h.2)
      else none
    else none

/-- The fields of the Transfer log: a mint comes from the zero address, a burn goes there. -/
def TokenOp.fields : TokenOp → Account × Account × Amount
  | .mint target amount => (zeroAccount, target, amount)
  | .burn source amount => (source, zeroAccount, amount)
  | .transfer source target amount => (source, target, amount)

theorem isHexDigit_padded (a : Account) : ∀ c ∈ List.replicate 24 '0' ++ a.text, isHexDigit c = true := by
  intro c hc
  rcases List.mem_append.1 hc with hc | hc
  · rw [List.eq_of_mem_replicate hc]
    decide
  · exact a.digits c hc

theorem length_padded (a : Account) : (List.replicate 24 '0' ++ a.text).length = 64 := by
  rw [List.length_append, List.length_replicate, a.length_eq]

theorem toLower_padded (a : Account) :
    (List.replicate 24 '0' ++ a.text).map Char.toLower = List.replicate 24 '0' ++ a.text := by
  rw [List.map_append, a.lower]
  rfl

/-- An address in 32 bytes. -/
def paddedTopic (a : Account) : HexText 64 :=
  ⟨List.replicate 24 '0' ++ a.text, length_padded a, isHexDigit_padded a, toLower_padded a⟩

/-- The standard log, as the node reports it. -/
def TokenOp.log (signature : HexText 64) (token : Account) (o : TokenOp) : InfoLog where
  address := token.text
  topics := [signature.text, (paddedTopic o.fields.1).text, (paddedTopic o.fields.2.1).text]
  data := (hexWord 64 o.fields.2.2.val).text

/-- A log that is no Transfer log of the token. -/
def Foreign (signature : HexText 64) (token : Account) (l : InfoLog) : Prop :=
  l.address.map Char.toLower ≠ token.text ∨ l.topics.length ≠ 3 ∨
    ∀ t ∈ l.topics.head?, (with0x t).map Char.toLower ≠ "0x".toList ++ signature.text

/-- What happens in a transaction that is logged: a token moves, or a contract logs something. -/
inductive TokenEvent where
  | op (token : Account) (o : TokenOp)
  | log (l : InfoLog)

def TokenEvent.run (ledgers : Account → TokenLedger) : TokenEvent → Option (Account → TokenLedger)
  | .op token o => (o.run (ledgers token)).map (Function.update ledgers token)
  | .log _ => some ledgers

def TokenEvent.logged (signature : HexText 64) : TokenEvent → InfoLog
  | .op token o => o.log signature token
  | .log l => l

/-- The tokens' ledgers after the events, unless one reverts. -/
def ledgersAfter (ledgers : Account → TokenLedger) (events : List TokenEvent) : Option (Account → TokenLedger) :=
  events.foldlM TokenEvent.run ledgers

/-! ## Reading the logs -/

theorem with0x_hexText {n : Nat} (t : HexText n) : with0x t.text = "0x".toList ++ t.text := by
  rw [with0x, if_neg]
  rintro ⟨rest, h⟩
  have hx := t.digits 'x' (by rw [← h]; simp)
  exact absurd hx (by decide)

theorem topicAddress_padded (a : Account) : topicAddress ("0x".toList ++ (paddedTopic a).text) = a.evm := by
  have hlast : ∀ l : JsString, (l ++ a.text).rtake 40 = a.text := by
    intro l
    rw [List.rtake, List.length_append, a.length_eq, Nat.add_sub_cancel, List.drop_left]
  rw [topicAddress, paddedTopic, ← List.append_assoc, hlast, a.lower, Account.evm]

theorem trim_eq_self {s : JsString} (h : ∀ c ∈ s, c.isWhitespace = false) : trim s = s := by
  have hdrop : ∀ l : JsString, (∀ c ∈ l, c.isWhitespace = false) → l.dropWhile Char.isWhitespace = l := by
    intro l hl
    cases l with
    | nil => rfl
    | cons c cs => rw [List.dropWhile_cons_of_neg (by simp [hl c])]
  rw [trim, hdrop s h, hdrop s.reverse (fun c hc => h c (List.mem_reverse.1 hc)), List.reverse_reverse]

theorem isWhitespace_of_isHexDigit {c : Char} (h : isHexDigit c = true) : c.isWhitespace = false := by
  rw [Bool.eq_false_iff]
  intro hw
  simp only [Char.isWhitespace, Bool.or_eq_true, decide_eq_true_eq] at hw
  rcases hw with ((rfl | rfl) | rfl) | rfl <;> exact absurd h (by decide)

theorem digitsOf_hexWord {n v : Nat} (hn : n ≠ 0) (h : v < 16 ^ n) : digitsOf 16 (hexWord n v).text = some v := by
  rw [digitsOf, if_pos]
  · exact congrArg some (parseHex_hexWord h)
  · constructor
    · exact (hexWord n v).ne_nil hn
    · rw [List.all_eq_true]
      intro c hc
      obtain ⟨d, hd, rfl⟩ := mem_fixedHex c hc
      rw [isHexDigit_digitChar hd, hexValue_digitChar hd]
      exact decide_eq_true hd

/-- The matcher reads an amount as it was written. -/
theorem toBigInt_hexWord {n v : Nat} (hn : n ≠ 0) (h : v < 16 ^ n) :
    toBigInt (.str ("0x".toList ++ (hexWord n v).text)) = some (v : Int) := by
  have hspace : ∀ c ∈ "0x".toList ++ (hexWord n v).text, c.isWhitespace = false := by
    intro c hc
    rcases List.mem_append.1 hc with hc | hc
    · rcases List.mem_cons.1 hc with rfl | hc
      · rfl
      · rw [List.mem_singleton.1 hc]
        rfl
    · exact isWhitespace_of_isHexDigit ((hexWord n v).digits c hc)
  rw [toBigInt, trim_eq_self hspace]
  change (digitsOf 16 (hexWord n v).text).map Int.ofNat = some (v : Int)
  rw [digitsOf_hexWord hn h]
  rfl

/-! ## The ledgers post the logs -/

/-- What the log of an operation posts. -/
def TokenOp.entries : TokenOp → List (Account × Int)
  | .mint target amount => [(target, (amount.val : Int))]
  | .burn source amount => [(source, -(amount.val : Int))]
  | .transfer source target amount => payment source target (amount.val : Int)

/-- The events of one token. -/
def TokenEvent.entries (token : Account) : TokenEvent → List (Account × Int)
  | .op token' o => if token' = token then o.entries else []
  | .log _ => []

theorem TokenLedger.set_cast (l : TokenLedger) {x : Account} (balance : Nat) (h : x ≠ zeroAccount) :
    (fun a => ((l.set x balance h).balanceOf a : Int)) = Function.update (fun a => (l.balanceOf a : Int)) x balance := by
  funext a
  unfold TokenLedger.set
  by_cases ha : a = x
  · subst ha
    simp only [Function.update_self]
  · simp only [Function.update_of_ne ha]

/-- An operation that does not revert posts its entries. -/
theorem TokenOp.run_eq_post {o : TokenOp} {l l' : TokenLedger} (h : o.run l = some l') :
    (fun a => (l'.balanceOf a : Int)) = post o.entries fun a => (l.balanceOf a : Int) := by
  cases o with
  | mint target amount =>
    simp only [TokenOp.run] at h
    split at h
    · obtain rfl := Option.some.inj h
      rw [TokenLedger.set_cast, Nat.cast_add]
      rfl
    · cases h
  | burn source amount =>
    simp only [TokenOp.run] at h
    split at h
    · split at h
      · rename_i hle
        obtain rfl := Option.some.inj h
        rw [TokenLedger.set_cast, Nat.cast_sub hle, sub_eq_add_neg]
        rfl
      · cases h
    · cases h
  | transfer source target amount =>
    simp only [TokenOp.run] at h
    split at h
    · rename_i hne
      split at h
      · rename_i hle
        obtain rfl := Option.some.inj h
        have hdebit := l.set_cast (l.balanceOf source - amount.val) hne.1
        rw [Nat.cast_sub hle, sub_eq_add_neg] at hdebit
        have htarget := congrFun hdebit target
        rw [TokenLedger.set_cast, Nat.cast_add, hdebit, htarget]
        rfl
      · cases h
    · cases h

/-- The balances of a token after the events. -/
theorem ledgersAfter_balance {before after : Account → TokenLedger} {events : List TokenEvent}
    (h : ledgersAfter before events = some after) (token a : Account) :
    ((after token).balanceOf a : Int) =
      (before token).balanceOf a + gain (events.flatMap (TokenEvent.entries token)) a := by
  induction events generalizing before with
  | nil =>
    obtain rfl : before = after := Option.some.inj h
    simp
  | cons e events ih =>
    rw [ledgersAfter, List.foldlM_cons] at h
    obtain ⟨mid, hmid, hrest⟩ := Option.bind_eq_some_iff.1 h
    have hstep : ((mid token).balanceOf a : Int) = (before token).balanceOf a + gain (e.entries token) a := by
      cases e with
      | log l =>
        obtain rfl : before = mid := Option.some.inj hmid
        simp [TokenEvent.entries]
      | op token' o =>
        obtain ⟨l, hl, rfl⟩ := Option.map_eq_some_iff.1 hmid
        by_cases ht : token' = token
        · subst ht
          rw [Function.update_self, TokenEvent.entries, if_pos rfl]
          exact (congrFun (TokenOp.run_eq_post hl) a).trans (post_apply _ _ _)
        · rw [Function.update_of_ne (Ne.symm ht), TokenEvent.entries, if_neg ht, gain_nil, add_zero]
    rw [ih hrest, hstep, List.flatMap_cons, gain_append, add_assoc]

/-! ## The matcher reads them back -/

section

variable {signature : HexText 64} {token account : Account}

/-- The log the loop counts. -/
theorem transferChange_of_transfer {topic tokenLower accountLower : JsString} {log : Log} {a s t u : JsString} {v : Int}
    (haddress : log.address = some a) (hne : a ≠ []) (htoken : a.map Char.toLower = tokenLower)
    (htopics : log.topics = [s, t, u]) (hsignature : s.map Char.toLower = topic.map Char.toLower) (hdata : log.data ≠ [])
    (hvalue : toBigInt (.str log.data) = some v) (change : Int) :
    transferChange topic tokenLower accountLower change log =
      some (if topicAddress u = accountLower then
        (if topicAddress t = accountLower then change - v else change) + v
        else if topicAddress t = accountLower then change - v else change) := by
  obtain ⟨c, cs, rfl⟩ := List.exists_cons_of_ne_nil hne
  unfold transferChange
  simp only [haddress, htopics, htoken, hsignature, ne_eq, not_true_eq_false, if_false, if_neg hdata, hvalue, bind,
    Option.bind]

/-- The logs it skips. -/
theorem transferChange_of_other {topic tokenLower accountLower : JsString} {log : Log}
    (h : ∀ a s t u, log.address = some a → a.map Char.toLower = tokenLower → log.topics = [s, t, u] →
      s.map Char.toLower ≠ topic.map Char.toLower) (change : Int) :
    transferChange topic tokenLower accountLower change log = some change := by
  unfold transferChange
  split
  · rename_i c cs haddress
    split
    · rfl
    · rename_i htoken
      split
      · rename_i s t u htopics
        rw [if_pos (h _ s t u haddress (not_not.1 htoken) htopics)]
      · rfl
  · rfl

theorem zeroX_lower {n : Nat} (t : HexText n) :
    ("0x".toList ++ t.text).map Char.toLower = "0x".toList ++ t.text := by
  rw [List.map_append, t.lower]
  rfl

theorem translateLog_address {l : InfoLog} (h : l.address ≠ []) (txId : JsString) (info : TransactionInfo) (i : Nat) :
    (translateLog txId info l i).address = some ("0x".toList ++ l.address) :=
  if_neg h

theorem translateLog_data {l : InfoLog} (h : l.data ≠ []) (txId : JsString) (info : TransactionInfo) (i : Nat) :
    (translateLog txId info l i).data = with0x l.data :=
  if_neg h

/-- The fields of the log say what is posted, to all but the zero address. -/
theorem gain_fields (haccount : account ≠ zeroAccount) (o : TokenOp) :
    gain o.entries account = (if o.fields.2.1 = account then (o.fields.2.2.val : Int) else 0) -
      (if o.fields.1 = account then (o.fields.2.2.val : Int) else 0) := by
  have hflip : ∀ b : Account, account = b ↔ b = account := fun _ => eq_comm
  cases o with
  | mint target amount =>
    change gain [(target, (amount.val : Int))] account = (if target = account then (amount.val : Int) else 0) -
      (if zeroAccount = account then (amount.val : Int) else 0)
    rw [if_neg haccount.symm, gain_cons, gain_nil, sub_zero, add_zero]
    simp only [hflip]
  | burn source amount =>
    change gain [(source, -(amount.val : Int))] account = (if zeroAccount = account then (amount.val : Int) else 0) -
      (if source = account then (amount.val : Int) else 0)
    rw [if_neg haccount.symm, gain_cons, gain_nil, zero_sub, add_zero]
    simp only [hflip]
    split <;> rfl
  | transfer source target amount =>
    change gain (payment source target (amount.val : Int)) account =
      (if target = account then (amount.val : Int) else 0) - (if source = account then (amount.val : Int) else 0)
    rw [gain_payment]
    simp only [hflip]
    split_ifs <;> omega

/-- A Transfer log of the token. -/
theorem transferChange_op (haccount : account ≠ zeroAccount) (txId : JsString) (info : TransactionInfo) (i : Nat)
    (o : TokenOp) (change : Int) :
    transferChange ("0x".toList ++ signature.text) token.evm account.evm change
        (translateLog txId info (o.log signature token) i) = some (change + gain o.entries account) := by
  have haddress := translateLog_address (l := o.log signature token) (token.ne_nil (by decide)) txId info i
  have htopics : (translateLog txId info (o.log signature token) i).topics = ["0x".toList ++ signature.text,
      "0x".toList ++ (paddedTopic o.fields.1).text, "0x".toList ++ (paddedTopic o.fields.2.1).text] := by
    simp only [translateLog, TokenOp.log, List.map_cons, List.map_nil, with0x_hexText]
  have hdata : (translateLog txId info (o.log signature token) i).data =
      "0x".toList ++ (hexWord 64 o.fields.2.2.val).text := by
    rw [translateLog_data (l := o.log signature token) ((hexWord 64 o.fields.2.2.val).ne_nil (by decide))]
    exact with0x_hexText _
  have hvalue := toBigInt_hexWord (n := 64) (v := o.fields.2.2.val) (by decide) o.fields.2.2.isLt
  rw [← hdata] at hvalue
  have htoken : ("0x".toList ++ token.text).map Char.toLower = token.evm := zeroX_lower token
  rw [transferChange_of_transfer haddress (by simp) htoken htopics rfl (by rw [hdata]; simp) hvalue,
    topicAddress_padded, topicAddress_padded]
  simp only [Account.evm_inj]
  rw [gain_fields haccount o]
  apply congrArg some
  split_ifs <;> omega

/-- Any other log. -/
theorem transferChange_foreign {l : InfoLog} (hl : Foreign signature token l) (txId : JsString) (info : TransactionInfo)
    (i : Nat) (change : Int) :
    transferChange ("0x".toList ++ signature.text) token.evm account.evm change (translateLog txId info l i) =
      some change := by
  apply transferChange_of_other
  intro a s t u haddress htoken htopics hsignature
  have htext : a = "0x".toList ++ l.address := by
    unfold translateLog at haddress
    simp only at haddress
    split at haddress
    · cases haddress
    · exact (Option.some.inj haddress).symm
  have htopics' : l.topics.map with0x = [s, t, u] := htopics
  rcases hl with hl | hl | hl
  · apply hl
    rw [htext, List.map_append] at htoken
    exact List.append_cancel_left htoken
  · apply hl
    rw [← List.length_map with0x, htopics']
    rfl
  · obtain ⟨s', hs', rfl⟩ : ∃ s', l.topics.head? = some s' ∧ with0x s' = s := by
      have hhead := congrArg List.head? htopics'
      rw [List.head?_map] at hhead
      exact Option.map_eq_some_iff.1 hhead
    apply hl s' hs'
    rw [hsignature, zeroX_lower]

/-- One event adds what the account gains by it. -/
theorem transferChange_event (haccount : account ≠ zeroAccount) {e : TokenEvent}
    (he : ∀ l, e = .log l → Foreign signature token l) (txId : JsString) (info : TransactionInfo) (i : Nat)
    (change : Int) :
    transferChange ("0x".toList ++ signature.text) token.evm account.evm change
        (translateLog txId info (e.logged signature) i) = some (change + gain (e.entries token) account) := by
  cases e with
  | log l => rw [TokenEvent.entries, gain_nil, add_zero]; exact transferChange_foreign (he l rfl) txId info i change
  | op token' o =>
    by_cases ht : token' = token
    · subst ht
      rw [TokenEvent.entries, if_pos rfl]
      exact transferChange_op haccount txId info i o change
    · rw [TokenEvent.entries, if_neg ht, gain_nil, add_zero]
      apply transferChange_foreign
      left
      intro h
      rw [TokenEvent.logged, TokenOp.log, token'.lower] at h
      exact ht (HexText.ext_text h)

/-- The loop over the logs of the events. -/
theorem tokenChange_run (haccount : account ≠ zeroAccount) (txId : JsString) (info : TransactionInfo)
    (events : List TokenEvent) (hforeign : ∀ l, .log l ∈ events → Foreign signature token l) (i : Nat → Nat)
    (change : Int) :
    ((events.map (TokenEvent.logged signature)).mapIdx fun n l => translateLog txId info l (i n)).foldlM
        (transferChange ("0x".toList ++ signature.text) token.evm account.evm) change =
      some (change + gain (events.flatMap (TokenEvent.entries token)) account) := by
  induction events generalizing i change with
  | nil => simp
  | cons e events ih =>
    rw [List.map_cons, List.mapIdx_cons, List.foldlM_cons,
      transferChange_event haccount (fun l hl => hforeign l (by simp [hl])), Option.bind_eq_bind, Option.bind_some,
      ih (fun l hl => hforeign l (List.mem_cons_of_mem e hl)) (fun n => i (n + 1)), List.flatMap_cons, gain_append,
      add_assoc]

/-- The change of a longer list of logs. -/
theorem tokenChange_shift (topic tokenLower accountLower : JsString) (logs : List Log) (change : Int) :
    logs.foldlM (transferChange topic tokenLower accountLower) change =
      (logs.foldlM (transferChange topic tokenLower accountLower) 0).map (change + ·) := by
  have hstep : ∀ (c : Int) (log : Log), transferChange topic tokenLower accountLower c log =
      (transferChange topic tokenLower accountLower 0 log).map (c + ·) := by
    intro c log
    unfold transferChange
    split
    · split
      · simp
      · split
        · split
          · simp
          · rename_i s t u _
            simp only [bind, Option.bind]
            cases toBigInt (.str (if log.data = [] then "0x0".toList else log.data)) with
            | none => rfl
            | some v =>
              simp only [Option.map_some]
              apply congrArg some
              split_ifs <;> omega
        · simp
    · simp
  induction logs generalizing change with
  | nil => simp
  | cons log logs ih =>
    rw [List.foldlM_cons, List.foldlM_cons, hstep]
    cases transferChange topic tokenLower accountLower 0 log with
    | none => rfl
    | some c =>
      simp only [Option.map_some, Option.bind_eq_bind, Option.bind_some]
      rw [ih (change + c), ih c, Option.map_map]
      congr 1
      funext d
      simp only [Function.comp_apply, add_assoc]

end

theorem tokenBalanceChange_zero (topic : JsString) (receipt : Option Receipt) (tokenLower : JsString) :
    tokenBalanceChange topic receipt tokenLower zeroAccount.evm = some 0 := by
  cases receipt with
  | none => rfl
  | some receipt =>
    unfold tokenBalanceChange
    exact if_pos rfl

/-- The logs of a receipt may be read in two parts. -/
theorem tokenBalanceChange_append (topic : JsString) (receipt : Receipt) (l₁ l₂ : List Log)
    (tokenLower accountLower : JsString) :
    tokenBalanceChange topic (some { receipt with logs := l₁ ++ l₂ }) tokenLower accountLower =
      Option.map₂ (· + ·) (tokenBalanceChange topic (some { receipt with logs := l₁ }) tokenLower accountLower)
        (tokenBalanceChange topic (some { receipt with logs := l₂ }) tokenLower accountLower) := by
  unfold tokenBalanceChange
  dsimp only
  split
  · rfl
  · rw [List.foldlM_append]
    cases l₁.foldlM (transferChange topic tokenLower accountLower) 0 with
    | none => rfl
    | some c =>
      rw [Option.bind_eq_bind, Option.bind_some, tokenChange_shift]
      cases l₂.foldlM (transferChange topic tokenLower accountLower) 0 with
      | none => rfl
      | some d => rfl

/-- Whatever else a transaction logs, the matcher gives the difference that the token's operations make to
`balanceOf`, nothing for the zero address, and a sum for logs in two parts. -/
theorem tokenBalanceChange_eq (signature : HexText 64) (token : Account) (txId : JsString) (info : TransactionInfo)
    (events : List TokenEvent) (hforeign : ∀ l, .log l ∈ events → Foreign signature token l)
    (before after : Account → TokenLedger) (hafter : ledgersAfter before events = some after) :
    (∀ account : Account, tokenBalanceChange ("0x".toList ++ signature.text)
        (some (translateReceipt txId (some { info with log := events.map (TokenEvent.logged signature) })))
        token.evm account.evm =
      some (((after token).balanceOf account : Int) - (before token).balanceOf account)) ∧
    (∀ topic receipt tokenLower, tokenBalanceChange topic receipt tokenLower zeroAccount.evm = some 0) ∧
    ∀ topic (receipt : Receipt) l₁ l₂ tokenLower accountLower,
      tokenBalanceChange topic (some { receipt with logs := l₁ ++ l₂ }) tokenLower accountLower =
        Option.map₂ (· + ·) (tokenBalanceChange topic (some { receipt with logs := l₁ }) tokenLower accountLower)
          (tokenBalanceChange topic (some { receipt with logs := l₂ }) tokenLower accountLower) := by
  refine ⟨?_, tokenBalanceChange_zero, tokenBalanceChange_append⟩
  intro account
  by_cases haccount : account = zeroAccount
  · subst haccount
    rw [tokenBalanceChange_zero, (after token).zero_empty, (before token).zero_empty, sub_self]
  · have hbalance := ledgersAfter_balance hafter token account
    have hrun := tokenChange_run haccount txId { info with log := events.map (TokenEvent.logged signature) } events
      hforeign id 0
    unfold tokenBalanceChange
    dsimp only
    rw [if_neg (fun h => haccount (Account.evm_inj.1 h)), hbalance, add_sub_cancel_left]
    exact hrun.trans (by rw [zero_add])

/-! ## A mint, a transfer to oneself and a burn -/

/-- The hash of `Transfer(address,address,uint256)`. -/
def transferSignature : HexText 64 := hexWord 64 0xddf252ad1be2c89b69c2b068fc378daa952ba7f163c4a11628f55a4df523b3ef

def tokenAccount : Account := repeated '7' (by decide) (by decide)

/-- A token whose supply is nil. -/
def emptyLedger : TokenLedger := ⟨fun _ => 0, rfl⟩

/-- The log of an approval, which has three topics too. -/
def approvalLog : InfoLog :=
  ⟨tokenAccount.text, [(hexWord 64 0x8c5be1e5ebec7d5bd14f71427d1e84f3dd0314c0f7b2291e5b200ac8c7c3b925).text,
    (paddedTopic payerAccount).text, (paddedTopic payeeAccount).text], (hexWord 64 1).text⟩

def mintedAndBurnt : List TokenEvent :=
  [.op tokenAccount (.mint payerAccount 5), .log approvalLog, .op payeeAccount (.mint payerAccount 9),
   .op tokenAccount (.transfer payerAccount payerAccount 4), .op tokenAccount (.burn payerAccount 2)]

theorem mintedAndBurnt_foreign (l : InfoLog) (h : .log l ∈ mintedAndBurnt) : Foreign transferSignature tokenAccount l := by
  obtain rfl : l = approvalLog := by simpa [mintedAndBurnt] using h
  right
  right
  decide

/-- Of the five tokens minted three are left. -/
theorem mintedAndBurnt_changes :
    tokenBalanceChange ("0x".toList ++ transferSignature.text) (some (translateReceipt []
      (some { mined with log := mintedAndBurnt.map (TokenEvent.logged transferSignature) })))
      tokenAccount.evm payerAccount.evm = some 3 :=
  (tokenBalanceChange_eq transferSignature tokenAccount [] mined mintedAndBurnt mintedAndBurnt_foreign
    (fun _ => emptyLedger) _ rfl).1 payerAccount

end HardhatTron

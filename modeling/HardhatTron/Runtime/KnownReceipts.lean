import HardhatTron.Lib.Recency
import HardhatTron.Runtime.TxReceipts
import Mathlib.Data.List.Induction
/-!
# What the registry of receipts keeps

Deployments, contract calls and both kinds of `sendTransaction` store their
receipts in one map. All but one of them store through `rememberReceipt`, which
trims the map; a signer of its own stores with `Map.set`. Trimming drops the
keys that entered first, also when they were stored again since.

`receipts_kept_iff` says when the map stays within its limit and keeps the receipts of
the 1500 hashes stored last.
-/
namespace HardhatTron

open Lib

/-! ## The transactions of a test run -/

/-- A transaction the node has answered for, with that answer. -/
inductive TxOp where
  | deploy (txId : JsString) (poll : DeployPoll)
  | invoke (txId : JsString) (info : Option TransactionInfo) (given : TxMeta) (sim : Resimulation)
  | send (txId : JsString) (hasDataField : Bool) (info : Option TransactionInfo) (given : TxMeta)
  | impersonatedSend (txId : JsString) (hasDataField : Bool) (info : Option TransactionInfo) (given : TxMeta)

def TxOp.run (ethers : Ethers) (m : KnownReceipts) : TxOp → TxReply × KnownReceipts
  | .deploy txId poll => finishDeploy ethers m txId poll
  | .invoke txId info given sim => finishInvoke ethers m txId info given sim
  | .send txId hasDataField info given => finishSend ethers m txId hasDataField info given
  | .impersonatedSend txId hasDataField info given => finishImpersonatedSend ethers m txId hasDataField info given

def TxOp.hash : TxOp → JsString
  | .deploy txId _ => hashOf txId
  | .invoke txId _ _ _ => hashOf txId
  | .send txId _ _ _ => hashOf txId
  | .impersonatedSend txId _ _ _ => hashOf txId

/-- The receipts a transaction stores, each with whether it goes through `rememberReceipt`. -/
def TxOp.stores : TxOp → List (Receipt × Bool)
  | .deploy txId (.unconfirmed info _) => [(translateReceipt txId (some info), true)]
  | .deploy txId (.solidified info _) => if deploySucceeded info then [(translateReceipt txId (some info), true)] else []
  | .deploy _ .timeout => []
  | .invoke txId info _ _ => [(translateReceipt txId info, true)]
  | .send txId hasDataField info _ =>
    (sentReceipt txId info (if hasDataField then succeeded info else true), false) ::
      if hasDataField ∧ ¬ succeeded info then [(translateReceipt txId info, true)] else []
  | .impersonatedSend txId hasDataField info _ =>
    (sentReceipt txId info (if hasDataField then succeeded info else true), true) ::
      if hasDataField ∧ ¬ succeeded info then [(translateReceipt txId info, true)] else []

def store (hash : JsString) (m : KnownReceipts) (e : Receipt × Bool) : KnownReceipts :=
  if e.2 then rememberReceipt m hash e.1 else m.put hash e.1

theorem makeTxResponse_known (ethers : Ethers) (m : KnownReceipts) (txId : JsString) (info : Option TransactionInfo)
    (given : TxMeta) :
    (makeTxResponse ethers m txId info given).2 = rememberReceipt m (hashOf txId) (translateReceipt txId info) := by
  unfold makeTxResponse
  dsimp only
  split <;> rfl

/-- What a transaction does to the registry is its stores, in order. -/
theorem TxOp.run_known (ethers : Ethers) (m : KnownReceipts) (op : TxOp) :
    (op.run ethers m).2 = op.stores.foldl (store op.hash) m := by
  cases op with
  | deploy txId poll =>
    cases poll with
    | unconfirmed info _ =>
      by_cases h : deploySucceeded info = true <;> simp [run, finishDeploy, stores, store, hash, h, buildRevertError]
    | solidified info _ =>
      by_cases h : deploySucceeded info = true <;> simp [run, finishDeploy, stores, store, hash, h]
    | timeout => rfl
  | invoke txId info given sim =>
    by_cases h : succeeded info = true
    · simp [run, finishInvoke, stores, store, hash, h, makeTxResponse_known]
    · simp [run, finishInvoke, stores, store, hash, h, buildRevertErrorWithSim, buildRevertError]
  | send txId hasDataField info given =>
    cases hasDataField <;> by_cases h : succeeded info = true <;>
      simp [run, finishSend, stores, store, hash, h, sentReceipt, buildRevertError]
  | impersonatedSend txId hasDataField info given =>
    cases hasDataField <;> by_cases h : succeeded info = true <;>
      simp [run, finishImpersonatedSend, stores, store, hash, h, sentReceipt, buildRevertError]

/-! ## The registry and its history -/

/-- The registry, and every store so far, newest first. -/
structure Registry where
  knownReceipts : KnownReceipts
  stored : List (JsString × Receipt)

def Registry.init : Registry := ⟨.empty, []⟩

/-- The hashes stored so far, the most recent first. -/
def Registry.recent (s : Registry) : List JsString := (s.stored.map Prod.fst).eraseDups

def Registry.step (ethers : Ethers) (s : Registry) (op : TxOp) : Registry :=
  ⟨(op.run ethers s.knownReceipts).2, (op.stores.map fun e => (op.hash, e.1)).reverse ++ s.stored⟩

def Registry.after (ethers : Ethers) (ops : List TxOp) : Registry := ops.foldl (Registry.step ethers) .init

/-- At most 2000 receipts, the last one stored under each of the 1500 most recent hashes among them. -/
def Registry.Kept (s : Registry) : Prop :=
  s.knownReceipts.size ≤ 2000 ∧
    ∀ hash ∈ s.recent.take 1500, getTransactionReceipt s.knownReceipts hash = s.stored.lookup hash

/-- When the registry is full, a transaction with a new hash trims it, and none of the 501 hashes
that entered first has been stored again since 1499 others were. -/
def Registry.Fits (s : Registry) (op : TxOp) : Prop :=
  op.stores ≠ [] → op.hash ∉ s.knownReceipts.keys → s.knownReceipts.size = 2000 →
    (∃ e ∈ op.stores, e.2 = true) ∧ ∀ hash ∈ s.knownReceipts.keys.take 501, hash ∉ s.recent.take 1499

/-! ## One transaction -/

theorem size_put (m : KnownReceipts) (hash : JsString) (receipt : Receipt) :
    (m.put hash receipt).size = if hash ∈ m.keys then m.size else m.size + 1 := by
  rw [← OrderedMap.length_keys]
  split
  · rename_i h; rw [OrderedMap.keys_put_of_mem h, OrderedMap.length_keys]
  · rename_i h; rw [OrderedMap.keys_put_of_not_mem h, List.length_append, OrderedMap.length_keys, List.length_singleton]

/-- Within the limit nothing is dropped. -/
theorem rememberReceipt_of_le {m : KnownReceipts} {hash : JsString} {receipt : Receipt}
    (h : (m.put hash receipt).size ≤ 2000) : rememberReceipt m hash receipt = m.put hash receipt := by
  rw [rememberReceipt]
  exact if_neg (by simpa [knownReceiptsMax] using h)

/-- One past the limit, the 501 oldest keys are dropped. -/
theorem keys_rememberReceipt_of_full {m : KnownReceipts} {hash : JsString} {receipt : Receipt}
    (h : (m.put hash receipt).size = 2001) :
    (rememberReceipt m hash receipt).keys = (m.put hash receipt).keys.drop 501 := by
  rw [rememberReceipt]
  dsimp only
  rw [if_pos (by rw [h]; decide), OrderedMap.keys_remove_oldest, h]
  rfl

theorem get?_rememberReceipt {m : KnownReceipts} {hash k : JsString} {receipt r : Receipt}
    (h : (rememberReceipt m hash receipt).get? k = some r) : (m.put hash receipt).get? k = some r := by
  rw [rememberReceipt] at h
  dsimp only at h
  split at h
  · rw [OrderedMap.get?_foldl_remove] at h
    split at h
    · cases h
    · exact h
  · exact h

theorem get?_store {m : KnownReceipts} {hash k : JsString} {e : Receipt × Bool} {r : Receipt}
    (h : (store hash m e).get? k = some r) : (m.put hash e.1).get? k = some r := by
  unfold store at h
  split at h
  · exact get?_rememberReceipt h
  · exact h

theorem mem_keys_put {m : KnownReceipts} (hash : JsString) (receipt : Receipt) :
    hash ∈ (m.put hash receipt).keys := by
  rw [OrderedMap.mem_keys_iff]
  exact ⟨receipt, by simp⟩

/-- Storing under a key that is there moves no key, within the limit. -/
theorem keys_store_of_mem {m : KnownReceipts} {hash : JsString} (h : hash ∈ m.keys) (hm : m.size ≤ 2000)
    (e : Receipt × Bool) : (store hash m e).keys = m.keys := by
  have hput : (m.put hash e.1).size ≤ 2000 := by rw [size_put, if_pos h]; exact hm
  unfold store
  split
  · rw [rememberReceipt_of_le hput, OrderedMap.keys_put_of_mem h]
  · rw [OrderedMap.keys_put_of_mem h]

theorem keys_stores_of_mem {m : KnownReceipts} {hash : JsString} (h : hash ∈ m.keys) (hm : m.size ≤ 2000)
    (es : List (Receipt × Bool)) : (es.foldl (store hash) m).keys = m.keys := by
  induction es generalizing m with
  | nil => rfl
  | cons e es ih =>
    have hk := keys_store_of_mem h hm e
    have hs : (store hash m e).size ≤ 2000 := by rw [← OrderedMap.length_keys, hk, OrderedMap.length_keys]; exact hm
    rw [List.foldl_cons, ih (hk ▸ h) hs, hk]

/-- With room left, a new key goes last. -/
theorem keys_stores_of_lt {m : KnownReceipts} {hash : JsString} (h : hash ∉ m.keys) (hm : m.size < 2000)
    {es : List (Receipt × Bool)} (hes : es ≠ []) : (es.foldl (store hash) m).keys = m.keys ++ [hash] := by
  cases es with
  | nil => exact absurd rfl hes
  | cons e es =>
    have hput : (m.put hash e.1).size ≤ 2000 := by rw [size_put, if_neg h]; omega
    have hst : store hash m e = m.put hash e.1 := by
      unfold store
      split
      · exact rememberReceipt_of_le hput
      · rfl
    rw [List.foldl_cons, hst, keys_stores_of_mem (mem_keys_put hash e.1) hput, OrderedMap.keys_put_of_not_mem h]

/-- In a full map, a new key stored by `rememberReceipt` drops the 501 oldest. -/
theorem keys_remember_of_full {m : KnownReceipts} {hash : JsString} (h : hash ∉ m.keys) (hm : m.size = 2000)
    (receipt : Receipt) : (rememberReceipt m hash receipt).keys = m.keys.drop 501 ++ [hash] := by
  have hput : (m.put hash receipt).size = 2001 := by rw [size_put, if_neg h, hm]
  rw [keys_rememberReceipt_of_full hput, OrderedMap.keys_put_of_not_mem h,
    List.drop_append_of_le_length (by rw [OrderedMap.length_keys, hm]; decide)]

/-- The second store of a transaction goes through `rememberReceipt`. -/
theorem TxOp.stores_cases (op : TxOp) :
    op.stores = [] ∨ (∃ e, op.stores = [e]) ∨ ∃ e receipt, op.stores = [e, (receipt, true)] := by
  cases op with
  | deploy txId poll =>
    cases poll with
    | unconfirmed info _ => exact .inr (.inl ⟨_, rfl⟩)
    | solidified info _ =>
      by_cases h : deploySucceeded info = true
      · exact .inr (.inl ⟨_, if_pos h⟩)
      · exact .inl (if_neg h)
    | timeout => exact .inl rfl
  | invoke txId info given sim => exact .inr (.inl ⟨_, rfl⟩)
  | send txId hasDataField info given =>
    by_cases h : hasDataField ∧ ¬ succeeded info
    · exact .inr (.inr ⟨_, _, by rw [stores, if_pos h]⟩)
    · exact .inr (.inl ⟨_, by rw [stores, if_neg h]⟩)
  | impersonatedSend txId hasDataField info given =>
    by_cases h : hasDataField ∧ ¬ succeeded info
    · exact .inr (.inr ⟨_, _, by rw [stores, if_pos h]⟩)
    · exact .inr (.inl ⟨_, by rw [stores, if_neg h]⟩)

/-- A transaction with a new hash on a full map: trimmed, or one entry too many. -/
theorem keys_stores_of_full {m : KnownReceipts} {op : TxOp} (h : op.hash ∉ m.keys) (hm : m.size = 2000)
    (hes : op.stores ≠ []) :
    (op.stores.foldl (store op.hash) m).keys =
      if ∃ e ∈ op.stores, e.2 = true then m.keys.drop 501 ++ [op.hash] else m.keys ++ [op.hash] := by
  have hone : ∀ e : Receipt × Bool, (store op.hash m e).keys =
      if e.2 = true then m.keys.drop 501 ++ [op.hash] else m.keys ++ [op.hash] := by
    intro e
    unfold store
    split
    · exact keys_remember_of_full h hm e.1
    · exact OrderedMap.keys_put_of_not_mem h e.1
  rcases op.stores_cases with hs | ⟨e, hs⟩ | ⟨e, receipt, hs⟩
  · exact absurd hs hes
  · rw [hs]
    simpa using hone e
  · rw [hs, if_pos ⟨(receipt, true), by simp, rfl⟩, List.foldl_cons, List.foldl_cons, List.foldl_nil]
    have hkeys := hone e
    obtain ⟨first, trims⟩ := e
    cases trims with
    | true =>
      rw [if_pos rfl] at hkeys
      rw [keys_store_of_mem (by rw [hkeys]; simp) _ (receipt, true), hkeys]
      rw [← OrderedMap.length_keys, hkeys, List.length_append, List.length_drop, OrderedMap.length_keys, hm,
        List.length_singleton]
      decide
    | false =>
      have hput : ((m.put op.hash first).put op.hash receipt).size = 2001 := by
        rw [size_put, if_pos (mem_keys_put op.hash first), size_put, if_neg h, hm]
      change (rememberReceipt (m.put op.hash first) op.hash receipt).keys = _
      rw [keys_rememberReceipt_of_full hput, OrderedMap.keys_put_of_mem (mem_keys_put op.hash first),
        OrderedMap.keys_put_of_not_mem h, List.drop_append_of_le_length (by rw [OrderedMap.length_keys, hm]; decide)]

/-! ## What the entries hold -/

/-- Every entry is the receipt stored last under its hash. -/
def Registry.Faithful (s : Registry) : Prop :=
  ∀ hash receipt, s.knownReceipts.get? hash = some receipt → s.stored.lookup hash = some receipt

theorem faithful_stores {m : KnownReceipts} {log : List (JsString × Receipt)} (hash : JsString)
    (es : List (Receipt × Bool)) (h : Registry.Faithful ⟨m, log⟩) :
    Registry.Faithful ⟨es.foldl (store hash) m, (es.map fun e => (hash, e.1)).reverse ++ log⟩ := by
  induction es generalizing m log with
  | nil => exact h
  | cons e es ih =>
    have hstep : Registry.Faithful ⟨store hash m e, (hash, e.1) :: log⟩ := by
      intro k r hk
      have hput := get?_store hk
      rw [OrderedMap.get?_put] at hput
      by_cases hkh : k = hash
      · rw [if_pos hkh] at hput
        cases hput
        simp [hkh]
      · rw [if_neg hkh] at hput
        change List.lookup k ((hash, e.1) :: log) = some r
        rw [List.lookup_cons, show (k == hash) = false by simpa using hkh]
        exact h k r hput
    simpa using ih hstep

theorem Registry.Faithful.step {ethers : Ethers} {s : Registry} {op : TxOp} (h : s.Faithful) :
    (s.step ethers op).Faithful := by
  unfold Registry.step
  rw [TxOp.run_known]
  exact faithful_stores op.hash op.stores h

/-- With faithful entries, a hash is looked up rightly when it is there. -/
theorem Registry.Faithful.kept_iff {s : Registry} (h : s.Faithful) :
    s.Kept ↔ s.knownReceipts.keys.length ≤ 2000 ∧ ∀ hash ∈ s.recent.take 1500, hash ∈ s.knownReceipts.keys := by
  rw [Kept, OrderedMap.length_keys]
  apply and_congr_right
  intro _
  apply forall₂_congr
  intro hash hmem
  obtain ⟨receipt, hr⟩ := exists_lookup_of_mem (List.mem_eraseDups.1 (List.mem_of_mem_take hmem))
  rw [hr, OrderedMap.mem_keys_iff]
  constructor
  · intro hg
    exact ⟨receipt, hg⟩
  · rintro ⟨receipt', hg⟩
    rw [getTransactionReceipt, hg]
    exact (h _ _ hg).symm.trans hr

theorem Registry.recent_step {ethers : Ethers} {s : Registry} {op : TxOp} (hes : op.stores ≠ []) :
    (s.step ethers op).recent = (op.hash :: s.stored.map Prod.fst).eraseDups := by
  obtain ⟨n, hn⟩ : ∃ n, op.stores.length = n + 1 := Nat.exists_eq_succ_of_ne_zero (by simpa using hes)
  have hrep : ((op.stores.map fun e => (op.hash, e.1)).reverse ++ s.stored).map Prod.fst
      = List.replicate (n + 1) op.hash ++ s.stored.map Prod.fst := by
    rw [List.map_append, List.map_reverse, List.map_map, ← hn]
    simp [Function.comp_def]
  rw [recent, Registry.step, hrep, eraseDups_replicate]

/-! ## Runs -/

theorem Registry.step_of_nil {ethers : Ethers} {s : Registry} {op : TxOp} (h : op.stores = []) :
    s.step ethers op = s := by
  unfold step
  rw [TxOp.run_known, h]
  rfl

theorem Registry.keys_step {ethers : Ethers} {s : Registry} {op : TxOp} :
    (s.step ethers op).knownReceipts.keys = (op.stores.foldl (store op.hash) s.knownReceipts).keys := by
  rw [step, TxOp.run_known]

/-- Recent hashes stay there as long as no key is dropped. -/
theorem Registry.recent_mem_step {ethers : Ethers} {s : Registry} {op : TxOp} (hes : op.stores ≠ [])
    (hk : ∀ hash ∈ s.recent.take 1500, hash ∈ s.knownReceipts.keys)
    (hself : op.hash ∈ (s.step ethers op).knownReceipts.keys)
    (hsub : ∀ k ∈ s.knownReceipts.keys, k ∈ (s.step ethers op).knownReceipts.keys) :
    ∀ hash ∈ (s.step ethers op).recent.take 1500, hash ∈ (s.step ethers op).knownReceipts.keys := by
  intro k hmem
  rw [recent_step hes] at hmem
  rcases mem_recent_cons hmem with rfl | hmem
  · exact hself
  · exact hsub k (hk k hmem)

/-- One transaction keeps the registry exactly when it fits. -/
theorem Registry.kept_step_iff {ethers : Ethers} {s : Registry} {op : TxOp} (hf : s.Faithful) (hs : s.Kept) :
    (s.step ethers op).Kept ↔ s.Fits op := by
  obtain ⟨hlen, hk⟩ := hf.kept_iff.1 hs
  rw [OrderedMap.length_keys] at hlen
  by_cases hes : op.stores = []
  · rw [step_of_nil hes]
    exact iff_of_true hs fun h => absurd hes h
  rw [hf.step.kept_iff]
  by_cases hmem : op.hash ∈ s.knownReceipts.keys
  · have hkeys : (s.step ethers op).knownReceipts.keys = s.knownReceipts.keys := by
      rw [keys_step, keys_stores_of_mem hmem hlen]
    apply iff_of_true
    · refine ⟨by rw [hkeys, OrderedMap.length_keys]; exact hlen, recent_mem_step hes hk ?_ ?_⟩
      · rw [hkeys]; exact hmem
      · intro k h; rw [hkeys]; exact h
    · intro _ h; exact absurd hmem h
  by_cases hlt : s.knownReceipts.size < 2000
  · have hkeys : (s.step ethers op).knownReceipts.keys = s.knownReceipts.keys ++ [op.hash] := by
      rw [keys_step, keys_stores_of_lt hmem hlt hes]
    apply iff_of_true
    · refine ⟨?_, recent_mem_step hes hk ?_ ?_⟩
      · rw [hkeys, List.length_append, OrderedMap.length_keys, List.length_singleton]; omega
      · rw [hkeys]; simp
      · intro k h; rw [hkeys]; exact List.mem_append_left _ h
    · intro _ _ h; omega
  have hfull : s.knownReceipts.size = 2000 := by omega
  have hkeys := (@keys_step ethers s op).trans (keys_stores_of_full hmem hfull hes)
  by_cases htrim : ∃ e ∈ op.stores, e.2 = true
  · rw [if_pos htrim] at hkeys
    have hnew : op.hash ∉ s.recent.take 1499 := fun h =>
      hmem (hk _ (List.take_subset_take_left _ (by decide) h))
    have hkept := kept_after_drop_iff (n := 501) s.knownReceipts.keys_nodup
      (fun k h => hk k (List.take_subset_take_left _ (show 1499 ≤ 1500 by decide) h)) hmem
    rw [hkeys, recent_step hes, take_eraseDups_cons hnew]
    constructor
    · intro h _ _ _
      exact ⟨htrim, hkept.1 h.2⟩
    · intro h
      refine ⟨?_, hkept.2 (h hes hmem hfull).2⟩
      rw [List.length_append, List.length_drop, OrderedMap.length_keys, hfull, List.length_singleton]
      decide
  · rw [if_neg htrim] at hkeys
    apply iff_of_false
    · rw [hkeys, List.length_append, OrderedMap.length_keys, hfull]
      simp
    · intro h
      exact htrim (h hes hmem hfull).1

theorem Registry.after_snoc (ethers : Ethers) (ops : List TxOp) (op : TxOp) :
    Registry.after ethers (ops ++ [op]) = (Registry.after ethers ops).step ethers op :=
  List.foldl_append

theorem Registry.faithful_after (ethers : Ethers) (ops : List TxOp) : (Registry.after ethers ops).Faithful := by
  induction ops using List.reverseRecOn with
  | nil => intro hash receipt h; cases h
  | append_singleton ops op ih => rw [after_snoc]; exact ih.step

theorem Registry.kept_init (ethers : Ethers) : (Registry.after ethers []).Kept :=
  ⟨Nat.zero_le _, by simp [after, init, recent]⟩

/-- A run keeps the registry at every moment exactly when each of its transactions fits. -/
theorem receipts_kept_iff (ethers : Ethers) (ops : List TxOp) :
    (∀ past, past <+: ops → (Registry.after ethers past).Kept) ↔
      ∀ past op, past ++ [op] <+: ops → (Registry.after ethers past).Fits op := by
  constructor
  · intro h past op hp
    have hnext := h (past ++ [op]) hp
    rw [Registry.after_snoc] at hnext
    exact (Registry.kept_step_iff (Registry.faithful_after ethers past)
      (h past ((List.prefix_append past [op]).trans hp))).1 hnext
  · intro h past
    induction past using List.reverseRecOn with
    | nil => intro _; exact Registry.kept_init ethers
    | append_singleton past op ih =>
      intro hp
      rw [Registry.after_snoc]
      exact (Registry.kept_step_iff (Registry.faithful_after ethers past)
        (ih ((List.prefix_append past [op]).trans hp))).2 (h past op hp)

/-! ## Transfers of a signer -/

/-- The `n`th of a series of plain transfers. -/
def transfer (n : Nat) : TxOp := .send (Nat.toDigits 16 n) false none ⟨[], [], 1⟩

theorem keys_after_transfers (ethers : Ethers) (n : Nat) :
    (Registry.after ethers ((List.range n).map transfer)).knownReceipts.keys =
      (List.range n).map fun k => hashOf (toHexString k) := by
  induction n with
  | zero => rfl
  | succ n ih =>
    have hnew : hashOf (toHexString n) ∉ (Registry.after ethers ((List.range n).map transfer)).knownReceipts.keys := by
      rw [ih, List.mem_map]
      rintro ⟨k, hk, he⟩
      have := toHexString_injective (List.append_cancel_left he)
      exact absurd (List.mem_range.1 hk) (by omega)
    rw [List.range_succ, List.map_append, List.map_append, List.map_singleton, List.map_singleton,
      Registry.after_snoc, Registry.keys_step, ← ih]
    exact OrderedMap.keys_put_of_not_mem hnew _

/-- Nothing trims the map while a signer only transfers: the 2001st transfer exceeds the limit. -/
theorem transfers_exceed_limit :
    ¬ ∀ (ethers : Ethers) (ops past : List TxOp), past <+: ops → (Registry.after ethers past).Kept := by
  intro h
  have hsize := (h ⟨fun _ => none, fun _ => none, fun _ => none⟩ ((List.range 2001).map transfer) _
    (List.prefix_refl _)).1
  rw [← OrderedMap.length_keys, keys_after_transfers, List.length_map, List.length_range] at hsize
  omega

end HardhatTron

import Mathlib.Algebra.BigOperators.Group.List.Basic
import Mathlib.Algebra.BigOperators.Group.List.Lemmas
import Mathlib.Algebra.Group.Basic
import Mathlib.Tactic.Abel
/-!
# Ledgers

A ledger gives every account a balance, and an entry adds an amount to one
account. `post_apply` says what a list of entries does to an account, whatever
the ledger was; `sum_gain` that nothing is gained but the amounts posted.
-/
namespace Lib

variable {α M : Type} [DecidableEq α] [AddCommGroup M]

/-- The ledger after the entries, in order. -/
def post (entries : List (α × M)) (ledger : α → M) : α → M :=
  entries.foldl (fun l e => Function.update l e.1 (l e.1 + e.2)) ledger

/-- What the account gains by the entries. -/
def gain (entries : List (α × M)) (account : α) : M :=
  (entries.map fun e => if account = e.1 then e.2 else 0).sum

/-- The amount leaves one account and enters the other. -/
def payment (src dst : α) (amount : M) : List (α × M) := [(src, -amount), (dst, amount)]

@[simp] theorem gain_nil (account : α) : gain ([] : List (α × M)) account = 0 := rfl

theorem gain_cons (e : α × M) (entries : List (α × M)) (account : α) :
    gain (e :: entries) account = (if account = e.1 then e.2 else 0) + gain entries account := by
  rw [gain, List.map_cons, List.sum_cons]
  rfl

theorem gain_append (es fs : List (α × M)) (account : α) :
    gain (es ++ fs) account = gain es account + gain fs account := by
  rw [gain, List.map_append, List.sum_append]
  rfl

theorem gain_payment (src dst : α) (amount : M) (account : α) :
    gain (payment src dst amount) account =
      (if account = src then -amount else 0) + (if account = dst then amount else 0) := by
  rw [payment, gain_cons, gain_cons, gain_nil, add_zero]

/-- A payment of nothing. -/
theorem gain_payment_zero (src dst account : α) : gain (payment src dst (0 : M)) account = 0 := by
  rw [gain_payment, neg_zero, ite_self, ite_self, add_zero]

/-- Payments between the same accounts amount to one of their sum. -/
theorem gain_payments (src dst : α) (amounts : List M) (account : α) :
    gain (amounts.flatMap (payment src dst)) account = gain (payment src dst amounts.sum) account := by
  induction amounts with
  | nil => rw [List.flatMap_nil, List.sum_nil, gain_payment_zero, gain_nil]
  | cons amount amounts ih =>
    rw [List.flatMap_cons, gain_append, ih, List.sum_cons, gain_payment, gain_payment, gain_payment]
    split <;> split <;> abel

/-- A balance after the entries is the balance before and what the account gained. -/
theorem post_apply (entries : List (α × M)) (ledger : α → M) (account : α) :
    post entries ledger account = ledger account + gain entries account := by
  induction entries generalizing ledger with
  | nil => rw [gain_nil, add_zero]; rfl
  | cons e entries ih =>
    rw [gain_cons, ← add_assoc]
    refine (ih (Function.update ledger e.1 (ledger e.1 + e.2))).trans ?_
    congr 1
    by_cases h : account = e.1
    · rw [if_pos h, h, Function.update_self]
    · rw [if_neg h, Function.update_of_ne h, add_zero]

/-- Each account counted once, the gains add up to the amounts posted. -/
theorem sum_gain {entries : List (α × M)} {accounts : List α} (hnodup : accounts.Nodup)
    (hall : ∀ e ∈ entries, e.1 ∈ accounts) : (accounts.map (gain entries)).sum = (entries.map Prod.snd).sum := by
  induction entries with
  | nil =>
    rw [List.map_nil, List.sum_nil]
    apply List.sum_eq_zero
    intro x hx
    obtain ⟨a, -, rfl⟩ := List.mem_map.1 hx
    rfl
  | cons e entries ih =>
    have hone : (accounts.map fun a => if a = e.1 then e.2 else 0).sum = e.2 := by
      rw [List.sum_map_ite_eq, List.count_eq_one_of_mem hnodup (hall e List.mem_cons_self), one_nsmul, sub_zero]
      simp
    have hsplit : accounts.map (gain (e :: entries)) =
        accounts.map fun a => (if a = e.1 then e.2 else 0) + gain entries a := by
      apply List.map_congr_left
      intro a _
      exact gain_cons e entries a
    rw [hsplit, List.sum_map_add, hone, ih fun f hf => hall f (List.mem_cons_of_mem e hf), List.map_cons, List.sum_cons]

omit [DecidableEq α] in
/-- A payment adds up to nothing. -/
theorem sum_payment (src dst : α) (amount : M) : ((payment src dst amount).map Prod.snd).sum = 0 := by
  simp [payment]

omit [DecidableEq α] in
theorem sum_payments (src dst : α) (amounts : List M) :
    ((amounts.flatMap (payment src dst)).map Prod.snd).sum = 0 := by
  induction amounts with
  | nil => rfl
  | cons amount amounts ih =>
    rw [List.flatMap_cons, List.map_append, List.sum_append, sum_payment, ih, add_zero]

end Lib

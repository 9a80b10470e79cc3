import Mathlib.Logic.Function.Basic
/-!
# Remembered results

A table keeps results by the key of the argument they were made for, and a
function that looks there first is the plain one as long as arguments of one key
have one result: then every table that only ever got such results is `Consistent`.
-/
namespace Lib

variable {α β κ : Type*} [DecidableEq κ]

/-- The remembered result, or a new one that is remembered from now on. -/
def memo (key : α → κ) (make : α → β) (table : κ → Option β) (a : α) : β × (κ → Option β) :=
  match table (key a) with
  | some b => (b, table)
  | none => (make a, Function.update table (key a) (some (make a)))

/-- For an argument of the domain there is nothing in the table, or its result. -/
def Consistent (key : α → κ) (make : α → β) (D : α → Prop) (table : κ → Option β) : Prop :=
  ∀ a, D a → ∀ b, table (key a) = some b → b = make a

/-- The key tells results apart. -/
def Separates (key : α → κ) (make : α → β) (D : α → Prop) : Prop :=
  ∀ a a', D a → D a' → key a = key a' → make a = make a'

variable {key : α → κ} {make : α → β} {D : α → Prop} {table : κ → Option β} {a : α}

omit [DecidableEq κ] in
theorem Separates.of_injOn (h : ∀ a a', D a → D a' → key a = key a' → a = a') : Separates key make D :=
  fun a a' ha ha' hkey => congrArg make (h a a' ha ha' hkey)

omit [DecidableEq κ] in
theorem Consistent.empty : Consistent key make D fun _ => none := by
  intro a _ b hb
  cases hb

theorem Consistent.update (h : Consistent key make D table) (hsep : Separates key make D) (ha : D a) :
    Consistent key make D (Function.update table (key a) (some (make a))) := by
  intro a' ha' b hb
  by_cases hkey : key a' = key a
  · rw [hkey, Function.update_self] at hb
    rw [← Option.some.inj hb]
    exact hsep a a' ha ha' hkey.symm
  · rw [Function.update_of_ne hkey] at hb
    exact h a' ha' b hb

theorem memo_fst (h : Consistent key make D table) (ha : D a) : (memo key make table a).1 = make a := by
  unfold memo
  split
  · rename_i b hb
    exact h a ha b hb
  · rfl

theorem Consistent.memo (h : Consistent key make D table) (hsep : Separates key make D) (ha : D a) :
    Consistent key make D (Lib.memo key make table a).2 := by
  unfold Lib.memo
  split
  · exact h
  · exact h.update hsep ha

end Lib

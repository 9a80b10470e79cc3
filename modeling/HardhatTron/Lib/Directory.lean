import Mathlib.Data.Option.Basic
import Mathlib.Logic.Function.Basic
/-!
# A directory

Names stand for files, and a file outlives its name: whoever has it open goes on
writing to it after a rename or a remove. No file has two names.
-/
namespace Lib

variable {N : Type*}

structure Directory (N : Type*) where
  entry : N → Option Nat
  contents : Nat → List UInt8
  /-- The first number that no file has had. -/
  next : Nat
  entry_lt : ∀ {n f}, entry n = some f → f < next
  entry_inj : ∀ {m n f}, entry m = some f → entry n = some f → m = n

namespace Directory

/-- The bytes under a name. -/
def read (d : Directory N) (n : N) : Option (List UInt8) := (d.entry n).map d.contents

theorem read_eq_some {d : Directory N} {n : N} {b : List UInt8} :
    d.read n = some b ↔ ∃ f, d.entry n = some f ∧ d.contents f = b :=
  Option.map_eq_some_iff

/-- The file that opening `n` for writing gives: the one that is there, or a new one. -/
def fileFor (d : Directory N) (n : N) : Nat := (d.entry n).getD d.next

theorem fileFor_of_entry {d : Directory N} {n : N} {f : Nat} (h : d.entry n = some f) : d.fileFor n = f := by
  simp [fileFor, h]

/-- The file has no other name. -/
theorem eq_of_entry_fileFor {d : Directory N} {m n : N} (h : d.entry m = some (d.fileFor n)) : m = n := by
  cases hn : d.entry n with
  | none =>
    rw [fileFor, hn, Option.getD_none] at h
    exact absurd (d.entry_lt h) (Nat.lt_irrefl _)
  | some f =>
    rw [fileFor_of_entry hn] at h
    exact d.entry_inj h hn

/-- The bytes at an offset, over what was there; a gap is filled with zeros. -/
def splice (old : List UInt8) (offset : Nat) (bytes : List UInt8) : List UInt8 :=
  old.take offset ++ List.replicate (offset - old.length) 0 ++ bytes ++ old.drop (offset + bytes.length)

/-- Byte by byte: before the offset what was there or a zero, then the new bytes, then what was there. -/
theorem getElem?_splice (old : List UInt8) (offset : Nat) (bytes : List UInt8) (k : Nat) :
    (splice old offset bytes)[k]? =
      if k < offset then (if k < old.length then old[k]? else some 0)
      else if k < offset + bytes.length then bytes[k - offset]? else old[k]? := by
  have hhead : (old.take offset ++ List.replicate (offset - old.length) 0).length = offset := by
    rw [List.length_append, List.length_take, List.length_replicate]
    omega
  unfold splice
  by_cases hbefore : k < offset
  · rw [if_pos hbefore, List.append_assoc, List.getElem?_append_left (by omega)]
    by_cases hold : k < old.length
    · rw [if_pos hold, List.getElem?_append_left (by rw [List.length_take]; omega), List.getElem?_take_of_lt hbefore]
    · rw [if_neg hold, List.getElem?_append_right (by rw [List.length_take]; omega), List.getElem?_replicate,
        if_pos (by rw [List.length_take]; omega)]
  · rw [if_neg hbefore]
    by_cases hnew : k < offset + bytes.length
    · rw [if_pos hnew, List.getElem?_append_left (by rw [List.length_append, hhead]; omega),
        List.getElem?_append_right (by omega), hhead]
    · rw [if_neg hnew, List.getElem?_append_right (by rw [List.length_append, hhead]; omega), List.length_append, hhead,
        List.getElem?_drop]
      congr 1
      omega

def writeAt (d : Directory N) (f offset : Nat) (bytes : List UInt8) : Directory N :=
  { d with contents := Function.update d.contents f (splice (d.contents f) offset bytes) }

theorem contents_writeAt_of_ne {d : Directory N} {f g offset : Nat} {bytes : List UInt8} (h : g ≠ f) :
    (d.writeAt f offset bytes).contents g = d.contents g :=
  Function.update_of_ne h _ _

/-! ## Names that change -/

variable [DecidableEq N]

def remove (d : Directory N) (n : N) : Directory N where
  entry := Function.update d.entry n none
  contents := d.contents
  next := d.next
  entry_lt {m f} h := by
    by_cases hm : m = n
    · simp [hm] at h
    · rw [Function.update_of_ne hm] at h
      exact d.entry_lt h
  entry_inj {m k f} hm hk := by
    by_cases hmn : m = n
    · simp [hmn] at hm
    · by_cases hkn : k = n
      · simp [hkn] at hk
      · rw [Function.update_of_ne hmn] at hm
        rw [Function.update_of_ne hkn] at hk
        exact d.entry_inj hm hk

/-- Open `n` for writing: an existing file is cut to nothing. -/
def create (d : Directory N) (n : N) : Directory N where
  entry := Function.update d.entry n (some (d.fileFor n))
  contents := Function.update d.contents (d.fileFor n) []
  next := max d.next (d.fileFor n + 1)
  entry_lt {m f} h := by
    by_cases hm : m = n
    · rw [hm, Function.update_self] at h
      obtain rfl := Option.some.inj h
      omega
    · rw [Function.update_of_ne hm] at h
      have := d.entry_lt h
      omega
  entry_inj {m k f} hm hk := by
    by_cases hmn : m = n
    · by_cases hkn : k = n
      · rw [hmn, hkn]
      · rw [hmn, Function.update_self] at hm
        rw [Function.update_of_ne hkn, ← hm] at hk
        exact absurd (eq_of_entry_fileFor hk) hkn
    · rw [Function.update_of_ne hmn] at hm
      by_cases hkn : k = n
      · rw [hkn, Function.update_self] at hk
        rw [← hk] at hm
        exact absurd (eq_of_entry_fileFor hm) hmn
      · rw [Function.update_of_ne hkn] at hk
        exact d.entry_inj hm hk

/-- Move the file under `m`, over whatever is at `n`. -/
def rename (d : Directory N) (m n : N) : Option (Directory N) :=
  match h : d.entry m with
  | none => none
  | some f => some {
      entry := Function.update (Function.update d.entry m none) n (some f)
      contents := d.contents
      next := d.next
      entry_lt := by
        intro k g hk
        by_cases hkn : k = n
        · rw [hkn, Function.update_self] at hk
          exact Option.some.inj hk ▸ d.entry_lt h
        · rw [Function.update_of_ne hkn] at hk
          exact (d.remove m).entry_lt hk
      entry_inj := by
        -- `f` is off `m`, so only `n` has it.
        have hoff : ∀ k, (d.remove m).entry k ≠ some f := by
          intro k hk
          by_cases hkm : k = m
          · simp [remove, hkm] at hk
          · simp only [remove, Function.update_of_ne hkm] at hk
            exact hkm (d.entry_inj hk h)
        intro k l g hk hl
        by_cases hkn : k = n
        · by_cases hln : l = n
          · rw [hkn, hln]
          · rw [hkn, Function.update_self] at hk
            rw [Function.update_of_ne hln, ← hk] at hl
            exact absurd hl (hoff l)
        · rw [Function.update_of_ne hkn] at hk
          by_cases hln : l = n
          · rw [hln, Function.update_self] at hl
            rw [← hl] at hk
            exact absurd hk (hoff k)
          · rw [Function.update_of_ne hln] at hl
            exact (d.remove m).entry_inj hk hl }

/-! ## What the operations change -/

variable {d : Directory N}

theorem entry_remove (d : Directory N) (m n : N) : (d.remove n).entry m = if m = n then none else d.entry m :=
  Function.update_apply _ _ _ _

theorem entry_create (d : Directory N) (m n : N) :
    (d.create n).entry m = if m = n then some (d.fileFor n) else d.entry m :=
  Function.update_apply _ _ _ _

theorem contents_create_of_ne {n : N} {f : Nat} (h : f ≠ d.fileFor n) : (d.create n).contents f = d.contents f :=
  Function.update_of_ne h _ _

/-- Opening one name leaves the bytes under the others. -/
theorem contents_create_of_entry {m n : N} {f : Nat} (hm : d.entry m = some f) (hmn : m ≠ n) :
    (d.create n).contents f = d.contents f := by
  apply contents_create_of_ne
  rintro rfl
  exact hmn (eq_of_entry_fileFor hm)

theorem rename_eq_some {d' : Directory N} {m n : N} (h : d.rename m n = some d') :
    ∃ f, d.entry m = some f ∧ d'.contents = d.contents ∧ d'.next = d.next ∧
      ∀ k, d'.entry k = if k = n then some f else if k = m then none else d.entry k := by
  unfold rename at h
  split at h
  · cases h
  · rename_i f hf
    obtain rfl := Option.some.inj h
    refine ⟨f, hf, rfl, rfl, ?_⟩
    intro k
    simp only [Function.update_apply]

end Directory

end Lib

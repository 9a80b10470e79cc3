import Mathlib.Data.List.Forall2
import Mathlib.Data.List.Nodup
/-!
# Maps that may fail

Facts about `List.mapM` on options: two maps in a row are one, and what is known
of the elements is known of the lists. `zipM` goes through two lists together.
-/
namespace Lib

variable {α β γ δ κ : Type}

theorem mapM_cons_eq (f : α → Option β) (x : α) (l : List α) :
    (x :: l).mapM f = (f x).bind fun y => (l.mapM f).map (y :: ·) := by
  rw [List.mapM_cons]
  cases f x with
  | none => rfl
  | some y => cases l.mapM f <;> rfl

/-- Two maps in a row are one. -/
theorem mapM_bind_mapM (f : α → Option β) (g : β → Option γ) (l : List α) :
    ((l.mapM f).bind fun ys => ys.mapM g) = l.mapM fun x => (f x).bind g := by
  induction l with
  | nil => rfl
  | cons x l ih =>
    rw [mapM_cons_eq, mapM_cons_eq, ← ih]
    cases f x with
    | none => rfl
    | some y =>
      rw [Option.bind_some, Option.bind_some]
      cases hl : l.mapM f with
      | none => cases g y <;> rfl
      | some ys =>
        rw [Option.map_some, Option.bind_some, Option.bind_some]
        exact mapM_cons_eq g y ys

/-- A relation on the elements that amounts to a condition amounts to it on the lists. -/
theorem exists_mapM {f : α → Option β} {R : α → β → Prop} {P : α → Prop} {l : List α}
    (h : ∀ x ∈ l, ∃ y, f x = some y ∧ (R x y ↔ P x)) :
    ∃ ys, l.mapM f = some ys ∧ (List.Forall₂ R l ys ↔ ∀ x ∈ l, P x) := by
  induction l with
  | nil => exact ⟨[], rfl, by simp⟩
  | cons x l ih =>
    obtain ⟨hx, hl⟩ := List.forall_mem_cons.1 h
    obtain ⟨y, hy, hyx⟩ := hx
    obtain ⟨ys, hys, hyl⟩ := ih hl
    refine ⟨y :: ys, ?_, ?_⟩
    · rw [mapM_cons_eq, hy, hys]
      rfl
    · rw [List.forall₂_cons, List.forall_mem_cons, hyx, hyl]

theorem mapM_congr {f g : α → Option β} {l : List α} (h : ∀ x ∈ l, f x = g x) : l.mapM f = l.mapM g := by
  induction l with
  | nil => rfl
  | cons x l ih =>
    obtain ⟨hx, hl⟩ := List.forall_mem_cons.1 h
    rw [mapM_cons_eq, mapM_cons_eq, hx, ih hl]

theorem mapM_some_self {f : α → Option α} {l : List α} (h : ∀ x ∈ l, f x = some x) : l.mapM f = some l := by
  induction l with
  | nil => rfl
  | cons x l ih =>
    obtain ⟨hx, hl⟩ := List.forall_mem_cons.1 h
    rw [mapM_cons_eq, hx, ih hl]
    rfl

/-! ## Two lists -/

/-- The elements at the same positions, until one of the lists ends. -/
def zipM (f : α → β → Option γ) : List α → List β → Option (List γ)
  | a :: as, b :: bs => (f a b).bind fun c => (zipM f as bs).map (c :: ·)
  | _, _ => some []

theorem zipM_length {f : α → β → Option γ} {as : List α} {bs : List β} {cs : List γ} (h : zipM f as bs = some cs)
    (hlen : as.length = bs.length) : as.length = cs.length := by
  induction as generalizing bs cs with
  | nil =>
    obtain rfl := Option.some.inj h
    rfl
  | cons a as ih =>
    cases bs with
    | nil => cases hlen
    | cons b bs =>
      rw [zipM, Option.bind_eq_some_iff] at h
      obtain ⟨c, -, hc⟩ := h
      obtain ⟨cs, hcs, rfl⟩ := Option.map_eq_some_iff.1 hc
      rw [List.length_cons, List.length_cons, ih hcs (Nat.succ.inj hlen)]

theorem zipM_map_left (f : α → β → Option γ) (g : δ → α) (ds : List δ) (bs : List β) :
    zipM f (ds.map g) bs = zipM (fun d b => f (g d) b) ds bs := by
  induction ds generalizing bs with
  | nil => rfl
  | cons d ds ih =>
    cases bs with
    | nil => rfl
    | cons b bs => rw [List.map_cons, zipM, zipM, ih]

theorem zipM_map_right (f : α → β → Option γ) (g : δ → β) (as : List α) (ds : List δ) :
    zipM f as (ds.map g) = zipM (fun a d => f a (g d)) as ds := by
  induction as generalizing ds with
  | nil => rfl
  | cons a as ih =>
    cases ds with
    | nil => rfl
    | cons d ds => rw [List.map_cons, zipM, zipM, ih]

/-- Two maps in a row are one. -/
theorem zipM_bind_zipM (f : α → β → Option γ) (g : α → γ → Option δ) {as : List α} {bs : List β}
    (hlen : as.length = bs.length) :
    (zipM f as bs).bind (zipM g as) = zipM (fun a b => (f a b).bind (g a)) as bs := by
  induction as generalizing bs with
  | nil => cases bs <;> rfl
  | cons a as ih =>
    cases bs with
    | nil => cases hlen
    | cons b bs =>
      rw [zipM, zipM, ← ih (Nat.succ.inj hlen)]
      cases f a b with
      | none => rfl
      | some c =>
        rw [Option.bind_some, Option.bind_some]
        cases zipM f as bs with
        | none => cases g a c <;> rfl
        | some cs => rfl

/-- A map that looks up a partner by position. -/
theorem zipIdx_mapM (f : β → Option α → Option γ) (before as : List α) {bs : List β} (hlen : as.length = bs.length) :
    (bs.zipIdx before.length).mapM (fun e => f e.1 (before ++ as)[e.2]?) = zipM (fun a b => f b (some a)) as bs := by
  induction as generalizing before bs with
  | nil =>
    cases bs with
    | nil => rfl
    | cons b bs => cases hlen
  | cons a as ih =>
    cases bs with
    | nil => cases hlen
    | cons b bs =>
      have hhead : (before ++ a :: as)[before.length]? = some a := by simp
      have htail := ih (before ++ [a]) (Nat.succ.inj hlen)
      rw [List.length_append, List.length_singleton, List.append_assoc, List.singleton_append] at htail
      rw [List.zipIdx_cons, mapM_cons_eq, hhead, htail, zipM]

theorem zipIdx_mapM_self {f : α → Nat → Option α} {l : List α} (h : ∀ x ∈ l, ∀ i, f x i = some x) (k : Nat) :
    ((l.zipIdx k).mapM fun e => f e.1 e.2) = some l := by
  induction l generalizing k with
  | nil => rfl
  | cons x l ih =>
    obtain ⟨hx, hl⟩ := List.forall_mem_cons.1 h
    rw [List.zipIdx_cons, mapM_cons_eq, hx, ih hl]
    rfl

/-! ## Fields by name -/

variable [BEq κ]

theorem lookup_map_snd (g : α → β) (fs : List (κ × α)) (k : κ) :
    (fs.map fun f => (f.1, g f.2)).lookup k = (fs.lookup k).map g := by
  induction fs with
  | nil => rfl
  | cons f fs ih =>
    rw [List.map_cons, List.lookup_cons, List.lookup_cons, ih]
    split <;> rfl

theorem mapM_lookup_map (g : α → β) (fs : List (κ × α)) (names : List κ) :
    (names.mapM fun k => (fs.map fun f => (f.1, g f.2)).lookup k) = (names.mapM fun k => fs.lookup k).map (List.map g) := by
  induction names with
  | nil => rfl
  | cons k names ih =>
    rw [mapM_cons_eq, mapM_cons_eq, ih, lookup_map_snd]
    cases fs.lookup k with
    | none => rfl
    | some v => cases names.mapM fun k => fs.lookup k <;> rfl

theorem lookup_append_singleton [LawfulBEq κ] [DecidableEq κ] {fs : List (κ × α)} {n m : κ} {v : α} :
    (fs ++ [(m, v)]).lookup n = (fs.lookup n).or (if n = m then some v else none) := by
  rw [List.lookup_append, List.lookup_cons]
  by_cases h : n = m
  · rw [if_pos h, beq_iff_eq.2 h]
  · rw [if_neg h, beq_eq_false_iff_ne.2 h]
    rfl

/-- Under distinct names each one leads to the value beside it. -/
theorem mapM_lookup_zip [LawfulBEq κ] {names : List κ} {vs : List α} (hnodup : names.Nodup)
    (hlen : names.length = vs.length) : (names.mapM fun k => (names.zip vs).lookup k) = some vs := by
  induction names generalizing vs with
  | nil =>
    cases vs with
    | nil => rfl
    | cons v vs => cases hlen
  | cons k names ih =>
    cases vs with
    | nil => cases hlen
    | cons v vs =>
      obtain ⟨hk, hnames⟩ := List.nodup_cons.1 hnodup
      have hrest : (names.mapM fun n => ((k, v) :: names.zip vs).lookup n) =
          names.mapM fun n => (names.zip vs).lookup n := by
        apply mapM_congr
        intro n hn
        rw [List.lookup_cons]
        split
        · rename_i heq
          exact absurd ((beq_iff_eq.1 heq) ▸ hn) hk
        · rfl
      rw [List.zip_cons_cons, mapM_cons_eq, List.lookup_cons_self, Option.bind_some, hrest, ih hnames (Nat.succ.inj hlen)]
      rfl

end Lib

import Mathlib.Data.List.Nodup
import Mathlib.Data.List.Dedup
/-!
# Maps that remember insertion order

A hash map that iterates in insertion order: storing under a key already
present keeps the key's place, a new key goes last. The keys are distinct by
construction, so every lookup lemma is free of side conditions.
-/
namespace Lib

@[ext] structure OrderedMap (K V : Type*) where
  entries : List (K × V)
  nodup : (entries.map Prod.fst).Nodup

namespace OrderedMap

variable {K V : Type*}

def empty : OrderedMap K V := ⟨[], by simp⟩

def keys (m : OrderedMap K V) : List K := m.entries.map Prod.fst

def size (m : OrderedMap K V) : Nat := m.entries.length

/-- Keep the entries whose key satisfies `p`. -/
def filter (m : OrderedMap K V) (p : K → Bool) : OrderedMap K V :=
  ⟨m.entries.filter fun e => p e.1, m.nodup.sublist (List.filter_sublist.map _)⟩

@[simp] theorem keys_empty : (empty : OrderedMap K V).keys = [] := rfl

theorem length_keys (m : OrderedMap K V) : m.keys.length = m.size := List.length_map _

theorem keys_nodup (m : OrderedMap K V) : m.keys.Nodup := m.nodup

@[simp] theorem keys_filter (m : OrderedMap K V) (p : K → Bool) : (m.filter p).keys = m.keys.filter p := by
  simp only [keys, filter, List.filter_map]
  rfl

variable [DecidableEq K]

def get? (m : OrderedMap K V) (k : K) : Option V := (m.entries.find? fun e => e.1 = k).map Prod.snd

def contains (m : OrderedMap K V) (k : K) : Bool := (m.get? k).isSome

/-- Replace the value stored under `k`, or append the binding. -/
def put (m : OrderedMap K V) (k : K) (v : V) : OrderedMap K V :=
  if h : k ∈ m.entries.map Prod.fst then
    ⟨m.entries.map fun e => if e.1 = k then (k, v) else e, by
      have : (m.entries.map fun e => if e.1 = k then (k, v) else e).map Prod.fst = m.entries.map Prod.fst := by
        rw [List.map_map]
        exact List.map_congr_left fun e _ => by simp only [Function.comp]; split <;> simp_all
      rw [this]; exact m.nodup⟩
  else
    ⟨m.entries ++ [(k, v)], by
      rw [List.map_append]
      exact List.nodup_append.2 ⟨m.nodup, by simp, by
        intro a ha b hb hab
        simp only [List.map_cons, List.map_nil, List.mem_singleton] at hb
        exact h (hb ▸ hab ▸ ha)⟩⟩

def remove (m : OrderedMap K V) (k : K) : OrderedMap K V := m.filter fun k' => k' ≠ k

theorem get?_eq_some_iff {m : OrderedMap K V} {k : K} {v : V} : m.get? k = some v ↔ (k, v) ∈ m.entries := by
  unfold get?
  constructor
  · intro h
    obtain ⟨⟨k', v'⟩, he, rfl⟩ := Option.map_eq_some_iff.1 h
    obtain rfl : k' = k := by simpa using List.find?_some he
    exact List.mem_of_find?_eq_some he
  · intro h
    obtain ⟨e, he⟩ : ∃ e, m.entries.find? (fun e => e.1 = k) = some e := by
      rw [← Option.isSome_iff_exists, List.find?_isSome]
      exact ⟨_, h, by simp⟩
    have hk : e.1 = k := by simpa using List.find?_some he
    rw [he, Option.map_some, List.inj_on_of_nodup_map m.nodup (List.mem_of_find?_eq_some he) h hk]

theorem mem_keys_iff {m : OrderedMap K V} {k : K} : k ∈ m.keys ↔ ∃ v, m.get? k = some v := by
  simp only [get?_eq_some_iff, keys, List.mem_map, Prod.exists, exists_and_right, exists_eq_right]

theorem contains_iff {m : OrderedMap K V} {k : K} : m.contains k = true ↔ k ∈ m.keys := by
  rw [contains, Option.isSome_iff_exists, mem_keys_iff]

theorem get?_eq_none_iff {m : OrderedMap K V} {k : K} : m.get? k = none ↔ k ∉ m.keys := by
  rw [mem_keys_iff, Option.eq_none_iff_forall_ne_some]
  simp

@[simp] theorem get?_empty (k : K) : (empty : OrderedMap K V).get? k = none := rfl

theorem mem_put_iff {m : OrderedMap K V} {k : K} {v : V} {e : K × V} :
    e ∈ (m.put k v).entries ↔ e = (k, v) ∨ (e ∈ m.entries ∧ e.1 ≠ k) := by
  unfold put
  split
  · rename_i h
    simp only [List.mem_map]
    constructor
    · rintro ⟨e', he', rfl⟩
      split
      · exact .inl rfl
      · rename_i hk; exact .inr ⟨he', hk⟩
    · rintro (rfl | ⟨he, hk⟩)
      · obtain ⟨e', he', hk'⟩ := List.mem_map.1 h
        exact ⟨e', he', by simp [hk']⟩
      · exact ⟨e, he, by simp [hk]⟩
  · rename_i h
    simp only [List.mem_append, List.mem_singleton]
    constructor
    · rintro (he | rfl)
      · exact .inr ⟨he, fun hk => h (List.mem_map.2 ⟨e, he, hk⟩)⟩
      · exact .inl rfl
    · rintro (rfl | ⟨he, -⟩)
      · exact .inr rfl
      · exact .inl he

@[simp] theorem get?_put (m : OrderedMap K V) (k k' : K) (v : V) :
    (m.put k v).get? k' = if k' = k then some v else m.get? k' := by
  ext w
  rw [get?_eq_some_iff, mem_put_iff]
  split
  · rename_i h; subst h; simp [eq_comm]
  · rename_i h; simp [get?_eq_some_iff, h]

theorem entries_put_of_not_mem {m : OrderedMap K V} {k : K} (h : k ∉ m.keys) (v : V) :
    (m.put k v).entries = m.entries ++ [(k, v)] := by
  rw [put, dif_neg (show k ∉ m.entries.map Prod.fst from h)]

theorem keys_put_of_not_mem {m : OrderedMap K V} {k : K} (h : k ∉ m.keys) (v : V) :
    (m.put k v).keys = m.keys ++ [k] := by
  simp [keys, entries_put_of_not_mem h]

@[simp] theorem get?_filter (m : OrderedMap K V) (p : K → Bool) (k : K) :
    (m.filter p).get? k = if p k then m.get? k else none := by
  ext v
  rw [get?_eq_some_iff]
  simp only [filter, List.mem_filter]
  split
  · rename_i h; simp [get?_eq_some_iff, h]
  · rename_i h; simp [h]

@[simp] theorem keys_remove (m : OrderedMap K V) (k : K) : (m.remove k).keys = m.keys.filter (· ≠ k) :=
  keys_filter m _

@[simp] theorem get?_remove (m : OrderedMap K V) (k k' : K) :
    (m.remove k).get? k' = if k' = k then none else m.get? k' := by
  simp only [remove, get?_filter, decide_eq_true_eq, ne_eq, ite_not]

theorem keys_put_of_mem {m : OrderedMap K V} {k : K} (h : k ∈ m.keys) (v : V) : (m.put k v).keys = m.keys := by
  rw [put, dif_pos (show k ∈ m.entries.map Prod.fst from h)]
  simp only [keys, List.map_map]
  apply List.map_congr_left
  intro e _
  simp only [Function.comp]
  split
  · rename_i hk; exact hk.symm
  · rfl

/-! ## Evicting keys -/

theorem get?_foldl_remove (ks : List K) (m : OrderedMap K V) (k : K) :
    (ks.foldl (fun m k => m.remove k) m).get? k = if k ∈ ks then none else m.get? k := by
  induction ks generalizing m with
  | nil => simp
  | cons k' ks ih =>
    rw [List.foldl_cons, ih]
    by_cases hk : k ∈ ks
    · simp [hk]
    · by_cases hkk : k = k' <;> simp [hk, hkk]

theorem keys_foldl_remove (ks : List K) (m : OrderedMap K V) :
    (ks.foldl (fun m k => m.remove k) m).keys = m.keys.filter (· ∉ ks) := by
  induction ks generalizing m with
  | nil => simp
  | cons k ks ih =>
    rw [List.foldl_cons, ih, keys_remove, List.filter_filter]
    apply List.filter_congr
    intro k' _
    by_cases hk : k' = k <;> simp [hk]

/-- Removing the oldest `n` keys one after the other leaves the keys after them. -/
theorem keys_remove_oldest (m : OrderedMap K V) (n : Nat) :
    ((m.keys.take n).foldl (fun m k => m.remove k) m).keys = m.keys.drop n := by
  rw [keys_foldl_remove]
  have hd : (m.keys.take n ++ m.keys.drop n).Nodup := by rw [List.take_append_drop]; exact m.keys_nodup
  have hdisj := (List.nodup_append.1 hd).2.2
  conv_lhs => rw [← List.take_append_drop n m.keys]
  rw [List.filter_append, List.take_append_drop, List.filter_eq_nil_iff.2, List.nil_append, List.filter_eq_self.2]
  · intro k hk
    simpa using fun hk' => hdisj k hk' k hk rfl
  · intro k hk
    simpa using hk

end OrderedMap

end Lib

import HardhatTron.Lib.OrderedMap
/-!
# A table of the last results

Results are kept under their arguments in the order in which they were made, and
when there are more than `bound` of them, all but the last `kept` are dropped. The
table is then a window at the end of the list of all arguments that a result was
made for, so none is made again until `kept` others were: the list is `Spread`.
-/
namespace Lib

variable {K V : Type*} [DecidableEq K]

/-- Drops the oldest, one after the other, until `kept` are left. -/
def OrderedMap.trim (bound kept : Nat) (m : OrderedMap K V) : OrderedMap K V :=
  if m.size ≤ bound then m else (m.keys.take (m.size - kept)).foldl (fun m k => m.remove k) m

/-- After every entry come `n` others before it comes again. -/
def Spread (n : Nat) (l : List K) : Prop := ∀ l₁ k l₂, l = l₁ ++ k :: l₂ → k ∉ l₂.take n

/-- The table holds the right results of the last arguments of `made`. -/
structure Window (make : K → Option V) (bound kept : Nat) (made : List K) (m : OrderedMap K V) : Prop where
  keys : m.keys <:+ made
  filled : min kept made.length ≤ m.size
  bounded : m.size ≤ bound
  right : ∀ k v, m.get? k = some v → make k = some v

variable {make : K → Option V} {bound kept n : Nat} {made l : List K} {m : OrderedMap K V} {k : K} {v : V}

theorem OrderedMap.keys_trim (bound kept : Nat) (m : OrderedMap K V) :
    (m.trim bound kept).keys = if m.size ≤ bound then m.keys else m.keys.drop (m.size - kept) := by
  unfold OrderedMap.trim
  split
  · rfl
  · exact m.keys_remove_oldest _

theorem OrderedMap.get?_of_trim (h : (m.trim bound kept).get? k = some v) : m.get? k = some v := by
  unfold OrderedMap.trim at h
  split at h
  · exact h
  · rw [OrderedMap.get?_foldl_remove] at h
    split at h
    · cases h
    · exact h

theorem Window.empty : Window make bound kept [] .empty where
  keys := List.suffix_refl _
  filled := by simp
  bounded := Nat.zero_le _
  right k v h := by cases h

theorem Window.put (hkept : kept ≤ bound) (h : Window make bound kept made m) (hk : m.get? k = none)
    (hv : make k = some v) : Window make bound kept (made ++ [k]) ((m.put k v).trim bound kept) := by
  have hkeys : (m.put k v).keys = m.keys ++ [k] := OrderedMap.keys_put_of_not_mem (OrderedMap.get?_eq_none_iff.1 hk) v
  have hsize : (m.put k v).size = m.size + 1 := by
    rw [← OrderedMap.length_keys, hkeys, List.length_append, OrderedMap.length_keys]
    rfl
  have htrim := OrderedMap.keys_trim bound kept (m.put k v)
  have hlength : ((m.put k v).trim bound kept).size = if m.size + 1 ≤ bound then m.size + 1 else kept := by
    rw [← OrderedMap.length_keys, htrim, hsize]
    split
    · rw [OrderedMap.length_keys, hsize]
    · rw [List.length_drop, OrderedMap.length_keys, hsize]
      omega
  have hfilled := h.filled
  refine ⟨?_, ?_, ?_, ?_⟩
  · have hsuffix : m.keys ++ [k] <:+ made ++ [k] := by
      obtain ⟨older, rfl⟩ := h.keys
      exact ⟨older, (List.append_assoc _ _ _).symm⟩
    rw [htrim, hkeys]
    split
    · exact hsuffix
    · exact (List.drop_suffix _ _).trans hsuffix
  · rw [hlength, List.length_append, List.length_singleton]
    split <;> omega
  · rw [hlength]
    split <;> omega
  · intro k' v' h'
    have hput := OrderedMap.get?_of_trim h'
    rw [OrderedMap.get?_put] at hput
    split at hput
    · rename_i hk'
      rw [hk', hv, hput]
    · exact h.right k' v' hput

omit [DecidableEq K] in
theorem Spread.nil : Spread n ([] : List K) := by
  intro l₁ k l₂ h
  simp at h

omit [DecidableEq K] in
/-- An entry that is not among the last `n`. -/
theorem Spread.snoc (h : Spread n l) (hk : ∀ l', l' <:+ l → l'.length ≤ n → k ∉ l') : Spread n (l ++ [k]) := by
  intro l₁ k' l₂ heq hmem
  rcases List.eq_nil_or_concat l₂ with rfl | ⟨l₂, x, rfl⟩
  · simp at hmem
  · rw [List.concat_eq_append, ← List.cons_append, ← List.append_assoc] at heq
    obtain ⟨rfl, heq'⟩ := List.append_inj' heq rfl
    obtain rfl := List.singleton_inj.1 heq'
    rw [List.concat_eq_append, List.take_append, List.mem_append] at hmem
    rcases hmem with hmem | hmem
    · exact h _ _ _ rfl hmem
    · obtain rfl := List.mem_singleton.1 (List.mem_of_mem_take hmem)
      have hlength : l₂.length < n := by
        by_contra hge
        rw [Nat.sub_eq_zero_of_le (Nat.le_of_not_lt hge)] at hmem
        simp at hmem
      apply hk (k' :: l₂) (List.suffix_append _ _) hlength
      exact List.mem_cons_self

/-- An argument that is not in the table is none of the last. -/
theorem Spread.put (h : Spread kept made) (hw : Window make bound kept made m) (hk : m.get? k = none) :
    Spread kept (made ++ [k]) := by
  apply h.snoc
  intro l' hl' hlength hmem
  have hsuffix : l' <:+ m.keys := by
    apply List.suffix_of_suffix_length_le hl' hw.keys
    have hfilled := hw.filled
    have hle := hl'.length_le
    rw [OrderedMap.length_keys]
    omega
  exact OrderedMap.get?_eq_none_iff.1 hk (hsuffix.subset hmem)

end Lib

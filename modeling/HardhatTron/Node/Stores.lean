import HardhatTron.Lib.OrderedMap
/-!
# Dumping and restoring one store

`dumpStore` copies every binding of a store into a map; `restoreStore` brings
the store back to a dump, touching only the keys whose binding changed. The
revoking database under a store is not part of the repository: it is a
parameter, and `IRevokingDB.Lawful` is what its callers rely on. Its calls
throw Java exceptions, which keep the writes made so far, so they run in
`EStateM`.
-/
namespace HardhatTron

open Lib

/-- A `byte[]`. -/
abbrev Bytes := List UInt8

/-- A `Map<ByteBuffer, byte[]>`. Java leaves its iteration order open; the proofs use lookups only. -/
abbrev HashMap := OrderedMap Bytes Bytes

/-- The calls on `org.tron.core.db2.common.IRevokingDB`. An exception is its message. -/
structure IRevokingDB (S : Type) where
  get : S → Bytes → Option Bytes
  iterator : EStateM String S (List (Option Bytes × Option Bytes))
  put : Bytes → Bytes → EStateM String S Unit
  delete : Bytes → EStateM String S Unit

variable {S : Type}

/-- No call fails, and the iterator enumerates the current non-null bindings once each. -/
structure IRevokingDB.Lawful (db : IRevokingDB S) : Prop where
  put_ok : ∀ k v s, ∃ s', db.put k v s = .ok () s' ∧ ∀ k', db.get s' k' = if k' = k then some v else db.get s k'
  delete_ok : ∀ k s, ∃ s', db.delete k s = .ok () s' ∧ ∀ k', db.get s' k' = if k' = k then none else db.get s k'
  iterator_ok : ∀ s, ∃ l : List (Bytes × Bytes), db.iterator s = .ok (l.map fun e => (some e.1, some e.2)) s ∧
    (l.map Prod.fst).Nodup ∧ ∀ k v, (k, v) ∈ l ↔ db.get s k = some v

/-- A revoking database kept in memory. -/
def memoryDB : IRevokingDB HashMap where
  get m k := m.get? k
  iterator := fun m => .ok (m.entries.map fun e => (some e.1, some e.2)) m
  put k v := fun m => .ok () (m.put k v)
  delete k := fun m => .ok () (m.remove k)

theorem memoryDB_lawful : memoryDB.Lawful where
  put_ok k v m := ⟨m.put k v, rfl, fun k' => m.get?_put k k' v⟩
  delete_ok k m := ⟨m.remove k, rfl, m.get?_remove k⟩
  iterator_ok m := ⟨m.entries, rfl, m.nodup, fun _ _ => OrderedMap.get?_eq_some_iff.symm⟩

/-! ## `dumpStore` and `restoreStore` -/

/-- The body of `dumpStore`'s loop: entries with a null key or value are skipped. -/
def dumpEntry (out : HashMap) (e : Option Bytes × Option Bytes) : HashMap :=
  match e with
  | (some k, some v) => out.put k v
  | _ => out

def dumpStore (db : IRevokingDB S) : EStateM String S HashMap := do
  let it ← db.iterator
  return it.foldl dumpEntry .empty

/-- What the single pass of `restoreStore` collects. -/
structure Scan where
  toDelete : List Bytes
  matched : List Bytes

/-- The body of `restoreStore`'s pass: classify one key of the current store. -/
def scanEntry (db : IRevokingDB S) (snapshot : HashMap) (a : Scan) (entry : Option Bytes × Option Bytes) :
    EStateM String S Scan :=
  match entry.1 with
  | none => pure a
  | some k =>
    match snapshot.get? k with
    | none => pure { a with toDelete := a.toDelete ++ [k] }
    | some snapVal => do
      if entry.2 ≠ some snapVal then db.put k snapVal
      return { a with matched := k :: a.matched }

def restoreStore (db : IRevokingDB S) (snapshot : HashMap) : EStateM String S Unit := do
  let it ← db.iterator
  let a ← it.foldlM (scanEntry db snapshot) ⟨[], []⟩
  forM a.toDelete db.delete
  forM snapshot.entries fun e => if e.1 ∈ a.matched then pure () else db.put e.1 e.2

/-! ## Running a step that succeeds -/

theorem bind_ok {ε σ α β : Type} {m : EStateM ε σ α} {f : α → EStateM ε σ β} {s s' : σ} {a : α}
    (h : m s = .ok a s') : (m >>= f) s = f a s' := by
  simp only [bind, EStateM.bind, h]

/-! ## What a dump holds -/

theorem get?_foldl_dumpEntry (l : List (Bytes × Bytes)) (out : HashMap) (k : Bytes)
    (hn : (l.map Prod.fst).Nodup) :
    ((l.map fun e => (some e.1, some e.2)).foldl dumpEntry out).get? k =
      ((l.find? fun e => e.1 = k).map Prod.snd).or (out.get? k) := by
  induction l generalizing out with
  | nil => simp
  | cons e l ih =>
    simp only [List.map_cons, List.nodup_cons] at hn
    simp only [List.map_cons, List.foldl_cons, dumpEntry]
    rw [ih _ hn.2, OrderedMap.get?_put]
    by_cases hk : e.1 = k
    · subst hk
      have hnone : l.find? (fun e' => e'.1 = e.1) = none := by
        rw [List.find?_eq_none]
        intro x hx
        simp only [decide_eq_true_eq]
        exact fun h => hn.1 (List.mem_map.2 ⟨x, hx, h⟩)
      simp [hnone]
    · simp [hk, Ne.symm hk]

theorem find?_eq_get {db : IRevokingDB S} {s : S} {l : List (Bytes × Bytes)} (hn : (l.map Prod.fst).Nodup)
    (hl : ∀ k v, (k, v) ∈ l ↔ db.get s k = some v) (k : Bytes) :
    (l.find? fun e => e.1 = k).map Prod.snd = db.get s k := by
  ext v
  rw [← hl]
  exact OrderedMap.get?_eq_some_iff (m := ⟨l, hn⟩)

/-- A dump holds exactly the bindings of the store, which it leaves as it was. -/
theorem dumpStore_ok {db : IRevokingDB S} (hdb : db.Lawful) (s : S) :
    ∃ d, dumpStore db s = .ok d s ∧ ∀ k, d.get? k = db.get s k := by
  obtain ⟨l, hit, hn, hl⟩ := hdb.iterator_ok s
  refine ⟨_, by rw [dumpStore, bind_ok hit]; rfl, fun k => ?_⟩
  rw [get?_foldl_dumpEntry l _ k hn, find?_eq_get hn hl]
  simp

/-! ## What a restore leaves -/

/-- The binding of `k` after the pass went over the keys `ks`: the snapshot's
where it has one, otherwise still the store's. -/
def scanned (db : IRevokingDB S) (snapshot : HashMap) (s : S) (ks : List Bytes) (k : Bytes) : Option Bytes :=
  if k ∈ ks then (snapshot.get? k).or (db.get s k) else db.get s k

theorem foldlM_scanEntry {db : IRevokingDB S} (hdb : db.Lawful) (snapshot : HashMap) (s : S)
    (l : List (Bytes × Bytes)) (hl : ∀ e ∈ l, db.get s e.1 = some e.2) (done : List Bytes) (a : Scan) (t : S)
    (ht : ∀ k, db.get t k = scanned db snapshot s done k)
    (hd : ∀ k, k ∈ a.toDelete ↔ k ∈ done ∧ snapshot.get? k = none)
    (hm : ∀ k, k ∈ a.matched ↔ k ∈ done ∧ snapshot.get? k ≠ none) :
    ∃ a' t', (l.map fun e => (some e.1, some e.2)).foldlM (scanEntry db snapshot) a t = .ok a' t' ∧
      (∀ k, db.get t' k = scanned db snapshot s (done ++ l.map Prod.fst) k) ∧
      (∀ k, k ∈ a'.toDelete ↔ k ∈ done ++ l.map Prod.fst ∧ snapshot.get? k = none) ∧
      ∀ k, k ∈ a'.matched ↔ k ∈ done ++ l.map Prod.fst ∧ snapshot.get? k ≠ none := by
  induction l generalizing done a t with
  | nil => exact ⟨a, t, rfl, by simpa using ht, by simpa using hd, by simpa using hm⟩
  | cons e l ih =>
    obtain ⟨k, v⟩ := e
    have hkv : db.get s k = some v := hl (k, v) (by simp)
    have hl' : ∀ e ∈ l, db.get s e.1 = some e.2 := fun e he => hl e (by simp [he])
    rw [List.map_cons, List.foldlM_cons, show done ++ (((k, v) :: l).map Prod.fst) =
      (done ++ [k]) ++ l.map Prod.fst by simp]
    cases hs : snapshot.get? k with
    | none =>
      -- ADDED since the snapshot: remember it for the delete list.
      rw [bind_ok (show scanEntry db snapshot a (some k, some v) t = .ok { a with toDelete := a.toDelete ++ [k] } t by
        simp only [scanEntry, hs]; rfl)]
      refine ih hl' _ _ t (fun k' => ?_) (fun k' => ?_) (fun k' => ?_)
      · rw [ht k', scanned, scanned]
        by_cases hk : k' = k
        · subst hk; simp [hs]
        · simp [hk]
      · by_cases hk : k' = k
        · subst hk; simp [hs]
        · simp [hk, hd]
      · by_cases hk : k' = k
        · subst hk; simp [hs, hm]
        · simp [hk, hm]
    | some w =>
      -- In both: written back only if the value changed.
      obtain ⟨t', hstep, ht'⟩ : ∃ t', scanEntry db snapshot a (some k, some v) t =
          .ok { a with matched := k :: a.matched } t' ∧ ∀ k', db.get t' k' = if k' = k then some w else db.get t k' := by
        simp only [scanEntry, hs]
        by_cases hv : v = w
        · subst hv
          refine ⟨t, by simp; rfl, fun k' => ?_⟩
          split
          · rename_i h; subst h; rw [ht, scanned]; simp [hs, hkv]
          · rfl
        · obtain ⟨t', hput, hget⟩ := hdb.put_ok k w t
          refine ⟨t', ?_, hget⟩
          rw [if_pos (by simpa using hv), bind_ok hput]
          rfl
      rw [bind_ok hstep]
      refine ih hl' _ _ t' (fun k' => ?_) (fun k' => ?_) (fun k' => ?_)
      · rw [ht', scanned]
        by_cases hk : k' = k
        · subst hk; simp [hs]
        · simp [hk, ht, scanned]
      · by_cases hk : k' = k
        · subst hk; simp [hs, hd]
        · simp [hk, hd]
      · by_cases hk : k' = k
        · subst hk; simp [hs]
        · simp [hk, hm]

theorem forM_delete {db : IRevokingDB S} (hdb : db.Lawful) (ks : List Bytes) (t : S) :
    ∃ t', forM ks db.delete t = .ok () t' ∧ ∀ k, db.get t' k = if k ∈ ks then none else db.get t k := by
  induction ks generalizing t with
  | nil => exact ⟨t, rfl, by simp⟩
  | cons k ks ih =>
    obtain ⟨t₁, h₁, hg₁⟩ := hdb.delete_ok k t
    obtain ⟨t₂, h₂, hg₂⟩ := ih t₁
    refine ⟨t₂, by rw [List.forM_cons, bind_ok h₁, h₂], fun k' => ?_⟩
    rw [hg₂, hg₁]
    by_cases hk : k' = k <;> by_cases hm : k' ∈ ks <;> simp [hk, hm]

theorem forM_putMissing {db : IRevokingDB S} (hdb : db.Lawful) (matched : List Bytes) (l : List (Bytes × Bytes))
    (hn : (l.map Prod.fst).Nodup) (t : S) :
    ∃ t', forM l (fun e => if e.1 ∈ matched then pure () else db.put e.1 e.2) t = .ok () t' ∧
      ∀ k, db.get t' k = if k ∈ matched then db.get t k
        else ((l.find? fun e => e.1 = k).map Prod.snd).or (db.get t k) := by
  induction l generalizing t with
  | nil => exact ⟨t, rfl, by simp⟩
  | cons e l ih =>
    obtain ⟨k, v⟩ := e
    simp only [List.map_cons, List.nodup_cons] at hn
    obtain ⟨t₁, h₁, hg₁⟩ : ∃ t₁, (if k ∈ matched then pure () else db.put k v : EStateM String S Unit) t = .ok () t₁ ∧
        ∀ k', db.get t₁ k' = if k' = k ∧ k ∉ matched then some v else db.get t k' := by
      by_cases hk : k ∈ matched
      · exact ⟨t, by rw [if_pos hk]; rfl, by simp [hk]⟩
      · obtain ⟨t₁, h₁, hg₁⟩ := hdb.put_ok k v t
        exact ⟨t₁, by rw [if_neg hk, h₁], by simp [hk, hg₁]⟩
    obtain ⟨t₂, h₂, hg₂⟩ := ih hn.2 t₁
    refine ⟨t₂, by rw [List.forM_cons, bind_ok h₁, h₂], fun k' => ?_⟩
    rw [hg₂, hg₁]
    by_cases hk : k' = k
    · subst hk
      have hnone : l.find? (fun e => e.1 = k') = none := by
        rw [List.find?_eq_none]
        intro x hx
        simp only [decide_eq_true_eq]
        exact fun h => hn.1 (List.mem_map.2 ⟨x, hx, h⟩)
      by_cases hm : k' ∈ matched <;> simp [hm, hnone]
    · simp [hk, Ne.symm hk]

/-- A restore leaves exactly the bindings of the snapshot. -/
theorem restoreStore_ok {db : IRevokingDB S} (hdb : db.Lawful) (snapshot : HashMap) (s : S) :
    ∃ s', restoreStore db snapshot s = .ok () s' ∧ ∀ k, db.get s' k = snapshot.get? k := by
  obtain ⟨l, hit, hn, hl⟩ := hdb.iterator_ok s
  obtain ⟨a, t, hscan, ht, hd, hm⟩ := foldlM_scanEntry hdb snapshot s l (fun e he => (hl _ _).1 he) [] ⟨[], []⟩ s
    (by simp [scanned]) (by simp) (by simp)
  obtain ⟨t₁, hdel, hg₁⟩ := forM_delete hdb a.toDelete t
  obtain ⟨t₂, hput, hg₂⟩ := forM_putMissing hdb a.matched snapshot.entries snapshot.nodup t₁
  refine ⟨t₂, by rw [restoreStore, bind_ok hit, bind_ok hscan, bind_ok hdel, hput], fun k => ?_⟩
  have hcur : k ∈ l.map Prod.fst ↔ db.get s k ≠ none := by
    rw [Option.ne_none_iff_exists']
    simp [List.mem_map, hl]
  rw [hg₂, hg₁, ht, show ((snapshot.entries.find? fun e => e.1 = k).map Prod.snd) = snapshot.get? k from rfl]
  simp only [hm, hd, scanned, List.nil_append]
  by_cases hk : k ∈ l.map Prod.fst
  · cases hs : snapshot.get? k <;> simp [hk]
  · have hnone : db.get s k = none := by
      rw [hcur, not_not] at hk; exact hk
    cases hs : snapshot.get? k <;> simp [hk, hnone]

end HardhatTron

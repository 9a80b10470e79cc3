import HardhatTron.Node.StorageRange
/-!
# A contract's rows, page by page

`debug_storageRangeAt` lists at most `limit` rows and names the first it left
out. Whoever asks again from that name until none is given has read the rows
from the start key on, in order and each once: `paging_lists_rows`.
-/
namespace HardhatTron

open Lib

/-- Hex digits, bare or after `0x`. -/
structure StartKey where
  text : JsString
  digits : ∀ c ∈ (if "0x".toList <+: text then text.drop 2 else text), isHexDigit c = true

/-- A row as a page shows it. -/
def rowText (row : Bytes × DataWord) : JsString × JsString := (hexOfBytes row.1, hexOfBytes row.2.bytes)

/-- The key of the row is at or above the start. -/
def AtOrAbove (start : Option Bytes) (row : Bytes × DataWord) : Prop := ∀ s ∈ start, keyRank s ≤ keyRank row.1

instance (start : Option Bytes) (row : Bytes × DataWord) : Decidable (AtOrAbove start row) :=
  inferInstanceAs (Decidable (∀ s ∈ start, keyRank s ≤ keyRank row.1))

section

variable {Account SmartContract : Type} (env : StorageEnv Account SmartContract) (rows : StorageRows)
  (address : JsString) (limit : Nat)

/-- The rows of a contract in the order of the `TreeMap`. -/
def sortedRows (a : Bytes) : List (Bytes × DataWord) :=
  ascending keyRank (rows.entries.filter fun row => decide (rowPrefix env a <+: row.1))

/-- The pages of a caller who passes each `nextKey` as the next start key, until a page has none. -/
inductive Paging : JsString → List StorageRangeResult → Prop
  | last {startKey : JsString} {page : StorageRangeResult} :
      storageRangeAt env rows address startKey limit = .ok page → page.nextKey = none → Paging startKey [page]
  | next {startKey nextKey : JsString} {page : StorageRangeResult} {pages : List StorageRangeResult} :
      storageRangeAt env rows address startKey limit = .ok page → page.nextKey = some nextKey →
      Paging nextKey pages → Paging startKey (page :: pages)

variable {env rows address limit}

/-! ## One page -/

theorem below_eq (start : Option Bytes) (row : Bytes × DataWord) :
    (start.any fun s => decide (keyRank row.1 < keyRank s)) = !decide (AtOrAbove start row) := by
  cases start with
  | none => simp [AtOrAbove]
  | some s =>
    have habove : AtOrAbove (some s) row ↔ keyRank s ≤ keyRank row.1 := by simp [AtOrAbove]
    rw [Option.any_some, ← decide_not, decide_eq_decide, habove]
    exact not_le.symm

theorem atOrAbove_some (start : Bytes) : (fun row : Bytes × DataWord => decide (AtOrAbove (some start) row)) =
    fun row => decide (keyRank start ≤ keyRank row.1) := by
  funext row
  simp [AtOrAbove]

theorem rangeLoop_eq (start : Option Bytes) {count : Nat} (hcount : count ≤ limit)
    (l : List (Bytes × DataWord)) : rangeLoop start limit l count =
      ⟨((l.filter fun row => decide (AtOrAbove start row)).take (limit - count)).map rowText,
        ((l.filter fun row => decide (AtOrAbove start row)).drop (limit - count)).head?.map
          fun row => hexOfBytes row.1⟩ := by
  induction l generalizing count with
  | nil => simp [rangeLoop]
  | cons row l ih =>
    obtain ⟨key, value⟩ := row
    rw [rangeLoop, below_eq start (key, value)]
    by_cases habove : AtOrAbove start (key, value)
    · rw [List.filter_cons_of_pos (by simpa using habove)]
      by_cases hfull : limit = count
      · -- the page is full, and this row is the next
        subst hfull
        simp [habove]
      · have hroom : limit - count = (limit - (count + 1)) + 1 := by omega
        have hlt : count + 1 ≤ limit := by omega
        rw [hroom, List.take_succ_cons, List.drop_succ_cons, ih hlt]
        simp [habove, Nat.not_le.2 hlt, rowText]
    · rw [List.filter_cons_of_neg (by simpa using habove), ← ih hcount]
      simp [habove]

theorem storageRangeAt_eq (rows : StorageRows) {a : Bytes} (ha : env.rt.decodeAddress (some (String.ofList address)) = .ok a)
    (hlimit : 1 ≤ limit) (startKey : JsString) : storageRangeAt env rows address startKey limit =
      .ok ⟨(((sortedRows env rows a).filter fun row => decide (AtOrAbove (startBytes startKey) row)).take limit).map
          rowText,
        (((sortedRows env rows a).filter fun row => decide (AtOrAbove (startBytes startKey) row)).drop limit).head?.map
          fun row => hexOfBytes row.1⟩ := by
  unfold storageRangeAt
  rw [if_neg (by omega), ha]
  exact congrArg Except.ok (rangeLoop_eq (startBytes startKey) (Nat.zero_le limit) _)

/-! ## The next page -/

theorem not_zeroX_hexOfBytes (key : Bytes) : ¬ "0x".toList <+: hexOfBytes key := by
  rintro ⟨rest, hrest⟩
  cases key with
  | nil => cases hrest
  | cons b key =>
    have hx : (b.toNat % 16).digitChar = 'x' := (List.cons.inj (List.cons.inj hrest).2).1.symm
    have hdigit := isHexDigit_digitChar (Nat.mod_lt b.toNat (by omega : 0 < 16))
    rw [hx] at hdigit
    cases hdigit

/-- The name of the next row is read as that row's key. -/
theorem startBytes_hexOfBytes {key : Bytes} (hkey : key ≠ []) : startBytes (hexOfBytes key) = some key := by
  unfold startBytes
  simp only [if_neg (not_zeroX_hexOfBytes key)]
  rw [if_neg fun h => hkey (hexOfBytes_eq_nil h), fromHexString_hexOfBytes]

theorem sortedRows_pairwise (env : StorageEnv Account SmartContract) (rows : StorageRows) (a : Bytes) :
    (sortedRows env rows a).Pairwise fun r s => keyRank r.1 < keyRank s.1 :=
  ascending_pairwise_lt keyRank_injective (rows.nodup.sublist (List.filter_sublist.map _))

theorem mem_sortedRows {a : Bytes} {row : Bytes × DataWord} :
    row ∈ sortedRows env rows a ↔ row ∈ rows.entries ∧ rowPrefix env a <+: row.1 := by
  rw [sortedRows, mem_ascending, List.mem_filter, decide_eq_true_eq]

/-- Rows of one order, one after the other: a scan from any but the first of them goes on there. -/
theorem from_nextKey {before after all : List (Bytes × DataWord)} {row : Bytes × DataWord}
    (hall : all.Pairwise fun r s => keyRank r.1 < keyRank s.1) (hsplit : all = before ++ row :: after)
    (hbefore : before ≠ []) :
    all.filter (fun r => decide (AtOrAbove (startBytes (hexOfBytes row.1)) r)) = row :: after := by
  have hkey : row.1 ≠ [] := by
    -- something comes before it
    intro hnil
    obtain ⟨r, rest, rfl⟩ := List.exists_cons_of_ne_nil hbefore
    rw [hsplit] at hall
    have hlt := (List.pairwise_append.1 hall).2.2 r List.mem_cons_self row List.mem_cons_self
    rw [hnil] at hlt
    exact List.not_lt_nil _ hlt
  rw [startBytes_hexOfBytes hkey, atOrAbove_some, hsplit]
  exact filter_from_eq (hsplit ▸ hall)

/-! ## All pages -/

theorem Paging.unique {startKey : JsString} {pages pages' : List StorageRangeResult}
    (h : Paging env rows address limit startKey pages) (h' : Paging env rows address limit startKey pages') :
    pages' = pages := by
  induction h generalizing pages' with
  | last hpage hnone =>
    cases h' with
    | last hpage' hnone' => rw [Except.ok.inj (hpage'.symm.trans hpage)]
    | next hpage' hsome' _ =>
      rw [Except.ok.inj (hpage'.symm.trans hpage), hnone] at hsome'
      cases hsome'
  | next hpage hsome _ ih =>
    cases h' with
    | last hpage' hnone' =>
      rw [Except.ok.inj (hpage'.symm.trans hpage), hsome] at hnone'
      cases hnone'
    | next hpage' hsome' hrest' =>
      rw [Except.ok.inj (hpage'.symm.trans hpage), hsome] at hsome'
      cases hsome'
      rw [Except.ok.inj (hpage'.symm.trans hpage), ih hrest']

/-- From a start key whose rows are these, the pages list them. -/
theorem exists_paging {a : Bytes} (ha : env.rt.decodeAddress (some (String.ofList address)) = .ok a)
    (hlimit : 1 ≤ limit) {before listed : List (Bytes × DataWord)} (hsplit : sortedRows env rows a = before ++ listed)
    {startKey : JsString}
    (hlisted : (sortedRows env rows a).filter (fun row => decide (AtOrAbove (startBytes startKey) row)) = listed) :
    ∃ pages, Paging env rows address limit startKey pages ∧ (∀ page ∈ pages, page.storage.length ≤ limit) ∧
      pages.flatMap StorageRangeResult.storage = listed.map rowText := by
  induction hn : listed.length using Nat.strong_induction_on generalizing before listed startKey with
  | _ n ih =>
    subst hn
    have hpage := storageRangeAt_eq rows ha hlimit startKey
    rw [hlisted] at hpage
    have hlen : ((listed.take limit).map rowText).length ≤ limit := by
      rw [List.length_map, List.length_take]
      exact Nat.min_le_left _ _
    cases hrest : listed.drop limit with
    | nil =>
      rw [hrest] at hpage
      refine ⟨_, Paging.last hpage rfl, by simp, ?_⟩
      have htake : listed.take limit = listed := List.take_of_length_le (List.drop_eq_nil_iff.1 hrest)
      simp [htake]
    | cons row after =>
      -- the rows left begin at the name the page gives
      have hcut : listed = listed.take limit ++ row :: after := by rw [← hrest, List.take_append_drop]
      have hlong : limit < listed.length := by
        by_contra hle
        rw [List.drop_eq_nil_of_le (Nat.not_lt.1 hle)] at hrest
        cases hrest
      have hall : sortedRows env rows a = (before ++ listed.take limit) ++ row :: after := by
        rw [List.append_assoc, ← hcut, hsplit]
      have hne : before ++ listed.take limit ≠ [] := by
        intro h
        have htake := congrArg List.length (List.append_eq_nil_iff.1 h).2
        rw [List.length_take, List.length_nil] at htake
        omega
      have hshort : (row :: after).length < listed.length := by
        rw [← hrest, List.length_drop]
        omega
      obtain ⟨pages, hpaging, hlens, htexts⟩ := ih _ hshort hall
        (from_nextKey (sortedRows_pairwise env rows a) hall hne) rfl
      rw [hrest] at hpage
      refine ⟨_ :: pages, Paging.next hpage rfl hpaging, ?_, ?_⟩
      · intro page hmem
        rcases List.mem_cons.1 hmem with rfl | hmem
        · exact hlen
        · exact hlens page hmem
      · rw [List.flatMap_cons, htexts, ← List.map_append, ← hcut]

/-- Whatever the rows, the start key and the limit: asking until no next key is given ends, each page lists at most
`limit` rows, and together they list the contract's rows from the start key on, in order and each once. -/
theorem paging_lists_rows (env : StorageEnv Account SmartContract) (rows : StorageRows) {address : JsString} {a : Bytes}
    (ha : env.rt.decodeAddress (some (String.ofList address)) = .ok a) (startKey : StartKey) {limit : Nat}
    (hlimit : 1 ≤ limit) :
    ∃ (pages : List StorageRangeResult) (listed : List (Bytes × DataWord)),
      (∀ pages', Paging env rows address limit startKey.text pages' ↔ pages' = pages) ∧
      (∀ page ∈ pages, page.storage.length ≤ limit) ∧
      pages.flatMap StorageRangeResult.storage = listed.map rowText ∧
      listed.Pairwise (fun r s => keyRank r.1 < keyRank s.1) ∧
      ∀ row, row ∈ listed ↔
        row ∈ rows.entries ∧ rowPrefix env a <+: row.1 ∧ AtOrAbove (startBytes startKey.text) row := by
  have hsorted := sortedRows_pairwise env rows a
  obtain ⟨before, hsplit⟩ : ∃ before, sortedRows env rows a =
      before ++ (sortedRows env rows a).filter fun row => decide (AtOrAbove (startBytes startKey.text) row) := by
    cases startBytes startKey.text with
    | none => exact ⟨[], by simp [AtOrAbove]⟩
    | some start =>
      rw [atOrAbove_some]
      exact exists_append_filter_from (keyRank start) hsorted
  obtain ⟨pages, hpaging, hlens, htexts⟩ := exists_paging ha hlimit hsplit rfl
  refine ⟨pages, _, ?_, hlens, htexts, hsorted.filter _, ?_⟩
  · intro pages'
    constructor
    · exact fun h => hpaging.unique h
    · rintro rfl
      exact hpaging
  · intro row
    rw [List.mem_filter, mem_sortedRows, decide_eq_true_eq, and_assoc]

end

/-- The first byte of the contract's rows: a start key in upper case, after `0x`. -/
def upperStart : StartKey := ⟨"0x2C".toList, List.all_eq_true.1 (by decide)⟩

/-- A contract with a row in slot 0 and one in slot 1. -/
def payerRows : StorageRows :=
  (OrderedMap.empty.put (rowKey payerStorage payerBytes oneWord) zeroWord).put
    (rowKey payerStorage payerBytes zeroWord) oneWord

/-- Both rows are from there on, so a caller who asks for one row a page gets two pages. -/
theorem paging_payerRows : ∃ (pages : List StorageRangeResult) (listed : List (Bytes × DataWord)),
    (∀ pages', Paging payerStorage payerRows payer.text 1 upperStart.text pages' ↔ pages' = pages) ∧
      (∀ page ∈ pages, page.storage.length ≤ 1) ∧
      pages.flatMap StorageRangeResult.storage = listed.map rowText ∧
      listed.Pairwise (fun r s => keyRank r.1 < keyRank s.1) ∧
      (∀ row, row ∈ listed ↔ row ∈ payerRows.entries ∧ rowPrefix payerStorage payerBytes <+: row.1 ∧
        AtOrAbove (startBytes upperStart.text) row) ∧
      2 ≤ pages.length := by
  obtain ⟨pages, listed, hpages, hlens, htexts, hsorted, hlisted⟩ :=
    paging_lists_rows payerStorage payerRows rfl upperStart le_rfl
  refine ⟨pages, listed, hpages, hlens, htexts, hsorted, hlisted, ?_⟩
  have hzero : (rowKey payerStorage payerBytes zeroWord, oneWord) ∈ listed := by
    rw [hlisted]
    decide
  have hone : (rowKey payerStorage payerBytes oneWord, zeroWord) ∈ listed := by
    rw [hlisted]
    decide
  have htwo : 2 ≤ listed.length := by
    rcases listed with _ | ⟨row, _ | ⟨row', rest⟩⟩
    · cases hzero
    · rw [List.mem_singleton] at hzero hone
      exact absurd (congrArg Prod.snd (hzero.trans hone.symm)) oneWord_ne
    · simp
  have hlength : (pages.flatMap StorageRangeResult.storage).length = listed.length := by rw [htexts, List.length_map]
  rcases pages with _ | ⟨page, _ | ⟨page', rest⟩⟩
  · rw [List.flatMap_nil, List.length_nil] at hlength
    omega
  · have hpage := hlens page List.mem_cons_self
    rw [List.flatMap_singleton] at hlength
    omega
  · simp

end HardhatTron

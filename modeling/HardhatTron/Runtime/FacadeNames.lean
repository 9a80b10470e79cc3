import HardhatTron.Runtime.Facade
/-!
# What a property of a facade names

A property is tried as a selector, as a signature, with the names of parameters
or without, and as a name; before all that come the properties the proxy answers
by itself. `get_handle_iff` says which properties give the handle of a function,
and that the handle reaches this function and no other.
-/
namespace HardhatTron

open Lib

namespace Facades

variable {env : FacadeEnv} {abi : AbiEntries} {f : Facade} {fn : AbiFunction} {e : Endpoint}
  {h : List (FacadeUse × FacadeAnswer)} {s : FacadeProcess}

/-! ## What a property names -/

/-- Canonical signatures and selectors tell the functions of the ABI apart, and their names are
identifiers. A compiler's output can fail the first: `f(S[][])` of two structs is `f(tuple[][])` twice. -/
structure WellFormed (env : FacadeEnv) (abi : AbiEntries) : Prop where
  sigs : DistinctSigs abi
  selectors : ((functions abi).map env.selector).Nodup
  names : ∀ fn ∈ functions abi, '(' ∉ fn.name ∧ isSelector fn.name = false

/-- The functions of the ABI a property is for: by selector, by signature, with the names of parameters or without,
or by a name that is not overloaded. -/
inductive NamesFunction (env : FacadeEnv) (abi : AbiEntries) (prop : JsString) (fn : AbiFunction) : Prop
  | selector (h : isSelector prop = true) (hfn : env.selector fn = prop.map Char.toLower)
  | signature (h : canonicalSig fn = prop)
  | parsed {name types} (hparen : '(' ∈ prop) (hnone : ∀ fn' ∈ functions abi, canonicalSig fn' ≠ prop)
      (hparse : env.parseFragment prop = some (name, types)) (h : canonicalSig fn = name ++ bracketed '(' ',' ')' types)
  | name (h : fn.name = prop) (honly : ∀ fn' ∈ functions abi, fn'.name = prop → fn' = fn)

/-- The property is none of those that the proxy answers by itself. -/
def Free (prop : JsString) : Prop := prop ∉ targetKeys ∧ prop ∉ proxyKeys ∧ prop ≠ "then".toList

theorem find_last_iff {κ : Type} [DecidableEq κ] {key : AbiFunction → κ} {l : List AbiFunction} (hn : (l.map key).Nodup)
    {k : κ} : l.reverse.find? (fun fn => key fn = k) = some fn ↔ fn ∈ l ∧ key fn = k := by
  constructor
  · intro h
    exact ⟨mem_of_reverse_find h, by simpa using List.find?_some h⟩
  · rintro ⟨hmem, rfl⟩
    cases hfind : l.reverse.find? (fun fn' => key fn' = key fn) with
    | none => simpa using List.find?_eq_none.1 hfind fn (List.mem_reverse.2 hmem)
    | some fn' =>
      have hkey : key fn' = key fn := by simpa using List.find?_some hfind
      rw [List.inj_on_of_nodup_map hn (mem_of_reverse_find hfind) hmem hkey]

theorem overloads_eq_singleton (hd : DistinctSigs abi) {name : JsString} :
    overloadsByName abi name = [fn] ↔
      fn ∈ functions abi ∧ fn.name = name ∧ ∀ fn' ∈ functions abi, fn'.name = name → fn' = fn := by
  have hmem : ∀ fn', fn' ∈ overloadsByName abi name ↔ fn' ∈ functions abi ∧ fn'.name = name := by
    simp [overloadsByName]
  constructor
  · intro h
    have hfn := (hmem fn).1 (by simp [h])
    refine ⟨hfn.1, hfn.2, fun fn' hfn' hname => ?_⟩
    simpa [h] using (hmem fn').2 ⟨hfn', hname⟩
  · rintro ⟨hfn, hname, honly⟩
    have hnodup : (overloadsByName abi name).Nodup := (List.Nodup.of_map _ hd).filter _
    have hall : ∀ fn' ∈ overloadsByName abi name, fn' = fn := fun fn' h => honly fn' ((hmem fn').1 h).1 ((hmem fn').1 h).2
    obtain ⟨n, hn⟩ : ∃ n, overloadsByName abi name = List.replicate n fn := ⟨_, List.eq_replicate_of_mem hall⟩
    have hin := (hmem fn).2 ⟨hfn, hname⟩
    rw [hn] at hnodup hin ⊢
    obtain rfl : n = 1 := by
      have := List.nodup_replicate.1 hnodup
      have := (List.mem_replicate.1 hin).1
      omega
    rfl

theorem byName_one_iff (hd : DistinctSigs abi) {name : JsString} :
    byName abi name = .one fn ↔
      fn ∈ functions abi ∧ fn.name = name ∧ ∀ fn' ∈ functions abi, fn'.name = name → fn' = fn := by
  rw [← overloads_eq_singleton hd]
  unfold byName
  split
  · rename_i h
    simp [h]
  · rename_i h
    simp [h]
  · rename_i hnil hone
    exact ⟨nofun, fun h => absurd h (hone fn)⟩

theorem paren_mem_canonicalSig (fn : AbiFunction) : '(' ∈ canonicalSig fn := by
  simp [canonicalSig, bracketed]

theorem lookupBySignature_iff (hd : DistinctSigs abi) {prop : JsString} :
    lookupBySignature env abi prop = some fn ↔ fn ∈ functions abi ∧
      (canonicalSig fn = prop ∨ ((∀ fn' ∈ functions abi, canonicalSig fn' ≠ prop) ∧
        ∃ name types, env.parseFragment prop = some (name, types) ∧
          canonicalSig fn = name ++ bracketed '(' ',' ')' types)) := by
  unfold lookupBySignature
  cases hdirect : fnsBySignature abi prop with
  | some direct =>
    obtain ⟨hmem, hsig⟩ := (find_last_iff hd).1 hdirect
    simp only [Option.some.injEq]
    constructor
    · rintro rfl
      exact ⟨hmem, .inl hsig⟩
    · rintro ⟨hfn, hsig' | ⟨hnone, -⟩⟩
      · exact List.inj_on_of_nodup_map hd hmem hfn (hsig.trans hsig'.symm)
      · exact absurd hsig (hnone direct hmem)
  | none =>
    have hnone : ∀ fn' ∈ functions abi, canonicalSig fn' ≠ prop := by
      intro fn' hfn' hsig
      have hfind : fnsBySignature abi prop = some fn' := (find_last_iff hd).2 ⟨hfn', hsig⟩
      rw [hfind] at hdirect
      cases hdirect
    cases hparse : env.parseFragment prop with
    | none =>
      simp only [reduceCtorEq, false_and, exists_false, and_false, or_false, false_iff, not_and]
      exact hnone fn
    | some parsed =>
      obtain ⟨name, types⟩ := parsed
      dsimp only
      rw [fnsBySignature, find_last_iff hd]
      constructor
      · rintro ⟨hfn, hsig⟩
        exact ⟨hfn, .inr ⟨hnone, name, types, rfl, hsig⟩⟩
      · rintro ⟨hfn, hsig | ⟨-, name', types', heq, hsig⟩⟩
        · exact absurd hsig (hnone fn hfn)
        · cases heq
          exact ⟨hfn, hsig⟩

theorem paren_not_mem_selector {prop : JsString} (h : isSelector prop = true) : '(' ∉ prop := by
  unfold isSelector at h
  split at h
  · rename_i ds
    simp only [Bool.and_eq_true, List.all_eq_true] at h
    intro hmem
    simp only [List.mem_cons, Char.reduceEq, false_or] at hmem
    exact absurd (h.2 _ hmem) (by decide)
  · cases h

theorem bySignature_one_iff (hwf : WellFormed env abi) {text : JsString} :
    bySignature env abi text = .one fn ↔ fn ∈ functions abi ∧
      (canonicalSig fn = text ∨
        ('(' ∈ text ∧ (∀ fn' ∈ functions abi, canonicalSig fn' ≠ text) ∧
          ∃ name types, env.parseFragment text = some (name, types) ∧
            canonicalSig fn = name ++ bracketed '(' ',' ')' types) ∨
        (fn.name = text ∧ ∀ fn' ∈ functions abi, fn'.name = text → fn' = fn)) := by
  unfold bySignature
  by_cases hparen : '(' ∈ text
  · have hname : ∀ fn' ∈ functions abi, fn'.name ≠ text := by
      rintro fn' hfn' rfl
      exact (hwf.names fn' hfn').1 hparen
    rw [if_pos hparen]
    cases hlook : lookupBySignature env abi text with
    | some fn' =>
      simp only [Named.one.injEq]
      rw [← Option.some.injEq, ← hlook, lookupBySignature_iff hwf.sigs]
      constructor
      · rintro ⟨hfn, hsig | hparsed⟩
        · exact ⟨hfn, .inl hsig⟩
        · exact ⟨hfn, .inr (.inl ⟨hparen, hparsed⟩)⟩
      · rintro ⟨hfn, hsig | ⟨-, hparsed⟩ | ⟨hbad, -⟩⟩
        · exact ⟨hfn, .inl hsig⟩
        · exact ⟨hfn, .inr hparsed⟩
        · exact absurd hbad (hname fn hfn)
    | none =>
      have hnone : ¬ lookupBySignature env abi text = some fn := by simp [hlook]
      rw [lookupBySignature_iff hwf.sigs] at hnone
      dsimp only
      rw [byName_one_iff hwf.sigs]
      constructor
      · rintro ⟨hfn, hbad, -⟩
        exact absurd hbad (hname fn hfn)
      · rintro ⟨hfn, hsig | ⟨-, hparsed⟩ | ⟨hbad, -⟩⟩
        · exact absurd ⟨hfn, .inl hsig⟩ hnone
        · exact absurd ⟨hfn, .inr hparsed⟩ hnone
        · exact absurd hbad (hname fn hfn)
  · rw [if_neg hparen]
    dsimp only
    rw [byName_one_iff hwf.sigs]
    constructor
    · rintro ⟨hfn, hname, honly⟩
      exact ⟨hfn, .inr (.inr ⟨hname, honly⟩)⟩
    · rintro ⟨hfn, rfl | ⟨hin, -⟩ | ⟨hname, honly⟩⟩
      · exact absurd (paren_mem_canonicalSig fn) hparen
      · exact absurd hin hparen
      · exact ⟨hfn, hname, honly⟩

theorem named_one_iff (hwf : WellFormed env abi) {prop : JsString} :
    named env abi prop = .one fn ↔ Free prop ∧ fn ∈ functions abi ∧ NamesFunction env abi prop fn := by
  unfold named
  simp only [List.contains_iff_mem]
  by_cases htarget : prop ∈ targetKeys
  · simp [htarget, Free]
  · by_cases hproxy : prop ∈ proxyKeys
    · simp [htarget, hproxy, Free]
    · by_cases hthen : prop = "then".toList
      · rw [if_neg htarget, if_neg hproxy, if_pos hthen]
        simp [Free, hthen]
      · have hfree : Free prop := ⟨htarget, hproxy, hthen⟩
        rw [if_neg htarget, if_neg hproxy, if_neg hthen]
        -- without a selector that matches, by signature or by name
        have hrest : (isSelector prop = true → ∀ fn' ∈ functions abi, env.selector fn' ≠ prop.map Char.toLower) →
            (bySignature env abi prop = .one fn ↔ Free prop ∧ fn ∈ functions abi ∧ NamesFunction env abi prop fn) := by
          intro hnone
          rw [bySignature_one_iff hwf]
          constructor
          · rintro ⟨hfn, hsig | ⟨hparen, hdirect, name, types, hparse, hsig⟩ | ⟨hname, honly⟩⟩
            · exact ⟨hfree, hfn, .signature hsig⟩
            · exact ⟨hfree, hfn, .parsed hparen hdirect hparse hsig⟩
            · exact ⟨hfree, hfn, .name hname honly⟩
          · rintro ⟨-, hfn, hnames⟩
            cases hnames with
            | selector hsel hselector => exact absurd hselector (hnone hsel fn hfn)
            | signature hsig => exact ⟨hfn, .inl hsig⟩
            | parsed hparen hdirect hparse hsig => exact ⟨hfn, .inr (.inl ⟨hparen, hdirect, _, _, hparse, hsig⟩)⟩
            | name hname honly => exact ⟨hfn, .inr (.inr ⟨hname, honly⟩)⟩
        by_cases hsel : isSelector prop = true
        · rw [if_pos hsel]
          cases hfind : fnsBySelector env abi (prop.map Char.toLower) with
          | none =>
            refine hrest fun _ fn' hfn' hselector => ?_
            have hfound : fnsBySelector env abi (prop.map Char.toLower) = some fn' :=
              (find_last_iff hwf.selectors).2 ⟨hfn', hselector⟩
            rw [hfind] at hfound
            cases hfound
          | some fn' =>
            obtain ⟨hmem, hselector⟩ := (find_last_iff hwf.selectors).1 hfind
            simp only [Named.one.injEq]
            constructor
            · rintro rfl
              exact ⟨hfree, hmem, .selector hsel hselector⟩
            · rintro ⟨-, hfn, hnames⟩
              have hparen := paren_not_mem_selector hsel
              cases hnames with
              | selector _ hselector' =>
                exact List.inj_on_of_nodup_map hwf.selectors hmem hfn (hselector.trans hselector'.symm)
              | signature hsig => exact absurd (hsig ▸ paren_mem_canonicalSig fn) hparen
              | parsed hin => exact absurd hin hparen
              | name hname =>
                rw [← hname, (hwf.names fn hfn).2] at hsel
                cases hsel
        · rw [if_neg hsel]
          exact hrest fun h => absurd h hsel

/-- The handle sends to the endpoint, with its client, through a contract in which the function has its name for itself. -/
structure Calls (e : Endpoint) (fn : AbiFunction) (handle : MethodHandle) : Prop where
  fnAbi : handle.fnAbi = fn
  tronWeb : handle.tronWeb = e.tronWeb
  contractTronWeb : handle.tronContract.tronWeb = e.tronWeb
  tronAddress : handle.tronContract.tronAddress = e.tronAddress
  only : handle.tronContract.abi.filter (fun fn' => fn'.name = fn.name) = [fn]

theorem calls_handle (e : Endpoint) (hfn : fn ∈ functions abi) :
    Calls e fn (e.handle (contractForCall abi) fn) := by
  by_cases hmany : (overloadsByName abi fn.name).length > 1
  · have hsingle : contractForCall abi e fn = e.single fn := if_pos hmany
    exact ⟨rfl, rfl, by rw [Endpoint.handle, hsingle]; rfl, by rw [Endpoint.handle, hsingle]; rfl,
      by rw [Endpoint.handle, hsingle]; simp [Endpoint.single]⟩
  · have hshared : contractForCall abi e fn = e.tronContract abi := if_neg hmany
    have hin : fn ∈ overloadsByName abi fn.name := by simp [overloadsByName, hfn]
    have hone : overloadsByName abi fn.name = [fn] := by
      generalize overloadsByName abi fn.name = overloads at hmany hin
      match overloads, hmany, hin with
      | [fn'], _, hin => rw [List.mem_singleton.1 hin]
      | _ :: _ :: _, hmany, _ => simp at hmany
    exact ⟨rfl, rfl, by rw [Endpoint.handle, hshared]; rfl, by rw [Endpoint.handle, hshared]; rfl,
      by rw [Endpoint.handle, hshared]; exact hone⟩

/-- At any point of any run, a property gives a handle exactly if it names a function, and the handle is for that
function, whatever the facade remembers of other accesses: it sends where the facade does, with the facade's client,
and TronWeb finds no other function under the name. -/
theorem get_handle_iff (hwf : WellFormed env abi) (hr : FacadeRun env abi e h s) {k : Nat} (hf : s.facades k = some f)
    (prop : JsString) (d : Nat) :
    (∀ fn, (∃ handle s', s.step env abi (.get k prop d) = some (.access (.ok (.handle handle)), s') ∧
        Calls f.toEndpoint fn handle) ↔
      Free prop ∧ fn ∈ functions abi ∧ NamesFunction env abi prop fn) ∧
    ∀ handle s', s.step env abi (.get k prop d) = some (.access (.ok (.handle handle)), s') →
      ∃ fn, Calls f.toEndpoint fn handle := by
  have hrem := (FacadeRun.plain hwf.sigs hr).1.facades hf
  have hwithin : (named env abi prop).Within abi := named_within prop
  have hgives := access_gives hwf.sigs hrem hwithin
  have hstep : s.step env abi (.get k prop d) = ((s.setFacade k (f.access abi (named env abi prop)).2).withDispatcher
      (f.access abi (named env abi prop)).2 d (f.access abi (named env abi prop)).1).map
      fun s => (.access (.ok (f.access abi (named env abi prop)).1), s) := by
    simp only [FacadeProcess.step, FacadeProcess.access, hf, Option.bind_some]
  rw [hgives.fst] at hstep
  have hall : ∀ handle s', s.step env abi (.get k prop d) = some (.access (.ok (.handle handle)), s') →
      ∃ fn, named env abi prop = .one fn ∧ fn ∈ functions abi ∧ handle = f.toEndpoint.handle (contractForCall abi) fn := by
    intro handle s' hst
    rw [hstep] at hst
    obtain ⟨s'', -, heq⟩ := Option.map_eq_some_iff.1 hst
    have haccess : f.toEndpoint.access abi (named env abi prop) = .handle handle := by simpa using (Prod.mk.inj heq).1
    cases hnamed : named env abi prop with
    | one fn =>
      rw [hnamed] at haccess hwithin
      exact ⟨fn, rfl, hwithin, (Access.handle.inj haccess).symm⟩
    | nothing => rw [hnamed] at haccess; cases haccess
    | own own => rw [hnamed] at haccess; cases haccess
    | several overloads => rw [hnamed] at haccess; cases haccess
  refine ⟨fun fn => ⟨?_, ?_⟩, ?_⟩
  · rintro ⟨handle, s', hst, hcalls⟩
    obtain ⟨fn', hnamed, -, rfl⟩ := hall handle s' hst
    obtain rfl : fn' = fn := hcalls.fnAbi
    exact (named_one_iff hwf).1 hnamed
  · intro hnames
    have hnamed := (named_one_iff hwf).2 hnames
    rw [hnamed] at hstep
    exact ⟨_, _, hstep, calls_handle f.toEndpoint hnames.2.1⟩
  · intro handle s' hst
    obtain ⟨fn, -, hfn, rfl⟩ := hall handle s' hst
    exact ⟨fn, calls_handle f.toEndpoint hfn⟩

/-! ## Reaching both of two overloads -/

theorem overloadedAbi_wellFormed : WellFormed overloadedEnv overloadedAbi where
  sigs := overloadedAbi_distinct
  selectors := by decide
  names fn hfn := by
    have hname : fn.name = ['f'] := by
      rcases List.mem_cons.1 hfn with rfl | hfn
      · rfl
      · rw [List.mem_singleton.1 hfn]
        rfl
    rw [hname]
    decide

/-- The signature reaches the one, the selector the other. -/
theorem overloaded_reached :
    (∃ handle s', (oneFacade deployed).step overloadedEnv overloadedAbi (.get 0 "f(uint256)".toList 0) =
      some (.access (.ok (.handle handle)), s') ∧ Calls deployed oneArg handle) ∧
    ∃ handle s', (oneFacade deployed).step overloadedEnv overloadedAbi (.get 0 "0x26121FF0".toList 0) =
      some (.access (.ok (.handle handle)), s') ∧ Calls deployed noArgs handle := by
  have hr : FacadeRun overloadedEnv overloadedAbi deployed [] (oneFacade deployed) := .nil
  have hfacade : (oneFacade deployed).facades 0 = some deployed.facade := rfl
  constructor
  · exact ((get_handle_iff overloadedAbi_wellFormed hr hfacade "f(uint256)".toList 0).1 oneArg).2
      ⟨⟨by decide, by decide, by decide⟩, .tail _ (.head _), .signature (by decide)⟩
  · exact ((get_handle_iff overloadedAbi_wellFormed hr hfacade "0x26121FF0".toList 0).1 noArgs).2
      ⟨⟨by decide, by decide, by decide⟩, .head _, .selector (by decide) (by decide)⟩

end Facades

end HardhatTron

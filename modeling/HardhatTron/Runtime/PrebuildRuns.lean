import HardhatTron.Runtime.PrebuildKeys
/-!
# Which deployment broadcasts which transaction

Against a history of bridge calls, `Unconsumed` and `Latest` say which
transactions wait for a deployment: the ones stashed and not broadcast since,
and among them the one stashed last for identical arguments. `StashFaithful`
is what the cache is for: a deployment broadcasts the transaction that waits
for its own constructor call, and builds one of its own when none does.

`stash_faithful`: so it is in every run of safe calls. The counterexample
deploys `["a", "b,S:c"]` with the transaction signed for `["a,S:b", "c"]`.
-/
namespace HardhatTron

open Lib

abbrev BridgeHistory := List (BridgeCall × BridgeReply)

/-! ## Waiting transactions -/

/-- A call of `predictAddress` that stashed `tx`. -/
def Stashes (d : TronAddress) (n : JsString) (a : Args) (tx : SignedTx) (e : BridgeCall × BridgeReply) : Prop :=
  ∃ now, e = (.predictAddress d n a now, .stashed tx)

/-- `tx` was stashed for this call and no deployment has broadcast it since. -/
inductive Unconsumed (d : TronAddress) (n : JsString) (a : Args) (tx : SignedTx) : BridgeHistory → Prop
  | stash {h e} : Stashes d n a tx e → Unconsumed d n a tx (h ++ [e])
  | keep {h e} : Unconsumed d n a tx h → e.2 ≠ .broadcast tx → Unconsumed d n a tx (h ++ [e])

/-- The latest transaction stashed for this very call, not broadcast since. -/
inductive Latest (d : TronAddress) (n : JsString) (a : Args) (tx : SignedTx) : BridgeHistory → Prop
  | stash {h e} : Stashes d n a tx e → Latest d n a tx (h ++ [e])
  | keep {h e} : Latest d n a tx h → (∀ tx', ¬Stashes d n a tx' e) → e.2 ≠ .broadcast tx →
      Latest d n a tx (h ++ [e])

variable {d d' : TronAddress} {n n' : JsString} {a a' : Args} {tx tx' : SignedTx} {h : BridgeHistory}

theorem Latest.unconsumed (hl : Latest d n a tx h) : Unconsumed d n a tx h := by
  induction hl with
  | stash hs => exact .stash hs
  | keep _ _ hb ih => exact .keep ih hb

theorem Unconsumed.stashed (hu : Unconsumed d n a tx h) : ∃ e ∈ h, Stashes d n a tx e := by
  induction hu with
  | stash hs => exact ⟨_, List.mem_append_right _ (List.mem_singleton_self _), hs⟩
  | keep _ _ ih =>
    obtain ⟨e, he, hs⟩ := ih
    exact ⟨e, List.mem_append_left _ he, hs⟩

theorem latest_nil : ¬Latest d n a tx [] := by
  intro hl
  generalize hh : ([] : BridgeHistory) = h at hl
  cases hl <;> simp at hh

theorem latest_snoc {e : BridgeCall × BridgeReply} : Latest d n a tx (h ++ [e]) ↔
    Stashes d n a tx e ∨ (Latest d n a tx h ∧ (∀ tx', ¬Stashes d n a tx' e) ∧ e.2 ≠ .broadcast tx) := by
  constructor
  · intro hl
    generalize hh : h ++ [e] = h' at hl
    cases hl with
    | stash hs =>
      obtain ⟨-, he⟩ := List.append_inj' hh rfl
      exact .inl (List.singleton_inj.1 he ▸ hs)
    | keep hl hs hb =>
      obtain ⟨rfl, he⟩ := List.append_inj' hh rfl
      obtain rfl := List.singleton_inj.1 he
      exact .inr ⟨hl, hs, hb⟩
  · rintro (hs | ⟨hl, hs, hb⟩)
    · exact .stash hs
    · exact .keep hl hs hb

theorem Latest.mem (hl : Latest d n a tx h) : ∃ e ∈ h, e.2 = .stashed tx := by
  obtain ⟨e, he, now, rfl⟩ := hl.unconsumed.stashed
  exact ⟨_, he, rfl⟩

/-! ## What the cache is for -/

/-- Both argument lists denote the same constructor call: as many arguments,
each the same under `normalizeArg`, and the same overrides. -/
def SameCall (env : BridgeEnv) (n : JsString) (a b : Args) : Prop :=
  ∀ artifact, env.loadArtifact n = .ok artifact →
    let inputs := artifact.ctor.getD []
    let s := splitOverrides a.values (some inputs.length)
    let t := splitOverrides b.values (some inputs.length)
    s.args.length = t.args.length ∧ s.overrides = t.overrides ∧ ∀ (evmToTvm : EvmToTvm) (i : Nat),
      normalizeArg env.codec evmToTvm (s.args[i]?.getD .undefined) inputs[i]? false =
        normalizeArg env.codec evmToTvm (t.args[i]?.getD .undefined) inputs[i]? false

theorem SameCall.refl (env : BridgeEnv) (n : JsString) (a : Args) : SameCall env n a a :=
  fun _ _ => ⟨rfl, rfl, fun _ _ => rfl⟩

/-- What a deployment replies after the history `h`. -/
structure DeployFaithful (env : BridgeEnv) (h : BridgeHistory) (d : TronAddress) (n : JsString) (a : Args)
    (now : Moment) (r : BridgeReply) : Prop where
  stashedOnly : ∀ tx, r = .broadcast tx → ∃ b, SameCall env n b a ∧ Unconsumed d n b tx h
  latest : ∀ tx, Latest d n a tx h → r = .broadcast tx
  fresh : (∀ tx, ¬Latest d n a tx h) → ∃ serial, r = freshReply env now d n a serial ∧
    ∀ e ∈ h, ∀ tx, e.2 = .stashed tx ∨ e.2 = .built tx → tx.serial ≠ serial

/-- Every deployment of the history replies as it should. -/
def StashFaithful (env : BridgeEnv) (h : BridgeHistory) : Prop :=
  ∀ h₁ n args third now r h₂, h = h₁ ++ (.deployContract n args third now, r) :: h₂ →
    DeployFaithful env h₁ (route env args third).1 n (route env args third).2 now r

/-! ## Runs of safe calls -/

def BridgeCall.Safe (env : BridgeEnv) (owners : Owners) : BridgeCall → Prop
  | .predictAddress _ n a _ => CallSafe env.codec owners n a
  | .deployContract n args third _ => CallSafe env.codec owners n (route env args third).2

/-- The cache holds the waiting transaction of every safe call, and nothing else for it. -/
structure StashInv (env : BridgeEnv) (owners : Owners) (h : BridgeHistory) (s : Bridge) : Prop where
  cached : ∀ {d n a tx}, CallSafe env.codec owners n a → Latest d n a tx h →
    ∃ key artifact, env.loadArtifact n = .ok artifact ∧
      prebuildCacheKey env.codec d.text n a.values = some key ∧ s.prebuildCache.get? key = some tx
  waiting : ∀ {d n a key tx}, CallSafe env.codec owners n a →
    prebuildCacheKey env.codec d.text n a.values = some key → s.prebuildCache.get? key = some tx →
    Latest d n a tx h
  once : ∀ {d n a d' n' a' tx}, Latest d n a tx h → Latest d' n' a' tx h → d = d' ∧ n = n' ∧ a = a'
  serials : ∀ e ∈ h, ∀ tx, e.2 = .stashed tx ∨ e.2 = .built tx → tx.serial < s.built

theorem StashInv.init (env : BridgeEnv) (owners : Owners) : StashInv env owners [] Bridge.init where
  cached _ hl := absurd hl latest_nil
  waiting _ _ hc := by simp [Bridge.init] at hc
  once hl := absurd hl latest_nil
  serials e he := by simp at he

/-- A step that stashes and broadcasts nothing. -/
theorem StashInv.quiet {env : BridgeEnv} {owners : Owners} {s s' : Bridge} {e : BridgeCall × BridgeReply}
    (hI : StashInv env owners h s) (hst : ∀ tx, e.2 ≠ .stashed tx) (hbr : ∀ tx, e.2 ≠ .broadcast tx)
    (hc : s'.prebuildCache = s.prebuildCache) (hb : s.built ≤ s'.built)
    (hser : ∀ tx, e.2 = .built tx → tx.serial < s'.built) : StashInv env owners (h ++ [e]) s' := by
  have hl : ∀ {d n a tx}, Latest d n a tx (h ++ [e]) ↔ Latest d n a tx h := by
    intro d n a tx
    have hns : ∀ tx, ¬Stashes d n a tx e := by
      rintro tx ⟨now, rfl⟩
      exact hst tx rfl
    rw [latest_snoc]
    exact ⟨fun h => (h.resolve_left (hns tx)).1, fun h => .inr ⟨h, hns, hbr tx⟩⟩
  refine ⟨fun hs hlt => ?_, fun hs hk hg => ?_, fun h₁ h₂ => hI.once (hl.1 h₁) (hl.1 h₂), ?_⟩
  · rw [hc]
    exact hI.cached hs (hl.1 hlt)
  · rw [hc] at hg
    exact hl.2 (hI.waiting hs hk hg)
  · intro e' he' tx htx
    rcases List.mem_append.1 he' with he' | he'
    · exact lt_of_lt_of_le (hI.serials e' he' tx htx) hb
    · obtain rfl := List.mem_singleton.1 he'
      exact hser tx (htx.resolve_left (hst tx))

/-- `predictAddress` stashes a transaction under its key. -/
theorem StashInv.stash {env : BridgeEnv} {owners : Owners} {s : Bridge} {now : Moment} {key : JsString}
    {artifact : Artifact} {call : ConstructorCall} (hI : StashInv env owners h s)
    (hs : CallSafe env.codec owners n a) (ha : env.loadArtifact n = .ok artifact)
    (hk : prebuildCacheKey env.codec d.text n a.values = some key) :
    StashInv env owners (h ++ [(.predictAddress d n a now, .stashed ⟨s.built, call⟩)])
      ⟨s.prebuildCache.put key ⟨s.built, call⟩, s.built + 1⟩ := by
  have hold : ∀ {d' n' a' tx}, Latest d' n' a' tx h → tx.serial < s.built := by
    intro d' n' a' tx hl
    obtain ⟨e, he, het⟩ := hl.mem
    exact hI.serials e he tx (.inl het)
  -- the new transaction waits for its own call, every other call keeps what it had
  have hl : ∀ {d' n' a' tx}, Latest d' n' a' tx (h ++ [(.predictAddress d n a now, .stashed ⟨s.built, call⟩)]) ↔
      (d' = d ∧ n' = n ∧ a' = a ∧ tx = ⟨s.built, call⟩) ∨ (¬(d' = d ∧ n' = n ∧ a' = a) ∧ Latest d' n' a' tx h) := by
    intro d' n' a' tx
    rw [latest_snoc]
    constructor
    · rintro (⟨now', he⟩ | ⟨hlt, hns, -⟩)
      · simp only [Prod.mk.injEq, BridgeCall.predictAddress.injEq, BridgeReply.stashed.injEq] at he
        obtain ⟨⟨rfl, rfl, rfl, -⟩, rfl⟩ := he
        exact .inl ⟨rfl, rfl, rfl, rfl⟩
      · refine .inr ⟨?_, hlt⟩
        rintro ⟨rfl, rfl, rfl⟩
        exact hns _ ⟨now, rfl⟩
    · rintro (⟨rfl, rfl, rfl, rfl⟩ | ⟨hne, hlt⟩)
      · exact .inl ⟨now, rfl⟩
      · refine .inr ⟨hlt, ?_, by simp⟩
        rintro tx' ⟨now', he⟩
        simp only [Prod.mk.injEq, BridgeCall.predictAddress.injEq] at he
        exact hne ⟨he.1.1.symm, he.1.2.1.symm, he.1.2.2.1.symm⟩
  refine ⟨fun {d' n' a' tx} hs' hlt => ?_, fun {d' n' a' key' tx} hs' hk' hg => ?_, fun h₁ h₂ => ?_, ?_⟩
  · rcases hl.1 hlt with ⟨rfl, rfl, rfl, rfl⟩ | ⟨hne, hlt⟩
    · exact ⟨key, artifact, ha, hk, by simp⟩
    · obtain ⟨key', artifact', ha', hk', hg⟩ := hI.cached hs' hlt
      refine ⟨key', artifact', ha', hk', ?_⟩
      have hkk : key' ≠ key := by
        rintro rfl
        exact hne (prebuildCacheKey_inj hs' hs hk' hk)
      simpa [hkk] using hg
  · by_cases hkk : key' = key
    · subst hkk
      obtain ⟨rfl, rfl, rfl⟩ := prebuildCacheKey_inj hs' hs hk' hk
      simp only [OrderedMap.get?_put, if_true, Option.some.injEq] at hg
      exact hl.2 (.inl ⟨rfl, rfl, rfl, hg.symm⟩)
    · simp only [OrderedMap.get?_put, hkk, if_false] at hg
      refine hl.2 (.inr ⟨?_, hI.waiting hs' hk' hg⟩)
      rintro ⟨rfl, rfl, rfl⟩
      exact hkk (Option.some.inj (hk'.symm.trans hk))
  · rcases hl.1 h₁ with ⟨rfl, rfl, rfl, ht⟩ | ⟨-, ho⟩ <;> rcases hl.1 h₂ with ⟨rfl, rfl, rfl, ht'⟩ | ⟨-, ho'⟩
    · exact ⟨rfl, rfl, rfl⟩
    · have hlt := hold ho'
      rw [ht] at hlt
      exact absurd hlt (Nat.lt_irrefl _)
    · have hlt := hold ho
      rw [ht'] at hlt
      exact absurd hlt (Nat.lt_irrefl _)
    · exact hI.once ho ho'
  · intro e he tx htx
    rcases List.mem_append.1 he with he | he
    · exact Nat.lt_succ_of_lt (hI.serials e he tx htx)
    · obtain rfl := List.mem_singleton.1 he
      simp only [BridgeReply.stashed.injEq, reduceCtorEq, or_false] at htx
      subst htx
      exact Nat.lt_succ_self _

/-- A deployment broadcasts the transaction under its key, which nothing waits for afterwards. -/
theorem StashInv.consume {env : BridgeEnv} {owners : Owners} {s : Bridge} {c : BridgeCall} {key : JsString}
    (hI : StashInv env owners h s) (hs : CallSafe env.codec owners n a)
    (hk : prebuildCacheKey env.codec d.text n a.values = some key) (hg : s.prebuildCache.get? key = some tx) :
    StashInv env owners (h ++ [(c, .broadcast tx)]) { s with prebuildCache := s.prebuildCache.remove key } := by
  have hl : ∀ {d' n' a' tx'}, Latest d' n' a' tx' (h ++ [(c, .broadcast tx)]) ↔ Latest d' n' a' tx' h ∧ tx' ≠ tx := by
    intro d' n' a' tx'
    have hns : ∀ tx', ¬Stashes d' n' a' tx' (c, .broadcast tx) := by
      rintro tx' ⟨now', he⟩
      cases (Prod.mk.inj he).2
    rw [latest_snoc]
    constructor
    · intro hlt
      obtain ⟨hlt, -, hb⟩ := hlt.resolve_left (hns tx')
      exact ⟨hlt, fun ht => hb (by rw [ht])⟩
    · rintro ⟨hlt, ht⟩
      exact .inr ⟨hlt, hns, fun hb => ht (BridgeReply.broadcast.inj hb).symm⟩
  have hmine := hI.waiting hs hk hg
  refine ⟨fun {d' n' a' tx'} hs' hlt => ?_, fun {d' n' a' key' tx'} hs' hk' hg' => ?_, fun h₁ h₂ => ?_, ?_⟩
  · obtain ⟨hlt, ht⟩ := hl.1 hlt
    obtain ⟨key', artifact, ha, hk', hg'⟩ := hI.cached hs' hlt
    refine ⟨key', artifact, ha, hk', ?_⟩
    have hkk : key' ≠ key := by
      rintro rfl
      exact ht (Option.some.inj (hg'.symm.trans hg))
    simpa [hkk] using hg'
  · have hkk : key' ≠ key := by
      rintro rfl
      simp at hg'
    simp only [OrderedMap.get?_remove, hkk, if_false] at hg'
    refine hl.2 ⟨hI.waiting hs' hk' hg', ?_⟩
    rintro rfl
    obtain ⟨rfl, rfl, rfl⟩ := hI.once (hI.waiting hs' hk' hg') hmine
    exact hkk (Option.some.inj (hk'.symm.trans hk))
  · exact hI.once (hl.1 h₁).1 (hl.1 h₂).1
  · intro e he tx' htx
    rcases List.mem_append.1 he with he | he
    · exact hI.serials e he tx' htx
    · obtain rfl := List.mem_singleton.1 he
      simp at htx

theorem StashInv.step {env : BridgeEnv} {owners : Owners} {s s' : Bridge} {c : BridgeCall} {r : BridgeReply}
    (hI : StashInv env owners h s) (hs : c.Safe env owners) (hst : s.step env c = some (r, s')) :
    StashInv env owners (h ++ [(c, r)]) s' := by
  cases c with
  | predictAddress signer name args now =>
    rcases predictAddress_cases (Option.some.inj hst) with ⟨e, rfl, hc, hb⟩ | ⟨key, call, hcall, hk, rfl, rfl⟩
    · exact hI.quiet (by simp) (by simp) hc hb (by simp)
    · obtain ⟨artifact, ha⟩ := predictedCall_loads hcall
      exact hI.stash hs ha hk
  | deployContract name args third now =>
    rcases deployViaFacade_cases (Option.some.inj hst) with ⟨key, tx, hk, hg, rfl, rfl⟩ | ⟨-, hc, hb, hnb, hns, hser⟩
    · exact hI.consume hs hk hg
    · exact hI.quiet hns hnb hc hb hser

theorem Bridge.run_inv {env : BridgeEnv} {owners : Owners} {s : Bridge}
    (hr : Run (Bridge.step env) (fun _ c => c.Safe env owners) Bridge.init h s) : StashInv env owners h s :=
  hr.inv (StashInv env owners) (.init env owners) fun _ _ _ _ _ _ hI hs hst => hI.step hs hst

theorem StashInv.deployFaithful {env : BridgeEnv} {owners : Owners} {s s' : Bridge} {now : Moment} {r : BridgeReply}
    (hI : StashInv env owners h s) (hs : CallSafe env.codec owners n a)
    (hst : deployViaFacade env s n a d now = (r, s')) : DeployFaithful env h d n a now r := by
  refine ⟨fun tx hr => ?_, fun tx hl => ?_, fun hno => ?_⟩
  · rcases deployViaFacade_cases hst with ⟨key, tx', hk, hg, rfl, -⟩ | ⟨-, -, -, hnb, -⟩
    · obtain rfl := BridgeReply.broadcast.inj hr
      exact ⟨a, .refl env n a, (hI.waiting hs hk hg).unconsumed⟩
    · exact absurd hr (hnb tx)
  · obtain ⟨key, artifact, ha, hk, hg⟩ := hI.cached hs hl
    rw [deployViaFacade_hit ha hk hg] at hst
    exact (Prod.mk.inj hst).1.symm
  · rcases deployViaFacade_cases hst with ⟨key, tx, hk, hg, -, -⟩ | ⟨hr, -⟩
    · exact absurd (hI.waiting hs hk hg) (hno tx)
    · exact ⟨s.built, hr, fun e he tx htx => Nat.ne_of_lt (hI.serials e he tx htx)⟩

/-- In a run of safe calls every deployment broadcasts the transaction that
waits for it, or builds its own; and no two calls that differ share a key. -/
theorem stash_faithful (env : BridgeEnv) (owners : Owners) :
    (∀ h s, Run (Bridge.step env) (fun _ c => c.Safe env owners) Bridge.init h s → StashFaithful env h) ∧
    ∀ (d d' : TronAddress) n n' a a' key, CallSafe env.codec owners n a → CallSafe env.codec owners n' a' →
      prebuildCacheKey env.codec d.text n a.values = some key →
      prebuildCacheKey env.codec d'.text n' a'.values = some key → d = d' ∧ n = n' ∧ SameCall env n a a' := by
  constructor
  · rintro h s hr h₁ n args third now r h₂ rfl
    obtain ⟨m, m', hr₁, hs, hst, -⟩ := hr.at
    exact (Bridge.run_inv hr₁).deployFaithful hs (Option.some.inj hst)
  · intro d d' n n' a a' key hs hs' hk hk'
    obtain ⟨rfl, rfl, rfl⟩ := prebuildCacheKey_inj hs hs' hk hk'
    exact ⟨rfl, rfl, .refl env n a⟩

/-! ## Two runs -/

def stringInput : AbiInput := ⟨"string".toList, [], none⟩

/-- One artifact, with a constructor of two strings. -/
def twoStrings : BridgeEnv where
  codec := ⟨fun _ => none, fun _ => none, fun _ => none, fun h => nomatch h⟩
  loadArtifact _ := .ok ⟨some [stringInput, stringInput]⟩
  defaultDeployer := ⟨[], by simp⟩

def anyMoment : Moment := ⟨fun _ => none, true⟩

def stringArgs (s t : String) : Args := ⟨[.str s.toList, .str t.toList], rfl⟩

def stringsTx (s t : String) : SignedTx :=
  ⟨0, twoStrings.defaultDeployer, "Two".toList, some [.str s.toList, .str t.toList], none, none⟩

/-- Predict a deployment with `a`, then deploy with `b`. -/
def predictThenDeploy (a b : String × String) : BridgeHistory :=
  [(.predictAddress twoStrings.defaultDeployer "Two".toList (stringArgs a.1 a.2) anyMoment,
      .stashed (stringsTx a.1 a.2)),
    (.deployContract "Two".toList (stringArgs b.1 b.2) .none anyMoment, .broadcast (stringsTx a.1 a.2))]

/-- Two argument lists with one text: the deployment of one broadcasts the other's transaction. -/
theorem colliding_arguments_broadcast :
    ¬∀ env h s, Run (Bridge.step env) (fun _ _ => True) Bridge.init h s → StashFaithful env h := by
  intro hall
  have hr : ∃ s, Run (Bridge.step twoStrings) (fun _ _ => True) Bridge.init
      (predictThenDeploy ("a,S:b", "c") ("a", "b,S:c")) s :=
    ⟨_, .snoc _ (.snoc _ .nil trivial rfl) trivial rfl⟩
  obtain ⟨s, hr⟩ := hr
  have hf := hall twoStrings _ s hr [_] _ _ _ _ _ [] rfl
  obtain ⟨b, hsame, hun⟩ := hf.stashedOnly _ rfl
  obtain ⟨e, he, now, rfl⟩ := hun.stashed
  obtain rfl : b = stringArgs "a,S:b" "c" := by
    simp only [List.mem_singleton, Prod.mk.injEq, BridgeCall.predictAddress.injEq] at he
    exact he.1.2.2.1
  obtain ⟨-, -, hargs⟩ := hsame _ rfl
  have h0 : some (JsValue.str "a,S:b".toList) = some (.str "a".toList) := hargs (fun _ => none) 0
  simp at h0

theorem stash_faithful_same_call :
    StashFaithful twoStrings (predictThenDeploy ("a, b", "[x] 1") ("a, b", "[x] 1")) := by
  have hsafe : CallSafe twoStrings.codec (fun _ _ => []) "Two".toList (stringArgs "a, b" "[x] 1") := by
    refine ⟨by decide, ?_⟩
    intro v hv
    simp only [stringArgs, List.mem_cons, List.not_mem_nil, or_false] at hv
    rcases hv with rfl | rfl
    · exact .str (by decide)
    · exact .str (by decide)
  have hr : ∃ s, Run (Bridge.step twoStrings) (fun _ c => c.Safe twoStrings fun _ _ => []) Bridge.init
      (predictThenDeploy ("a, b", "[x] 1") ("a, b", "[x] 1")) s :=
    ⟨_, .snoc _ (.snoc _ .nil (by exact hsafe) rfl) (by exact hsafe) rfl⟩
  obtain ⟨s, hr⟩ := hr
  exact (stash_faithful twoStrings fun _ _ => []).1 _ s hr

end HardhatTron

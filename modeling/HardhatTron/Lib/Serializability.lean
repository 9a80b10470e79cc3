import Mathlib.Data.List.Pairwise
import Mathlib.Data.List.Nodup
import Mathlib.Data.List.Induction
import Mathlib.Data.Set.Basic
import Mathlib.Logic.Function.Basic
import Mathlib.Order.Lattice.Nat
/-!
# Interleavings that amount to a serial order

A `Program` is a sequence of atomic steps on a store, each deciding by what it
sees what the program does next. A `Trace` interleaves the steps of any number
of programs and notes what each step touched: the entries it depended on and
those it changed. Two steps conflict when one changed what the other touched.

`Trace.serial`: if the programs can be ordered so that conflicting steps happen
in that order, the trace ends where running the programs one after the other
ends, with the same results. `conflictsOrdered_of_points` has such an order from
one step of each program, its point, at which it counts as done.
-/
namespace Lib

variable {E R ι : Type*} {V : E → Type*}

/-- Atomic steps on a store with a `V e` under each entry `e`, ending in a result. -/
inductive Program {E : Type*} (V : E → Type*) (R : Type*) where
  | ret (r : R)
  | reads (es : Set E) (k : (∀ e : es, V e) → Program V R)
  | write (e : E) (v : V e) (p : Program V R)
  /-- A step on the store as a whole. -/
  | act (f : (∀ e, V e) → ∀ e, V e) (next : (∀ e, V e) → Program V R)

/-- What a step depended on and what it changed. -/
structure Touch (E : Type*) where
  reads : Set E
  writes : Set E

/-- One of them changed what the other touched. -/
def Touch.Conflict (a b : Touch E) : Prop :=
  (∃ e ∈ a.writes, e ∈ b.reads ∨ e ∈ b.writes) ∨ ∃ e ∈ a.reads, e ∈ b.writes

theorem Touch.Conflict.symm {a b : Touch E} (h : a.Conflict b) : b.Conflict a := by
  obtain ⟨e, ha, hb | hb⟩ | ⟨e, ha, hb⟩ := h
  · exact .inr ⟨e, hb, ha⟩
  · exact .inl ⟨e, hb, .inr ha⟩
  · exact .inl ⟨e, hb, .inl ha⟩

namespace Program

def read (e : E) (k : V e → Program V R) : Program V R := .reads {e} fun s => k (s ⟨e, rfl⟩)

/-- A read or write touches what it names. -/
def Declares (t : Touch E) : Program V R → Prop
  | .reads es _ => t = ⟨es, ∅⟩
  | .write e _ _ => t = ⟨∅, {e}⟩
  | .ret _ | .act _ _ => True

/-- What the steps of a whole run may touch, one after the other. -/
def Takes : Program V R → List (Touch E) → Prop
  | .ret _, ts => ts = []
  | .reads es k, ts => ∃ s ts', ts = ⟨es, ∅⟩ :: ts' ∧ (k s).Takes ts'
  | .write e _ p, ts => ∃ ts', ts = ⟨∅, {e}⟩ :: ts' ∧ p.Takes ts'
  | .act _ next, ts => ∃ t s ts', ts = t :: ts' ∧ (next s).Takes ts'

variable [DecidableEq E]

/-- The whole program in one go. -/
def exec : Program V R → (∀ e, V e) → (∀ e, V e) × R
  | .ret r, s => (s, r)
  | .reads _ k, s => (k fun e => s e).exec s
  | .write e v p, s => p.exec (Function.update s e v)
  | .act f next, s => (next s).exec (f s)

/-- The next step: what it does to the store, and what the program does after it. -/
def head : Program V R → Option (((∀ e, V e) → ∀ e, V e) × ((∀ e, V e) → Program V R))
  | .ret _ => none
  | .reads _ k => some (id, fun s => k fun e => s e)
  | .write e v p => some (fun s => Function.update s e v, fun _ => p)
  | .act f next => some (f, next)

theorem takes_of_head {p : Program V R} {f : (∀ e, V e) → ∀ e, V e} {next : (∀ e, V e) → Program V R}
    (h : p.head = some (f, next)) {t : Touch E} (ht : p.Declares t) {s : ∀ e, V e} {ts : List (Touch E)}
    (hts : (next s).Takes ts) : p.Takes (t :: ts) := by
  cases p with
  | ret r => cases h
  | reads es k =>
    cases h
    exact ⟨_, ts, by rw [show t = ⟨es, ∅⟩ from ht], hts⟩
  | write e v p =>
    cases h
    exact ⟨ts, by rw [show t = ⟨∅, {e}⟩ from ht], hts⟩
  | act f next =>
    cases h
    exact ⟨t, s, ts, rfl, hts⟩

theorem exec_of_head {p : Program V R} {f : (∀ e, V e) → ∀ e, V e} {next : (∀ e, V e) → Program V R}
    (h : p.head = some (f, next)) (s : ∀ e, V e) : p.exec s = (next s).exec (f s) := by
  cases p with
  | ret r => cases h
  | reads es k => cases h; rfl
  | write e v p => cases h; rfl
  | act f next => cases h; rfl

theorem exec_read_of {e : E} {v : V e} {s : ∀ e, V e} (h : s e = v) (k : V e → Program V R) :
    (read e k).exec s = (k v).exec s := by
  subst h
  rfl

theorem exec_write (e : E) (v : V e) (p : Program V R) (s : ∀ e, V e) :
    (write e v p).exec s = p.exec (Function.update s e v) :=
  rfl

end Program

/-- In the store `s`, a step touches no more than `t`. -/
def Touches (s : ∀ e, V e) (t : Touch E) (f : (∀ e, V e) → ∀ e, V e) (next : (∀ e, V e) → Program V R) : Prop :=
  ∀ s', (∀ e ∈ t.reads, s' e = s e) →
    next s' = next s ∧ (∀ e ∈ t.writes, f s' e = f s e) ∧ ∀ e, e ∉ t.writes → f s' e = s' e

/-! ## What steps touch -/

theorem touches_reads (s : ∀ e, V e) (es : Set E) (k : (∀ e : es, V e) → Program V R) :
    Touches s ⟨es, ∅⟩ id fun s => k fun e => s e := by
  intro s' h
  refine ⟨congrArg k (funext fun e => h e e.2), ?_, fun _ _ => rfl⟩
  intro e' he'
  cases he'

theorem touches_write [DecidableEq E] (s : ∀ e, V e) (e : E) (v : V e) (p : Program V R) :
    Touches s ⟨∅, {e}⟩ (fun s => Function.update s e v) fun _ => p := by
  intro s' _
  refine ⟨rfl, ?_, ?_⟩
  · rintro e' rfl
    simp
  · intro e' he'
    exact Function.update_of_ne he' v s'

theorem touches_modify [DecidableEq E] (s : ∀ e, V e) (e : E) (g : V e → V e) (p : Program V R) :
    Touches s ⟨{e}, {e}⟩ (fun s => Function.update s e (g (s e))) fun _ => p := by
  intro s' h
  refine ⟨rfl, ?_, ?_⟩
  · rintro e' rfl
    simp [h e' rfl]
  · intro e' he'
    exact Function.update_of_ne he' _ s'

/-- Any step touches at most everything. -/
theorem touches_univ (s : ∀ e, V e) (g : (∀ e, V e) → ∀ e, V e) (next : (∀ e, V e) → Program V R) :
    Touches s ⟨Set.univ, Set.univ⟩ g next := by
  intro s' h
  obtain rfl : s' = s := funext fun e => h e trivial
  exact ⟨rfl, fun _ _ => rfl, fun e he => absurd trivial he⟩

/-! ## Histories -/

/-- A step of one of the programs. -/
structure Event (E ι : Type*) where
  op : ι
  touch : Touch E

variable [DecidableEq ι]

/-- What the steps of `i` touched. -/
def touchesOf (h : List (Event E ι)) (i : ι) : List (Touch E) := (h.filter (·.op = i)).map (·.touch)

/-- How many steps `i` has taken. -/
def stepsOf (h : List (Event E ι)) (i : ι) : Nat := (touchesOf h i).length

@[simp] theorem touchesOf_append (g h : List (Event E ι)) (i : ι) :
    touchesOf (g ++ h) i = touchesOf g i ++ touchesOf h i := by
  simp [touchesOf]

theorem touchesOf_cons_self (a : Event E ι) (h : List (Event E ι)) :
    touchesOf (a :: h) a.op = a.touch :: touchesOf h a.op := by
  simp [touchesOf]

theorem touchesOf_cons_ne {a : Event E ι} {i : ι} (hi : a.op ≠ i) (h : List (Event E ι)) :
    touchesOf (a :: h) i = touchesOf h i := by
  simp [touchesOf, hi]

@[simp] theorem stepsOf_append (g h : List (Event E ι)) (i : ι) : stepsOf (g ++ h) i = stepsOf g i + stepsOf h i := by
  simp [stepsOf]

theorem stepsOf_cons_self (a : Event E ι) (h : List (Event E ι)) : stepsOf (a :: h) a.op = stepsOf h a.op + 1 := by
  simp [stepsOf, touchesOf_cons_self]

theorem stepsOf_cons_ne {a : Event E ι} {i : ι} (hi : a.op ≠ i) (h : List (Event E ι)) :
    stepsOf (a :: h) i = stepsOf h i := by
  simp [stepsOf, touchesOf_cons_ne hi]

/-! ## Traces -/

variable [DecidableEq E]

/-- The store and what is left of each program. -/
structure Config {E : Type*} (V : E → Type*) (R ι : Type*) where
  store : ∀ e, V e
  programs : ι → Program V R

inductive Config.Step (c : Config V R ι) (a : Event E ι) : Config V R ι → Prop
  | act {f next} (h : (c.programs a.op).head = some (f, next)) (hd : (c.programs a.op).Declares a.touch)
      (ht : Touches c.store a.touch f next) :
      Step c a ⟨f c.store, Function.update c.programs a.op (next c.store)⟩

/-- The interleavings from `c`. -/
inductive Trace (c : Config V R ι) : List (Event E ι) → Config V R ι → Prop
  | nil : Trace c [] c
  | snoc {h d d'} (a : Event E ι) : Trace c h d → d.Step a d' → Trace c (h ++ [a]) d'

/-- A step leaves the other programs alone. -/
theorem Config.Step.programs_of_ne {c d : Config V R ι} {a : Event E ι} (h : c.Step a d) {i : ι} (hi : i ≠ a.op) :
    d.programs i = c.programs i := by
  obtain ⟨-, -, -⟩ := h
  exact Function.update_of_ne hi _ _

theorem Trace.read {c d : Config V R ι} {h : List (Event E ι)} (ht : Trace c h d) {i : ι} {e : E}
    {k : V e → Program V R} (hp : d.programs i = .read e k) :
    Trace c (h ++ [⟨i, ⟨{e}, ∅⟩⟩]) ⟨d.store, Function.update d.programs i (k (d.store e))⟩ := by
  have hhead : (d.programs i).head = some (id, fun s => k (s e)) := by rw [hp]; rfl
  have hdeclares : (d.programs i).Declares ⟨{e}, ∅⟩ := by rw [hp]; rfl
  exact .snoc ⟨i, ⟨{e}, ∅⟩⟩ ht
    (Config.Step.act (c := d) (a := ⟨i, ⟨{e}, ∅⟩⟩) hhead hdeclares (touches_reads d.store {e} fun s => k (s ⟨e, rfl⟩)))

theorem Trace.write {c d : Config V R ι} {h : List (Event E ι)} (ht : Trace c h d) {i : ι} {e : E}
    {v : V e} {p : Program V R} (hp : d.programs i = .write e v p) :
    Trace c (h ++ [⟨i, ⟨∅, {e}⟩⟩]) ⟨Function.update d.store e v, Function.update d.programs i p⟩ := by
  have hhead : (d.programs i).head = some (fun s => Function.update s e v, fun _ => p) := by rw [hp]; rfl
  have hdeclares : (d.programs i).Declares ⟨∅, {e}⟩ := by rw [hp]; rfl
  exact .snoc ⟨i, ⟨∅, {e}⟩⟩ ht
    (Config.Step.act (c := d) (a := ⟨i, ⟨∅, {e}⟩⟩) hhead hdeclares (touches_write d.store e v p))

theorem Trace.act {c d : Config V R ι} {h : List (Event E ι)} (ht : Trace c h d) {i : ι}
    {f : (∀ e, V e) → ∀ e, V e} {next : (∀ e, V e) → Program V R} (hp : d.programs i = .act f next) {t : Touch E}
    (htouch : Touches d.store t f next) :
    Trace c (h ++ [⟨i, t⟩]) ⟨f d.store, Function.update d.programs i (next d.store)⟩ := by
  have hhead : (d.programs i).head = some (f, next) := by rw [hp]; rfl
  have hdeclares : (d.programs i).Declares t := by rw [hp]; trivial
  exact .snoc ⟨i, t⟩ ht (Config.Step.act (c := d) (a := ⟨i, t⟩) hhead hdeclares htouch)

theorem Trace.eq_of_nil {c d : Config V R ι} {h : List (Event E ι)} (ht : Trace c h d) (hh : h = []) : d = c := by
  cases ht with
  | nil => rfl
  | snoc a _ _ => simp at hh

/-- A program that has returned has run as a whole, one step of the trace after the
other. -/
theorem Trace.takes {c d : Config V R ι} {h : List (Event E ι)} (ht : Trace c h d) {i : ι} {ts : List (Touch E)}
    (hi : (d.programs i).Takes ts) : (c.programs i).Takes (touchesOf h i ++ ts) := by
  induction ht generalizing ts with
  | nil => exact hi
  | snoc a _ hs ih =>
    rw [touchesOf_append, List.append_assoc]
    apply ih
    by_cases ha : a.op = i
    · subst ha
      obtain ⟨hp, hd, -⟩ := hs
      dsimp only at hi
      rw [Function.update_self] at hi
      simpa [touchesOf] using Program.takes_of_head hp hd hi
    · rw [hs.programs_of_ne (Ne.symm ha)] at hi
      simpa [touchesOf, ha] using hi

/-! ## Reordering -/

/-- Two steps of different programs that do not conflict can happen in the other order. -/
theorem Config.Step.swap {c d e : Config V R ι} {a b : Event E ι} (ha : c.Step a d) (hb : d.Step b e)
    (hop : a.op ≠ b.op) (hc : ¬ a.touch.Conflict b.touch) : ∃ m, c.Step b m ∧ m.Step a e := by
  obtain ⟨hpa, hda, hta⟩ := ha
  obtain ⟨hpb, hdb, htb⟩ := hb
  rename_i f next g next'
  have hkept : (Function.update c.programs a.op (next c.store)) b.op = c.programs b.op :=
    Function.update_of_ne hop.symm _ _
  have hpb' : (c.programs b.op).head = some (g, next') := by rwa [← hkept]
  have hdb' : (c.programs b.op).Declares b.touch := by rwa [← hkept]
  have hwr : ∀ e ∈ a.touch.writes, e ∉ b.touch.reads := fun e h h' => hc (.inl ⟨e, h, .inl h'⟩)
  have hww : ∀ e ∈ a.touch.writes, e ∉ b.touch.writes := fun e h h' => hc (.inl ⟨e, h, .inr h'⟩)
  have hrw : ∀ e ∈ a.touch.reads, e ∉ b.touch.writes := fun e h h' => hc (.inr ⟨e, h, h'⟩)
  have hself := hta c.store fun _ _ => rfl
  have hread : ∀ e ∈ b.touch.reads, c.store e = f c.store e := fun e h =>
    (hself.2.2 e fun h' => hwr e h' h).symm
  obtain ⟨hnext, hwrites, hkeep⟩ := htb c.store hread
  have hself' := htb (f c.store) fun _ _ => rfl
  have hread' : ∀ e ∈ a.touch.reads, g c.store e = c.store e := fun e h => hkeep e (hrw e h)
  obtain ⟨hnext₁, hwrites₁, hkeep₁⟩ := hta (g c.store) hread'
  have hstep₁ : c.Step b ⟨g c.store, Function.update c.programs b.op (next' c.store)⟩ := by
    apply Config.Step.act hpb' hdb'
    intro s' hs'
    obtain ⟨h1, h2, h3⟩ := htb s' fun e he => (hs' e he).trans (hread e he)
    exact ⟨h1.trans hnext.symm, fun e he => (h2 e he).trans (hwrites e he).symm, h3⟩
  refine ⟨_, hstep₁, ?_⟩
  have hkept' : (Function.update c.programs b.op (next' c.store)) a.op = c.programs a.op :=
    Function.update_of_ne hop _ _
  have hpa' : ((Function.update c.programs b.op (next' c.store)) a.op).head = some (f, next) := by rwa [hkept']
  have hda' : ((Function.update c.programs b.op (next' c.store)) a.op).Declares a.touch := by rwa [hkept']
  have hstep₂ : Config.Step ⟨g c.store, Function.update c.programs b.op (next' c.store)⟩ a
      ⟨f (g c.store), Function.update (Function.update c.programs b.op (next' c.store)) a.op (next (g c.store))⟩ := by
    apply Config.Step.act hpa' hda'
    intro s' hs'
    obtain ⟨h1, h2, h3⟩ := hta s' fun e he => (hs' e he).trans (hread' e he)
    exact ⟨h1.trans hnext₁.symm, fun e he => (h2 e he).trans (hwrites₁ e he).symm, h3⟩
  have hstore : f (g c.store) = g (f c.store) := by
    funext e
    by_cases hea : e ∈ a.touch.writes
    · rw [hwrites₁ e hea, hself'.2.2 e (hww e hea)]
    · by_cases heb : e ∈ b.touch.writes
      · rw [hkeep₁ e hea, hwrites e heb]
      · rw [hkeep₁ e hea, hkeep e heb, hself'.2.2 e heb, hself.2.2 e hea]
  have hprograms : Function.update (Function.update c.programs b.op (next' c.store)) a.op (next (g c.store)) =
      Function.update (Function.update c.programs a.op (next c.store)) b.op (next' (f c.store)) := by
    rw [hnext₁, hnext, Function.update_comm hop]
  rw [hstore, hprograms] at hstep₂
  exact hstep₂

section Ordered

variable {κ : Type*} [LinearOrder κ] (rank : ι → κ)

/-- Conflicting steps of different programs happen in the programs' order. -/
def ConflictsOrdered (h : List (Event E ι)) : Prop :=
  h.Pairwise fun a b => a.op ≠ b.op → a.touch.Conflict b.touch → rank a.op < rank b.op

/-- The programs' steps happen in the programs' order. -/
def Ordered (h : List (Event E ι)) : Prop := h.Pairwise fun a b => rank a.op ≤ rank b.op

variable {rank}

/-- A step after an ordered history can be moved back to its place. -/
theorem Trace.insert {c d d' : Config V R ι} {h : List (Event E ι)} {b : Event E ι} (ht : Trace c h d)
    (ho : Ordered rank h) (hb : d.Step b d')
    (hc : ∀ a ∈ h, a.op ≠ b.op → a.touch.Conflict b.touch → rank a.op < rank b.op) :
    ∃ h', Trace c h' d' ∧ h'.Perm (h ++ [b]) ∧ Ordered rank h' := by
  induction ht generalizing d' with
  | nil => exact ⟨[b], .snoc b .nil hb, .refl _, List.pairwise_singleton _ _⟩
  | @snoc h m d a ht ha ih =>
    obtain ⟨hoh, -, hlast⟩ := List.pairwise_append.1 ho
    by_cases hr : rank a.op ≤ rank b.op
    · refine ⟨h ++ [a] ++ [b], .snoc b (.snoc a ht ha) hb, .refl _, List.pairwise_append.2
        ⟨ho, List.pairwise_singleton _ _, ?_⟩⟩
      intro x hx y hy
      rw [List.mem_singleton.1 hy]
      rcases List.mem_append.1 hx with hx | hx
      · exact (hlast x hx a (List.mem_singleton_self a)).trans hr
      · rw [List.mem_singleton.1 hx]; exact hr
    · have hop : a.op ≠ b.op := fun he => hr (by rw [he])
      have hnc : ¬ a.touch.Conflict b.touch := fun hcf => hr (hc a (by simp) hop hcf).le
      obtain ⟨n, hn, hna⟩ := ha.swap hb hop hnc
      obtain ⟨h', ht', hp, ho'⟩ := ih hoh hn fun x hx => hc x (by simp [hx])
      refine ⟨h' ++ [a], .snoc a ht' hna, ?_, List.pairwise_append.2 ⟨ho', List.pairwise_singleton _ _, ?_⟩⟩
      · apply (hp.append_right [a]).trans
        rw [List.append_assoc, List.append_assoc]
        exact List.perm_append_comm.append_left h
      · intro x hx y hy
        rw [List.mem_singleton.1 hy]
        rcases List.mem_append.1 (hp.subset hx) with hx | hx
        · exact hlast x hx a (List.mem_singleton_self a)
        · rw [List.mem_singleton.1 hx]; exact (not_le.1 hr).le

/-- With conflicts in order, all steps can happen in order. -/
theorem Trace.sort {c d : Config V R ι} {h : List (Event E ι)} (ht : Trace c h d) (hc : ConflictsOrdered rank h) :
    ∃ h', Trace c h' d ∧ h'.Perm h ∧ Ordered rank h' := by
  induction ht with
  | nil => exact ⟨[], .nil, .refl _, List.Pairwise.nil⟩
  | @snoc h m d b ht hb ih =>
    obtain ⟨hch, -, hlast⟩ := List.pairwise_append.1 hc
    obtain ⟨h', ht', hp, ho⟩ := ih hch
    obtain ⟨h'', ht'', hp', ho'⟩ := ht'.insert ho hb fun a ha => hlast a (hp.subset ha) b (List.mem_singleton_self b)
    exact ⟨h'', ht'', hp'.trans (hp.append_right [b]), ho'⟩

end Ordered

/-! ## Running the programs one after the other -/

/-- Run what is left of a program in one go. -/
def Config.finish (c : Config V R ι) (i : ι) : Config V R ι :=
  ⟨((c.programs i).exec c.store).1, Function.update c.programs i (.ret ((c.programs i).exec c.store).2)⟩

/-- A step of a program leaves the rest of it to run. -/
theorem Config.Step.finish {c d : Config V R ι} {a : Event E ι} (h : c.Step a d) : d.finish a.op = c.finish a.op := by
  obtain ⟨hp, -, -⟩ := h
  simp [Config.finish, Program.exec_of_head hp]

/-- A program that has returned has nothing left to run. -/
theorem Config.finish_of_ret {c : Config V R ι} {i : ι} {r : R} (h : c.programs i = .ret r) : c.finish i = c := by
  have hprograms : Function.update c.programs i (.ret r) = c.programs := by
    rw [← h, Function.update_eq_self]
  simp only [Config.finish, h, Program.exec, hprograms]

/-- The programs of `order`, one after the other. -/
def Config.finishAll (c : Config V R ι) (order : List ι) : Config V R ι := order.foldl Config.finish c

section Serial

variable {κ : Type*} [LinearOrder κ] {rank : ι → κ}

/-- Once the last program to step is finished, an ordered history is a serial run. -/
theorem Trace.finish_last {c d : Config V R ι} {h : List (Event E ι)} (ht : Trace c h d) (ho : Ordered rank h)
    (hinj : ∀ a ∈ h, ∀ b ∈ h, rank a.op = rank b.op → a.op = b.op)
    (hret : ∀ a ∈ h, ∀ b ∈ h, rank a.op < rank b.op → ∃ r, d.programs a.op = .ret r) (hne : h ≠ []) :
    ∃ order i, (order ++ [i]).Nodup ∧ (∀ j, j ∈ order ++ [i] ↔ ∃ a ∈ h, a.op = j) ∧
      (∀ a ∈ h, rank a.op ≤ rank i) ∧ d.finish i = c.finishAll (order ++ [i]) := by
  induction ht with
  | nil => exact absurd rfl hne
  | @snoc h m d b ht hb ih =>
    obtain ⟨hoh, -, hlast⟩ := List.pairwise_append.1 ho
    replace hlast : ∀ a ∈ h, rank a.op ≤ rank b.op := fun a ha => hlast a ha b (List.mem_singleton_self b)
    by_cases hh : h = []
    · obtain rfl := ht.eq_of_nil hh
      subst hh
      exact ⟨[], b.op, by simp, by simp [eq_comm], by simp, hb.finish⟩
    · have hret' : ∀ a ∈ h, ∀ a' ∈ h, rank a.op < rank a'.op → ∃ r, m.programs a.op = .ret r := by
        intro a ha a' ha' hlt
        obtain ⟨r, hr⟩ := hret a (by simp [ha]) a' (by simp [ha']) hlt
        have hne' : a.op ≠ b.op := fun he => absurd (hlast a' ha') (not_le.2 (by rwa [← he]))
        exact ⟨r, by rwa [hb.programs_of_ne hne'] at hr⟩
      have hinj' : ∀ a ∈ h, ∀ a' ∈ h, rank a.op = rank a'.op → a.op = a'.op :=
        fun a ha a' ha' => hinj a (by simp [ha]) a' (by simp [ha'])
      obtain ⟨order, i, hnd, hmem, htop, hfin⟩ := ih hoh hinj' hret' hh
      by_cases hi : b.op = i
      · subst hi
        refine ⟨order, b.op, hnd, ?_, ?_, by rw [hb.finish, hfin]⟩
        · intro j
          rw [hmem]
          have hb' : b.op ∈ order ++ [b.op] := by simp
          grind
        · grind
      · -- `i` has returned, so the run so far is serial and `b.op` comes next.
        obtain ⟨a, ha, rfl⟩ := (hmem i).1 (by simp)
        have hlt : rank a.op < rank b.op := lt_of_le_of_ne (hlast a ha) fun he => hi (hinj a (by simp [ha]) b (by simp) he).symm
        obtain ⟨r, hr⟩ := hret a (by simp [ha]) b (by simp) hlt
        rw [hb.programs_of_ne (Ne.symm hi)] at hr
        rw [Config.finish_of_ret hr] at hfin
        refine ⟨order ++ [a.op], b.op, ?_, ?_, ?_, ?_⟩
        · apply List.nodup_append.2 ⟨hnd, List.nodup_singleton _, ?_⟩
          intro j hj k hk hjk
          rw [hmem] at hj
          obtain ⟨x, hx, rfl⟩ := hj
          have hxb : x.op = b.op := by rw [hjk, List.mem_singleton.1 hk]
          exact absurd (htop x hx) (not_le.2 (by rwa [hxb]))
        · intro j
          rw [List.mem_append, hmem]
          grind
        · grind
        · rw [hb.finish, hfin]
          simp only [Config.finishAll, List.foldl_append, List.foldl_cons, List.foldl_nil]

/-- If the programs that took a step have returned and conflicting steps come in
the programs' order, the trace ends where a serial run ends. -/
theorem Trace.serial {c d : Config V R ι} {h : List (Event E ι)} (ht : Trace c h d)
    (hc : ConflictsOrdered rank h) (hinj : ∀ a ∈ h, ∀ b ∈ h, rank a.op = rank b.op → a.op = b.op)
    (hret : ∀ a ∈ h, ∃ r, d.programs a.op = .ret r) :
    ∃ order : List ι, order.Nodup ∧ (∀ i, i ∈ order ↔ ∃ a ∈ h, a.op = i) ∧ d = c.finishAll order := by
  obtain ⟨h', ht', hp, ho⟩ := ht.sort hc
  by_cases hh : h' = []
  · subst hh
    obtain rfl := hp.nil_eq
    exact ⟨[], by simp, by simp, ht.eq_of_nil rfl⟩
  · have hret' : ∀ a ∈ h', ∃ r, d.programs a.op = .ret r := fun a ha => hret a (hp.subset ha)
    obtain ⟨order, i, hnd, hmem, -, hfin⟩ := ht'.finish_last ho
      (fun a ha b hb => hinj a (hp.subset ha) b (hp.subset hb)) (fun a ha _ _ _ => hret' a ha) hh
    obtain ⟨a, ha, rfl⟩ := (hmem i).1 (by simp)
    obtain ⟨r, hr⟩ := hret' a ha
    rw [Config.finish_of_ret hr] at hfin
    refine ⟨order ++ [a.op], hnd, ?_, hfin⟩
    intro j
    rw [hmem]
    exact exists_congr fun x => and_congr_left fun _ => hp.mem_iff

end Serial

/-! ## An order from one point of each program -/

section Points

omit [DecidableEq E]

variable {h : List (Event E ι)} {i j : ι} {k k' m n : Nat}

theorem stepsOf_take_mono (h : List (Event E ι)) (i : ι) (hmn : m ≤ n) :
    stepsOf (h.take m) i ≤ stepsOf (h.take n) i := by
  obtain ⟨g, hg⟩ := List.take_prefix_take_left hmn (l := h)
  rw [← hg, stepsOf_append]
  omega

/-- Where in the history `i` has taken its `k`-th step. -/
noncomputable def stepPosition (h : List (Event E ι)) (i : ι) (k : Nat) : Nat := sInf {m | k ≤ stepsOf (h.take m) i}

theorem stepPosition_le_iff (hk : k ≤ stepsOf h i) : stepPosition h i k ≤ m ↔ k ≤ stepsOf (h.take m) i := by
  have hmem : k ≤ stepsOf (h.take (stepPosition h i k)) i :=
    Nat.sInf_mem (s := {m | k ≤ stepsOf (h.take m) i}) ⟨h.length, by simpa using hk⟩
  exact ⟨fun hle => hmem.trans (stepsOf_take_mono h i hle), fun hm => Nat.sInf_le hm⟩

/-- Steps of two programs are not at one position. -/
theorem stepPosition_inj (hk0 : 0 < k) (hk : k ≤ stepsOf h i) (hk' : k' ≤ stepsOf h j)
    (heq : stepPosition h i k = stepPosition h j k') : i = j := by
  have hi := fun m => stepPosition_le_iff (m := m) hk
  have hj := fun m => stepPosition_le_iff (m := m) hk'
  rw [← heq] at hj
  generalize stepPosition h i k = p at hi hj
  cases p with
  | zero => exact absurd ((hi 0).1 le_rfl) (by simpa [stepsOf, touchesOf] using hk0.ne')
  | succ p =>
    have hip : stepsOf (h.take p) i < k := not_le.1 fun hle => by have := (hi p).2 hle; omega
    have hjp : stepsOf (h.take p) j < k' := not_le.1 fun hle => by have := (hj p).2 hle; omega
    have hi' := (hi (p + 1)).1 le_rfl
    have hj' := (hj (p + 1)).1 le_rfl
    rw [List.take_add_one, stepsOf_append] at hi' hj'
    -- The step at the position is one of both.
    cases ha : h[p]? with
    | none =>
      rw [ha] at hi'
      simp only [Option.toList_none, show stepsOf ([] : List (Event E ι)) i = 0 from rfl] at hi'
      omega
    | some a =>
      rw [ha] at hi' hj'
      have hai : a.op = i := by
        by_contra hne
        simp only [Option.toList_some, stepsOf_cons_ne hne, show stepsOf ([] : List (Event E ι)) i = 0 from rfl] at hi'
        omega
      have haj : a.op = j := by
        by_contra hne
        simp only [Option.toList_some, stepsOf_cons_ne hne, show stepsOf ([] : List (Event E ι)) j = 0 from rfl] at hj'
        omega
      rw [← hai, haj]

theorem pairwise_of_splits {α : Type*} {P : α → α → Prop} {l : List α}
    (hl : ∀ l₁ a l₂ b l₃, l = l₁ ++ a :: (l₂ ++ b :: l₃) → P a b) : l.Pairwise P := by
  induction l with
  | nil => exact .nil
  | cons x l ih =>
    refine List.pairwise_cons.2 ⟨fun b hb => ?_, ih fun l₁ a l₂ b l₃ he => hl (x :: l₁) a l₂ b l₃ (by rw [he]; rfl)⟩
    obtain ⟨l₂, l₃, rfl⟩ := List.append_of_mem hb
    exact hl [] x l₂ b l₃ rfl

/-- Where each program stands, of two conflicting steps `a` and `b`: `a`'s program is at
its point when `b` happens, `b`'s is not when `a` happens, and `a` is not ahead of its
program's point if `b` is behind its own. -/
structure PointsApart (point : ι → Nat) (h₁ : List (Event E ι)) (a : Event E ι) (h₂ : List (Event E ι))
    (b : Event E ι) : Prop where
  passed : point a.op ≤ stepsOf (h₁ ++ a :: h₂) a.op
  ahead : stepsOf h₁ b.op < point b.op
  between : point a.op ≤ stepsOf (h₁ ++ [a]) a.op ∨ stepsOf (h₁ ++ a :: h₂) b.op < point b.op

/-- Programs can be ordered by the positions of their points. -/
theorem conflictsOrdered_of_points {point : ι → Nat}
    (hpoint : ∀ a ∈ h, 0 < point a.op ∧ point a.op ≤ stepsOf h a.op)
    (hapart : ∀ h₁ a h₂ b h₃, h = h₁ ++ a :: (h₂ ++ b :: h₃) → a.op ≠ b.op → a.touch.Conflict b.touch →
      PointsApart point h₁ a h₂ b) :
    ConflictsOrdered (fun i => stepPosition h i (point i)) h := by
  apply pairwise_of_splits
  intro h₁ a h₂ b h₃ hh hop hc
  obtain ⟨hpassed, hahead, hbetween⟩ := hapart h₁ a h₂ b h₃ hh hop hc
  obtain ⟨ha0, ha⟩ := hpoint a (by simp [hh])
  obtain ⟨-, hb⟩ := hpoint b (by simp [hh])
  have hposition : ∀ {i} g g', point i ≤ stepsOf h i → h = g ++ g' →
      (stepPosition h i (point i) ≤ g.length ↔ point i ≤ stepsOf g i) := by
    intro i g g' hi hg
    rw [stepPosition_le_iff hi, hg, List.take_left]
  have h1 : stepPosition h a.op (point a.op) ≤ (h₁ ++ a :: h₂).length :=
    (hposition _ (b :: h₃) ha (by simp [hh])).2 hpassed
  have h2 : ¬ stepPosition h b.op (point b.op) ≤ h₁.length := by
    rw [hposition _ _ hb hh]
    omega
  have h3 : stepPosition h a.op (point a.op) ≤ (h₁ ++ [a]).length ∨
      ¬ stepPosition h b.op (point b.op) ≤ (h₁ ++ a :: h₂).length := by
    rw [hposition _ (h₂ ++ b :: h₃) ha (by simp [hh]), hposition _ (b :: h₃) hb (by simp [hh])]
    omega
  have hne : stepPosition h a.op (point a.op) ≠ stepPosition h b.op (point b.op) :=
    fun heq => hop (stepPosition_inj ha0 ha hb heq)
  rw [List.length_append, List.length_singleton] at h3
  show stepPosition h a.op (point a.op) < stepPosition h b.op (point b.op)
  omega

end Points

end Lib

import HardhatTron.Lib.RecentMemo
import HardhatTron.Lib.Runs
import HardhatTron.Runtime.DecodeReturn
/-!
# Converted addresses, remembered

`tronToHex` and `toTronBase58` remember the last few thousand texts that the codecs
converted for them. Elsewhere in this development both are taken without their
caches; `conversions_plain` is why that is the same, and says how large the caches
get and how seldom a codec is asked for one text.
-/
namespace HardhatTron.Cached

open Lib

/-! ## The caches -/

def _ADDR_CACHE_MAX : Nat := 4096

abbrev AddressCache := OrderedMap JsString JsString

structure AddressCaches where
  _hexCache : AddressCache
  _base58Cache : AddressCache

def _trimCache (m : AddressCache) : AddressCache := m.trim _ADDR_CACHE_MAX (_ADDR_CACHE_MAX * 3 / 4)

/-- What a conversion returns, `none` for a throw, and the texts for which it asked the codec of the runtime package. -/
structure Converted (α : Type) where
  value : Option α
  asked : List JsString

def Converted.map {α β : Type} (f : α → β) (c : Converted α) : Converted β := ⟨c.value.map f, c.asked⟩

/-- Convert, remember and trim. -/
def convertNew (codec : JsString → Option JsString) (addr : JsString) (m : AddressCache) :
    Converted JsString × AddressCache :=
  match codec addr with
  | some result => (⟨some result, [addr]⟩, _trimCache (m.put addr result))
  | none => (⟨none, [addr]⟩, m)

section

variable (env : ReturnEnv) (codec : AddressCodec)

def tronToHex (addr : RetValue) (m : AddressCache) : Converted RetValue × AddressCache :=
  if addr.truthy then
    match addr with
    | .str s =>
      match m.get? s with
      | some cached => (⟨some (.str cached), []⟩, m)
      | none =>
        let r := convertNew (fun s => (env.ethers.toEvmAddress s).bind env.ethers.getAddress) s m
        (r.1.map .str, r.2)
    | v => (⟨(env.ethers.getAddress ("0x".toList ++ (env.toHexOther v).drop 2)).map .str, []⟩, m)
  else (⟨some addr, []⟩, m)

/-- The forms that are converted. -/
def isHexForm (addr : JsString) : Bool := ("0x".toList.isPrefixOf addr && addr.length == 42) || isTronHex addr

def toTronBase58Text (addr : JsString) (m : AddressCache) : Converted JsString × AddressCache :=
  if isTronAddress addr then (⟨some addr, []⟩, m)
  else
    match m.get? addr with
    | some cached => (⟨some cached, []⟩, m)
    | none => if isHexForm addr then convertNew codec.toBase58Address addr m else (⟨some addr, []⟩, m)

def toTronBase58 (addr : JsValue) (m : AddressCache) : Converted JsValue × AddressCache :=
  match addr with
  | .obj fs =>
    match stringField fs "tronAddress", stringField fs "target", stringField fs "address" with
    | some a, _, _ => (⟨some (.str a), []⟩, m)
    | none, some a, _ => let r := toTronBase58Text codec a m; (r.1.map .str, r.2)
    | none, none, some a => let r := toTronBase58Text codec a m; (r.1.map .str, r.2)
    | none, none, none => (⟨some (.obj fs), []⟩, m)
  | .str a => let r := toTronBase58Text codec a m; (r.1.map .str, r.2)
  | v => (⟨some v, []⟩, m)

/-! ## Runs -/

inductive Conversion where
  | tronToHex (addr : RetValue)
  | toTronBase58 (addr : JsValue)

inductive ConversionReply where
  | hex (r : Converted RetValue)
  | base58 (r : Converted JsValue)

def step (s : AddressCaches) : Conversion → Option (ConversionReply × AddressCaches)
  | .tronToHex addr => let r := tronToHex env addr s._hexCache; some (.hex r.1, { s with _hexCache := r.2 })
  | .toTronBase58 addr => let r := toTronBase58 codec addr s._base58Cache; some (.base58 r.1, { s with _base58Cache := r.2 })

/-- The value is the one without a cache. -/
def Plain : Conversion × ConversionReply → Prop
  | (.tronToHex addr, .hex r) => r.value = tronToHexOf env addr
  | (.toTronBase58 addr, .base58 r) => r.value = HardhatTron.toTronBase58 codec addr
  | _ => False

/-- The texts that were converted. -/
def Converted.made {α : Type} (c : Converted α) : List JsString := if c.value.isSome then c.asked else []

def hexMade (h : List (Conversion × ConversionReply)) : List JsString :=
  h.flatMap fun e =>
    match e.2 with
    | .hex r => r.made
    | .base58 _ => []

def base58Made (h : List (Conversion × ConversionReply)) : List JsString :=
  h.flatMap fun e =>
    match e.2 with
    | .hex _ => []
    | .base58 r => r.made

end

/-! ## One conversion -/

/-- The last results of a conversion, whose texts do not come again soon. -/
structure Remembers (convert : JsString → Option JsString) (made : List JsString) (m : AddressCache) : Prop where
  window : Window convert 4096 3072 made m
  spread : Spread 3072 made

variable {env : ReturnEnv} {codec : AddressCodec} {convert convert' : JsString → Option JsString} {m : AddressCache}
  {made : List JsString} {s : JsString}

theorem Remembers.empty : Remembers convert [] .empty := ⟨.empty, .nil⟩

/-- Nothing was asked, or the codec threw. -/
theorem Remembers.same (h : Remembers convert made m) {α : Type} {c : Converted α} (hc : c.asked = [] ∨ c.value = none) :
    Remembers convert (made ++ c.made) m := by
  have hmade : c.made = [] := by
    unfold Converted.made
    rcases hc with hc | hc <;> simp [hc]
  rw [hmade, List.append_nil]
  exact h

/-- A text that is new is converted, and from now on among the last. -/
theorem Remembers.convertNew (h : Remembers convert made m) (hs : m.get? s = none) (hconvert : convert' s = convert s) :
    (convertNew convert' s m).1.value = convert s ∧
      Remembers convert (made ++ (convertNew convert' s m).1.made) (convertNew convert' s m).2 := by
  unfold Cached.convertNew
  rw [hconvert]
  cases hv : convert s with
  | none => exact ⟨rfl, h.same (.inr rfl)⟩
  | some v => exact ⟨rfl, h.window.put (by decide) hs hv, h.spread.put h.window hs⟩

theorem Converted.made_map {α β : Type} (f : α → β) (c : Converted α) : (c.map f).made = c.made := by
  simp [Converted.made, Converted.map]

/-- The conversion to hex. -/
def hexOf (env : ReturnEnv) (s : JsString) : Option JsString := (env.ethers.toEvmAddress s).bind env.ethers.getAddress

/-- The conversion to base58, of the forms that are converted. -/
def base58Of (codec : AddressCodec) (s : JsString) : Option JsString :=
  if isHexForm s then codec.toBase58Address s else none

theorem tronToHex_plain (h : Remembers (hexOf env) made m) (addr : RetValue) :
    (tronToHex env addr m).1.value = tronToHexOf env addr ∧
      Remembers (hexOf env) (made ++ (tronToHex env addr m).1.made) (tronToHex env addr m).2 := by
  unfold tronToHex tronToHexOf
  by_cases htruthy : addr.truthy = true
  · rw [if_pos htruthy, if_pos htruthy]
    cases addr with
    | str s =>
      have hs : s ≠ [] := by simpa [RetValue.truthy] using htruthy
      simp only [HardhatTron.tronToHex, if_neg hs]
      split
      · rename_i cached hcached
        exact ⟨(congrArg (Option.map RetValue.str) (h.window.right s cached hcached)).symm, h.same (.inl rfl)⟩
      · rename_i hnew
        obtain ⟨hvalue, hmade⟩ := h.convertNew hnew rfl
        rw [Converted.made_map]
        exact ⟨congrArg (Option.map RetValue.str) hvalue, hmade⟩
    | _ => exact ⟨rfl, h.same (.inl rfl)⟩
  · rw [if_neg htruthy, if_neg htruthy]
    exact ⟨rfl, h.same (.inl rfl)⟩

theorem toTronBase58Text_eq (codec : AddressCodec) (s : JsString) : HardhatTron.toTronBase58Text codec s =
    if isTronAddress s then some s else if isHexForm s then codec.toBase58Address s else some s := by
  unfold HardhatTron.toTronBase58Text isHexForm
  congr 2
  simp

theorem toTronBase58Text_plain (h : Remembers (base58Of codec) made m) (s : JsString) :
    (toTronBase58Text codec s m).1.value = HardhatTron.toTronBase58Text codec s ∧
      Remembers (base58Of codec) (made ++ (toTronBase58Text codec s m).1.made) (toTronBase58Text codec s m).2 := by
  unfold toTronBase58Text
  rw [toTronBase58Text_eq]
  split
  · exact ⟨rfl, h.same (.inl rfl)⟩
  · split
    · rename_i cached hcached
      have hright := h.window.right s cached hcached
      unfold base58Of at hright
      split at hright
      · rw [if_pos ‹_›, hright]
        exact ⟨rfl, h.same (.inl rfl)⟩
      · cases hright
    · rename_i hnew
      split
      · rename_i hform
        have hconvert : codec.toBase58Address s = base58Of codec s := (if_pos hform).symm
        rw [hconvert]
        exact h.convertNew hnew hconvert
      · exact ⟨rfl, h.same (.inl rfl)⟩

theorem toTronBase58_plain (h : Remembers (base58Of codec) made m) (addr : JsValue) :
    (toTronBase58 codec addr m).1.value = HardhatTron.toTronBase58 codec addr ∧
      Remembers (base58Of codec) (made ++ (toTronBase58 codec addr m).1.made) (toTronBase58 codec addr m).2 := by
  have htext : ∀ a, ((toTronBase58Text codec a m).1.map JsValue.str).value =
      (HardhatTron.toTronBase58Text codec a).map .str ∧ Remembers (base58Of codec)
        (made ++ ((toTronBase58Text codec a m).1.map JsValue.str).made) (toTronBase58Text codec a m).2 := by
    intro a
    obtain ⟨hvalue, hmade⟩ := toTronBase58Text_plain h a
    rw [Converted.made_map]
    exact ⟨congrArg (Option.map JsValue.str) hvalue, hmade⟩
  unfold toTronBase58 HardhatTron.toTronBase58
  cases addr with
  | obj fs =>
    dsimp only
    cases stringField fs "tronAddress" with
    | some a => exact ⟨rfl, h.same (.inl rfl)⟩
    | none =>
      cases stringField fs "target" with
      | some a => exact htext a
      | none =>
        cases stringField fs "address" with
        | some a => exact htext a
        | none => exact ⟨rfl, h.same (.inl rfl)⟩
  | str a => exact htext a
  | _ => exact ⟨rfl, h.same (.inl rfl)⟩

/-! ## Every run -/

/-- **The caches do not show.** In every run of the two conversions each gives what it
gives without its cache; no cache holds more than 4096 texts, and once a text was
converted its codec is not asked for it again until 3072 others were converted. -/
theorem conversions_plain {h : List (Conversion × ConversionReply)} {caches : AddressCaches}
    (hr : Run (step env codec) (fun _ _ => True) ⟨.empty, .empty⟩ h caches) :
    (∀ e ∈ h, Plain env codec e) ∧ caches._hexCache.size ≤ 4096 ∧ caches._base58Cache.size ≤ 4096 ∧
      Spread 3072 (hexMade h) ∧ Spread 3072 (base58Made h) := by
  have hinv : (∀ e ∈ h, Plain env codec e) ∧ Remembers (hexOf env) (hexMade h) caches._hexCache ∧
      Remembers (base58Of codec) (base58Made h) caches._base58Cache := by
    apply Run.inv (fun h s => (∀ e ∈ h, Plain env codec e) ∧ Remembers (hexOf env) (hexMade h) s._hexCache ∧
      Remembers (base58Of codec) (base58Made h) s._base58Cache) _ _ hr
    · exact ⟨by simp, .empty, .empty⟩
    · rintro h s c r s' - ⟨hplain, hhex, hbase58⟩ - hst
      have hsnoc : ∀ e, Plain env codec e → ∀ e' ∈ h ++ [e], Plain env codec e' := by
        intro e he e' he'
        rcases List.mem_append.1 he' with he' | he'
        · exact hplain e' he'
        · rw [List.mem_singleton.1 he']
          exact he
      cases c with
      | tronToHex addr =>
        obtain ⟨rfl, rfl⟩ := Prod.mk.inj (Option.some.inj hst)
        obtain ⟨hvalue, hmade⟩ := tronToHex_plain hhex addr
        exact ⟨hsnoc _ hvalue, by simpa [hexMade] using hmade, by simpa [base58Made] using hbase58⟩
      | toTronBase58 addr =>
        obtain ⟨rfl, rfl⟩ := Prod.mk.inj (Option.some.inj hst)
        obtain ⟨hvalue, hmade⟩ := toTronBase58_plain hbase58 addr
        exact ⟨hsnoc _ hvalue, by simpa [hexMade] using hhex, by simpa [base58Made] using hmade⟩
  obtain ⟨hplain, hhex, hbase58⟩ := hinv
  exact ⟨hplain, hhex.window.bounded, hbase58.window.bounded, hhex.spread, hbase58.spread⟩

/-! ### The second time -/

def zeroHex : JsString := "0x".toList ++ List.replicate 40 '0'

def zeroBase58 : JsString := "T9yD14Nj9j7xAB4dbGeiX9h8unkKHxuWwb".toList

theorem zeroBase58_digits : zeroBase58.all base58Alphabet.contains = true := by decide

theorem zeroCodec_base58 {a b : JsString} (h : (if a = zeroHex then some zeroBase58 else none) = some b) :
    ∀ c ∈ b, c ∈ base58Alphabet := by
  split at h
  · rw [← Option.some.inj h]
    exact fun c hc => List.contains_iff_mem.1 (List.all_eq_true.1 zeroBase58_digits c hc)
  · cases h

/-- A codec for one account. -/
def zeroCodec : AddressCodec where
  toBase58Address a := if a = zeroHex then some zeroBase58 else none
  toHex _ := none
  fromHex _ := none
  base58 := @zeroCodec_base58

/-- One account, to hex and to base58; each the second time from its cache. -/
def convertedTwice : List (Conversion × ConversionReply) :=
  [(.tronToHex (.str zeroHex), .hex ⟨some (.str zeroHex), [zeroHex]⟩),
    (.toTronBase58 (.str zeroHex), .base58 ⟨some (.str zeroBase58), [zeroHex]⟩),
    (.tronToHex (.str zeroHex), .hex ⟨some (.str zeroHex), []⟩),
    (.toTronBase58 (.str zeroHex), .base58 ⟨some (.str zeroBase58), []⟩)]

theorem convertedTwice_play : play (step lowercaseEnv zeroCodec) (fun _ _ => True) ⟨.empty, .empty⟩
    (convertedTwice.map Prod.fst) =
      some (convertedTwice, ⟨OrderedMap.empty.put zeroHex zeroHex, OrderedMap.empty.put zeroHex zeroBase58⟩) := rfl

theorem convertedTwice_plain : ∃ caches,
    Run (step lowercaseEnv zeroCodec) (fun _ _ => True) ⟨.empty, .empty⟩ convertedTwice caches ∧
      (∀ e ∈ convertedTwice, Plain lowercaseEnv zeroCodec e) ∧ Spread 3072 (hexMade convertedTwice) ∧
      Spread 3072 (base58Made convertedTwice) := by
  have hrun := Run.of_play convertedTwice_play
  obtain ⟨hplain, -, -, hspread⟩ := conversions_plain hrun
  exact ⟨_, hrun, hplain, hspread⟩

end HardhatTron.Cached

import HardhatTron.Lib.Number
import HardhatTron.Lib.Positional
/-!
# Bytes in hexadecimal

`hexOfBytes` writes two digits a byte; `bytesOfHex` reads pairs of digits and
stops at the first that is none.
-/
namespace Lib

def hexOfByte (b : UInt8) : List Char := [(b.toNat / 16).digitChar, (b.toNat % 16).digitChar]

def hexOfBytes (l : List UInt8) : List Char := l.flatMap hexOfByte

def bytesOfHex : List Char → List UInt8
  | c :: d :: rest =>
    if isHexDigit c && isHexDigit d then UInt8.ofNat (16 * hexValue c + hexValue d) :: bytesOfHex rest else []
  | _ => []

theorem bytesOfHex_cons (b : UInt8) (rest : List Char) :
    bytesOfHex (hexOfByte b ++ rest) = b :: bytesOfHex rest := by
  have hlt : b.toNat < 256 := b.toNat_lt
  have hhigh : b.toNat / 16 < 16 := by omega
  have hlow : b.toNat % 16 < 16 := Nat.mod_lt _ (by omega)
  have hvalue : 16 * (b.toNat / 16) + b.toNat % 16 = b.toNat := Nat.div_add_mod b.toNat 16
  simp only [hexOfByte, List.cons_append, List.nil_append, bytesOfHex, isHexDigit_digitChar hhigh,
    isHexDigit_digitChar hlow, hexValue_digitChar hhigh, hexValue_digitChar hlow, hvalue, Bool.and_self, if_true]
  rw [UInt8.ofNat_toNat]

/-- Reading what was written gives the bytes back. -/
theorem bytesOfHex_hexOfBytes (l : List UInt8) : bytesOfHex (hexOfBytes l) = l := by
  induction l with
  | nil => rfl
  | cons b l ih =>
    have hcons : hexOfBytes (b :: l) = hexOfByte b ++ hexOfBytes l := by simp [hexOfBytes]
    rw [hcons, bytesOfHex_cons, ih]

theorem length_hexOfBytes (l : List UInt8) : (hexOfBytes l).length = 2 * l.length := by
  induction l with
  | nil => rfl
  | cons b l ih =>
    have hcons : hexOfBytes (b :: l) = hexOfByte b ++ hexOfBytes l := by simp [hexOfBytes]
    rw [hcons, List.length_append, ih, hexOfByte]
    simp only [List.length_cons, List.length_nil]
    omega

theorem hexOfBytes_eq_nil {l : List UInt8} (h : hexOfBytes l = []) : l = [] := by
  have hlen := length_hexOfBytes l
  rw [h] at hlen
  exact List.length_eq_zero_iff.1 (by simpa using hlen.symm)

/-! ## Texts of a fixed length -/

/-- The last `n` hex digits of a number. -/
def fixedHex : Nat → Nat → List Char
  | 0, _ => []
  | n + 1, v => fixedHex n (v / 16) ++ [(v % 16).digitChar]

theorem fixedHex_eq (n v : Nat) : fixedHex n v = fixedDigits 16 Nat.digitChar n v := by
  induction n generalizing v with
  | zero => rfl
  | succ n ih => rw [fixedHex, fixedDigits, ih]

theorem length_fixedHex (n v : Nat) : (fixedHex n v).length = n := by
  rw [fixedHex_eq, length_fixedDigits]

theorem toLower_digitChar {d : Nat} (h : d < 16) : d.digitChar.toLower = d.digitChar := by
  interval_cases d <;> rfl

theorem mem_fixedHex {n v : Nat} : ∀ c ∈ fixedHex n v, ∃ d, d < 16 ∧ c = d.digitChar := by
  rw [fixedHex_eq]
  exact mem_fixedDigits (by decide)

theorem parseHex_fixedHex (n v : Nat) : parseHex (fixedHex n v) = v % 16 ^ n := by
  rw [fixedHex_eq]
  exact readDigits_fixedDigits (by decide) (fun d hd => hexValue_digitChar hd) n v

/-- `n` lowercase hex digits. -/
structure HexText (n : Nat) where
  text : List Char
  length_eq : text.length = n
  digits : ∀ c ∈ text, isHexDigit c = true
  lower : text.map Char.toLower = text
  deriving DecidableEq

theorem HexText.ext_text {n : Nat} {s t : HexText n} (h : s.text = t.text) : s = t := by
  cases s
  cases t
  cases h
  rfl

theorem HexText.ne_nil {n : Nat} (t : HexText n) (hn : n ≠ 0) : t.text ≠ [] := by
  intro h
  apply hn
  rw [← t.length_eq, h, List.length_nil]

theorem isHexDigit_fixedHex (n v : Nat) : ∀ c ∈ fixedHex n v, isHexDigit c = true := by
  intro c hc
  obtain ⟨d, hd, rfl⟩ := mem_fixedHex c hc
  exact isHexDigit_digitChar hd

theorem toLower_fixedHex (n v : Nat) : (fixedHex n v).map Char.toLower = fixedHex n v := by
  have hsame : ∀ c ∈ fixedHex n v, c.toLower = id c := by
    intro c hc
    obtain ⟨d, hd, rfl⟩ := mem_fixedHex c hc
    exact toLower_digitChar hd
  rw [List.map_congr_left hsame, List.map_id]

/-- A number in `n` digits. -/
def hexWord (n v : Nat) : HexText n :=
  ⟨fixedHex n v, length_fixedHex n v, isHexDigit_fixedHex n v, toLower_fixedHex n v⟩

theorem parseHex_hexWord {n v : Nat} (h : v < 16 ^ n) : parseHex (hexWord n v).text = v :=
  (parseHex_fixedHex n v).trans (Nat.mod_eq_of_lt h)

theorem digitChar_hexValue {c : Char} (h : isHexDigit c = true) (hlower : c.toLower = c) :
    hexValue c < 16 ∧ (hexValue c).digitChar = c := by
  have hlt : c.toNat < 103 := by
    simp only [isHexDigit, decide_eq_true_eq] at h
    rcases h with ⟨-, hhigh⟩ | ⟨-, hhigh⟩ | ⟨-, hhigh⟩
    · exact Nat.lt_of_le_of_lt (hhigh : c.toNat ≤ 57) (by decide)
    · exact Nat.lt_of_le_of_lt (hhigh : c.toNat ≤ 102) (by decide)
    · exact Nat.lt_of_le_of_lt (hhigh : c.toNat ≤ 70) (by decide)
  have hall : ∀ n < 103, isHexDigit (Char.ofNat n) = true → (Char.ofNat n).toLower = Char.ofNat n →
      hexValue (Char.ofNat n) < 16 ∧ (hexValue (Char.ofNat n)).digitChar = Char.ofNat n := by decide
  have hc := hall c.toNat hlt
  rw [Char.ofNat_toNat] at hc
  exact hc h hlower

theorem HexText.digitChar_hexValue {n : Nat} (t : HexText n) :
    ∀ c ∈ t.text, hexValue c < 16 ∧ (hexValue c).digitChar = c := by
  intro c hc
  have hlower : t.text.map Char.toLower = t.text.map id := by rw [t.lower, List.map_id]
  exact Lib.digitChar_hexValue (t.digits c hc) (List.map_inj_left.1 hlower c hc)

/-- A text is the number it denotes, in as many digits. -/
theorem HexText.fixedHex_parseHex {n : Nat} (t : HexText n) : fixedHex n (parseHex t.text) = t.text := by
  have hback := fixedDigits_readDigits t.digitChar_hexValue
  rwa [t.length_eq, ← fixedHex_eq] at hback

theorem HexText.parseHex_lt {n : Nat} (t : HexText n) : parseHex t.text < 16 ^ n := by
  have hbound := readDigits_lt fun c hc => (t.digitChar_hexValue c hc).1
  rwa [t.length_eq] at hbound

end Lib

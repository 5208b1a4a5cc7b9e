import Mathlib.Data.List.DropRight
import Mathlib.Data.List.TakeDrop
import Mathlib.Data.Nat.Digits.Lemmas
import Mathlib.Tactic.Common

/-! Python strings as code point sequences. A code point may be a surrogate, which
is why `Char` does not do: encoding a string is a partial operation. -/
namespace AgenticRag.Python

abbrev CodePoint := Fin 0x110000
abbrev Str := List CodePoint

instance codePoints_neZero : NeZero 0x110000 := ⟨by decide⟩
instance str_lawfulBEq : LawfulBEq Str := inferInstance

def ord (c : Char) : CodePoint := ⟨c.toNat, by
  rcases c.valid with h | ⟨_, h⟩
  · exact h.trans (by decide)
  · exact h⟩

def str (s : String) : Str := s.toList.map ord

/-- Category `Cs`. -/
def isSurrogate (c : CodePoint) : Bool := 0xD800 ≤ c.val && c.val ≤ 0xDFFF

/-- Category `Cc`. -/
def isControl (c : CodePoint) : Bool := c.val ≤ 0x1F || (0x7F ≤ c.val && c.val ≤ 0x9F)

/-- `str.isspace` of one character; `str.strip()` without an argument uses it. -/
def isSpace (c : CodePoint) : Bool :=
  (9 ≤ c.val && c.val ≤ 13) || (0x1C ≤ c.val && c.val ≤ 0x20) || c.val == 0x85 ||
  c.val == 0xA0 || c.val == 0x1680 || (0x2000 ≤ c.val && c.val ≤ 0x200A) ||
  c.val == 0x2028 || c.val == 0x2029 || c.val == 0x202F || c.val == 0x205F || c.val == 0x3000

def space : CodePoint := ⟨0x20, by decide⟩
def tab : CodePoint := ⟨0x09, by decide⟩
def newline : CodePoint := ⟨0x0A, by decide⟩
def carriageReturn : CodePoint := ⟨0x0D, by decide⟩

/-- `" \t"` as the argument of `strip` and `rstrip`. -/
def isBlank (c : CodePoint) : Bool := c == space || c == tab

def lstripWhile (p : CodePoint → Bool) (s : Str) : Str := s.dropWhile p
def rstripWhile (p : CodePoint → Bool) (s : Str) : Str := s.rdropWhile p
def stripWhile (p : CodePoint → Bool) (s : Str) : Str := rstripWhile p (lstripWhile p s)

/-- `s.strip()`. -/
def strip (s : Str) : Str := stripWhile isSpace s

theorem stripWhile_eq_nil {p : CodePoint → Bool} {s : Str} :
    stripWhile p s = [] ↔ ∀ c ∈ s, p c = true := by
  unfold stripWhile rstripWhile lstripWhile
  rw [List.rdropWhile_eq_nil_iff]
  constructor
  · intro h
    cases hd : s.dropWhile p with
    | nil => exact List.dropWhile_eq_nil_iff.mp hd
    | cons c rest =>
      have hc : p c = true := h c (by rw [hd]; exact List.mem_cons_self)
      have hn := List.head_dropWhile_not p (hd ▸ List.cons_ne_nil c rest)
      simp [hd, hc] at hn
  · intro h c hc
    exact h c ((List.dropWhile_suffix p).subset hc)

theorem strip_eq_nil {s : Str} : strip s = [] ↔ ∀ c ∈ s, isSpace c = true := stripWhile_eq_nil

theorem strip_ne_nil_of_mem {s : Str} {c : CodePoint} (hc : c ∈ s) (hs : isSpace c = false) :
    strip s ≠ [] := by
  intro h
  rw [strip_eq_nil.mp h c hc] at hs
  cases hs

/-- Downward search for `sub` at the indices below `i` and not below `lo`. -/
def rfindBelow (text sub : Str) (lo : Nat) : Nat → Int
  | 0 => -1
  | i + 1 => if lo ≤ i ∧ sub.isPrefixOf (text.drop i) then i else rfindBelow text sub lo i

/-- `text.rfind(sub, lo, hi)` for `hi ≤ len(text)`. -/
def rfind (text sub : Str) (lo hi : Nat) : Int := rfindBelow text sub lo (hi + 1 - sub.length)

theorem rfindBelow_spec {text sub : Str} {lo i : Nat} {r : Int}
    (h : rfindBelow text sub lo i = r) :
    r = -1 ∨ ∃ k : Nat, r = k ∧ lo ≤ k ∧ k < i ∧ sub.isPrefixOf (text.drop k) := by
  induction i with
  | zero => exact .inl h.symm
  | succ i ih =>
    rw [rfindBelow] at h
    split at h
    · rename_i hc
      exact .inr ⟨i, h.symm, hc.1, Nat.lt_succ_self i, hc.2⟩
    · rcases ih h with hr | ⟨k, hr, hlo, hki, hp⟩
      · exact .inl hr
      · exact .inr ⟨k, hr, hlo, Nat.lt_succ_of_lt hki, hp⟩

/-- A boundary that is found lies inside the window. -/
theorem rfind_spec {text sub : Str} {lo hi : Nat} {r : Int} (h : rfind text sub lo hi = r) :
    r = -1 ∨ ∃ k : Nat, r = k ∧ lo ≤ k ∧ k + sub.length ≤ hi ∧ sub.isPrefixOf (text.drop k) := by
  rcases rfindBelow_spec h with hr | ⟨k, hr, hlo, hk, hp⟩
  · exact .inl hr
  · exact .inr ⟨k, hr, hlo, by omega, hp⟩

theorem rfind_le {text sub : Str} {lo hi : Nat} (h : sub.length ≤ hi + 1) :
    rfind text sub lo hi ≤ (hi : Int) - sub.length := by
  rcases rfind_spec (rfl : rfind text sub lo hi = _) with hr | ⟨k, hr, _, hk, _⟩
  · omega
  · omega

/-- The UTF-8 bytes of one scalar value. -/
def encodeChar (c : CodePoint) : List UInt8 :=
  let n := c.val
  if n < 0x80 then [UInt8.ofNat n]
  else if n < 0x800 then [UInt8.ofNat (0xC0 + n / 64), UInt8.ofNat (0x80 + n % 64)]
  else if n < 0x10000 then
    [UInt8.ofNat (0xE0 + n / 4096), UInt8.ofNat (0x80 + n / 64 % 64), UInt8.ofNat (0x80 + n % 64)]
  else
    [UInt8.ofNat (0xF0 + n / 262144), UInt8.ofNat (0x80 + n / 4096 % 64),
      UInt8.ofNat (0x80 + n / 64 % 64), UInt8.ofNat (0x80 + n % 64)]

/-- `s.encode("utf-8")`; `none` is the `UnicodeEncodeError` of an unpaired surrogate. -/
def encodeUtf8 (s : Str) : Option (List UInt8) :=
  if s.any isSurrogate then none else some (s.flatMap encodeChar)

theorem encodeUtf8_isSome {s : Str} :
    (encodeUtf8 s).isSome ↔ ∀ c ∈ s, isSurrogate c = false := by
  unfold encodeUtf8
  cases h : s.any isSurrogate with
  | true => simpa using h
  | false => simpa using h

theorem encodeUtf8_eq_none {s : Str} : encodeUtf8 s = none ↔ s.any isSurrogate = true := by
  unfold encodeUtf8
  cases s.any isSurrogate <;> simp

/-- `"0123456789abcdef"[d]`. -/
def hexDigit (d : Fin 16) : CodePoint :=
  if d.val < 10 then ⟨0x30 + d.val, by omega⟩ else ⟨0x57 + d.val, by omega⟩

def isLowerHex (c : CodePoint) : Bool :=
  (0x30 ≤ c.val && c.val ≤ 0x39) || (0x61 ≤ c.val && c.val ≤ 0x66)

theorem hexDigit_isLowerHex (d : Fin 16) : isLowerHex (hexDigit d) = true := by
  revert d; decide

theorem hexDigit_injective : Function.Injective hexDigit := by
  intro a b
  revert a b; decide

/-- `bytes.hex()`. -/
def hexBytes (bs : List UInt8) : Str :=
  bs.flatMap fun b => [hexDigit ⟨b.toNat / 16, by have := b.toNat_lt; omega⟩,
    hexDigit ⟨b.toNat % 16, Nat.mod_lt _ (by decide)⟩]

theorem hexBytes_length (bs : List UInt8) : (hexBytes bs).length = 2 * bs.length := by
  simp [hexBytes, List.length_flatMap, Nat.mul_comm]

theorem hexBytes_isLowerHex {bs : List UInt8} {c : CodePoint} (h : c ∈ hexBytes bs) :
    isLowerHex c = true := by
  obtain ⟨b, _, hc⟩ := List.mem_flatMap.mp h
  rcases List.mem_cons.mp hc with rfl | hc
  · exact hexDigit_isLowerHex _
  · obtain rfl := List.mem_singleton.mp hc
    exact hexDigit_isLowerHex _

def decimalDigit (d : Nat) : CodePoint := ⟨0x30 + d % 10, by omega⟩

/-- `str(n)` of a natural number. -/
def natStr (n : Nat) : Str :=
  if n = 0 then [decimalDigit 0] else (Nat.digits 10 n).reverse.map decimalDigit

def natOf (s : Str) : Nat := Nat.ofDigits 10 (s.reverse.map fun c => c.val - 0x30)

theorem natOf_natStr (n : Nat) : natOf (natStr n) = n := by
  unfold natOf natStr
  split
  · rename_i h
    rw [h]
    rfl
  · have hd : (Nat.digits 10 n).map ((fun c : CodePoint => c.val - 0x30) ∘ decimalDigit) =
        Nat.digits 10 n := by
      rw [List.map_congr_left (g := id), List.map_id]
      intro d hd
      have := Nat.digits_lt_base (by decide : 1 < 10) hd
      simp only [Function.comp_apply, decimalDigit, id_eq]
      omega
    rw [← List.map_reverse, List.reverse_reverse, List.map_map, hd, Nat.ofDigits_digits]

theorem natStr_injective : Function.Injective natStr :=
  Function.LeftInverse.injective natOf_natStr

theorem natStr_digit {n : Nat} {c : CodePoint} (h : c ∈ natStr n) :
    0x30 ≤ c.val ∧ c.val ≤ 0x39 := by
  unfold natStr at h
  split at h
  · obtain rfl := List.mem_singleton.mp h
    decide
  · obtain ⟨d, _, rfl⟩ := List.mem_map.mp h
    change 0x30 ≤ 0x30 + d % 10 ∧ 0x30 + d % 10 ≤ 0x39
    omega

theorem natStr_length_le {n k : Nat} (hk : 0 < k) (h : n < 10 ^ k) : (natStr n).length ≤ k := by
  unfold natStr
  split
  · exact hk
  · rw [List.length_map, List.length_reverse]
    exact (Nat.digits_length_le_iff (by decide) n).mpr h

end AgenticRag.Python

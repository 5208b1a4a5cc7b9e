import AgenticRag.Python.Text
import Mathlib.Data.Nat.Digits.Lemmas
import Mathlib.Order.Fin.Basic

/-! `uuid.UUID` as its 128-bit integer, the order it is compared in, its canonical
spelling and the lenient constructor. -/
namespace AgenticRag.Python

abbrev UUID := Fin (2 ^ 128)

instance uuids_neZero : NeZero (2 ^ 128) := ⟨by decide⟩
instance uuid_lawfulBEq : LawfulBEq UUID := inferInstance

/-- The `width` lowest digits of `n` to the base 16, most significant first. -/
def hexFixed : Nat → Nat → Str
  | 0, _ => []
  | width + 1, n => hexFixed width (n / 16) ++ [hexDigit ⟨n % 16, Nat.mod_lt _ (by decide)⟩]

@[simp] theorem hexFixed_length (width n : Nat) : (hexFixed width n).length = width := by
  induction width generalizing n with
  | zero => rfl
  | succ width ih => simp [hexFixed, ih]

theorem hexFixed_inj {width m n : Nat} (hm : m < 16 ^ width) (hn : n < 16 ^ width)
    (h : hexFixed width m = hexFixed width n) : m = n := by
  induction width generalizing m n with
  | zero =>
    rw [Nat.pow_zero] at hm hn
    omega
  | succ width ih =>
    obtain ⟨hq, hr⟩ := List.append_inj h (by simp)
    have hr' := hexDigit_injective (List.singleton_inj.mp hr)
    have hmod : m % 16 = n % 16 := congrArg Fin.val hr'
    have hdiv : m / 16 = n / 16 :=
      ih (by rw [Nat.div_lt_iff_lt_mul (by decide), ← Nat.pow_succ]; exact hm)
        (by rw [Nat.div_lt_iff_lt_mul (by decide), ← Nat.pow_succ]; exact hn) hq
    omega

theorem hexFixed_isLowerHex {width n : Nat} {c : CodePoint} (h : c ∈ hexFixed width n) :
    isLowerHex c = true := by
  induction width generalizing n with
  | zero => cases h
  | succ width ih =>
    rcases List.mem_append.mp h with h | h
    · exact ih h
    · obtain rfl := List.mem_singleton.mp h
      exact hexDigit_isLowerHex _

def hyphen : CodePoint := ⟨0x2D, by decide⟩

/-- `str(uuid)`: 32 lowercase digits in groups of 8, 4, 4, 4 and 12. -/
def UUID.str (u : UUID) : Str :=
  let hex := hexFixed 32 u.val
  hex.take 8 ++ hyphen :: ((hex.drop 8).take 4 ++ hyphen :: ((hex.drop 12).take 4 ++
    hyphen :: ((hex.drop 16).take 4 ++ hyphen :: hex.drop 20)))

theorem UUID.str_length (u : UUID) : (UUID.str u).length = 36 := by
  simp [UUID.str]

theorem UUID.str_injective : Function.Injective UUID.str := by
  intro u v h
  simp only [UUID.str] at h
  have split : ∀ {a b : Str} {n : Nat} {r s : Str}, (a.take n).length = (b.take n).length →
      a.take n ++ hyphen :: r = b.take n ++ hyphen :: s → a.take n = b.take n ∧ r = s := by
    intro a b n r s hl he
    obtain ⟨ha, hb⟩ := List.append_inj he hl
    exact ⟨ha, (List.cons.inj hb).2⟩
  obtain ⟨h₁, h⟩ := split (by simp) h
  obtain ⟨h₂, h⟩ := split (by simp) h
  obtain ⟨h₃, h⟩ := split (by simp) h
  obtain ⟨h₄, h₅⟩ := split (by simp) h
  have cut : ∀ (s : Str), s = s.take 8 ++ ((s.drop 8).take 4 ++ ((s.drop 12).take 4 ++
      ((s.drop 16).take 4 ++ s.drop 20))) := by
    intro s
    have d (m n : Nat) : (s.drop m).take n ++ s.drop (m + n) = s.drop m := by
      rw [← List.drop_drop, List.take_append_drop]
    rw [d 16 4, d 12 4, d 8 4, List.take_append_drop]
  have hhex : hexFixed 32 u.val = hexFixed 32 v.val := by
    rw [cut (hexFixed 32 u.val), cut (hexFixed 32 v.val), h₁, h₂, h₃, h₄, h₅]
  have hb : (16 : Nat) ^ 32 = 2 ^ 128 := by norm_num
  exact Fin.ext (hexFixed_inj (by rw [hb]; exact u.isLt) (by rw [hb]; exact v.isLt) hhex)

/-- The characters of value zero in category `Nd`; each starts a run of ten digits. -/
def decimalZeros : List Nat :=
  [0x30, 0x660, 0x6F0, 0x7C0, 0x966, 0x9E6, 0xA66, 0xAE6, 0xB66, 0xBE6, 0xC66, 0xCE6, 0xD66,
    0xDE6, 0xE50, 0xED0, 0xF20, 0x1040, 0x1090, 0x17E0, 0x1810, 0x1946, 0x19D0, 0x1A80, 0x1A90,
    0x1B50, 0x1BB0, 0x1C40, 0x1C50, 0xA620, 0xA8D0, 0xA900, 0xA9D0, 0xA9F0, 0xAA50, 0xABF0,
    0xFF10, 0x104A0, 0x10D30, 0x11066, 0x110F0, 0x11136, 0x111D0, 0x112F0, 0x11450, 0x114D0,
    0x11650, 0x116C0, 0x11730, 0x118E0, 0x11950, 0x11C50, 0x11D50, 0x11DA0, 0x11F50, 0x16A60,
    0x16AC0, 0x16B50, 0x1D7CE, 0x1D7D8, 0x1D7E2, 0x1D7EC, 0x1D7F6, 0x1E140, 0x1E2F0, 0x1E4F0,
    0x1E950, 0x1FBF0]

/-- What `int` makes of a character first: a decimal digit of any script is an ASCII digit,
and whitespace beyond ASCII a blank. -/
def toIntChar (c : CodePoint) : CodePoint :=
  if c.val < 0x7F then c
  else if isSpace c then space
  else match decimalZeros.find? fun z => z ≤ c.val && c.val < z + 10 with
    | some z => decimalDigit (c.val - z)
    | none => ord '?'

/-- The whitespace that may stand around an integer; the separators 0x1C to 0x1F may not. -/
def isIntSpace (c : CodePoint) : Bool := (9 ≤ c.val && c.val ≤ 13) || c.val == 0x20

/-- The value of one ASCII character as a digit of `int(text, base)`. -/
def digitValue (c : CodePoint) : Option Nat :=
  if 0x30 ≤ c.val ∧ c.val ≤ 0x39 then some (c.val - 0x30)
  else if 0x61 ≤ c.val ∧ c.val ≤ 0x7A then some (c.val - 0x57)
  else if 0x41 ≤ c.val ∧ c.val ≤ 0x5A then some (c.val - 0x37)
  else none

def underscore : CodePoint := ⟨0x5F, by decide⟩

/-- Digits with single underscores between them; `lead` says that a digit must follow. -/
def digitsValue (base : Nat) : Bool → Nat → Str → Option Nat
  | lead, acc, [] => if lead then none else some acc
  | lead, acc, c :: rest =>
    if c = underscore then (if lead then none else digitsValue base true acc rest)
    else match digitValue c with
      | some d => if d < base then digitsValue base false (acc * base + d) rest else none
      | none => none

/-- The sign of an integer literal and what follows it. -/
def signOf : Str → Int × Str
  | c :: rest => if c = ord '-' then (-1, rest) else if c = ord '+' then (1, rest) else (1, c :: rest)
  | [] => (1, [])

/-- The sign of what `int` is given, and the digits after it. -/
def intLiteral (text : Str) : Int × Str := signOf (stripWhile isIntSpace (text.map toIntChar))

/-- `int(text, 10)`; `none` is its `ValueError`. -/
def intBase10 (text : Str) : Option Int :=
  let (sign, body) := intLiteral text
  (digitsValue 10 true 0 body).map fun n => sign * n

/-- What `int(text, 16)` reads after an optional `0x`, which one underscore may follow. -/
def dropHexPrefix : Str → Str
  | a :: b :: rest =>
    if a = ord '0' ∧ (b = ord 'x' ∨ b = ord 'X') then
      match rest with
      | c :: tail => if c = underscore then tail else rest
      | [] => rest
    else a :: b :: rest
  | s => s

/-- `int(text, 16)`; `none` is its `ValueError`. -/
def intBase16 (text : Str) : Option Int :=
  let (sign, body) := intLiteral text
  (digitsValue 16 true 0 (dropHexPrefix body)).map fun n => sign * n

/-- `text.replace(sub, "")` for a nonempty `sub`; the fuel is the length of the text. -/
def removeAll (sub : Str) : Nat → Str → Str
  | 0, s => s
  | _ + 1, [] => []
  | n + 1, c :: rest =>
    if sub.isPrefixOf (c :: rest) then removeAll sub n ((c :: rest).drop sub.length)
    else c :: removeAll sub n rest

/-- `UUID(text)`; `none` is its `ValueError`. -/
def UUID.ofText (text : Str) : Option UUID :=
  let hex := removeAll (Python.str "urn:") text.length text
  let hex := removeAll (Python.str "uuid:") hex.length hex
  let hex := stripWhile (fun c => c == ord '{' || c == ord '}') hex
  let hex := hex.filter fun c => c != hyphen
  if hex.length ≠ 32 then none
  else match intBase16 hex with
    | some (Int.ofNat n) => if h : n < 2 ^ 128 then some ⟨n, h⟩ else none
    | _ => none

end AgenticRag.Python

import AgenticRag.Python.Text

/-! The strict incremental UTF-8 decoder. A state keeps what the sequence at the end
of the input still needs. -/
namespace AgenticRag.Python

/-- Between sequences, or inside one: the continuation bytes still needed, the bits read,
and the range of the next byte, which excludes overlong forms and surrogates. -/
inductive Utf8State where
  | ready
  | pending (need value low high : Nat)
  deriving DecidableEq

def utf8Lead (b : Nat) : Option Utf8State :=
  if 0xC2 ≤ b ∧ b ≤ 0xDF then some (.pending 1 (b - 0xC0) 0x80 0xBF)
  else if b = 0xE0 then some (.pending 2 0 0xA0 0xBF)
  else if b = 0xED then some (.pending 2 0xD 0x80 0x9F)
  else if 0xE1 ≤ b ∧ b ≤ 0xEF then some (.pending 2 (b - 0xE0) 0x80 0xBF)
  else if b = 0xF0 then some (.pending 3 0 0x90 0xBF)
  else if 0xF1 ≤ b ∧ b ≤ 0xF3 then some (.pending 3 (b - 0xF0) 0x80 0xBF)
  else if b = 0xF4 then some (.pending 3 4 0x80 0x8F)
  else none

/-- One byte: the characters it completes and the new state; `none` is the `UnicodeDecodeError`. -/
def utf8Step : Utf8State → UInt8 → Option (Str × Utf8State)
  | .ready, b =>
    if b.toNat < 0x80 then some ([Fin.ofNat _ b.toNat], .ready)
    else (utf8Lead b.toNat).map fun state => ([], state)
  | .pending need value low high, b =>
    if low ≤ b.toNat ∧ b.toNat ≤ high then
      let value := value * 64 + (b.toNat - 0x80)
      if need = 1 then some ([Fin.ofNat _ value], .ready)
      else some ([], .pending (need - 1) value 0x80 0xBF)
    else none

/-- `decoder.decode(bytes, final=False)`. -/
def utf8Feed : Utf8State → List UInt8 → Option (Str × Utf8State)
  | state, [] => some ([], state)
  | state, b :: rest =>
    match utf8Step state b with
    | none => none
    | some (chars, state) => (utf8Feed state rest).map fun r => (chars ++ r.1, r.2)

/-- The decoder goes on where the bytes before have left it. -/
theorem utf8Feed_append (state : Utf8State) (a b : List UInt8) :
    utf8Feed state (a ++ b) =
      (utf8Feed state a).bind fun r => (utf8Feed r.2 b).map fun q => (r.1 ++ q.1, q.2) := by
  induction a generalizing state with
  | nil => cases h : utf8Feed state b <;> simp [utf8Feed, h]
  | cons c a ih =>
    rw [List.cons_append, utf8Feed, utf8Feed]
    cases utf8Step state c with
    | none => rfl
    | some r =>
      dsimp only
      rw [ih]
      cases utf8Feed r.2 a with
      | none => rfl
      | some q => cases h : utf8Feed q.2 b <;> simp [h]

/-- `bytes.decode("utf-8", errors="strict")`; `none` is the `UnicodeDecodeError`. -/
def decodeUtf8 (bytes : List UInt8) : Option Str :=
  match utf8Feed .ready bytes with
  | some (text, .ready) => some text
  | _ => none

example : decodeUtf8 [0x61, 0xC3, 0xA9] = some [⟨0x61, by decide⟩, ⟨0xE9, by decide⟩] := by decide

example : decodeUtf8 [0xED, 0xA0, 0x80] = none := by decide

end AgenticRag.Python

import AgenticRag.Python.Text

/-! `json.loads` with number lexemes kept, constants refused and object keys unique.
A scanner makes tokens of the characters, and a stack machine makes a value of them. -/
namespace AgenticRag.Python

/-- The text of a number, which is ASCII. -/
structure Numeral where
  text : Str
  ascii : ∀ c ∈ text, c.val < 0x80
  deriving DecidableEq

namespace Numeral

def single (c : CodePoint) (h : c.val < 0x80) : Numeral := ⟨[c], fun _ hc => List.mem_singleton.mp hc ▸ h⟩

def push (n : Numeral) (c : CodePoint) (h : c.val < 0x80) : Numeral :=
  ⟨c :: n.text, List.forall_mem_cons.mpr ⟨h, n.ascii⟩⟩

def reverse (n : Numeral) : Numeral := ⟨n.text.reverse, fun c hc => n.ascii c (List.mem_reverse.mp hc)⟩

theorem scalar (n : Numeral) : n.text.any isSurrogate = false := by
  rw [List.any_eq_false]
  intro c hc
  have hlt := n.ascii c hc
  simp only [isSurrogate, Bool.and_eq_true, decide_eq_true_eq]
  omega

end Numeral

inductive Json where
  | null
  | bool (b : Bool)
  | number (lexeme : Numeral)
  | string (s : Str)
  | array (items : List Json)
  | object (members : List (Str × Json))

inductive JsonToken where
  | openBrace | closeBrace | openBracket | closeBracket | colon | comma
  | null
  | bool (b : Bool)
  | number (lexeme : Numeral)
  | string (s : Str)
  deriving DecidableEq

namespace JsonScanner

/-- How far a number has been read. -/
inductive NumberPhase where
  | minus | zero | integer | point | fraction | exponent | exponentSign | exponentDigits
  deriving DecidableEq

def NumberPhase.isComplete : NumberPhase → Bool
  | .zero | .integer | .fraction | .exponentDigits => true
  | .minus | .point | .exponent | .exponentSign => false

def isDigit (c : CodePoint) : Bool := 0x30 ≤ c.val && c.val ≤ 0x39

def isExponentMark (c : CodePoint) : Bool := c == ord 'e' || c == ord 'E'

/-- The phase after one more character of a number; `none` when the number ends before it. -/
def NumberPhase.next : NumberPhase → CodePoint → Option NumberPhase
  | .minus, c =>
    if c = ord '0' then some .zero else if isDigit c then some .integer else none
  | .zero, c =>
    if c = ord '.' then some .point else if isExponentMark c then some .exponent else none
  | .integer, c =>
    if isDigit c then some .integer
    else if c = ord '.' then some .point
    else if isExponentMark c then some .exponent
    else none
  | .point, c => if isDigit c then some .fraction else none
  | .fraction, c =>
    if isDigit c then some .fraction else if isExponentMark c then some .exponent else none
  | .exponent, c =>
    if c = ord '+' ∨ c = ord '-' then some .exponentSign
    else if isDigit c then some .exponentDigits
    else none
  | .exponentSign, c => if isDigit c then some .exponentDigits else none
  | .exponentDigits, c => if isDigit c then some .exponentDigits else none

theorem isDigit_ascii {c : CodePoint} (h : isDigit c = true) : c.val < 0x80 := by
  simp only [isDigit, Bool.and_eq_true, decide_eq_true_eq] at h
  omega

theorem isExponentMark_ascii {c : CodePoint} (h : isExponentMark c = true) : c.val < 0x80 := by
  simp only [isExponentMark, Bool.or_eq_true, beq_iff_eq] at h
  rcases h with rfl | rfl <;> decide

theorem NumberPhase.next_ascii {phase phase' : NumberPhase} {c : CodePoint}
    (h : phase.next c = some phase') : c.val < 0x80 := by
  have hdigit : isDigit c = true → c.val < 0x80 := isDigit_ascii
  have hmark : isExponentMark c = true → c.val < 0x80 := isExponentMark_ascii
  have hzero : c = ord '0' → c.val < 0x80 := by rintro rfl; decide
  have hpoint : c = ord '.' → c.val < 0x80 := by rintro rfl; decide
  have hsign : c = ord '+' ∨ c = ord '-' → c.val < 0x80 := by rintro (rfl | rfl) <;> decide
  cases phase <;> simp only [NumberPhase.next] at h <;> split at h <;> grind

/-- What is being read. Texts are kept reversed; `high` says that the last character is an
escaped high surrogate that nothing has followed yet. -/
inductive State where
  | between
  | literal (rest : Str) (token : JsonToken)
  | number (lexeme : Numeral) (phase : NumberPhase)
  | string (chars : Str) (high : Bool)
  | escape (chars : Str) (high : Bool)
  | unicode (chars : Str) (high : Bool) (digits value : Nat)
  deriving DecidableEq

def isWhitespace (c : CodePoint) : Bool :=
  c.val == 0x20 || c.val == 0x09 || c.val == 0x0A || c.val == 0x0D

/-- A character outside of tokens. -/
def start (c : CodePoint) : Option (List JsonToken × State) :=
  if isWhitespace c then some ([], .between)
  else if c = ord '{' then some ([.openBrace], .between)
  else if c = ord '}' then some ([.closeBrace], .between)
  else if c = ord '[' then some ([.openBracket], .between)
  else if c = ord ']' then some ([.closeBracket], .between)
  else if c = ord ':' then some ([.colon], .between)
  else if c = ord ',' then some ([.comma], .between)
  else if c = ord '"' then some ([], .string [] false)
  else if c = ord 'n' then some ([], .literal (str "ull") .null)
  else if c = ord 't' then some ([], .literal (str "rue") (.bool true))
  else if c = ord 'f' then some ([], .literal (str "alse") (.bool false))
  else if c = ord '-' then some ([], .number (.single (ord '-') (by decide)) .minus)
  else if c = ord '0' then some ([], .number (.single (ord '0') (by decide)) .zero)
  else if h : isDigit c = true then some ([], .number (.single c (isDigit_ascii h)) .integer)
  else none

/-- The character of a one-letter escape. -/
def escaped (c : CodePoint) : Option CodePoint :=
  if c = ord '"' ∨ c = ord '\\' ∨ c = ord '/' then some c
  else if c = ord 'b' then some (Fin.ofNat _ 0x08)
  else if c = ord 'f' then some (Fin.ofNat _ 0x0C)
  else if c = ord 'n' then some (Fin.ofNat _ 0x0A)
  else if c = ord 'r' then some (Fin.ofNat _ 0x0D)
  else if c = ord 't' then some (Fin.ofNat _ 0x09)
  else none

def hexValue (c : CodePoint) : Option Nat :=
  if isDigit c then some (c.val - 0x30)
  else if 0x61 ≤ c.val ∧ c.val ≤ 0x66 then some (c.val - 0x57)
  else if 0x41 ≤ c.val ∧ c.val ≤ 0x46 then some (c.val - 0x37)
  else none

def isHighSurrogate (n : Nat) : Bool := 0xD800 ≤ n && n ≤ 0xDBFF
def isLowSurrogate (n : Nat) : Bool := 0xDC00 ≤ n && n ≤ 0xDFFF

/-- A completed four-digit escape: a low surrogate joins the escaped high one before it,
any other surrogate stays as it is. -/
def pushUnicode (chars : Str) (high : Bool) (value : Nat) : State :=
  match chars with
  | h :: rest =>
    if high ∧ isLowSurrogate value then
      .string (Fin.ofNat _ (0x10000 + (h.val - 0xD800) * 0x400 + (value - 0xDC00)) :: rest) false
    else .string (Fin.ofNat _ value :: chars) (isHighSurrogate value)
  | [] => .string [Fin.ofNat _ value] (isHighSurrogate value)

/-- One character: the tokens it completes and the new state; `none` is an error. -/
def step : State → CodePoint → Option (List JsonToken × State)
  | .between, c => start c
  | .literal rest token, c =>
    match rest with
    | [] => none
    | [r] => if c = r then some ([token], .between) else none
    | r :: rest => if c = r then some ([], .literal rest token) else none
  | .number lexeme phase, c =>
    match h : phase.next c with
    | some phase => some ([], .number (lexeme.push c (NumberPhase.next_ascii h)) phase)
    | none =>
      if phase.isComplete then (start c).map fun r => (.number lexeme.reverse :: r.1, r.2) else none
  | .string chars high, c =>
    if c = ord '"' then some ([.string chars.reverse], .between)
    else if c = ord '\\' then some ([], .escape chars high)
    else if c.val ≤ 0x1F then none
    else some ([], .string (c :: chars) false)
  | .escape chars high, c =>
    if c = ord 'u' then some ([], .unicode chars high 0 0)
    else (escaped c).map fun e => ([], .string (e :: chars) false)
  | .unicode chars high digits value, c =>
    match hexValue c with
    | none => none
    | some d =>
      let value := value * 16 + d
      if digits = 3 then some ([], pushUnicode chars high value)
      else some ([], .unicode chars high (digits + 1) value)

/-- The end of the text. -/
def finish : State → Option (List JsonToken)
  | .between => some []
  | .number lexeme phase => if phase.isComplete then some [.number lexeme.reverse] else none
  | _ => none

def scanFrom : State → Str → Option (List JsonToken)
  | state, [] => finish state
  | state, c :: rest =>
    match step state c with
    | none => none
    | some (tokens, state) => (scanFrom state rest).map fun more => tokens ++ more

end JsonScanner

namespace JsonParser

/-- An open container, its contents reversed; `member` waits for the value of a key. -/
inductive Frame where
  | array (items : List Json)
  | object (members : List (Str × Json))
  | member (members : List (Str × Json)) (key : Str)

/-- What may come next. -/
inductive Expect where
  | value | firstItem | firstKey | key | colon | separator
  deriving DecidableEq

inductive State where
  | running (stack : List Frame) (expect : Expect)
  | done (value : Json)

/-- A completed value goes into the innermost container. -/
def complete (value : Json) : List Frame → Option State
  | [] => some (.done value)
  | .array items :: stack => some (.running (.array (value :: items) :: stack) .separator)
  | .member members key :: stack =>
    some (.running (.object ((key, value) :: members) :: stack) .separator)
  | .object _ :: _ => none

def startValue (stack : List Frame) : JsonToken → Option State
  | .null => complete .null stack
  | .bool b => complete (.bool b) stack
  | .number lexeme => complete (.number lexeme) stack
  | .string s => complete (.string s) stack
  | .openBracket => some (.running (.array [] :: stack) .firstItem)
  | .openBrace => some (.running (.object [] :: stack) .firstKey)
  | _ => none

def afterSeparator : List Frame → JsonToken → Option State
  | .array items :: stack, .comma => some (.running (.array items :: stack) .value)
  | .array items :: stack, .closeBracket => complete (.array items.reverse) stack
  | .object members :: stack, .comma => some (.running (.object members :: stack) .key)
  | .object members :: stack, .closeBrace =>
    -- `_unique_object` is called when the object is closed.
    if (members.map Prod.fst).Nodup then complete (.object members.reverse) stack else none
  | _, _ => none

def readKey : List Frame → JsonToken → Option State
  | .object members :: stack, .string key => some (.running (.member members key :: stack) .colon)
  | _, _ => none

def step : State → JsonToken → Option State
  | .done _, _ => none
  | .running stack expect, token =>
    match expect with
    | .value => startValue stack token
    | .firstItem =>
      match stack, token with
      | .array [] :: stack, .closeBracket => complete (.array []) stack
      | _, _ => startValue stack token
    | .firstKey =>
      match stack, token with
      | .object [] :: stack, .closeBrace => complete (.object []) stack
      | _, _ => readKey stack token
    | .key => readKey stack token
    | .colon => if token = .colon then some (.running stack .value) else none
    | .separator => afterSeparator stack token

def parseFrom : State → List JsonToken → Option Json
  | .done value, [] => some value
  | .running _ _, [] => none
  | state, token :: rest => (step state token).bind fun state => parseFrom state rest

end JsonParser

/-- `json.loads(text, ...)`; `none` is its `ValueError`. -/
def jsonLoads (text : Str) : Option Json :=
  (JsonScanner.scanFrom .between text).bind (JsonParser.parseFrom (.running [] .value))

end AgenticRag.Python

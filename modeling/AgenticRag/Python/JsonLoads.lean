import AgenticRag.Lib.Results
import AgenticRag.Python.Json

/-! `json.loads` of a text with constants refused, under the two limits of the interpreter:
how deep containers may nest, and how many digits an integer may have. -/
namespace AgenticRag.Python
open Lib

inductive JsonError where
  | value
  | recursion
  deriving DecidableEq

/-- `sys.get_int_max_str_digits()`. -/
def intMaxStrDigits : Nat := 4300

/-- Neither a fraction nor an exponent. -/
def Numeral.isIntegral (lexeme : Numeral) : Bool :=
  lexeme.text.all fun c => JsonScanner.isDigit c || c == ord '-'

/-- `int(lexeme)` raises `ValueError`. -/
def Numeral.isOverlong (lexeme : Numeral) : Bool :=
  lexeme.isIntegral && intMaxStrDigits < (lexeme.text.filter JsonScanner.isDigit).length

/-- One token; an object may repeat a key. -/
def loadToken : JsonParser.State → JsonToken → Option JsonParser.State
  | .running (.object members :: stack) .separator, .closeBrace =>
    JsonParser.complete (.object members.reverse) stack
  | state, .number lexeme =>
    if lexeme.isOverlong then none else JsonParser.step state (.number lexeme)
  | state, token => JsonParser.step state token

structure JsonReading where
  scanner : JsonScanner.State
  parser : JsonParser.State

namespace JsonReading

def start : JsonReading := ⟨.between, .running [] .value⟩

/-- How many containers are open. -/
def depth (reading : JsonReading) : Nat :=
  match reading.parser with
  | .running stack _ => stack.length
  | .done _ => 0

/-- One character, whatever the depth. -/
def next (reading : JsonReading) (c : CodePoint) : Option JsonReading :=
  (JsonScanner.step reading.scanner c).bind fun r =>
    (r.1.foldlM loadToken reading.parser).map fun parser => ⟨r.2, parser⟩

/-- One character; the container that is one too many raises `RecursionError`. -/
def nextWithin (recursionLimit : Nat) (reading : JsonReading) (c : CodePoint) :
    Except JsonError JsonReading :=
  match reading.next c with
  | none => .error .value
  | some reading => if recursionLimit < reading.depth then .error .recursion else .ok reading

/-- The value once the text has ended. -/
def finish (reading : JsonReading) : Except JsonError Json :=
  match (JsonScanner.finish reading.scanner).bind fun tokens => tokens.foldlM loadToken reading.parser with
  | some (.done value) => .ok value
  | _ => .error .value

end JsonReading

/-- `json.loads(text, parse_constant=...)`, when `recursionLimit` more calls may nest. -/
def jsonLoadsWithin (recursionLimit : Nat) (text : Str) : Except JsonError Json := do
  let reading ← text.foldlM (JsonReading.nextWithin recursionLimit) .start
  reading.finish

/-- The text begins without a fault and comes to open more than `recursionLimit` containers. -/
def NestsBeyond (recursionLimit : Nat) (text : Str) : Prop :=
  ∃ before after reading, text = before ++ after ∧
    before.foldlM JsonReading.next .start = some reading ∧ recursionLimit < reading.depth

theorem JsonReading.finish_ne_recursion (reading : JsonReading) : reading.finish ≠ .error .recursion := by
  unfold JsonReading.finish
  split
  · rintro ⟨⟩
  · rintro ⟨⟩

/-- What nests deeper than a reading begins with the character after it. -/
private theorem deeper_cons {recursionLimit : Nat} {reading deeper : JsonReading} {c : CodePoint}
    {rest before after : Str} (h : reading.depth ≤ recursionLimit) (htext : c :: rest = before ++ after)
    (hdeeper : before.foldlM JsonReading.next reading = some deeper) (hlt : recursionLimit < deeper.depth) :
    ∃ next before', reading.next c = some next ∧ rest = before' ++ after ∧
      before'.foldlM JsonReading.next next = some deeper := by
  cases before with
  | nil =>
    obtain rfl := Option.some.inj hdeeper
    exact absurd hlt (not_lt.mpr h)
  | cons d before =>
    obtain ⟨rfl, hrest⟩ := List.cons.inj htext
    rw [List.foldlM_cons] at hdeeper
    obtain ⟨next, hnext, hdeeper⟩ := Option.bind_eq_some_iff.mp hdeeper
    exact ⟨next, before, hnext, hrest, hdeeper⟩

private theorem foldlM_nextWithin {recursionLimit : Nat} {reading : JsonReading} {text : Str}
    (h : reading.depth ≤ recursionLimit) :
    text.foldlM (JsonReading.nextWithin recursionLimit) reading = .error .recursion ↔
      ∃ before after deeper, text = before ++ after ∧
        before.foldlM JsonReading.next reading = some deeper ∧ recursionLimit < deeper.depth := by
  induction text generalizing reading with
  | nil =>
    constructor
    · rintro ⟨⟩
    · rintro ⟨before, after, deeper, htext, hdeeper, hlt⟩
      obtain ⟨rfl, _⟩ := List.append_eq_nil_iff.mp htext.symm
      obtain rfl := Option.some.inj hdeeper
      exact absurd hlt (not_lt.mpr h)
  | cons c rest ih =>
    rw [List.foldlM_cons, JsonReading.nextWithin]
    cases hnext : reading.next c with
    | none =>
      constructor
      · rintro ⟨⟩
      · rintro ⟨before, after, deeper, htext, hdeeper, hlt⟩
        obtain ⟨next, _, hnext', _⟩ := deeper_cons h htext hdeeper hlt
        cases hnext.symm.trans hnext'
    | some next =>
      dsimp only
      by_cases hdeep : recursionLimit < next.depth
      · rw [if_pos hdeep]
        refine iff_of_true rfl ⟨[c], rest, next, rfl, ?_, hdeep⟩
        rw [List.foldlM_cons, hnext]
        rfl
      · rw [if_neg hdeep]
        refine (ih (not_lt.mp hdeep)).trans ?_
        constructor
        · rintro ⟨before, after, deeper, rfl, hdeeper, hlt⟩
          refine ⟨c :: before, after, deeper, rfl, ?_, hlt⟩
          rw [List.foldlM_cons, hnext]
          exact hdeeper
        · rintro ⟨before, after, deeper, htext, hdeeper, hlt⟩
          obtain ⟨next', before', hnext', hrest, hdeeper⟩ := deeper_cons h htext hdeeper hlt
          obtain rfl := Option.some.inj (hnext.symm.trans hnext')
          exact ⟨before', after, deeper, hrest, hdeeper, hlt⟩

/-- `RecursionError` escapes exactly from the texts that nest too deep. -/
theorem jsonLoadsWithin_recursion {recursionLimit : Nat} {text : Str} :
    jsonLoadsWithin recursionLimit text = .error .recursion ↔ NestsBeyond recursionLimit text := by
  refine Iff.trans ?_ (foldlM_nextWithin (Nat.zero_le _))
  rw [jsonLoadsWithin, bind_eq_error]
  refine or_iff_left ?_
  rintro ⟨reading, _, h⟩
  exact reading.finish_ne_recursion h

end AgenticRag.Python

import AgenticRag.Lib.Results
import AgenticRag.Python.JsonText

/-! The scanner finds in a text the tokens that the grammar gives it: numbers by what may still
follow in each phase, strings unit by unit. -/
namespace AgenticRag.Python
open JsonScanner

/-- The text of one token. -/
inductive TokenText : Str → JsonToken → Prop where
  | openBrace : TokenText [ord '{'] .openBrace
  | closeBrace : TokenText [ord '}'] .closeBrace
  | openBracket : TokenText [ord '['] .openBracket
  | closeBracket : TokenText [ord ']'] .closeBracket
  | colon : TokenText [ord ':'] .colon
  | comma : TokenText [ord ','] .comma
  | null : TokenText (str "null") .null
  | true : TokenText (str "true") (.bool Bool.true)
  | false : TokenText (str "false") (.bool Bool.false)
  | number {lexeme : Numeral} (h : NumberText lexeme.text) : TokenText lexeme.text (.number lexeme)
  | string {text s : Str} (h : StringText text s) : TokenText text (.string s)

/-- Nothing at the front could go on with a number. -/
def Delimited (rest : Str) : Prop :=
  ∀ c, rest.head? = some c → isDigit c = false ∧ c ≠ ord '.' ∧ isExponentMark c = false

section Numbers

/-- Whether a text completes a number that has come to a phase. -/
def NumberPhase.accepts : NumberPhase → Str → Bool
  | phase, [] => phase.isComplete
  | phase, c :: text =>
    match phase.next c with
    | some phase => NumberPhase.accepts phase text
    | none => false

theorem isDigit_ne {c d : CodePoint} (h : isDigit c = true) (hd : isDigit d = false) : c ≠ d := by
  rintro rfl
  rw [h] at hd
  cases hd

theorem isExponentMark_not_digit {c : CodePoint} (h : isExponentMark c = true) : isDigit c = false := by
  simp only [isExponentMark, Bool.or_eq_true, beq_iff_eq] at h
  rcases h with rfl | rfl <;> decide

theorem isDigits_nil : IsDigits [] := fun _ h => absurd h List.not_mem_nil

theorem isDigits_cons {d : CodePoint} {ds : Str} : IsDigits (d :: ds) ↔ isDigit d = true ∧ IsDigits ds :=
  List.forall_mem_cons

theorem accepts_exponentDigits {ds : Str} : NumberPhase.accepts .exponentDigits ds = true ↔ IsDigits ds := by
  induction ds with
  | nil => exact iff_of_true rfl isDigits_nil
  | cons d ds ih =>
    rw [NumberPhase.accepts, isDigits_cons]
    by_cases hd : isDigit d = true
    · simp [NumberPhase.next, hd, ih]
    · simp [NumberPhase.next, hd]

theorem accepts_exponentSign {ds : Str} :
    NumberPhase.accepts .exponentSign ds = true ↔ ds ≠ [] ∧ IsDigits ds := by
  cases ds with
  | nil => simp [NumberPhase.accepts, NumberPhase.isComplete]
  | cons d ds =>
    rw [NumberPhase.accepts, isDigits_cons]
    by_cases hd : isDigit d = true
    · simp [NumberPhase.next, hd, accepts_exponentDigits]
    · simp [NumberPhase.next, hd]

theorem exponentDigits_cons {c : CodePoint} {ds : Str} : ExponentDigits (c :: ds) ↔
    ((c = ord '+' ∨ c = ord '-') ∧ ds ≠ [] ∧ IsDigits ds) ∨ (isDigit c = true ∧ IsDigits ds) := by
  constructor
  · intro h
    cases h with
    | unsigned _ hds => exact .inr (isDigits_cons.mp hds)
    | signed hsign hne hds => exact .inl ⟨hsign, hne, hds⟩
  · rintro (⟨hsign, hne, hds⟩ | hds)
    · exact .signed hsign hne hds
    · exact .unsigned (List.cons_ne_nil _ _) (isDigits_cons.mpr hds)

theorem accepts_exponent {ds : Str} : NumberPhase.accepts .exponent ds = true ↔ ExponentDigits ds := by
  cases ds with
  | nil =>
    refine iff_of_false (by simp [NumberPhase.accepts, NumberPhase.isComplete]) ?_
    intro h
    cases h with
    | unsigned hne => exact hne rfl
  | cons c ds =>
    rw [NumberPhase.accepts, exponentDigits_cons]
    by_cases hsign : c = ord '+' ∨ c = ord '-'
    · have hdigit : isDigit c = false := by rcases hsign with rfl | rfl <;> decide
      simp [NumberPhase.next, hsign, hdigit, accepts_exponentSign]
    · by_cases hd : isDigit c = true
      · simp [NumberPhase.next, hsign, hd, accepts_exponentDigits]
      · simp [NumberPhase.next, hsign, hd]

theorem exponentText_cons {c : CodePoint} {ds : Str} :
    ExponentText (c :: ds) ↔ isExponentMark c = true ∧ ExponentDigits ds := by
  constructor
  · intro h
    cases h with
    | present hmark hds => exact ⟨hmark, hds⟩
  · rintro ⟨hmark, hds⟩
    exact .present hmark hds

/-- Digits and an exponent. -/
def FractionTail (text : Str) : Prop :=
  ∃ ds exponent, text = ds ++ exponent ∧ IsDigits ds ∧ ExponentText exponent

theorem fractionTail_cons {c : CodePoint} {text : Str} : FractionTail (c :: text) ↔
    (isDigit c = true ∧ FractionTail text) ∨ (isExponentMark c = true ∧ ExponentDigits text) := by
  constructor
  · rintro ⟨ds, exponent, htext, hds, hexponent⟩
    cases ds with
    | nil =>
      rw [List.nil_append] at htext
      rw [← htext] at hexponent
      exact .inr (exponentText_cons.mp hexponent)
    | cons d ds =>
      obtain ⟨rfl, rfl⟩ := List.cons.inj htext
      obtain ⟨hd, hds⟩ := isDigits_cons.mp hds
      exact .inl ⟨hd, ds, exponent, rfl, hds, hexponent⟩
  · rintro (⟨hd, ds, exponent, rfl, hds, hexponent⟩ | h)
    · exact ⟨c :: ds, exponent, rfl, isDigits_cons.mpr ⟨hd, hds⟩, hexponent⟩
    · exact ⟨[], c :: text, rfl, isDigits_nil, exponentText_cons.mpr h⟩

theorem accepts_fraction {text : Str} : NumberPhase.accepts .fraction text = true ↔ FractionTail text := by
  induction text with
  | nil => exact iff_of_true rfl ⟨[], [], rfl, isDigits_nil, .absent⟩
  | cons c text ih =>
    rw [NumberPhase.accepts, fractionTail_cons]
    by_cases hd : isDigit c = true
    · have hmark : isExponentMark c = false := by
        by_contra hmark
        rw [isExponentMark_not_digit (Bool.not_eq_false _ ▸ hmark)] at hd
        cases hd
      simp [NumberPhase.next, hd, hmark, ih]
    · by_cases hmark : isExponentMark c = true
      · simp [NumberPhase.next, hd, hmark, accepts_exponent]
      · simp [NumberPhase.next, hd, hmark]

theorem accepts_point {text : Str} : NumberPhase.accepts .point text = true ↔
    ∃ ds exponent, text = ds ++ exponent ∧ ds ≠ [] ∧ IsDigits ds ∧ ExponentText exponent := by
  cases text with
  | nil =>
    refine iff_of_false (by simp [NumberPhase.accepts, NumberPhase.isComplete]) ?_
    rintro ⟨ds, exponent, htext, hne, _⟩
    exact hne (List.append_eq_nil_iff.mp htext.symm).1
  | cons c text =>
    rw [NumberPhase.accepts]
    constructor
    · intro h
      by_cases hd : isDigit c = true
      · simp only [NumberPhase.next, hd, if_true] at h
        obtain ⟨ds, exponent, rfl, hds, hexponent⟩ := accepts_fraction.mp h
        exact ⟨c :: ds, exponent, rfl, List.cons_ne_nil _ _, isDigits_cons.mpr ⟨hd, hds⟩, hexponent⟩
      · simp [NumberPhase.next, hd] at h
    · rintro ⟨ds, exponent, htext, hne, hds, hexponent⟩
      cases ds with
      | nil => exact absurd rfl hne
      | cons d ds =>
        obtain ⟨rfl, rfl⟩ := List.cons.inj htext
        obtain ⟨hd, hds⟩ := isDigits_cons.mp hds
        simp only [NumberPhase.next, hd, if_true]
        exact accepts_fraction.mpr ⟨ds, exponent, rfl, hds, hexponent⟩

/-- A fraction and an exponent, both optional. -/
def IntTail (text : Str) : Prop :=
  ∃ fraction exponent, text = fraction ++ exponent ∧ FractionText fraction ∧ ExponentText exponent

theorem intTail_cons {c : CodePoint} {text : Str} : IntTail (c :: text) ↔
    (c = ord '.' ∧ NumberPhase.accepts .point text = true) ∨
      (isExponentMark c = true ∧ ExponentDigits text) := by
  rw [accepts_point]
  constructor
  · rintro ⟨fraction, exponent, htext, hfraction, hexponent⟩
    cases hfraction with
    | absent =>
      rw [List.nil_append] at htext
      rw [← htext] at hexponent
      exact .inr (exponentText_cons.mp hexponent)
    | present hne hds =>
      obtain ⟨rfl, rfl⟩ := List.cons.inj htext
      exact .inl ⟨rfl, _, exponent, rfl, hne, hds, hexponent⟩
  · rintro (⟨rfl, ds, exponent, rfl, hne, hds, hexponent⟩ | h)
    · exact ⟨ord '.' :: ds, exponent, rfl, .present hne hds, hexponent⟩
    · exact ⟨[], c :: text, rfl, .absent, exponentText_cons.mpr h⟩

theorem accepts_zero {text : Str} : NumberPhase.accepts .zero text = true ↔ IntTail text := by
  cases text with
  | nil => exact iff_of_true rfl ⟨[], [], rfl, .absent, .absent⟩
  | cons c text =>
    rw [NumberPhase.accepts, intTail_cons]
    by_cases hpoint : c = ord '.'
    · have hmark : ¬isExponentMark (ord '.') = true := by decide
      rw [hpoint]
      simp [NumberPhase.next, hmark]
    · by_cases hmark : isExponentMark c = true
      · simp [NumberPhase.next, hpoint, hmark, accepts_exponent]
      · simp [NumberPhase.next, hpoint, hmark]

theorem accepts_integer {text : Str} : NumberPhase.accepts .integer text = true ↔
    ∃ ds rest, text = ds ++ rest ∧ IsDigits ds ∧ IntTail rest := by
  induction text with
  | nil => exact iff_of_true rfl ⟨[], [], rfl, isDigits_nil, [], [], rfl, .absent, .absent⟩
  | cons c text ih =>
    have hsplit : (∃ ds rest, c :: text = ds ++ rest ∧ IsDigits ds ∧ IntTail rest) ↔
        (isDigit c = true ∧ ∃ ds rest, text = ds ++ rest ∧ IsDigits ds ∧ IntTail rest) ∨
          IntTail (c :: text) := by
      constructor
      · rintro ⟨ds, rest, htext, hds, hrest⟩
        cases ds with
        | nil =>
          rw [List.nil_append] at htext
          exact .inr (htext ▸ hrest)
        | cons d ds =>
          obtain ⟨rfl, rfl⟩ := List.cons.inj htext
          obtain ⟨hd, hds⟩ := isDigits_cons.mp hds
          exact .inl ⟨hd, ds, rest, rfl, hds, hrest⟩
      · rintro (⟨hd, ds, rest, rfl, hds, hrest⟩ | h)
        · exact ⟨c :: ds, rest, rfl, isDigits_cons.mpr ⟨hd, hds⟩, hrest⟩
        · exact ⟨[], c :: text, rfl, isDigits_nil, h⟩
    rw [NumberPhase.accepts, hsplit, ← ih, intTail_cons]
    by_cases hd : isDigit c = true
    · have hpoint : c ≠ ord '.' := isDigit_ne hd (by decide)
      have hmark : ¬isExponentMark c = true := by
        intro hmark
        rw [isExponentMark_not_digit hmark] at hd
        cases hd
      simp [NumberPhase.next, hd, hpoint, hmark]
    · by_cases hpoint : c = ord '.'
      · have hmark : ¬isExponentMark c = true := by
          rw [hpoint]
          decide
        rw [hpoint] at hd hmark
        simp [NumberPhase.next, hd, hpoint, hmark]
      · by_cases hmark : isExponentMark c = true
        · simp [NumberPhase.next, hd, hpoint, hmark, accepts_exponent]
        · simp [NumberPhase.next, hd, hpoint, hmark]

theorem magnitudeText_iff {text : Str} : MagnitudeText text ↔
    ∃ int rest, text = int ++ rest ∧ IntText int ∧ IntTail rest := by
  constructor
  · rintro ⟨hint, hfraction, hexponent⟩
    exact ⟨_, _, rfl, hint, _, _, rfl, hfraction, hexponent⟩
  · rintro ⟨int, _, rfl, hint, fraction, exponent, rfl, hfraction, hexponent⟩
    exact ⟨hint, hfraction, hexponent⟩

theorem not_magnitudeText_nil : ¬MagnitudeText [] := by
  intro h
  obtain ⟨int, rest, htext, hint, _⟩ := magnitudeText_iff.mp h
  obtain ⟨rfl, _⟩ := List.append_eq_nil_iff.mp htext.symm
  cases hint

theorem magnitudeText_cons {c : CodePoint} {text : Str} : MagnitudeText (c :: text) ↔
    (c = ord '0' ∧ NumberPhase.accepts .zero text = true) ∨
      (isDigit c = true ∧ c ≠ ord '0' ∧ NumberPhase.accepts .integer text = true) := by
  rw [magnitudeText_iff, accepts_zero, accepts_integer]
  constructor
  · rintro ⟨int, rest, htext, hint, hrest⟩
    cases hint with
    | zero =>
      obtain ⟨rfl, rfl⟩ := List.cons.inj htext
      exact .inl ⟨rfl, hrest⟩
    | digits hd hne hds =>
      obtain ⟨rfl, rfl⟩ := List.cons.inj htext
      exact .inr ⟨hd, hne, _, rest, rfl, hds, hrest⟩
  · rintro (⟨rfl, hrest⟩ | ⟨hd, hne, ds, rest, rfl, hds, hrest⟩)
    · exact ⟨[ord '0'], text, rfl, .zero, hrest⟩
    · exact ⟨c :: ds, rest, rfl, .digits hd hne hds, hrest⟩

theorem accepts_minus {text : Str} : NumberPhase.accepts .minus text = true ↔ MagnitudeText text := by
  cases text with
  | nil =>
    exact iff_of_false (by simp [NumberPhase.accepts, NumberPhase.isComplete]) not_magnitudeText_nil
  | cons c text =>
    rw [NumberPhase.accepts, magnitudeText_cons]
    by_cases hzero : c = ord '0'
    · rw [hzero]
      simp [NumberPhase.next]
    · by_cases hd : isDigit c = true
      · simp [NumberPhase.next, hzero, hd]
      · simp [NumberPhase.next, hzero, hd]

/-- A number, by its first character. -/
theorem numberText_cons {c : CodePoint} {text : Str} : NumberText (c :: text) ↔
    (c = ord '-' ∧ NumberPhase.accepts .minus text = true) ∨
    (c = ord '0' ∧ NumberPhase.accepts .zero text = true) ∨
      (isDigit c = true ∧ c ≠ ord '0' ∧ NumberPhase.accepts .integer text = true) := by
  rw [accepts_minus, ← magnitudeText_cons]
  constructor
  · intro h
    cases h with
    | positive h => exact .inr h
    | negative h => exact .inl ⟨rfl, h⟩
  · rintro (⟨rfl, h⟩ | h)
    · exact .negative h
    · exact .positive h

theorem not_numberText_nil : ¬NumberText [] := by
  intro h
  cases h with
  | positive h => exact not_magnitudeText_nil h

/-- A number may end before what does not go on with it. -/
theorem next_of_delimited {phase : NumberPhase} (hcomplete : phase.isComplete = true) {c : CodePoint}
    (hdigit : isDigit c = false) (hpoint : c ≠ ord '.') (hmark : isExponentMark c = false) :
    phase.next c = none := by
  cases phase <;> simp [NumberPhase.isComplete] at hcomplete <;>
    simp [NumberPhase.next, hdigit, hpoint, hmark]

theorem Numeral.eq_of_text {n m : Numeral} (h : n.text = m.text) : n = m := by
  cases n
  cases m
  obtain rfl := h
  rfl

theorem step_number (lexeme : Numeral) {phase phase' : NumberPhase} {c : CodePoint}
    (h : phase.next c = some phase') : ∃ pushed, pushed.text = c :: lexeme.text ∧
      step (.number lexeme phase) c = some ([], .number pushed phase') := by
  refine ⟨lexeme.push c (NumberPhase.next_ascii h), rfl, ?_⟩
  rw [step]
  split
  · rename_i hnext
    obtain rfl := Option.some.inj (h.symm.trans hnext)
    rfl
  · rename_i hnext
    rw [h] at hnext
    cases hnext

theorem step_number_end {lexeme : Numeral} {phase : NumberPhase} {c : CodePoint}
    (h : phase.next c = none) : step (.number lexeme phase) c =
      if phase.isComplete then (start c).map fun r => (.number lexeme.reverse :: r.1, r.2) else none := by
  rw [step]
  split
  · rename_i hnext
    rw [h] at hnext
    cases hnext
  · rfl

theorem scanFrom_cons {state next : State} {c : CodePoint} {tokens : List JsonToken}
    (h : step state c = some (tokens, next)) (rest : Str) :
    scanFrom state (c :: rest) = (scanFrom next rest).map fun more => tokens ++ more := by
  rw [scanFrom, h]

theorem scanFrom_quiet {state next : State} {c : CodePoint} (h : step state c = some ([], next))
    (rest : Str) : scanFrom state (c :: rest) = scanFrom next rest := by
  rw [scanFrom_cons h]
  exact Option.map_id'

/-- The rest of a number, and what is scanned after it. -/
theorem scanFrom_number {phase : NumberPhase} {ds rest : Str} (hrest : Delimited rest)
    {lexeme number : Numeral} (h : NumberPhase.accepts phase ds = true)
    (hnumber : number.text = lexeme.text.reverse ++ ds) :
    scanFrom (.number lexeme phase) (ds ++ rest) =
      (scanFrom .between rest).map fun more => .number number :: more := by
  induction ds generalizing phase lexeme with
  | nil =>
    have hcomplete : phase.isComplete = true := h
    have hlexeme : lexeme.reverse = number :=
      Numeral.eq_of_text (by rw [hnumber, List.append_nil]; rfl)
    cases rest with
    | nil =>
      rw [List.append_nil, scanFrom, finish, if_pos hcomplete, hlexeme]
      rfl
    | cons c rest =>
      obtain ⟨hdigit, hpoint, hmark⟩ := hrest c rfl
      rw [List.nil_append, scanFrom, scanFrom,
        step_number_end (next_of_delimited hcomplete hdigit hpoint hmark), if_pos hcomplete, hlexeme]
      cases hstart : start c with
      | none => simp [step, hstart]
      | some r => simp [step, hstart, Function.comp_def]
  | cons d ds ih =>
    rw [NumberPhase.accepts] at h
    cases hnext : phase.next d with
    | none =>
      rw [hnext] at h
      cases h
    | some phase' =>
      rw [hnext] at h
      obtain ⟨pushed, hpushed, hstep⟩ := step_number lexeme hnext
      rw [List.cons_append, scanFrom_quiet hstep]
      refine ih h ?_
      rw [hnumber, hpushed, List.reverse_cons, List.append_assoc]
      rfl

/-- What is scanned in a number is its rest and what follows. -/
theorem scanFrom_number_inv {phase : NumberPhase} {lexeme : Numeral} {text : Str} {tokens : List JsonToken}
    (h : scanFrom (.number lexeme phase) text = some tokens) :
    ∃ ds rest number more, text = ds ++ rest ∧ NumberPhase.accepts phase ds = true ∧
      number.text = lexeme.text.reverse ++ ds ∧ tokens = .number number :: more ∧
      scanFrom .between rest = some more := by
  induction text generalizing phase lexeme with
  | nil =>
    rw [scanFrom, finish] at h
    split at h
    · rename_i hcomplete
      obtain rfl := Option.some.inj h
      exact ⟨[], [], lexeme.reverse, [], rfl, hcomplete, (List.append_nil _).symm, rfl, rfl⟩
    · cases h
  | cons c text ih =>
    cases hnext : phase.next c with
    | some phase' =>
      obtain ⟨pushed, hpushed, hstep⟩ := step_number lexeme hnext
      rw [scanFrom_quiet hstep] at h
      obtain ⟨ds, rest, number, more, rfl, haccepts, hnumber, htokens, hmore⟩ := ih h
      refine ⟨c :: ds, rest, number, more, rfl, ?_, ?_, htokens, hmore⟩
      · rw [NumberPhase.accepts, hnext]
        exact haccepts
      · rw [hnumber, hpushed, List.reverse_cons, List.append_assoc]
        rfl
    | none =>
      rw [scanFrom, step_number_end hnext] at h
      by_cases hcomplete : phase.isComplete = true
      · rw [if_pos hcomplete] at h
        cases hstart : start c with
        | none =>
          rw [hstart] at h
          cases h
        | some r =>
          rw [hstart] at h
          obtain ⟨more, hmore, htokens⟩ := Option.map_eq_some_iff.mp h
          refine ⟨[], c :: text, lexeme.reverse, r.1 ++ more, rfl, hcomplete, (List.append_nil _).symm,
            htokens.symm, ?_⟩
          have hstep : step .between c = some (r.1, r.2) := hstart
          rw [scanFrom_cons hstep, hmore]
          rfl
      · rw [if_neg hcomplete] at h
        cases h

end Numbers

section Strings

/-- What the scanner keeps of a string after one more unit. -/
def pushUnit (chars : Str) (high : Bool) : StringUnit → State
  | .char c => .string (c :: chars) false
  | .code value => pushUnicode chars high value

theorem pushUnicode_string (chars : Str) (high : Bool) (value : Nat) :
    ∃ chars' high', pushUnicode chars high value = .string chars' high' := by
  unfold pushUnicode
  split
  · split
    · exact ⟨_, _, rfl⟩
    · exact ⟨_, _, rfl⟩
  · exact ⟨_, _, rfl⟩

theorem pushUnit_string (chars : Str) (high : Bool) (unit : StringUnit) :
    ∃ chars' high', pushUnit chars high unit = .string chars' high' := by
  cases unit with
  | char c => exact ⟨_, _, rfl⟩
  | code value => exact pushUnicode_string chars high value

/-- One unit of a string. -/
theorem scanFrom_unit {text : Str} {unit : StringUnit} (h : UnitText text unit) (chars : Str) (high : Bool)
    (rest : Str) : scanFrom (.string chars high) (text ++ rest) = scanFrom (pushUnit chars high unit) rest := by
  cases h with
  | unescaped hcontrol hquote hescape =>
    refine scanFrom_quiet ?_ rest
    rw [step, if_neg hquote, if_neg hescape, if_neg (by omega)]
    rfl
  | @escaped c e he =>
    have hslash : step (.string chars high) (ord '\\') = some ([], .escape chars high) := rfl
    have hletter : c ≠ ord 'u' := by
      rintro rfl
      exact nomatch (he : none = some e)
    have hescape : step (.escape chars high) c = some ([], .string (e :: chars) false) := by
      rw [step, if_neg hletter, he]
      rfl
    rw [List.cons_append, scanFrom_quiet hslash, List.cons_append, scanFrom_quiet hescape]
    rfl
  | @unicode c₁ c₂ c₃ c₄ d₁ d₂ d₃ d₄ h₁ h₂ h₃ h₄ =>
    have hslash : step (.string chars high) (ord '\\') = some ([], .escape chars high) := rfl
    have hletter : step (.escape chars high) (ord 'u') = some ([], .unicode chars high 0 0) := rfl
    have hone : step (.unicode chars high 0 0) c₁ = some ([], .unicode chars high 1 d₁) := by
      simp [step, h₁]
    have htwo : step (.unicode chars high 1 d₁) c₂ = some ([], .unicode chars high 2 (d₁ * 16 + d₂)) := by
      simp [step, h₂]
    have hthree : step (.unicode chars high 2 (d₁ * 16 + d₂)) c₃ =
        some ([], .unicode chars high 3 ((d₁ * 16 + d₂) * 16 + d₃)) := by
      simp [step, h₃]
    have hfour : step (.unicode chars high 3 ((d₁ * 16 + d₂) * 16 + d₃)) c₄ =
        some ([], pushUnicode chars high (((d₁ * 16 + d₂) * 16 + d₃) * 16 + d₄)) := by
      simp [step, h₄]
    simp only [List.cons_append, List.nil_append]
    rw [scanFrom_quiet hslash, scanFrom_quiet hletter, scanFrom_quiet hone, scanFrom_quiet htwo,
      scanFrom_quiet hthree, scanFrom_quiet hfour]
    rfl

/-- The units of a string, pushed one after the other. -/
def pushUnits (chars : Str) (high : Bool) : List StringUnit → Str
  | [] => chars
  | unit :: units =>
    match pushUnit chars high unit with
    | .string chars high => pushUnits chars high units
    | _ => chars

theorem scanFrom_units {units : List (Str × StringUnit)} (h : ∀ u ∈ units, UnitText u.1 u.2) (chars : Str)
    (high : Bool) (rest : Str) :
    scanFrom (.string chars high) (units.flatMap Prod.fst ++ ord '"' :: rest) =
      (scanFrom .between rest).map fun more =>
        .string (pushUnits chars high (units.map Prod.snd)).reverse :: more := by
  induction units generalizing chars high with
  | nil =>
    have hquote : step (.string chars high) (ord '"') = some ([.string chars.reverse], .between) := rfl
    exact scanFrom_cons hquote rest
  | cons unit units ih =>
    obtain ⟨hunit, hunits⟩ := List.forall_mem_cons.mp h
    obtain ⟨chars', high', hpush⟩ := pushUnit_string chars high unit.2
    rw [List.flatMap_cons, List.append_assoc, scanFrom_unit hunit, hpush, ih hunits, List.map_cons,
      pushUnits, hpush]

theorem unitsValue_code {value : Nat} (h : isHighSurrogate value = false) (units : List StringUnit) :
    unitsValue (.code value :: units) = Fin.ofNat _ value :: unitsValue units := by
  cases units with
  | nil => rfl
  | cons unit units =>
    cases unit with
    | char c => rfl
    | code low => rw [unitsValue, h, if_neg (fun h => Bool.false_ne_true h.1)]

theorem unitsValue_pair {value low : Nat} (units : List StringUnit) :
    unitsValue (.code value :: .code low :: units) =
      if isHighSurrogate value ∧ isLowSurrogate low then pairedSurrogates value low :: unitsValue units
      else Fin.ofNat _ value :: unitsValue (.code low :: units) := by
  rw [unitsValue]

private theorem highSurrogate_val {value : Nat} (h : isHighSurrogate value = true) :
    (Fin.ofNat 0x110000 value).val = value := by
  simp only [isHighSurrogate, Bool.and_eq_true, decide_eq_true_eq] at h
  exact Nat.mod_eq_of_lt (by omega)

/-- What is pushed is the value of the units; a high surrogate in front waits for a low one. -/
theorem pushUnits_eq (units : List StringUnit) :
    (∀ chars, (pushUnits chars false units).reverse = chars.reverse ++ unitsValue units) ∧
    ∀ chars value, isHighSurrogate value = true →
      (pushUnits (Fin.ofNat _ value :: chars) true units).reverse =
        chars.reverse ++ unitsValue (.code value :: units) := by
  induction units with
  | nil =>
    refine ⟨fun chars => (List.append_nil _).symm, fun chars value _ => ?_⟩
    rw [pushUnits, List.reverse_cons]
    rfl
  | cons unit units ih =>
    obtain ⟨ihfalse, ihtrue⟩ := ih
    -- A code unit that joins nothing, after any characters.
    have hcode : ∀ chars value, (pushUnits (Fin.ofNat _ value :: chars) (isHighSurrogate value) units).reverse =
        chars.reverse ++ unitsValue (.code value :: units) := by
      intro chars value
      cases hhigh : isHighSurrogate value with
      | true => exact ihtrue chars value hhigh
      | false => rw [ihfalse, unitsValue_code hhigh, List.reverse_cons, List.append_assoc, List.singleton_append]
    constructor
    · intro chars
      cases unit with
      | char c =>
        rw [pushUnits, pushUnit]
        simp only [ihfalse, unitsValue, List.reverse_cons, List.append_assoc, List.singleton_append]
      | code value =>
        have hpush : pushUnicode chars false value =
            .string (Fin.ofNat _ value :: chars) (isHighSurrogate value) := by
          cases chars with
          | nil => rfl
          | cons c chars =>
            rw [pushUnicode, if_neg]
            exact fun h => Bool.false_ne_true h.1
        rw [pushUnits, pushUnit, hpush]
        exact hcode chars value
    · intro chars value hvalue
      cases unit with
      | char c =>
        rw [pushUnits, pushUnit]
        simp only [ihfalse, unitsValue, List.reverse_cons, List.append_assoc, List.cons_append,
          List.nil_append]
      | code low =>
        rw [pushUnits, pushUnit, pushUnicode, unitsValue_pair, highSurrogate_val hvalue]
        by_cases hlow : isLowSurrogate low = true
        · rw [if_pos ⟨rfl, hlow⟩, if_pos ⟨hvalue, hlow⟩]
          simp only [ihfalse, List.reverse_cons, List.append_assoc, List.singleton_append]
          rfl
        · rw [if_neg (fun h => hlow h.2), if_neg (fun h => hlow h.2)]
          simp only [hcode, List.reverse_cons, List.append_assoc, List.singleton_append]

/-- A whole string and what is scanned after it. -/
theorem scanFrom_string {text s : Str} (h : StringText text s) (rest : Str) :
    scanFrom .between (text ++ rest) = (scanFrom .between rest).map fun more => .string s :: more := by
  cases h with
  | @mk units hunits =>
    have hquote : step .between (ord '"') = some ([], .string [] false) := rfl
    rw [List.cons_append, scanFrom_quiet hquote, List.append_assoc]
    refine (scanFrom_units hunits [] false rest).trans ?_
    rw [(pushUnits_eq _).1]
    rfl

private theorem scanFrom_unicode_inv {chars : Str} {high : Bool} {digits value : Nat} {text : Str}
    {tokens : List JsonToken} (h : scanFrom (.unicode chars high digits value) text = some tokens) :
    ∃ c d rest, text = c :: rest ∧ hexValue c = some d ∧
      scanFrom (if digits = 3 then pushUnicode chars high (value * 16 + d)
        else .unicode chars high (digits + 1) (value * 16 + d)) rest = some tokens := by
  cases text with
  | nil => cases h
  | cons c rest =>
    cases hc : hexValue c with
    | none =>
      have hstep : step (.unicode chars high digits value) c = none := by rw [step, hc]
      rw [scanFrom, hstep] at h
      cases h
    | some d =>
      refine ⟨c, d, rest, rfl, hc, ?_⟩
      rw [← h]
      refine (scanFrom_quiet ?_ rest).symm
      rw [step, hc]
      dsimp only
      split
      · rfl
      · rfl

/-- The end of a string, or its next unit. -/
theorem scanFrom_string_cases {chars : Str} {high : Bool} {text : Str} {tokens : List JsonToken}
    (h : scanFrom (.string chars high) text = some tokens) :
    (∃ rest more, text = ord '"' :: rest ∧ tokens = .string chars.reverse :: more ∧
      scanFrom .between rest = some more) ∨
    ∃ unitText unit rest, text = unitText ++ rest ∧ unitText ≠ [] ∧ UnitText unitText unit ∧
      scanFrom (pushUnit chars high unit) rest = some tokens := by
  cases text with
  | nil => cases h
  | cons c text =>
    by_cases hquote : c = ord '"'
    · subst hquote
      have hstep : step (.string chars high) (ord '"') = some ([.string chars.reverse], .between) := rfl
      rw [scanFrom_cons hstep] at h
      obtain ⟨more, hmore, rfl⟩ := Option.map_eq_some_iff.mp h
      exact .inl ⟨text, more, rfl, rfl, hmore⟩
    refine .inr ?_
    by_cases hescape : c = ord '\\'
    · subst hescape
      have hslash : step (.string chars high) (ord '\\') = some ([], .escape chars high) := rfl
      rw [scanFrom_quiet hslash] at h
      cases text with
      | nil => cases h
      | cons c text =>
        by_cases hletter : c = ord 'u'
        · subst hletter
          have hu : step (.escape chars high) (ord 'u') = some ([], .unicode chars high 0 0) := rfl
          rw [scanFrom_quiet hu] at h
          obtain ⟨c₁, d₁, text, rfl, h₁, h⟩ := scanFrom_unicode_inv h
          obtain ⟨c₂, d₂, text, rfl, h₂, h⟩ := scanFrom_unicode_inv h
          obtain ⟨c₃, d₃, text, rfl, h₃, h⟩ := scanFrom_unicode_inv h
          obtain ⟨c₄, d₄, rest, rfl, h₄, h⟩ := scanFrom_unicode_inv h
          refine ⟨_, _, rest, rfl, List.cons_ne_nil _ _, .unicode h₁ h₂ h₃ h₄, ?_⟩
          simpa [pushUnit] using h
        · cases he : escaped c with
          | none =>
            have hstep : step (.escape chars high) c = none := by
              rw [step, if_neg hletter, he]
              rfl
            rw [scanFrom, hstep] at h
            cases h
          | some e =>
            have hstep : step (.escape chars high) c = some ([], .string (e :: chars) false) := by
              rw [step, if_neg hletter, he]
              rfl
            rw [scanFrom_quiet hstep] at h
            exact ⟨[ord '\\', c], .char e, text, rfl, List.cons_ne_nil _ _, .escaped he, h⟩
    · by_cases hcontrol : c.val ≤ 0x1F
      · have hstep : step (.string chars high) c = none := by
          rw [step, if_neg hquote, if_neg hescape, if_pos hcontrol]
        rw [scanFrom, hstep] at h
        cases h
      · have hstep : step (.string chars high) c = some ([], .string (c :: chars) false) := by
          rw [step, if_neg hquote, if_neg hescape, if_neg hcontrol]
        rw [scanFrom_quiet hstep] at h
        exact ⟨[c], .char c, text, rfl, List.cons_ne_nil _ _, .unescaped (by omega) hquote hescape, h⟩

/-- What is scanned in a string are units up to a quotation mark, and what follows. -/
theorem scanFrom_string_inv {chars : Str} {high : Bool} {text : Str} {tokens : List JsonToken}
    (h : scanFrom (.string chars high) text = some tokens) :
    ∃ (units : List (Str × StringUnit)) (rest : Str) (more : List JsonToken),
      text = units.flatMap Prod.fst ++ ord '"' :: rest ∧ (∀ u ∈ units, UnitText u.1 u.2) ∧
      tokens = .string (pushUnits chars high (units.map Prod.snd)).reverse :: more ∧
      scanFrom .between rest = some more := by
  induction hlen : text.length using Nat.strong_induction_on generalizing chars high text with
  | _ n ih =>
    rcases scanFrom_string_cases h with
      ⟨rest, more, rfl, htokens, hmore⟩ | ⟨unitText, unit, rest, rfl, hne, hunit, hrest⟩
    · exact ⟨[], rest, more, rfl, fun u hu => absurd hu List.not_mem_nil, htokens, hmore⟩
    · obtain ⟨chars', high', hpush⟩ := pushUnit_string chars high unit
      rw [hpush] at hrest
      have hlt : rest.length < n := by
        have := List.length_pos_iff.mpr hne
        rw [← hlen, List.length_append]
        omega
      obtain ⟨units, rest, more, rfl, hunits, htokens, hmore⟩ := ih _ hlt hrest rfl
      refine ⟨(unitText, unit) :: units, rest, more, ?_, List.forall_mem_cons.mpr ⟨hunit, hunits⟩, ?_, hmore⟩
      · rw [List.flatMap_cons, List.append_assoc]
      · rw [htokens, List.map_cons, pushUnits, hpush]

end Strings

section Tokens

/-- What a character outside of tokens begins. -/
inductive Begins (c : CodePoint) : List JsonToken → State → Prop where
  | space (h : isWhitespace c = true) : Begins c [] .between
  | mark {token : JsonToken} (h : TokenText [c] token) : Begins c [token] .between
  | string (h : c = ord '"') : Begins c [] (.string [] false)
  | literal {rest : Str} {token : JsonToken} (h : TokenText (c :: rest) token) (hne : rest ≠ []) :
      Begins c [] (.literal rest token)
  | number {lexeme : Numeral} {phase : NumberPhase} (htext : lexeme.text = [c])
      (h : ∀ ds, NumberPhase.accepts phase ds = true → NumberText (c :: ds)) :
      Begins c [] (.number lexeme phase)

theorem begins_of_start {c : CodePoint} {tokens : List JsonToken} {state : State}
    (h : start c = some (tokens, state)) : Begins c tokens state := by
  unfold start at h
  rcases ite_eq_iff.mp h with ⟨hspace, he⟩ | ⟨_, h⟩
  · obtain ⟨rfl, rfl⟩ := Prod.mk.inj (Option.some.inj he)
    exact .space hspace
  rcases ite_eq_iff.mp h with ⟨rfl, he⟩ | ⟨_, h⟩
  · obtain ⟨rfl, rfl⟩ := Prod.mk.inj (Option.some.inj he)
    exact .mark .openBrace
  rcases ite_eq_iff.mp h with ⟨rfl, he⟩ | ⟨_, h⟩
  · obtain ⟨rfl, rfl⟩ := Prod.mk.inj (Option.some.inj he)
    exact .mark .closeBrace
  rcases ite_eq_iff.mp h with ⟨rfl, he⟩ | ⟨_, h⟩
  · obtain ⟨rfl, rfl⟩ := Prod.mk.inj (Option.some.inj he)
    exact .mark .openBracket
  rcases ite_eq_iff.mp h with ⟨rfl, he⟩ | ⟨_, h⟩
  · obtain ⟨rfl, rfl⟩ := Prod.mk.inj (Option.some.inj he)
    exact .mark .closeBracket
  rcases ite_eq_iff.mp h with ⟨rfl, he⟩ | ⟨_, h⟩
  · obtain ⟨rfl, rfl⟩ := Prod.mk.inj (Option.some.inj he)
    exact .mark .colon
  rcases ite_eq_iff.mp h with ⟨rfl, he⟩ | ⟨_, h⟩
  · obtain ⟨rfl, rfl⟩ := Prod.mk.inj (Option.some.inj he)
    exact .mark .comma
  rcases ite_eq_iff.mp h with ⟨hquote, he⟩ | ⟨_, h⟩
  · obtain ⟨rfl, rfl⟩ := Prod.mk.inj (Option.some.inj he)
    exact .string hquote
  rcases ite_eq_iff.mp h with ⟨rfl, he⟩ | ⟨_, h⟩
  · obtain ⟨rfl, rfl⟩ := Prod.mk.inj (Option.some.inj he)
    exact .literal .null (List.cons_ne_nil _ _)
  rcases ite_eq_iff.mp h with ⟨rfl, he⟩ | ⟨_, h⟩
  · obtain ⟨rfl, rfl⟩ := Prod.mk.inj (Option.some.inj he)
    exact .literal .true (List.cons_ne_nil _ _)
  rcases ite_eq_iff.mp h with ⟨rfl, he⟩ | ⟨_, h⟩
  · obtain ⟨rfl, rfl⟩ := Prod.mk.inj (Option.some.inj he)
    exact .literal .false (List.cons_ne_nil _ _)
  rcases ite_eq_iff.mp h with ⟨rfl, he⟩ | ⟨_, h⟩
  · obtain ⟨rfl, rfl⟩ := Prod.mk.inj (Option.some.inj he)
    exact .number rfl fun ds hds => numberText_cons.mpr (.inl ⟨rfl, hds⟩)
  rcases ite_eq_iff.mp h with ⟨rfl, he⟩ | ⟨hzero, h⟩
  · obtain ⟨rfl, rfl⟩ := Prod.mk.inj (Option.some.inj he)
    exact .number rfl fun ds hds => numberText_cons.mpr (.inr (.inl ⟨rfl, hds⟩))
  by_cases hdigit : isDigit c = true
  · rw [dif_pos hdigit] at h
    obtain ⟨rfl, rfl⟩ := Prod.mk.inj (Option.some.inj h)
    exact .number rfl fun ds hds => numberText_cons.mpr (.inr (.inr ⟨hdigit, hzero, hds⟩))
  · rw [dif_neg hdigit] at h
    cases h

/-- A text that is cut into tokens, with whitespace before each and at the end. -/
inductive Lexed : Str → List JsonToken → Prop where
  | done {w : Str} (hw : IsSpacing w) : Lexed w []
  | token {w text rest : Str} {token : JsonToken} {more : List JsonToken} (hw : IsSpacing w)
      (ht : TokenText text token) (h : Lexed rest more) : Lexed (w ++ (text ++ rest)) (token :: more)

theorem Lexed.space {c : CodePoint} (hc : isWhitespace c = true) {text : Str} {tokens : List JsonToken}
    (h : Lexed text tokens) : Lexed (c :: text) tokens := by
  cases h with
  | done hw => exact .done (List.forall_mem_cons.mpr ⟨hc, hw⟩)
  | @token w text rest token more hw ht h => exact .token (List.forall_mem_cons.mpr ⟨hc, hw⟩ : IsSpacing (c :: w)) ht h

theorem Lexed.front {text rest : Str} {token : JsonToken} {more : List JsonToken}
    (ht : TokenText text token) (h : Lexed rest more) : Lexed (text ++ rest) (token :: more) :=
  .token (fun _ hc => absurd hc List.not_mem_nil : IsSpacing []) ht h

private theorem scanFrom_literal_inv {literal : Str} {token : JsonToken} {text : Str}
    {tokens : List JsonToken} (hne : literal ≠ []) (h : scanFrom (.literal literal token) text = some tokens) :
    ∃ rest more, text = literal ++ rest ∧ tokens = token :: more ∧ scanFrom .between rest = some more := by
  induction literal generalizing text with
  | nil => exact absurd rfl hne
  | cons r literal ih =>
    cases text with
    | nil => cases h
    | cons c text =>
      by_cases hc : c = r
      · subst hc
        cases literal with
        | nil =>
          have hstep : step (.literal [c] token) c = some ([token], .between) := if_pos rfl
          rw [scanFrom_cons hstep] at h
          obtain ⟨more, hmore, rfl⟩ := Option.map_eq_some_iff.mp h
          exact ⟨text, more, rfl, rfl, hmore⟩
        | cons d literal =>
          have hstep : step (.literal (c :: d :: literal) token) c = some ([], .literal (d :: literal) token) :=
            if_pos rfl
          rw [scanFrom_quiet hstep] at h
          obtain ⟨rest, more, rfl, htokens, hmore⟩ := ih (List.cons_ne_nil _ _) h
          exact ⟨rest, more, rfl, htokens, hmore⟩
      · have hstep : step (.literal (r :: literal) token) c = none := by
          cases literal with
          | nil => exact if_neg hc
          | cons d literal => exact if_neg hc
        rw [scanFrom, hstep] at h
        cases h

/-- What the scanner finds are tokens of the text. -/
theorem lexed_of_scanFrom {text : Str} {tokens : List JsonToken} (h : scanFrom .between text = some tokens) :
    Lexed text tokens := by
  induction hlen : text.length using Nat.strong_induction_on generalizing text tokens with
  | _ n ih =>
    cases text with
    | nil =>
      obtain rfl := Option.some.inj h
      exact .done fun _ hc => absurd hc List.not_mem_nil
    | cons c text =>
      rw [List.length_cons] at hlen
      cases hstart : start c with
      | none =>
        have hstep : step .between c = none := hstart
        rw [scanFrom, hstep] at h
        cases h
      | some r =>
        obtain ⟨found, state⟩ := r
        have hstep : step .between c = some (found, state) := hstart
        rw [scanFrom_cons hstep] at h
        obtain ⟨more, hmore, rfl⟩ := Option.map_eq_some_iff.mp h
        cases begins_of_start hstart with
        | space hspace => exact (ih _ (by omega) hmore rfl).space hspace
        | mark htoken => exact (ih _ (by omega) hmore rfl).front htoken
        | string hquote =>
          subst hquote
          obtain ⟨units, rest, found, rfl, hunits, rfl, hrest⟩ := scanFrom_string_inv hmore
          rw [List.length_append, List.length_cons] at hlen
          have hlexed := (ih _ (by omega) hrest rfl).front (.string (.mk hunits))
          rw [(pushUnits_eq _).1]
          simpa using hlexed
        | literal htoken hne =>
          obtain ⟨rest, found, rfl, rfl, hrest⟩ := scanFrom_literal_inv hne hmore
          rw [List.length_append] at hlen
          exact (ih _ (by omega) hrest rfl).front htoken
        | @number lexeme phase htext hnumber =>
          obtain ⟨ds, rest, number, found, rfl, haccepts, hlexeme, rfl, hrest⟩ := scanFrom_number_inv hmore
          rw [List.length_append] at hlen
          rw [htext] at hlexeme
          have hnumber : NumberText number.text := by
            rw [hlexeme]
            exact hnumber ds haccepts
          have hlexed := (ih _ (by omega) hrest rfl).front (.number hnumber)
          rwa [hlexeme] at hlexed

/-- A number and what is scanned after it. -/
private theorem scanFrom_numberText {lexeme : Numeral} (h : NumberText lexeme.text) {rest : Str}
    (hrest : Delimited rest) : scanFrom .between (lexeme.text ++ rest) =
      (scanFrom .between rest).map fun more => .number lexeme :: more := by
  cases htext : lexeme.text with
  | nil =>
    rw [htext] at h
    exact absurd h not_numberText_nil
  | cons c ds =>
    rw [htext] at h
    rcases numberText_cons.mp h with ⟨rfl, hds⟩ | ⟨rfl, hds⟩ | ⟨hdigit, hzero, hds⟩
    · have hstep : step .between (ord '-') = some ([], .number (.single (ord '-') (by decide)) .minus) := rfl
      rw [List.cons_append, scanFrom_quiet hstep]
      exact scanFrom_number hrest hds htext
    · have hstep : step .between (ord '0') = some ([], .number (.single (ord '0') (by decide)) .zero) := rfl
      rw [List.cons_append, scanFrom_quiet hstep]
      exact scanFrom_number hrest hds htext
    · have hstep : step .between c =
          some ([], .number (.single c (isDigit_ascii hdigit)) .integer) := by
        have hne : ∀ d, isDigit d = false → c ≠ d := fun d => isDigit_ne hdigit
        have hspace : isWhitespace c = false := by
          by_contra hspace
          simp only [isWhitespace, Bool.not_eq_false, Bool.or_eq_true, beq_iff_eq] at hspace
          simp only [isDigit, Bool.and_eq_true, decide_eq_true_eq] at hdigit
          omega
        rw [step, start, if_neg (by rw [hspace]; exact Bool.false_ne_true)]
        repeat rw [if_neg (hne _ (by decide))]
        rw [if_neg hzero, dif_pos hdigit]
      rw [List.cons_append, scanFrom_quiet hstep]
      exact scanFrom_number hrest hds htext

private theorem scanFrom_literal {literal : Str} (token : JsonToken) (hne : literal ≠ []) (rest : Str) :
    scanFrom (.literal literal token) (literal ++ rest) =
      (scanFrom .between rest).map fun more => token :: more := by
  induction literal with
  | nil => exact absurd rfl hne
  | cons c literal ih =>
    cases literal with
    | nil =>
      have hstep : step (.literal [c] token) c = some ([token], .between) := if_pos rfl
      exact scanFrom_cons hstep rest
    | cons d literal =>
      have hstep : step (.literal (c :: d :: literal) token) c = some ([], .literal (d :: literal) token) :=
        if_pos rfl
      rw [List.cons_append, scanFrom_quiet hstep]
      exact ih (List.cons_ne_nil _ _)

private theorem scanFrom_word {c : CodePoint} {literal : Str} {token : JsonToken}
    (h : step .between c = some ([], .literal literal token)) (hne : literal ≠ []) (rest : Str) :
    scanFrom .between (c :: literal ++ rest) = (scanFrom .between rest).map fun more => token :: more := by
  rw [List.cons_append, scanFrom_quiet h, scanFrom_literal token hne]

/-- A mark ends where it is. -/
theorem scanFrom_mark {c : CodePoint} {token : JsonToken} (h : step .between c = some ([token], .between))
    (rest : Str) :
    scanFrom .between (c :: rest) = (scanFrom .between rest).map fun more => token :: more :=
  scanFrom_cons h rest

/-- A token and what is scanned after it; what follows a number may not go on with it. -/
theorem scanFrom_token {text : Str} {token : JsonToken} (h : TokenText text token) {rest : Str}
    (hrest : Delimited rest) :
    scanFrom .between (text ++ rest) = (scanFrom .between rest).map fun more => token :: more := by
  cases h with
  | openBrace => exact scanFrom_mark rfl rest
  | closeBrace => exact scanFrom_mark rfl rest
  | openBracket => exact scanFrom_mark rfl rest
  | closeBracket => exact scanFrom_mark rfl rest
  | colon => exact scanFrom_mark rfl rest
  | comma => exact scanFrom_mark rfl rest
  | null =>
    have hword : step .between (ord 'n') = some ([], .literal (str "ull") .null) := rfl
    exact scanFrom_word hword (List.cons_ne_nil _ _) rest
  | true =>
    have hword : step .between (ord 't') = some ([], .literal (str "rue") (.bool true)) := rfl
    exact scanFrom_word hword (List.cons_ne_nil _ _) rest
  | false =>
    have hword : step .between (ord 'f') = some ([], .literal (str "alse") (.bool false)) := rfl
    exact scanFrom_word hword (List.cons_ne_nil _ _) rest
  | number h => exact scanFrom_numberText h hrest
  | string h => exact scanFrom_string h rest

theorem scanFrom_spacing {w : Str} (hw : IsSpacing w) (rest : Str) :
    scanFrom .between (w ++ rest) = scanFrom .between rest := by
  induction w with
  | nil => rfl
  | cons c w ih =>
    obtain ⟨hc, hw⟩ := List.forall_mem_cons.mp hw
    have hstep : step .between c = some ([], .between) := if_pos hc
    rw [List.cons_append, scanFrom_quiet hstep, ih hw]

end Tokens
end AgenticRag.Python

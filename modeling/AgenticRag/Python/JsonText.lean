import AgenticRag.Python.Json

/-! The grammar of JSON texts in RFC 8259, with the value that a text denotes. It has no scanner
and no stack: a text is put together from the texts of its parts. -/
namespace AgenticRag.Python
open JsonScanner (isWhitespace isDigit isExponentMark isHighSurrogate isLowSurrogate hexValue)

section Lexical

/-- `ws`. -/
def IsSpacing (w : Str) : Prop := ∀ c ∈ w, isWhitespace c = true

/-- `*DIGIT`. -/
def IsDigits (ds : Str) : Prop := ∀ c ∈ ds, isDigit c = true

/-- `int`: a zero, or digits that do not begin with one. -/
inductive IntText : Str → Prop where
  | zero : IntText [ord '0']
  | digits {d : CodePoint} {ds : Str} (hd : isDigit d = true) (hne : d ≠ ord '0') (hds : IsDigits ds) :
      IntText (d :: ds)

/-- `[ frac ]`. -/
inductive FractionText : Str → Prop where
  | absent : FractionText []
  | present {ds : Str} (hne : ds ≠ []) (hds : IsDigits ds) : FractionText (ord '.' :: ds)

/-- `[ minus / plus ] 1*DIGIT`. -/
inductive ExponentDigits : Str → Prop where
  | unsigned {ds : Str} (hne : ds ≠ []) (hds : IsDigits ds) : ExponentDigits ds
  | signed {sign : CodePoint} {ds : Str} (hsign : sign = ord '+' ∨ sign = ord '-') (hne : ds ≠ [])
      (hds : IsDigits ds) : ExponentDigits (sign :: ds)

/-- `[ exp ]`. -/
inductive ExponentText : Str → Prop where
  | absent : ExponentText []
  | present {mark : CodePoint} {ds : Str} (hmark : isExponentMark mark = true) (hds : ExponentDigits ds) :
      ExponentText (mark :: ds)

/-- `int [ frac ] [ exp ]`. -/
inductive MagnitudeText : Str → Prop where
  | mk {int fraction exponent : Str} (hint : IntText int) (hfraction : FractionText fraction)
      (hexponent : ExponentText exponent) : MagnitudeText (int ++ (fraction ++ exponent))

/-- `number`. -/
inductive NumberText : Str → Prop where
  | positive {text : Str} (h : MagnitudeText text) : NumberText text
  | negative {text : Str} (h : MagnitudeText text) : NumberText (ord '-' :: text)

/-- What one `char` of a string stands for: a character, or an escaped UTF-16 code unit. -/
inductive StringUnit where
  | char (c : CodePoint)
  | code (value : Nat)

/-- `char`. -/
inductive UnitText : Str → StringUnit → Prop where
  | unescaped {c : CodePoint} (hcontrol : 0x20 ≤ c.val) (hquote : c ≠ ord '"') (hescape : c ≠ ord '\\') :
      UnitText [c] (.char c)
  | escaped {c e : CodePoint} (h : JsonScanner.escaped c = some e) : UnitText [ord '\\', c] (.char e)
  | unicode {c₁ c₂ c₃ c₄ : CodePoint} {d₁ d₂ d₃ d₄ : Nat} (h₁ : hexValue c₁ = some d₁)
      (h₂ : hexValue c₂ = some d₂) (h₃ : hexValue c₃ = some d₃) (h₄ : hexValue c₄ = some d₄) :
      UnitText [ord '\\', ord 'u', c₁, c₂, c₃, c₄] (.code (((d₁ * 16 + d₂) * 16 + d₃) * 16 + d₄))

/-- The character of a surrogate pair. -/
def pairedSurrogates (high low : Nat) : CodePoint :=
  Fin.ofNat _ (0x10000 + (high - 0xD800) * 0x400 + (low - 0xDC00))

/-- The characters of a string: a pair of escaped surrogates is one, an unpaired one stays. -/
def unitsValue : List StringUnit → Str
  | [] => []
  | .char c :: rest => c :: unitsValue rest
  | .code high :: .code low :: rest =>
    if isHighSurrogate high ∧ isLowSurrogate low then pairedSurrogates high low :: unitsValue rest
    else Fin.ofNat _ high :: unitsValue (.code low :: rest)
  | .code value :: rest => Fin.ofNat _ value :: unitsValue rest

/-- `string`. -/
inductive StringText : Str → Str → Prop where
  | mk {units : List (Str × StringUnit)} (h : ∀ u ∈ units, UnitText u.1 u.2) :
      StringText (ord '"' :: (units.flatMap Prod.fst ++ [ord '"'])) (unitsValue (units.map Prod.snd))

end Lexical

section Values

/-- Parts with a separator between them. -/
def separatedBy {α : Type} (separator : α) : List (List α) → List α
  | [] => []
  | first :: rest => first ++ rest.flatMap fun part => separator :: part

/-- A value in an array, with the whitespace around it. -/
structure ItemText where
  before : Str
  text : Str
  after : Str
  value : Json

def ItemText.padded (item : ItemText) : Str := item.before ++ (item.text ++ item.after)

/-- A member of an object, with the whitespace around its key and its value. -/
structure MemberText where
  before : Str
  keyText : Str
  key : Str
  after : Str
  item : ItemText

def MemberText.padded (member : MemberText) : Str :=
  member.before ++ (member.keyText ++ (member.after ++ ord ':' :: member.item.padded))

def MemberText.member (member : MemberText) : Str × Json := (member.key, member.item.value)

/-- `value`. -/
inductive ValueText : Str → Json → Prop where
  | null : ValueText (str "null") .null
  | true : ValueText (str "true") (.bool Bool.true)
  | false : ValueText (str "false") (.bool Bool.false)
  | number {lexeme : Numeral} (h : NumberText lexeme.text) : ValueText lexeme.text (.number lexeme)
  | string {text s : Str} (h : StringText text s) : ValueText text (.string s)
  | emptyArray {w : Str} (hw : IsSpacing w) : ValueText (ord '[' :: (w ++ [ord ']'])) (.array [])
  | array {items : List ItemText} (hne : items ≠ [])
      (hspacing : ∀ item ∈ items, IsSpacing item.before ∧ IsSpacing item.after)
      (hitems : ∀ item ∈ items, ValueText item.text item.value) :
      ValueText (ord '[' :: (separatedBy (ord ',') (items.map ItemText.padded) ++ [ord ']']))
        (.array (items.map ItemText.value))
  | emptyObject {w : Str} (hw : IsSpacing w) : ValueText (ord '{' :: (w ++ [ord '}'])) (.object [])
  | object {members : List MemberText} (hne : members ≠ [])
      (hspacing : ∀ member ∈ members, IsSpacing member.before ∧ IsSpacing member.after ∧
        IsSpacing member.item.before ∧ IsSpacing member.item.after)
      (hkeys : ∀ member ∈ members, StringText member.keyText member.key)
      (hitems : ∀ member ∈ members, ValueText member.item.text member.item.value) :
      ValueText (ord '{' :: (separatedBy (ord ',') (members.map MemberText.padded) ++ [ord '}']))
        (.object (members.map MemberText.member))

/-- `JSON-text`. -/
inductive JsonText : Str → Json → Prop where
  | mk {before text after : Str} {value : Json} (hbefore : IsSpacing before) (h : ValueText text value)
      (hafter : IsSpacing after) : JsonText (before ++ (text ++ after)) value

/-- No object of the value has two members of one name. -/
inductive UniqueKeys : Json → Prop where
  | null : UniqueKeys .null
  | bool (b : Bool) : UniqueKeys (.bool b)
  | number (lexeme : Numeral) : UniqueKeys (.number lexeme)
  | string (s : Str) : UniqueKeys (.string s)
  | array {items : List Json} (h : ∀ item ∈ items, UniqueKeys item) : UniqueKeys (.array items)
  | object {members : List (Str × Json)} (hkeys : (members.map Prod.fst).Nodup)
      (h : ∀ member ∈ members, UniqueKeys member.2) : UniqueKeys (.object members)

/-- At most `depth` containers are inside one another. -/
def NestsWithin : Nat → Json → Prop
  | depth + 1, .array items => ∀ item ∈ items, NestsWithin depth item
  | depth + 1, .object members => ∀ member ∈ members, NestsWithin depth member.2
  | 0, .array _ => False
  | 0, .object _ => False
  | _, _ => True

mutual

/-- The most containers on a path from the root to a value. -/
def Json.depth : Json → Nat
  | .array items => Json.itemsDepth items + 1
  | .object members => Json.membersDepth members + 1
  | _ => 0

def Json.itemsDepth : List Json → Nat
  | [] => 0
  | item :: items => max (Json.depth item) (Json.itemsDepth items)

def Json.membersDepth : List (Str × Json) → Nat
  | [] => 0
  | (_, value) :: members => max (Json.depth value) (Json.membersDepth members)

end

end Values

/-- A value by its parts. -/
theorem Json.parts_induction {P : Json → Prop} (null : P .null) (bool : ∀ b, P (.bool b))
    (number : ∀ lexeme, P (.number lexeme)) (string : ∀ s, P (.string s))
    (array : ∀ items, (∀ item ∈ items, P item) → P (.array items))
    (object : ∀ members, (∀ member ∈ members, P member.2) → P (.object members)) (value : Json) :
    P value := by
  match value with
  | .null => exact null
  | .bool b => exact bool b
  | .number lexeme => exact number lexeme
  | .string s => exact string s
  | .array items =>
    refine array items fun item hitem => ?_
    have hsize := List.sizeOf_lt_of_mem hitem
    exact parts_induction null bool number string array object item
  | .object members =>
    refine object members fun member hmember => ?_
    have hsize := List.sizeOf_lt_of_mem hmember
    have hpair : sizeOf member = 1 + sizeOf member.1 + sizeOf member.2 := rfl
    exact parts_induction null bool number string array object member.2
termination_by sizeOf value
decreasing_by
  · simp only [Json.array.sizeOf_spec]
    omega
  · simp only [Json.object.sizeOf_spec]
    omega

theorem Json.itemsDepth_le {items : List Json} {n : Nat} :
    Json.itemsDepth items ≤ n ↔ ∀ item ∈ items, item.depth ≤ n := by
  induction items with
  | nil => simp [Json.itemsDepth]
  | cons item items ih => rw [Json.itemsDepth, max_le_iff, ih, List.forall_mem_cons]

theorem Json.membersDepth_le {members : List (Str × Json)} {n : Nat} :
    Json.membersDepth members ≤ n ↔ ∀ member ∈ members, member.2.depth ≤ n := by
  induction members with
  | nil => simp [Json.membersDepth]
  | cons member members ih => rw [Json.membersDepth, max_le_iff, ih, List.forall_mem_cons]

theorem nestsWithin_iff {n : Nat} {value : Json} : NestsWithin n value ↔ value.depth ≤ n := by
  induction value using Json.parts_induction generalizing n with
  | null => simp [NestsWithin, Json.depth]
  | bool => simp [NestsWithin, Json.depth]
  | number => simp [NestsWithin, Json.depth]
  | string => simp [NestsWithin, Json.depth]
  | array items ih =>
    cases n with
    | zero => simp [NestsWithin, Json.depth]
    | succ n =>
      rw [NestsWithin, Json.depth, Nat.succ_le_succ_iff, Json.itemsDepth_le]
      exact forall₂_congr fun item hitem => ih item hitem
  | object members ih =>
    cases n with
    | zero => simp [NestsWithin, Json.depth]
    | succ n =>
      rw [NestsWithin, Json.depth, Nat.succ_le_succ_iff, Json.membersDepth_le]
      exact forall₂_congr fun member hmember => ih member hmember

section Separated
variable {α : Type} {separator : α}

/-- A part with what stands before and after it. -/
theorem separatedBy_middle (before : List (List α)) (part : List α) (after : List (List α)) :
    separatedBy separator (before ++ part :: after) =
      before.flatMap (fun part => part ++ [separator]) ++
        (part ++ after.flatMap fun part => separator :: part) := by
  induction before with
  | nil => rfl
  | cons first before ih =>
    rw [List.flatMap_cons, List.append_assoc, ← ih]
    cases before with
    | nil => simp [separatedBy]
    | cons next before => simp [separatedBy]

/-- The last part has no separator after it. -/
theorem separatedBy_concat (parts : List (List α)) (last : List α) :
    separatedBy separator (parts ++ [last]) = parts.flatMap (fun part => part ++ [separator]) ++ last := by
  rw [separatedBy_middle, List.flatMap_nil, List.append_nil]

end Separated
end AgenticRag.Python

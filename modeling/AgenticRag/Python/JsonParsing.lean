import AgenticRag.Python.JsonLoads
import AgenticRag.Python.JsonScanning

/-! The parser reads the texts of the grammar and no others: the tokens of a value against its
texts, then the stack machine against the tokens. -/
namespace AgenticRag.Python
open Lib JsonScanner

section Tokens

mutual

/-- The tokens of every text of a value. -/
def Json.tokens : Json → List JsonToken
  | .null => [.null]
  | .bool b => [.bool b]
  | .number lexeme => [.number lexeme]
  | .string s => [.string s]
  | .array items => .openBracket :: (separatedBy .comma (Json.itemsTokens items) ++ [.closeBracket])
  | .object members => .openBrace :: (separatedBy .comma (Json.membersTokens members) ++ [.closeBrace])

def Json.itemsTokens : List Json → List (List JsonToken)
  | [] => []
  | item :: items => Json.tokens item :: Json.itemsTokens items

def Json.membersTokens : List (Str × Json) → List (List JsonToken)
  | [] => []
  | (key, value) :: members => (.string key :: .colon :: Json.tokens value) :: Json.membersTokens members

end

def memberTokens (member : Str × Json) : List JsonToken := .string member.1 :: .colon :: member.2.tokens

theorem Json.itemsTokens_eq (items : List Json) : Json.itemsTokens items = items.map Json.tokens := by
  induction items with
  | nil => rfl
  | cons item items ih => rw [Json.itemsTokens, ih, List.map_cons]

theorem Json.membersTokens_eq (members : List (Str × Json)) :
    Json.membersTokens members = members.map memberTokens := by
  induction members with
  | nil => rfl
  | cons member members ih => rw [Json.membersTokens, ih, List.map_cons, memberTokens]

theorem Json.tokens_array (items : List Json) : (Json.array items).tokens =
    .openBracket :: (separatedBy .comma (items.map Json.tokens) ++ [.closeBracket]) := by
  rw [Json.tokens, Json.itemsTokens_eq]

theorem Json.tokens_object (members : List (Str × Json)) : (Json.object members).tokens =
    .openBrace :: (separatedBy .comma (members.map memberTokens) ++ [.closeBrace]) := by
  rw [Json.tokens, Json.membersTokens_eq]

theorem separatedBy_cons_cons {α : Type} (separator : α) (a b : List α) (parts : List (List α)) :
    separatedBy separator (a :: b :: parts) = a ++ separator :: separatedBy separator (b :: parts) := rfl

end Tokens

section Completeness

theorem delimited_mark {c : CodePoint} (hc : c = ord ',' ∨ c = ord ']' ∨ c = ord '}' ∨ c = ord ':')
    (rest : Str) : Delimited (c :: rest) := by
  intro d hd
  obtain rfl := Option.some.inj hd
  rcases hc with rfl | rfl | rfl | rfl <;> decide

theorem delimited_nil : Delimited [] := fun _ h => nomatch h

theorem delimited_spacing {w rest : Str} (hw : IsSpacing w) (h : Delimited rest) : Delimited (w ++ rest) := by
  cases w with
  | nil => exact h
  | cons c w =>
    intro d hd
    obtain rfl := Option.some.inj hd
    have hspace := hw c List.mem_cons_self
    simp only [isWhitespace, Bool.or_eq_true, beq_iff_eq] at hspace
    have hval : c = Fin.ofNat _ 0x20 ∨ c = Fin.ofNat _ 0x09 ∨ c = Fin.ofNat _ 0x0A ∨ c = Fin.ofNat _ 0x0D := by
      rcases hspace with ((h | h) | h) | h
      · exact .inl (Fin.ext h)
      · exact .inr (.inl (Fin.ext h))
      · exact .inr (.inr (.inl (Fin.ext h)))
      · exact .inr (.inr (.inr (Fin.ext h)))
    rcases hval with rfl | rfl | rfl | rfl <;> decide

/-- The scanner finds these tokens in a text, whatever follows it. -/
def Scans (text : Str) (tokens : List JsonToken) : Prop :=
  ∀ rest, Delimited rest →
    scanFrom .between (text ++ rest) = (scanFrom .between rest).map fun more => tokens ++ more

theorem Scans.token {text : Str} {token : JsonToken} (h : TokenText text token) : Scans text [token] :=
  fun _ => scanFrom_token h

theorem Scans.spacing {w : Str} (hw : IsSpacing w) : Scans w [] := by
  intro rest _
  rw [scanFrom_spacing hw]
  exact Option.map_id'.symm

theorem Scans.append {a b : Str} {s t : List JsonToken} (ha : Scans a s) (hb : Scans b t)
    (hdelimited : ∀ rest, Delimited rest → Delimited (b ++ rest)) : Scans (a ++ b) (s ++ t) := by
  intro rest hrest
  rw [List.append_assoc, ha _ (hdelimited rest hrest), hb rest hrest, Option.map_map]
  simp only [Function.comp_def, List.append_assoc]

theorem Scans.padded {before text after : Str} {tokens : List JsonToken} (hbefore : IsSpacing before)
    (h : Scans text tokens) (hafter : IsSpacing after) : Scans (before ++ (text ++ after)) tokens := by
  intro rest hrest
  have hinner := h.append (Scans.spacing hafter) fun rest hrest => delimited_spacing hafter hrest
  rw [List.append_assoc, scanFrom_spacing hbefore, hinner rest hrest, List.append_nil]

/-- A mark stands before anything. -/
theorem Scans.mark {c : CodePoint} {token : JsonToken} (hc : step .between c = some ([token], .between))
    {text : Str} {tokens : List JsonToken} (h : Scans text tokens) : Scans (c :: text) (token :: tokens) := by
  intro rest hrest
  rw [List.cons_append, scanFrom_mark hc, h rest hrest, Option.map_map]
  rfl

/-- Parts with commas between them. -/
theorem Scans.separated {α : Type} {textOf : α → Str} {tokensOf : α → List JsonToken} {parts : List α}
    (h : ∀ part ∈ parts, Scans (textOf part) (tokensOf part)) :
    Scans (separatedBy (ord ',') (parts.map textOf)) (separatedBy .comma (parts.map tokensOf)) := by
  induction parts with
  | nil => exact Scans.spacing fun _ hc => absurd hc List.not_mem_nil
  | cons part parts ih =>
    obtain ⟨hpart, hparts⟩ := List.forall_mem_cons.mp h
    cases parts with
    | nil => simpa [separatedBy] using hpart
    | cons next parts =>
      simp only [List.map_cons, separatedBy_cons_cons]
      exact hpart.append (Scans.mark rfl (ih hparts)) fun rest _ => delimited_mark (.inl rfl) _

/-- Parts between brackets. -/
theorem Scans.enclosed {c d : CodePoint} {opening closing : JsonToken}
    (hc : step .between c = some ([opening], .between)) (hd : step .between d = some ([closing], .between))
    (hdelimited : ∀ rest, Delimited (d :: rest)) {text : Str} {tokens : List JsonToken}
    (h : Scans text tokens) : Scans (c :: (text ++ [d])) (opening :: (tokens ++ [closing])) :=
  .mark hc (h.append (.mark hd (.spacing fun _ hc => absurd hc List.not_mem_nil)) fun rest _ => hdelimited rest)

private theorem scans_member {member : MemberText} (hbefore : IsSpacing member.before)
    (hkey : StringText member.keyText member.key) (hafter : IsSpacing member.after)
    (hitem : Scans member.item.padded member.item.value.tokens) :
    Scans member.padded (memberTokens member.member) := by
  have hcolon : Scans (ord ':' :: member.item.padded) (.colon :: member.item.value.tokens) := .mark rfl hitem
  have hname := (Scans.token (.string hkey)).append (Scans.spacing hafter) fun rest hrest =>
    delimited_spacing hafter hrest
  intro rest hrest
  rw [MemberText.padded, List.append_assoc, scanFrom_spacing hbefore, ← List.append_assoc member.keyText]
  exact hname.append hcolon (fun rest _ => delimited_mark (by simp) _) rest hrest

/-- The scanner finds in the text of a value its tokens. -/
theorem scans_valueText {text : Str} {value : Json} (h : ValueText text value) :
    Scans text value.tokens := by
  induction h with
  | null => exact .token .null
  | true => exact .token .true
  | false => exact .token .false
  | number h => exact .token (.number h)
  | string h => exact .token (.string h)
  | emptyArray hw =>
    exact .enclosed rfl rfl (fun rest => delimited_mark (by simp) rest) (.spacing hw)
  | @array items _ hspacing _ ih =>
    rw [Json.tokens_array, List.map_map]
    refine .enclosed rfl rfl (fun rest => delimited_mark (by simp) rest) (.separated fun item hitem => ?_)
    exact .padded (hspacing item hitem).1 (ih item hitem) (hspacing item hitem).2
  | emptyObject hw =>
    exact .enclosed rfl rfl (fun rest => delimited_mark (by simp) rest) (.spacing hw)
  | @object members _ hspacing hkeys _ ih =>
    rw [Json.tokens_object, List.map_map]
    refine .enclosed rfl rfl (fun rest => delimited_mark (by simp) rest) (.separated fun member hmember => ?_)
    obtain ⟨hbefore, hafter, hitem, hend⟩ := hspacing member hmember
    exact scans_member hbefore (hkeys member hmember) hafter (.padded hitem (ih member hmember) hend)

theorem scanFrom_of_jsonText {text : Str} {value : Json} (h : JsonText text value) :
    scanFrom .between text = some value.tokens := by
  obtain ⟨hbefore, hvalue, hafter⟩ := h
  have hscan := Scans.padded hbefore (scans_valueText hvalue) hafter [] delimited_nil
  rw [List.append_nil] at hscan
  rw [hscan, scanFrom, finish, Option.map_some, List.append_nil]

end Completeness

section Soundness

/-- The token of a mark has the mark as its only text. -/
def MarkToken (c : CodePoint) (token : JsonToken) : Prop := ∀ text, TokenText text token → text = [c]

theorem Lexed.uncons {text : Str} {token : JsonToken} {more : List JsonToken}
    (h : Lexed text (token :: more)) :
    ∃ w part rest, text = w ++ (part ++ rest) ∧ IsSpacing w ∧ TokenText part token ∧ Lexed rest more := by
  cases h with
  | token hw ht h => exact ⟨_, _, _, rfl, hw, ht, h⟩

theorem Lexed.unmark {c : CodePoint} {token : JsonToken} (hc : MarkToken c token) {text : Str}
    {more : List JsonToken} (h : Lexed text (token :: more)) :
    ∃ w rest, text = w ++ c :: rest ∧ IsSpacing w ∧ Lexed rest more := by
  obtain ⟨w, part, rest, rfl, hw, ht, hrest⟩ := h.uncons
  obtain rfl := hc part ht
  exact ⟨w, rest, rfl, hw, hrest⟩

/-- What is cut into the tokens of a value begins with a text of it. -/
def Recovers (value : Json) : Prop :=
  ∀ {text : Str} {more : List JsonToken}, Lexed text (value.tokens ++ more) →
    ∃ w part rest, text = w ++ (part ++ rest) ∧ IsSpacing w ∧ ValueText part value ∧ Lexed rest more

theorem recovers_scalar {value : Json} {token : JsonToken} (htokens : value.tokens = [token])
    (h : ∀ text, TokenText text token → ValueText text value) : Recovers value := by
  intro text more hlexed
  rw [htokens] at hlexed
  obtain ⟨w, part, rest, htext, hw, ht, hrest⟩ := hlexed.uncons
  exact ⟨w, part, rest, htext, hw, h part ht, hrest⟩

/-- Parts with commas between them, each recovered with the mark that follows it. -/
theorem lexed_separated {α β : Type} {tokensOf : α → List JsonToken} (partOf : β → α) (textOf : β → Str)
    (Good : β → Prop) {c : CodePoint} {closing : JsonToken} (hclosing : MarkToken c closing)
    {more : List JsonToken} {first : α} {parts : List α}
    (h : ∀ part ∈ first :: parts, ∀ {mark : CodePoint} {token : JsonToken} {text : Str} {more : List JsonToken},
      MarkToken mark token → Lexed text (tokensOf part ++ token :: more) →
      ∃ found rest, text = textOf found ++ mark :: rest ∧ partOf found = part ∧ Good found ∧ Lexed rest more)
    {text : Str}
    (hlexed : Lexed text (separatedBy .comma ((first :: parts).map tokensOf) ++ closing :: more)) :
    ∃ (found : List β) (rest : Str), text = separatedBy (ord ',') (found.map textOf) ++ c :: rest ∧
      found.map partOf = first :: parts ∧ (∀ f ∈ found, Good f) ∧ Lexed rest more := by
  induction parts generalizing first text with
  | nil =>
    have hlast : Lexed text (tokensOf first ++ closing :: more) := by simpa [separatedBy] using hlexed
    obtain ⟨found, rest, rfl, hpart, hgood, hrest⟩ := h first List.mem_cons_self hclosing hlast
    refine ⟨[found], rest, ?_, by rw [List.map_singleton, hpart], ?_, hrest⟩
    · simp [separatedBy]
    · exact List.forall_mem_singleton.mpr hgood
  | cons second parts ih =>
    have hcomma : MarkToken (ord ',') .comma := fun _ ht => by cases ht; rfl
    obtain ⟨hfirst, hparts⟩ := List.forall_mem_cons.mp h
    simp only [List.map_cons, separatedBy_cons_cons, List.append_assoc, List.cons_append] at hlexed
    obtain ⟨found, rest, rfl, hpart, hgood, hrest⟩ := hfirst hcomma hlexed
    obtain ⟨others, rest, rfl, hothers, hall, hlast⟩ := ih hparts hrest
    refine ⟨found :: others, rest, ?_, by rw [List.map_cons, hpart, hothers],
      List.forall_mem_cons.mpr ⟨hgood, hall⟩, hlast⟩
    cases others with
    | nil => cases hothers
    | cons other others => simp only [List.map_cons, separatedBy_cons_cons, List.append_assoc, List.cons_append]

private theorem itemText_of_recovers {items : List Json} (ih : ∀ item ∈ items, Recovers item) :
    ∀ item ∈ items, ∀ {mark : CodePoint} {token : JsonToken} {text : Str} {more : List JsonToken},
      MarkToken mark token → Lexed text (item.tokens ++ token :: more) →
      ∃ (found : ItemText) (rest : Str), text = found.padded ++ mark :: rest ∧ found.value = item ∧
        ((IsSpacing found.before ∧ IsSpacing found.after) ∧ ValueText found.text found.value) ∧
        Lexed rest more := by
  intro item hitem mark token text more hmark hlexed
  obtain ⟨before, part, rest, rfl, hbefore, hpart, hrest⟩ := ih item hitem hlexed
  obtain ⟨after, rest, rfl, hafter, hrest⟩ := hrest.unmark hmark
  exact ⟨⟨before, part, after, item⟩, rest, by simp [ItemText.padded], rfl,
    ⟨⟨hbefore, hafter⟩, hpart⟩, hrest⟩

private theorem recovers_array {items : List Json} (ih : ∀ item ∈ items, Recovers item) :
    Recovers (.array items) := by
  intro text more hlexed
  have hopen : MarkToken (ord '[') .openBracket := fun _ ht => by cases ht; rfl
  have hclose : MarkToken (ord ']') .closeBracket := fun _ ht => by cases ht; rfl
  rw [Json.tokens_array, List.cons_append, List.append_assoc] at hlexed
  obtain ⟨w, rest, rfl, hw, hrest⟩ := hlexed.unmark hopen
  cases items with
  | nil =>
    obtain ⟨inner, rest, rfl, hinner, hrest⟩ := Lexed.unmark hclose hrest
    exact ⟨w, _, rest, by simp, hw, .emptyArray hinner, hrest⟩
  | cons first items =>
    obtain ⟨found, rest, rfl, hvalues, hgood, hrest⟩ := lexed_separated ItemText.value ItemText.padded
      (fun item => (IsSpacing item.before ∧ IsSpacing item.after) ∧ ValueText item.text item.value)
      hclose (itemText_of_recovers ih) hrest
    have hne : found ≠ [] := by
      rintro rfl
      cases hvalues
    have hvalue := ValueText.array hne (fun item h => (hgood item h).1) (fun item h => (hgood item h).2)
    rw [hvalues] at hvalue
    exact ⟨w, _, rest, by simp, hw, hvalue, hrest⟩

private theorem memberText_of_recovers {members : List (Str × Json)}
    (ih : ∀ member ∈ members, Recovers member.2) :
    ∀ member ∈ members, ∀ {mark : CodePoint} {token : JsonToken} {text : Str} {more : List JsonToken},
      MarkToken mark token → Lexed text (memberTokens member ++ token :: more) →
      ∃ (found : MemberText) (rest : Str), text = found.padded ++ mark :: rest ∧ found.member = member ∧
        ((IsSpacing found.before ∧ IsSpacing found.after ∧ IsSpacing found.item.before ∧
          IsSpacing found.item.after) ∧ StringText found.keyText found.key ∧
          ValueText found.item.text found.item.value) ∧ Lexed rest more := by
  intro member hmember mark token text more hmark hlexed
  have hcolon : MarkToken (ord ':') .colon := fun _ ht => by cases ht; rfl
  obtain ⟨before, keyText, rest, rfl, hbefore, hkey, hrest⟩ := Lexed.uncons hlexed
  obtain ⟨after, rest, rfl, hafter, hrest⟩ := Lexed.unmark hcolon hrest
  obtain ⟨found, rest, rfl, hvalue, ⟨⟨hitem, hend⟩, htext⟩, hrest⟩ :=
    itemText_of_recovers (List.forall_mem_singleton.mpr (ih member hmember)) member.2
      (List.mem_singleton_self _) hmark hrest
  have hkey : StringText keyText member.1 := by
    cases hkey with
    | string h => exact h
  refine ⟨⟨before, keyText, member.1, after, found⟩, rest, by simp [MemberText.padded], ?_,
    ⟨⟨hbefore, hafter, hitem, hend⟩, hkey, htext⟩, hrest⟩
  rw [MemberText.member, hvalue]

private theorem recovers_object {members : List (Str × Json)}
    (ih : ∀ member ∈ members, Recovers member.2) : Recovers (.object members) := by
  intro text more hlexed
  have hopen : MarkToken (ord '{') .openBrace := fun _ ht => by cases ht; rfl
  have hclose : MarkToken (ord '}') .closeBrace := fun _ ht => by cases ht; rfl
  rw [Json.tokens_object, List.cons_append, List.append_assoc] at hlexed
  obtain ⟨w, rest, rfl, hw, hrest⟩ := hlexed.unmark hopen
  cases members with
  | nil =>
    obtain ⟨inner, rest, rfl, hinner, hrest⟩ := Lexed.unmark hclose hrest
    exact ⟨w, _, rest, by simp, hw, .emptyObject hinner, hrest⟩
  | cons first members =>
    obtain ⟨found, rest, rfl, hvalues, hgood, hrest⟩ := lexed_separated MemberText.member MemberText.padded
      (fun member => (IsSpacing member.before ∧ IsSpacing member.after ∧ IsSpacing member.item.before ∧
        IsSpacing member.item.after) ∧ StringText member.keyText member.key ∧
        ValueText member.item.text member.item.value)
      hclose (memberText_of_recovers ih) hrest
    have hne : found ≠ [] := by
      rintro rfl
      cases hvalues
    have hvalue := ValueText.object hne (fun member h => (hgood member h).1)
      (fun member h => (hgood member h).2.1) (fun member h => (hgood member h).2.2)
    rw [hvalues] at hvalue
    exact ⟨w, _, rest, by simp, hw, hvalue, hrest⟩

theorem recovers (value : Json) : Recovers value := by
  induction value using Json.parts_induction with
  | null => exact recovers_scalar rfl fun _ ht => by cases ht; exact .null
  | bool b =>
    cases b with
    | false => exact recovers_scalar rfl fun _ ht => by cases ht; exact .false
    | true => exact recovers_scalar rfl fun _ ht => by cases ht; exact .true
  | number lexeme => exact recovers_scalar rfl fun _ ht => by cases ht with | number h => exact .number h
  | string s => exact recovers_scalar rfl fun _ ht => by cases ht with | string h => exact .string h
  | array items ih => exact recovers_array ih
  | object members ih => exact recovers_object ih

/-- The tokens of a value are found in its texts only. -/
theorem scanFrom_eq_tokens {text : Str} {value : Json} :
    scanFrom .between text = some value.tokens ↔ JsonText text value := by
  refine ⟨fun h => ?_, scanFrom_of_jsonText⟩
  have hlexed := lexed_of_scanFrom h
  rw [← List.append_nil value.tokens] at hlexed
  obtain ⟨w, part, rest, rfl, hw, hpart, hrest⟩ := recovers value hlexed
  cases hrest with
  | done hrest => exact .mk hw hpart hrest

end Soundness
end AgenticRag.Python

import AgenticRag.Python.JsonText
import AgenticRag.Retrieval.ChromaDecoding

/-! The depth scanner follows the containers of a JSON text without parsing it: it refuses a text
at the character that opens the first container of depth 17, and no other text. -/
namespace AgenticRag.Retrieval
open Lib Python
open JsonScanner (isWhitespace isDigit isExponentMark hexValue)

section Opening

/-- `before` is what stands in the text of a value before the character that opens its first
container at a depth of more than `n`. -/
inductive FirstBeyond : Nat → Str → Json → Str → Prop where
  | array {rest : Str} {items : List Json} (h : ValueText (ord '[' :: rest) (.array items)) :
      FirstBeyond 0 (ord '[' :: rest) (.array items) []
  | object {rest : Str} {members : List (Str × Json)} (h : ValueText (ord '{' :: rest) (.object members)) :
      FirstBeyond 0 (ord '{' :: rest) (.object members) []
  | item {n : Nat} {shallow later : List ItemText} {item : ItemText} {before : Str}
      (hspacing : ∀ i ∈ shallow ++ item :: later, IsSpacing i.before ∧ IsSpacing i.after)
      (hitems : ∀ i ∈ shallow ++ item :: later, ValueText i.text i.value)
      (hshallow : ∀ i ∈ shallow, i.value.depth ≤ n) (h : FirstBeyond n item.text item.value before) :
      FirstBeyond (n + 1)
        (ord '[' :: (separatedBy (ord ',') ((shallow ++ item :: later).map ItemText.padded) ++ [ord ']']))
        (.array ((shallow ++ item :: later).map ItemText.value))
        (ord '[' :: ((shallow.map ItemText.padded).flatMap (fun text => text ++ [ord ',']) ++
          (item.before ++ before)))
  | member {n : Nat} {shallow later : List MemberText} {member : MemberText} {before : Str}
      (hspacing : ∀ m ∈ shallow ++ member :: later, IsSpacing m.before ∧ IsSpacing m.after ∧
        IsSpacing m.item.before ∧ IsSpacing m.item.after)
      (hkeys : ∀ m ∈ shallow ++ member :: later, StringText m.keyText m.key)
      (hitems : ∀ m ∈ shallow ++ member :: later, ValueText m.item.text m.item.value)
      (hshallow : ∀ m ∈ shallow, m.item.value.depth ≤ n)
      (h : FirstBeyond n member.item.text member.item.value before) :
      FirstBeyond (n + 1)
        (ord '{' :: (separatedBy (ord ',') ((shallow ++ member :: later).map MemberText.padded) ++ [ord '}']))
        (.object ((shallow ++ member :: later).map MemberText.member))
        (ord '{' :: ((shallow.map MemberText.padded).flatMap (fun text => text ++ [ord ',']) ++
          (member.before ++ (member.keyText ++ (member.after ++ ord ':' :: (member.item.before ++ before))))))

/-- The same for a whole text, with the whitespace in front of the value. -/
inductive JsonText.FirstBeyond (n : Nat) : Str → Json → Str → Prop where
  | mk {spacing text after before : Str} {value : Json} (hspacing : IsSpacing spacing)
      (hafter : IsSpacing after) (h : Retrieval.FirstBeyond n text value before) :
      JsonText.FirstBeyond n (spacing ++ (text ++ after)) value (spacing ++ before)

end Opening

namespace JsonDepthScanner

/-- Between two tokens inside the given containers. -/
def within (containers : Str) : JsonDepthScanner := ⟨containers, false, false⟩

theorem feed_append {scanner next : JsonDepthScanner} {a : Str} (h : scanner.feed a = .ok next)
    (b : Str) : scanner.feed (a ++ b) = next.feed b := by
  rw [feed, List.foldlM_append]
  exact congrArg (fun result => result >>= fun scanner => scanner.feed b) h

theorem feed_cons {scanner next : JsonDepthScanner} {c : CodePoint} (h : scanner.read c = .ok next)
    (text : Str) : scanner.feed (c :: text) = next.feed text := by
  rw [feed, List.foldlM_cons, h]
  rfl

/-- Two texts that change nothing, one after the other. -/
theorem feed_append_ok {scanner : JsonDepthScanner} {a b : Str} (ha : scanner.feed a = .ok scanner)
    (hb : scanner.feed b = .ok scanner) : scanner.feed (a ++ b) = .ok scanner := by
  rw [feed_append ha]
  exact hb

section Lexical
variable {containers : Str}

/-- No quotation mark and no bracket. -/
def Plain (c : CodePoint) : Prop :=
  c ≠ ord '"' ∧ c ≠ ord '[' ∧ c ≠ ord '{' ∧ c ≠ ord ']' ∧ c ≠ ord '}'

instance (c : CodePoint) : Decidable (Plain c) :=
  inferInstanceAs (Decidable (_ ∧ _ ∧ _ ∧ _ ∧ _))

theorem plain_of {p : CodePoint → Bool} {c : CodePoint} (h : p c = true) (hquote : p (ord '"') = false)
    (hopen : p (ord '[') = false ∧ p (ord '{') = false)
    (hclose : p (ord ']') = false ∧ p (ord '}') = false) : Plain c := by
  have hne : ∀ d, p d = false → c ≠ d := by
    rintro d hd rfl
    rw [h] at hd
    cases hd
  exact ⟨hne _ hquote, hne _ hopen.1, hne _ hopen.2, hne _ hclose.1, hne _ hclose.2⟩

theorem plain_whitespace {c : CodePoint} (h : isWhitespace c = true) : Plain c :=
  plain_of h (by decide) (by decide) (by decide)

theorem plain_digit {c : CodePoint} (h : isDigit c = true) : Plain c :=
  plain_of h (by decide) (by decide) (by decide)

theorem plain_exponentMark {c : CodePoint} (h : isExponentMark c = true) : Plain c :=
  plain_of h (by decide) (by decide) (by decide)

theorem feed_plain {text : Str} (h : ∀ c ∈ text, Plain c) :
    (within containers).feed text = .ok (within containers) := by
  induction text with
  | nil => rfl
  | cons c text ih =>
    obtain ⟨⟨hquote, hbracket, hbrace, hbracket', hbrace'⟩, htext⟩ := List.forall_mem_cons.mp h
    have hread : (within containers).read c = .ok (within containers) := by
      rw [read, if_neg (by simp [within]), if_neg hquote, if_neg (not_or.mpr ⟨hbracket, hbrace⟩),
        if_neg (not_or.mpr ⟨hbracket', hbrace'⟩)]
    rw [feed_cons hread]
    exact ih htext

theorem feed_spacing {w : Str} (h : IsSpacing w) :
    (within containers).feed w = .ok (within containers) :=
  feed_plain fun c hc => plain_whitespace (h c hc)

private theorem plain_digits {ds : Str} (h : IsDigits ds) : ∀ c ∈ ds, Plain c :=
  fun c hc => plain_digit (h c hc)

private theorem plain_magnitude {text : Str} (h : MagnitudeText text) : ∀ c ∈ text, Plain c := by
  obtain ⟨hint, hfraction, hexponent⟩ := h
  intro c hc
  rcases List.mem_append.mp hc with hc | hc
  · cases hint with
    | zero =>
      obtain rfl := List.mem_singleton.mp hc
      decide
    | digits hd _ hds =>
      rcases List.mem_cons.mp hc with rfl | hc
      · exact plain_digit hd
      · exact plain_digits hds c hc
  rcases List.mem_append.mp hc with hc | hc
  · cases hfraction with
    | absent => cases hc
    | present _ hds =>
      rcases List.mem_cons.mp hc with rfl | hc
      · decide
      · exact plain_digits hds c hc
  · cases hexponent with
    | absent => cases hc
    | present hmark hds =>
      rcases List.mem_cons.mp hc with rfl | hc
      · exact plain_exponentMark hmark
      · cases hds with
        | unsigned _ hds => exact plain_digits hds c hc
        | signed hsign _ hds =>
          rcases List.mem_cons.mp hc with rfl | hc
          · rcases hsign with rfl | rfl <;> decide
          · exact plain_digits hds c hc

theorem plain_number {text : Str} (h : NumberText text) : ∀ c ∈ text, Plain c := by
  cases h with
  | positive h => exact plain_magnitude h
  | negative h =>
    intro c hc
    rcases List.mem_cons.mp hc with rfl | hc
    · decide
    · exact plain_magnitude h c hc

/-- Inside a string. -/
def quoted (containers : Str) : JsonDepthScanner := ⟨containers, true, false⟩

private theorem read_quoted {c : CodePoint} (hquote : c ≠ ord '"') (hescape : c ≠ ord '\\') :
    (quoted containers).read c = .ok (quoted containers) := by
  simp [read, quoted, hescape, hquote]

private theorem hexValue_ne {c : CodePoint} {d : Nat} (h : hexValue c = some d) :
    c ≠ ord '"' ∧ c ≠ ord '\\' := by
  constructor
  · rintro rfl
    revert h
    exact fun h => nomatch h
  · rintro rfl
    revert h
    exact fun h => nomatch h

/-- An escape hides the character after the backslash. -/
private theorem feed_escape (c : CodePoint) (text : Str) :
    (quoted containers).feed (ord '\\' :: c :: text) = (quoted containers).feed text := by
  have hescape : (quoted containers).read (ord '\\') = .ok ⟨containers, true, true⟩ := rfl
  have hnext : read ⟨containers, true, true⟩ c = .ok (quoted containers) := rfl
  rw [feed_cons hescape, feed_cons hnext]

theorem feed_unit {text : Str} {unit : StringUnit} (h : UnitText text unit) :
    (quoted containers).feed text = .ok (quoted containers) := by
  have hex {c : CodePoint} {d : Nat} (h : hexValue c = some d) :
      (quoted containers).read c = .ok (quoted containers) :=
    read_quoted (hexValue_ne h).1 (hexValue_ne h).2
  cases h with
  | unescaped _ hquote hescape =>
    rw [feed_cons (read_quoted hquote hescape)]
    rfl
  | escaped =>
    rw [feed_escape]
    rfl
  | unicode h₁ h₂ h₃ h₄ =>
    rw [feed_escape, feed_cons (hex h₁), feed_cons (hex h₂), feed_cons (hex h₃), feed_cons (hex h₄)]
    rfl

/-- A string leaves the scanner where it was, whatever stands in it. -/
theorem feed_string {text s : Str} (h : StringText text s) :
    (within containers).feed text = .ok (within containers) := by
  cases h with
  | @mk units hunits =>
    have hinner : (quoted containers).feed (units.flatMap Prod.fst) = .ok (quoted containers) := by
      induction units with
      | nil => rfl
      | cons unit units ih =>
        obtain ⟨hunit, hunits⟩ := List.forall_mem_cons.mp hunits
        rw [List.flatMap_cons]
        exact feed_append_ok (feed_unit hunit) (ih hunits)
    have hopen : (within containers).read (ord '"') = .ok (quoted containers) := rfl
    rw [feed_cons hopen, feed_append hinner]
    rfl

end Lexical

section Values
variable {containers : Str}

/-- The two kinds of containers, by the characters around them. -/
inductive Brackets : CodePoint → CodePoint → Prop where
  | array : Brackets (ord '[') (ord ']')
  | object : Brackets (ord '{') (ord '}')

theorem read_open {opener closer : CodePoint} (h : Brackets opener closer)
    (hlen : containers.length < maxJsonDepth) :
    (within containers).read opener = .ok (within (opener :: containers)) := by
  cases h with
  | array => exact if_neg (not_le.mpr hlen)
  | object => exact if_neg (not_le.mpr hlen)

/-- The container that is one too many. -/
theorem read_open_full {opener closer : CodePoint} (h : Brackets opener closer)
    (hlen : containers.length = maxJsonDepth) :
    (within containers).read opener = .error .denseProvider := by
  cases h with
  | array => exact if_pos hlen.ge
  | object => exact if_pos hlen.ge

theorem read_close {opener closer : CodePoint} (h : Brackets opener closer) :
    (within (opener :: containers)).read closer = .ok (within containers) := by
  cases h with
  | array => rfl
  | object => rfl

theorem feed_container {opener closer : CodePoint} (h : Brackets opener closer)
    (hlen : containers.length < maxJsonDepth) {inner : Str}
    (hinner : (within (opener :: containers)).feed inner = .ok (within (opener :: containers))) :
    (within containers).feed (opener :: (inner ++ [closer])) = .ok (within containers) := by
  rw [feed_cons (read_open h hlen), feed_append hinner]
  exact feed_cons (read_close h) []

private theorem feed_flatMap {scanner : JsonDepthScanner} {parts : List Str} {f : Str → Str}
    (h : ∀ part ∈ parts, scanner.feed (f part) = .ok scanner) :
    scanner.feed (parts.flatMap f) = .ok scanner := by
  induction parts with
  | nil => rfl
  | cons part parts ih =>
    obtain ⟨hpart, hparts⟩ := List.forall_mem_cons.mp h
    rw [List.flatMap_cons]
    exact feed_append_ok hpart (ih hparts)

theorem feed_comma : (within containers).feed [ord ','] = .ok (within containers) := rfl

theorem feed_separated {parts : List Str}
    (h : ∀ part ∈ parts, (within containers).feed part = .ok (within containers)) :
    (within containers).feed (separatedBy (ord ',') parts) = .ok (within containers) := by
  cases parts with
  | nil => rfl
  | cons first rest =>
    obtain ⟨hfirst, hrest⟩ := List.forall_mem_cons.mp h
    refine feed_append_ok hfirst (feed_flatMap fun part hpart => ?_)
    exact feed_append_ok (a := [ord ',']) feed_comma (hrest part hpart)

theorem feed_item {item : ItemText} (hspacing : IsSpacing item.before ∧ IsSpacing item.after)
    (h : (within containers).feed item.text = .ok (within containers)) :
    (within containers).feed item.padded = .ok (within containers) :=
  feed_append_ok (feed_spacing hspacing.1) (feed_append_ok h (feed_spacing hspacing.2))

/-- The key of a member up to the colon. -/
theorem feed_key {member : MemberText} (hbefore : IsSpacing member.before)
    (hkey : StringText member.keyText member.key) (hafter : IsSpacing member.after) (text : Str) :
    (within containers).feed (member.before ++ (member.keyText ++ (member.after ++ ord ':' :: text))) =
      (within containers).feed text := by
  rw [feed_append (feed_spacing hbefore), feed_append (feed_string hkey), feed_append (feed_spacing hafter)]
  rfl

/-- Which text a value has does not matter: when its containers fit, the scanner is after it
where it was before it. -/
theorem feed_value {text : Str} {value : Json} (h : ValueText text value)
    (hdepth : containers.length + value.depth ≤ maxJsonDepth) :
    (within containers).feed text = .ok (within containers) := by
  induction h generalizing containers with
  | null => rfl
  | true => rfl
  | false => rfl
  | number h => exact feed_plain (plain_number h)
  | string h => exact feed_string h
  | emptyArray hw =>
    rw [Json.depth] at hdepth
    exact feed_container .array (by omega) (feed_spacing hw)
  | emptyObject hw =>
    rw [Json.depth] at hdepth
    exact feed_container .object (by omega) (feed_spacing hw)
  | @array items _ hspacing _ ih =>
    rw [Json.depth] at hdepth
    refine feed_container .array (by omega) (feed_separated fun part hpart => ?_)
    obtain ⟨item, hitem, rfl⟩ := List.mem_map.mp hpart
    have hle := Json.itemsDepth_le.mp (Nat.le_refl _) item.value (List.mem_map_of_mem hitem)
    refine feed_item (hspacing item hitem) (ih item hitem ?_)
    rw [List.length_cons]
    omega
  | @object members _ hspacing hkeys _ ih =>
    rw [Json.depth] at hdepth
    refine feed_container .object (by omega) (feed_separated fun part hpart => ?_)
    obtain ⟨member, hmember, rfl⟩ := List.mem_map.mp hpart
    obtain ⟨hbefore, hafter, hitem⟩ := hspacing member hmember
    have hle : member.item.value.depth ≤ Json.membersDepth (members.map MemberText.member) :=
      Json.membersDepth_le.mp (Nat.le_refl _) member.member (List.mem_map_of_mem hmember)
    rw [MemberText.padded, feed_key hbefore (hkeys member hmember) hafter]
    refine feed_item hitem (ih member hmember ?_)
    rw [List.length_cons]
    omega

/-- A text of a value with a container too many is read as far as to that container. -/
theorem feed_firstBeyond {n : Nat} {text before : Str} {value : Json} (h : FirstBeyond n text value before)
    (hlen : containers.length + n = maxJsonDepth) :
    ∃ deep opener closer after, text = before ++ opener :: after ∧ Brackets opener closer ∧
      deep.length = maxJsonDepth ∧ (within containers).feed before = .ok (within deep) := by
  induction h generalizing containers with
  | array => exact ⟨containers, _, _, _, rfl, .array, hlen, rfl⟩
  | object => exact ⟨containers, _, _, _, rfl, .object, hlen, rfl⟩
  | @item n shallow later item before hspacing hitems hshallow _ ih =>
    have hnext : (ord '[' :: containers).length + n = maxJsonDepth := by
      rw [List.length_cons]
      omega
    obtain ⟨deep, opener, closer, after, htext, hbrackets, hdeep, hfeed⟩ := ih hnext
    have hearlier : ∀ part ∈ shallow.map ItemText.padded,
        (within (ord '[' :: containers)).feed (part ++ [ord ',']) = .ok (within (ord '[' :: containers)) := by
      intro part hpart
      obtain ⟨i, hi, rfl⟩ := List.mem_map.mp hpart
      have hmem := List.mem_append_left (item :: later) hi
      have hle := hshallow i hi
      exact feed_append_ok (feed_item (hspacing i hmem) (feed_value (hitems i hmem) (by omega))) feed_comma
    have hmem : item ∈ shallow ++ item :: later := List.mem_append_right _ List.mem_cons_self
    refine ⟨deep, opener, closer, after ++ (item.after ++
      ((later.map ItemText.padded).flatMap (fun part => ord ',' :: part) ++ [ord ']'])),
      ?_, hbrackets, hdeep, ?_⟩
    · rw [List.map_append, List.map_cons, separatedBy_middle, ItemText.padded, htext]
      simp only [List.cons_append, List.append_assoc]
    · rw [feed_cons (read_open .array (by omega)), feed_append (feed_flatMap hearlier),
        feed_append (feed_spacing (hspacing item hmem).1), hfeed]
  | @member n shallow later member before hspacing hkeys hitems hshallow _ ih =>
    have hnext : (ord '{' :: containers).length + n = maxJsonDepth := by
      rw [List.length_cons]
      omega
    obtain ⟨deep, opener, closer, after, htext, hbrackets, hdeep, hfeed⟩ := ih hnext
    have hearlier : ∀ part ∈ shallow.map MemberText.padded,
        (within (ord '{' :: containers)).feed (part ++ [ord ',']) = .ok (within (ord '{' :: containers)) := by
      intro part hpart
      obtain ⟨m, hm, rfl⟩ := List.mem_map.mp hpart
      have hmem := List.mem_append_left (member :: later) hm
      have hle := hshallow m hm
      obtain ⟨hbefore, hafter, hitem⟩ := hspacing m hmem
      refine feed_append_ok ?_ feed_comma
      rw [MemberText.padded, feed_key hbefore (hkeys m hmem) hafter]
      exact feed_item hitem (feed_value (hitems m hmem) (by omega))
    have hmem : member ∈ shallow ++ member :: later := List.mem_append_right _ List.mem_cons_self
    obtain ⟨hbefore, hafter, hitem⟩ := hspacing member hmem
    refine ⟨deep, opener, closer, after ++ (member.item.after ++
      ((later.map MemberText.padded).flatMap (fun part => ord ',' :: part) ++ [ord '}'])),
      ?_, hbrackets, hdeep, ?_⟩
    · rw [List.map_append, List.map_cons, separatedBy_middle, MemberText.padded, ItemText.padded, htext]
      simp only [List.cons_append, List.append_assoc]
    · rw [feed_cons (read_open .object (by omega)), feed_append (feed_flatMap hearlier),
        feed_key hbefore (hkeys member hmem) hafter, feed_append (feed_spacing hitem.1), hfeed]

end Values
end JsonDepthScanner

section Existence

private theorem exists_first {α : Type} {P : α → Prop} {xs : List α} (h : ¬∀ a ∈ xs, P a) :
    ∃ before a after, xs = before ++ a :: after ∧ (∀ b ∈ before, P b) ∧ ¬P a := by
  induction xs with
  | nil => exact absurd (fun a ha => absurd ha List.not_mem_nil) h
  | cons a xs ih =>
    by_cases ha : P a
    · have hrest : ¬∀ b ∈ xs, P b := fun hall => h (List.forall_mem_cons.mpr ⟨ha, hall⟩)
      obtain ⟨before, b, after, rfl, hbefore, hb⟩ := ih hrest
      exact ⟨a :: before, b, after, rfl, List.forall_mem_cons.mpr ⟨ha, hbefore⟩, hb⟩
    · exact ⟨[], a, xs, rfl, fun b hb => absurd hb List.not_mem_nil, ha⟩

theorem exists_firstBeyond {text : Str} {value : Json} (h : ValueText text value) {n : Nat}
    (hdeep : n < value.depth) : ∃ before, FirstBeyond n text value before := by
  induction h generalizing n with
  | null => exact absurd hdeep (Nat.not_lt_zero _)
  | true => exact absurd hdeep (Nat.not_lt_zero _)
  | false => exact absurd hdeep (Nat.not_lt_zero _)
  | number => exact absurd hdeep (Nat.not_lt_zero _)
  | string => exact absurd hdeep (Nat.not_lt_zero _)
  | emptyArray hw =>
    obtain rfl := Nat.lt_one_iff.mp hdeep
    exact ⟨_, .array (.emptyArray hw)⟩
  | emptyObject hw =>
    obtain rfl := Nat.lt_one_iff.mp hdeep
    exact ⟨_, .object (.emptyObject hw)⟩
  | @array items hne hspacing hitems ih =>
    cases n with
    | zero => exact ⟨_, .array (.array hne hspacing hitems)⟩
    | succ n =>
      have hnot : ¬∀ item ∈ items, item.value.depth ≤ n := by
        intro hall
        have hle : Json.itemsDepth (items.map ItemText.value) ≤ n :=
          Json.itemsDepth_le.mpr (List.forall_mem_map.mpr hall)
        rw [Json.depth] at hdeep
        omega
      obtain ⟨shallow, item, later, rfl, hshallow, hitem⟩ := exists_first hnot
      obtain ⟨before, hbefore⟩ := ih item (List.mem_append_right _ List.mem_cons_self) (not_le.mp hitem)
      exact ⟨_, .item hspacing hitems hshallow hbefore⟩
  | @object members hne hspacing hkeys hitems ih =>
    cases n with
    | zero => exact ⟨_, .object (.object hne hspacing hkeys hitems)⟩
    | succ n =>
      have hnot : ¬∀ member ∈ members, member.item.value.depth ≤ n := by
        intro hall
        have hle : Json.membersDepth (members.map MemberText.member) ≤ n :=
          Json.membersDepth_le.mpr (List.forall_mem_map.mpr hall)
        rw [Json.depth] at hdeep
        omega
      obtain ⟨shallow, member, later, rfl, hshallow, hmember⟩ := exists_first hnot
      obtain ⟨before, hbefore⟩ := ih member (List.mem_append_right _ List.mem_cons_self) (not_le.mp hmember)
      exact ⟨_, .member hspacing hkeys hitems hshallow hbefore⟩

end Existence

section Parts
open JsonDepthScanner (within)

/-- The scanner on a text that is fed in parts. -/
def scanParts (parts : List Str) : Except RetrievalException Unit := do
  let scanner ← parts.foldlM JsonDepthScanner.feed .empty
  scanner.finish

theorem feed_parts (scanner : JsonDepthScanner) (parts : List Str) :
    parts.foldlM JsonDepthScanner.feed scanner = scanner.feed parts.flatten := by
  induction parts generalizing scanner with
  | nil => rfl
  | cons part parts ih =>
    rw [List.foldlM_cons, List.flatten_cons, JsonDepthScanner.feed, JsonDepthScanner.feed,
      List.foldlM_append]
    exact congrArg (fun f => List.foldlM JsonDepthScanner.read scanner part >>= f) (funext ih)

/-- Fed in parts, the scanner raises at the opening bracket after `before`, having read nothing
beyond. -/
def RaisesAfter (parts : List Str) (before : Str) : Prop :=
  ∃ earlier fed opener unfed later scanner scanner',
    parts = earlier ++ (fed ++ opener :: unfed) :: later ∧ earlier.flatten ++ fed = before ∧
    (opener = ord '[' ∨ opener = ord '{') ∧
    earlier.foldlM JsonDepthScanner.feed .empty = .ok scanner ∧ scanner.feed fed = .ok scanner' ∧
    scanner'.read opener = .error .denseProvider ∧
    scanner.feed (fed ++ opener :: unfed) = .error .denseProvider

private theorem exists_part {parts : List Str} {before after : Str} {c : CodePoint}
    (h : parts.flatten = before ++ c :: after) : ∃ earlier fed unfed later,
      parts = earlier ++ (fed ++ c :: unfed) :: later ∧ earlier.flatten ++ fed = before := by
  induction parts generalizing before with
  | nil => cases before <;> cases h
  | cons part parts ih =>
    rw [List.flatten_cons] at h
    rcases List.append_eq_append_iff.mp h with ⟨rest, rfl, hrest⟩ | ⟨rest, rfl, hrest⟩
    · obtain ⟨earlier, fed, unfed, later, rfl, rfl⟩ := ih hrest
      exact ⟨part :: earlier, fed, unfed, later, rfl, List.append_assoc _ _ _⟩
    · cases rest with
      | nil =>
        have hnone : parts.flatten = [] ++ c :: after := hrest.symm
        obtain ⟨earlier, fed, unfed, later, rfl, hempty⟩ := ih hnone
        refine ⟨(before ++ []) :: earlier, fed, unfed, later, rfl, ?_⟩
        rw [List.flatten_cons, List.append_assoc, hempty, List.append_nil, List.append_nil]
      | cons d rest =>
        obtain ⟨rfl, _⟩ := List.cons.inj hrest
        exact ⟨[], before, rest, parts, rfl, rfl⟩

theorem feed_text {text : Str} {value : Json} (h : JsonText text value)
    (hdepth : value.depth ≤ maxJsonDepth) : JsonDepthScanner.empty.feed text = .ok .empty := by
  obtain ⟨hbefore, hvalue, hafter⟩ := h
  have hlen : ([] : Str).length + value.depth ≤ maxJsonDepth := by
    rwa [List.length_nil, Nat.zero_add]
  exact JsonDepthScanner.feed_append_ok (JsonDepthScanner.feed_spacing hbefore)
    (JsonDepthScanner.feed_append_ok (JsonDepthScanner.feed_value hvalue hlen)
      (JsonDepthScanner.feed_spacing hafter))

theorem raisesAfter_of_firstBeyond {text before : Str} {value : Json}
    (h : JsonText.FirstBeyond maxJsonDepth text value before) {parts : List Str}
    (hparts : parts.flatten = text) : RaisesAfter parts before := by
  cases h with
  | @mk spacing text after before value hspacing hafter h =>
    have hlen : ([] : Str).length + maxJsonDepth = maxJsonDepth := Nat.zero_add _
    obtain ⟨deep, opener, closer, rest, htext, hbrackets, hdeep, hfeed⟩ :=
      JsonDepthScanner.feed_firstBeyond h hlen
    have hread : JsonDepthScanner.empty.feed (spacing ++ before) = .ok (within deep) :=
      (JsonDepthScanner.feed_append (JsonDepthScanner.feed_spacing hspacing) before).trans hfeed
    have hstop := JsonDepthScanner.read_open_full hbrackets hdeep
    rw [htext, List.append_assoc, List.cons_append, ← List.append_assoc] at hparts
    obtain ⟨earlier, fed, unfed, later, rfl, hbefore⟩ := exists_part hparts
    rw [← hbefore, JsonDepthScanner.feed, List.foldlM_append] at hread
    obtain ⟨scanner, hearlier, hfed⟩ := bind_eq_ok.mp hread
    refine ⟨earlier, fed, opener, unfed, later, scanner, within deep, rfl, hbefore, ?_, ?_, hfed, hstop, ?_⟩
    · cases hbrackets with
      | array => exact .inl rfl
      | object => exact .inr rfl
    · rw [feed_parts]
      exact hearlier
    · have hfed' : scanner.feed fed = .ok (within deep) := hfed
      rw [JsonDepthScanner.feed_append hfed', JsonDepthScanner.feed, List.foldlM_cons, hstop]
      rfl

theorem exists_firstBeyond_text {text : Str} {value : Json} (h : JsonText text value)
    (hdeep : maxJsonDepth < value.depth) : ∃ before, JsonText.FirstBeyond maxJsonDepth text value before := by
  obtain ⟨hspacing, hvalue, hafter⟩ := h
  obtain ⟨before, hbefore⟩ := exists_firstBeyond hvalue hdeep
  exact ⟨_, .mk hspacing hafter hbefore⟩

theorem scanParts_ok {text : Str} {value : Json} (h : JsonText text value) {parts : List Str}
    (hparts : parts.flatten = text) : scanParts parts = .ok () ↔ value.depth ≤ maxJsonDepth := by
  constructor
  · intro hscan
    by_contra hdeep
    obtain ⟨before, hbefore⟩ := exists_firstBeyond_text h (not_le.mp hdeep)
    obtain ⟨earlier, fed, opener, unfed, later, scanner, _, rfl, _, _, hearlier, _, _, hraise⟩ :=
      raisesAfter_of_firstBeyond hbefore hparts
    obtain ⟨scanner', hfeed, _⟩ := bind_eq_ok.mp hscan
    rw [List.foldlM_append, hearlier] at hfeed
    obtain ⟨_, hnext, hlater⟩ := bind_eq_ok.mp hfeed
    obtain rfl := Except.ok.inj hnext
    rw [List.foldlM_cons, hraise] at hlater
    cases hlater
  · intro hdepth
    rw [scanParts, feed_parts, hparts, feed_text h hdepth]
    rfl

theorem validateJsonDepth_ok {text : Str} {value : Json} (h : JsonText text value) :
    validateJsonDepth text = .ok () ↔ value.depth ≤ maxJsonDepth := by
  have hparts : [text].flatten = text := List.flatten_singleton
  rw [← scanParts_ok h hparts, scanParts, feed_parts, hparts]
  rfl

/-- The scanner measures the depth that RFC 8259 gives a text, however the text is split. -/
theorem depth_scanner_exact {text : Str} {value : Json} (h : JsonText text value) {parts : List Str}
    (hparts : parts.flatten = text) :
    (scanParts parts = .ok () ↔ value.depth ≤ maxJsonDepth) ∧
    (maxJsonDepth < value.depth → ∃ before, JsonText.FirstBeyond maxJsonDepth text value before) ∧
    ∀ before, JsonText.FirstBeyond maxJsonDepth text value before → RaisesAfter parts before :=
  ⟨scanParts_ok h hparts, exists_firstBeyond_text h,
    fun _ hbefore => raisesAfter_of_firstBeyond hbefore hparts⟩

/-- A quotation mark, a backslash and a bracket inside of a string. -/
theorem depth_scanner_exact_example :
    scanParts [str "[\"\\", str "\"[\"]"] = .ok () ↔ (Json.array [.string (str "\"[")]).depth ≤ maxJsonDepth := by
  have hstring : StringText (str "\"\\\"[\"") (str "\"[") := by
    refine @StringText.mk [(str "\\\"", .char (ord '"')), (str "[", .char (ord '['))] ?_
    intro unit hunit
    rcases List.mem_cons.mp hunit with rfl | hunit
    · exact .escaped rfl
    · obtain rfl := List.mem_singleton.mp hunit
      exact .unescaped (by decide) (by decide) (by decide)
  have hvalue : ValueText (str "[\"\\\"[\"]") (.array [.string (str "\"[")]) := by
    refine @ValueText.array [⟨[], str "\"\\\"[\"", [], .string (str "\"[")⟩] (List.cons_ne_nil _ _) ?_ ?_
    · intro item hitem
      obtain rfl := List.mem_singleton.mp hitem
      exact ⟨fun _ hc => absurd hc List.not_mem_nil, fun _ hc => absurd hc List.not_mem_nil⟩
    · intro item hitem
      obtain rfl := List.mem_singleton.mp hitem
      exact .string hstring
  have htext : JsonText (str "[\"\\\"[\"]") (.array [.string (str "\"[")]) :=
    @JsonText.mk [] _ [] _ (fun _ hc => absurd hc List.not_mem_nil) hvalue
      (fun _ hc => absurd hc List.not_mem_nil)
  exact (depth_scanner_exact htext rfl).1

end Parts

end AgenticRag.Retrieval

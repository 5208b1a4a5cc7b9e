import AgenticRag.Python.JsonMachine
import Mathlib.Algebra.Order.BigOperators.Group.List

/-! The compact text of a JSON value: no whitespace, and escapes only where one is needed. No
other text of the value has fewer bytes. -/
namespace AgenticRag.Python
open JsonScanner

section Bytes

/-- The number of UTF-8 bytes. -/
def utf8Length (text : Str) : Nat := (text.map fun c => (encodeChar c).length).sum

theorem utf8Length_cons (c : CodePoint) (text : Str) :
    utf8Length (c :: text) = (encodeChar c).length + utf8Length text := by
  rw [utf8Length, List.map_cons, List.sum_cons, utf8Length]

theorem utf8Length_append (a b : Str) : utf8Length (a ++ b) = utf8Length a + utf8Length b := by
  rw [utf8Length, List.map_append, List.sum_append, utf8Length, utf8Length]

theorem utf8Length_enclosed (c d : CodePoint) (text : Str) :
    utf8Length (c :: (text ++ [d])) = (encodeChar c).length + utf8Length text + (encodeChar d).length := by
  rw [utf8Length_cons, utf8Length_append, utf8Length_cons, Nat.add_assoc]
  rfl

theorem utf8Length_flatMap {α : Type} (f : α → Str) (xs : List α) :
    utf8Length (xs.flatMap f) = (xs.map fun x => utf8Length (f x)).sum := by
  induction xs with
  | nil => rfl
  | cons x xs ih => rw [List.flatMap_cons, utf8Length_append, ih, List.map_cons, List.sum_cons]

theorem length_of_encodeUtf8 {text : Str} {bytes : List UInt8} (h : encodeUtf8 text = some bytes) :
    bytes.length = utf8Length text := by
  unfold encodeUtf8 at h
  split at h
  · cases h
  · obtain rfl := Option.some.inj h
    rw [List.length_flatMap, utf8Length]

theorem length_encodeChar_pos (c : CodePoint) : 1 ≤ (encodeChar c).length := by
  unfold encodeChar
  dsimp only
  split_ifs <;> simp

theorem length_encodeChar_le (c : CodePoint) : (encodeChar c).length ≤ 4 := by
  unfold encodeChar
  dsimp only
  split_ifs <;> simp

theorem length_encodeChar_ascii {c : CodePoint} (h : c.val < 0x80) : (encodeChar c).length = 1 := by
  unfold encodeChar
  rw [if_pos h]
  rfl

theorem length_le_utf8Length (text : Str) : text.length ≤ utf8Length text := by
  induction text with
  | nil => exact le_refl 0
  | cons c text ih =>
    have hc := length_encodeChar_pos c
    rw [utf8Length_cons, List.length_cons]
    omega

theorem utf8Length_ascii {text : Str} (h : ∀ c ∈ text, c.val < 0x80) : utf8Length text = text.length := by
  induction text with
  | nil => rfl
  | cons c text ih =>
    obtain ⟨hc, htext⟩ := List.forall_mem_cons.mp h
    rw [utf8Length_cons, length_encodeChar_ascii hc, ih htext, List.length_cons, Nat.add_comm]

end Bytes

section Strings

/-- The letter after the backslash, where a control character has one. -/
def escapeLetter (c : CodePoint) : Option CodePoint :=
  if c.val = 0x08 then some (ord 'b')
  else if c.val = 0x09 then some (ord 't')
  else if c.val = 0x0A then some (ord 'n')
  else if c.val = 0x0C then some (ord 'f')
  else if c.val = 0x0D then some (ord 'r')
  else none

/-- The shortest text of a character in a string. -/
def compactChar (c : CodePoint) : Str :=
  if c = ord '"' ∨ c = ord '\\' then [ord '\\', c]
  else if 0x20 ≤ c.val then [c]
  else match escapeLetter c with
    | some letter => [ord '\\', letter]
    | none => [ord '\\', ord 'u', ord '0', ord '0', hexDigit (Fin.ofNat _ (c.val / 16)),
        hexDigit (Fin.ofNat _ (c.val % 16))]

def compactString (s : Str) : Str := ord '"' :: (s.flatMap compactChar ++ [ord '"'])

theorem hexValue_hexDigit (d : Fin 16) : hexValue (hexDigit d) = some d.val := by
  revert d
  decide

theorem escaped_of_escapeLetter {c letter : CodePoint} (h : escapeLetter c = some letter) :
    escaped letter = some c := by
  unfold escapeLetter at h
  rcases ite_eq_iff.mp h with ⟨hc, hletter⟩ | ⟨_, h⟩
  · obtain rfl := Option.some.inj hletter
    exact congrArg some (Fin.ext hc.symm)
  rcases ite_eq_iff.mp h with ⟨hc, hletter⟩ | ⟨_, h⟩
  · obtain rfl := Option.some.inj hletter
    exact congrArg some (Fin.ext hc.symm)
  rcases ite_eq_iff.mp h with ⟨hc, hletter⟩ | ⟨_, h⟩
  · obtain rfl := Option.some.inj hletter
    exact congrArg some (Fin.ext hc.symm)
  rcases ite_eq_iff.mp h with ⟨hc, hletter⟩ | ⟨_, h⟩
  · obtain rfl := Option.some.inj hletter
    exact congrArg some (Fin.ext hc.symm)
  rcases ite_eq_iff.mp h with ⟨hc, hletter⟩ | ⟨_, h⟩
  · obtain rfl := Option.some.inj hletter
    exact congrArg some (Fin.ext hc.symm)
  cases h

/-- A character's compact text is a text of it. -/
theorem unitText_compactChar (c : CodePoint) :
    ∃ unit, UnitText (compactChar c) unit ∧ ∀ units, unitsValue (unit :: units) = c :: unitsValue units := by
  unfold compactChar
  split_ifs with hmark hplain
  · refine ⟨.char c, .escaped ?_, fun units => rfl⟩
    rcases hmark with rfl | rfl <;> rfl
  · obtain ⟨hquote, hescape⟩ := not_or.mp hmark
    exact ⟨.char c, .unescaped hplain hquote hescape, fun units => rfl⟩
  · split
    · rename_i letter hletter
      exact ⟨.char c, .escaped (escaped_of_escapeLetter hletter), fun units => rfl⟩
    · have hval : ((0 * 16 + 0) * 16 + (Fin.ofNat 16 (c.val / 16)).val) * 16 +
          (Fin.ofNat 16 (c.val % 16)).val = c.val := by
        simp only [Fin.val_ofNat]
        omega
      refine ⟨.code c.val, ?_, fun units => ?_⟩
      · have hzero : hexValue (ord '0') = some 0 := rfl
        have hunit := UnitText.unicode hzero hzero (hexValue_hexDigit (Fin.ofNat _ (c.val / 16)))
          (hexValue_hexDigit (Fin.ofNat _ (c.val % 16)))
        rwa [hval] at hunit
      · have hlow : isHighSurrogate c.val = false := by
          simp only [isHighSurrogate, Bool.and_eq_false_iff, decide_eq_false_iff_not]
          omega
        rw [unitsValue_code hlow]
        congr 1
        exact Fin.ext (Nat.mod_eq_of_lt c.isLt)

theorem stringText_compactString (s : Str) : StringText (compactString s) s := by
  have hunits : ∃ units : List (Str × StringUnit), (∀ u ∈ units, UnitText u.1 u.2) ∧
      units.flatMap Prod.fst = s.flatMap compactChar ∧ unitsValue (units.map Prod.snd) = s := by
    induction s with
    | nil => exact ⟨[], fun u hu => absurd hu List.not_mem_nil, rfl, rfl⟩
    | cons c s ih =>
      obtain ⟨units, hunits, htext, hvalue⟩ := ih
      obtain ⟨unit, hunit, hfirst⟩ := unitText_compactChar c
      refine ⟨(compactChar c, unit) :: units, List.forall_mem_cons.mpr ⟨hunit, hunits⟩, ?_, ?_⟩
      · rw [List.flatMap_cons, List.flatMap_cons, htext]
      · rw [List.map_cons, hfirst, hvalue]
  obtain ⟨units, hunits, htext, hvalue⟩ := hunits
  have h := StringText.mk hunits
  rw [htext, hvalue] at h
  exact h

theorem hexDigit_ascii (d : Fin 16) : (hexDigit d).val < 0x80 := by
  revert d
  decide

theorem escapeLetter_ascii {c letter : CodePoint} (h : escapeLetter c = some letter) : letter.val < 0x80 := by
  unfold escapeLetter at h
  split_ifs at h <;> (obtain rfl := Option.some.inj h; decide)

theorem utf8Length_plain {c : CodePoint} (hquote : c ≠ ord '"') (hescape : c ≠ ord '\\')
    (hcontrol : 0x20 ≤ c.val) : utf8Length (compactChar c) = utf8Length [c] := by
  rw [compactChar, if_neg (not_or.mpr ⟨hquote, hescape⟩), if_pos hcontrol]

theorem utf8Length_compactChar_le (c : CodePoint) : utf8Length (compactChar c) ≤ 6 := by
  have hslash : (ord '\\').val < 0x80 := by decide
  unfold compactChar
  split_ifs with hmark hplain
  · have hc : c.val < 0x80 := by rcases hmark with rfl | rfl <;> decide
    rw [utf8Length_ascii (by simp [hslash, hc])]
    simp
  · have hc := length_encodeChar_le c
    rw [utf8Length_cons]
    exact Nat.le_trans hc (by decide)
  · split
    · rename_i letter hletter
      rw [utf8Length_ascii (by simp [hslash, escapeLetter_ascii hletter])]
      simp
    · have hletter : (ord 'u').val < 0x80 := by decide
      have hzero : (ord '0').val < 0x80 := by decide
      rw [utf8Length_ascii (by simp [hslash, hletter, hzero, hexDigit_ascii])]
      simp

theorem utf8Length_escaped {c e : CodePoint} (h : escaped c = some e) : utf8Length (compactChar e) ≤ 2 := by
  unfold escaped at h
  split_ifs at h with hmark
  · obtain rfl := Option.some.inj h
    rcases hmark with rfl | rfl | rfl <;> decide
  all_goals
    obtain rfl := Option.some.inj h
    decide

/-- The bytes that the compact text of a unit has at most. -/
def unitBound : StringUnit → Nat
  | .char c => utf8Length (compactChar c)
  | .code _ => 6

theorem unitBound_le {text : Str} {unit : StringUnit} (h : UnitText text unit) :
    unitBound unit ≤ utf8Length text := by
  cases h with
  | unescaped hcontrol hquote hescape => exact (utf8Length_plain hquote hescape hcontrol).le
  | @escaped c e h => exact (utf8Length_escaped h).trans (length_le_utf8Length [ord '\\', c])
  | @unicode c₁ c₂ c₃ c₄ => exact length_le_utf8Length [ord '\\', ord 'u', c₁, c₂, c₃, c₄]

theorem utf8Length_unitsValue_le (units : List StringUnit) :
    utf8Length ((unitsValue units).flatMap compactChar) ≤ (units.map unitBound).sum := by
  fun_induction unitsValue units with
  | case1 => exact le_refl 0
  | case2 c rest ih =>
    rw [List.flatMap_cons, utf8Length_append, List.map_cons, List.sum_cons, unitBound]
    omega
  | case3 high low rest _ ih =>
    have hpair := utf8Length_compactChar_le (pairedSurrogates high low)
    simp only [List.flatMap_cons, utf8Length_append, List.map_cons, List.sum_cons, unitBound]
    omega
  | case4 high low rest _ ih =>
    have hhigh := utf8Length_compactChar_le (Fin.ofNat _ high)
    simp only [List.map_cons, List.sum_cons, unitBound] at ih
    simp only [List.flatMap_cons, utf8Length_append, List.map_cons, List.sum_cons, unitBound]
    omega
  | case5 value rest _ ih =>
    have hvalue := utf8Length_compactChar_le (Fin.ofNat _ value)
    simp only [List.flatMap_cons, utf8Length_append, List.map_cons, List.sum_cons, unitBound]
    omega

/-- No text of a string is shorter than the compact one. -/
theorem utf8Length_compactString_le {text s : Str} (h : StringText text s) :
    utf8Length (compactString s) ≤ utf8Length text := by
  obtain ⟨hunits⟩ := h
  rename_i units
  have hvalue := utf8Length_unitsValue_le (units.map Prod.snd)
  have hbound := List.sum_le_sum fun u hu => unitBound_le (hunits u hu)
  rw [List.map_map] at hvalue
  rw [← utf8Length_flatMap] at hbound
  rw [compactString, utf8Length_enclosed, utf8Length_enclosed]
  exact Nat.add_le_add_right (Nat.add_le_add_left (hvalue.trans hbound) _) _

end Strings

section Values

mutual

/-- The shortest text of a value. -/
def Json.compact : Json → Str
  | .null => str "null"
  | .bool true => str "true"
  | .bool false => str "false"
  | .number lexeme => lexeme.text
  | .string s => compactString s
  | .array items => ord '[' :: (separatedBy (ord ',') (Json.compactItems items) ++ [ord ']'])
  | .object members => ord '{' :: (separatedBy (ord ',') (Json.compactMembers members) ++ [ord '}'])

def Json.compactItems : List Json → List Str
  | [] => []
  | item :: items => Json.compact item :: Json.compactItems items

def Json.compactMembers : List (Str × Json) → List Str
  | [] => []
  | (key, value) :: members =>
    (compactString key ++ ord ':' :: Json.compact value) :: Json.compactMembers members

end

def compactMember (member : Str × Json) : Str := compactString member.1 ++ ord ':' :: member.2.compact

theorem Json.compactItems_eq (items : List Json) : Json.compactItems items = items.map Json.compact := by
  induction items with
  | nil => rfl
  | cons item items ih => rw [Json.compactItems, ih, List.map_cons]

theorem Json.compactMembers_eq (members : List (Str × Json)) :
    Json.compactMembers members = members.map compactMember := by
  induction members with
  | nil => rfl
  | cons member members ih => rw [Json.compactMembers, ih, List.map_cons, compactMember]

theorem Json.compact_array (items : List Json) : (Json.array items).compact =
    ord '[' :: (separatedBy (ord ',') (items.map Json.compact) ++ [ord ']']) := by
  rw [Json.compact, Json.compactItems_eq]

theorem Json.compact_object (members : List (Str × Json)) : (Json.object members).compact =
    ord '{' :: (separatedBy (ord ',') (members.map compactMember) ++ [ord '}']) := by
  rw [Json.compact, Json.compactMembers_eq]

/-- Commas stand between the parts only. -/
theorem utf8Length_separatedBy {α : Type} (textOf : α → Str) (first : α) (parts : List α) :
    utf8Length (separatedBy (ord ',') ((first :: parts).map textOf)) + 1 =
      ((first :: parts).map fun part => utf8Length (textOf part) + 1).sum := by
  induction parts generalizing first with
  | nil => simp [separatedBy]
  | cons second parts ih =>
    have hcomma : (encodeChar (ord ',')).length = 1 := rfl
    have hrest := ih second
    simp only [List.map_cons, List.sum_cons] at hrest ⊢
    rw [separatedBy_cons_cons, utf8Length_append, utf8Length_cons, hcomma]
    omega

theorem utf8Length_compact_array (first : Json) (items : List Json) :
    utf8Length (Json.array (first :: items)).compact =
      1 + ((first :: items).map fun item => utf8Length item.compact + 1).sum := by
  have hopen : (encodeChar (ord '[')).length = 1 := rfl
  have hclose : (encodeChar (ord ']')).length = 1 := rfl
  rw [Json.compact_array, utf8Length_enclosed, hopen, hclose, Nat.add_assoc, utf8Length_separatedBy]

theorem utf8Length_compact_replicate {n : Nat} (hn : 1 ≤ n) (item : Json) :
    utf8Length (Json.array (List.replicate n item)).compact = n * (utf8Length item.compact + 1) + 1 := by
  obtain ⟨n, rfl⟩ := Nat.exists_eq_add_of_le' hn
  rw [List.replicate_succ, utf8Length_compact_array, ← List.replicate_succ, List.map_replicate,
    List.sum_replicate, nsmul_eq_mul, Nat.cast_id, Nat.add_comm]

/-- An array of items that have at least so many bytes each. -/
theorem le_utf8Length_compact_array {items : List Json} (hne : items ≠ []) {n : Nat}
    (h : ∀ item ∈ items, n ≤ utf8Length item.compact) :
    items.length * (n + 1) + 1 ≤ utf8Length (Json.array items).compact := by
  cases items with
  | nil => exact absurd rfl hne
  | cons first items =>
    have hsum := List.card_nsmul_le_sum ((first :: items).map fun item => utf8Length item.compact + 1) (n + 1)
      (List.forall_mem_map.mpr fun item hitem => Nat.add_le_add_right (h item hitem) 1)
    rw [List.length_map, nsmul_eq_mul, Nat.cast_id] at hsum
    rw [utf8Length_compact_array]
    omega

theorem utf8Length_compact_object (first : Str × Json) (members : List (Str × Json)) :
    utf8Length (Json.object (first :: members)).compact =
      1 + ((first :: members).map fun member => utf8Length (compactMember member) + 1).sum := by
  have hopen : (encodeChar (ord '{')).length = 1 := rfl
  have hclose : (encodeChar (ord '}')).length = 1 := rfl
  rw [Json.compact_object, utf8Length_enclosed, hopen, hclose, Nat.add_assoc, utf8Length_separatedBy]

private theorem add_le_sum {α : Type} {f : α → Nat} {a b : α} {xs : List α} (ha : a ∈ xs) (hb : b ∈ xs)
    (hne : a ≠ b) : f a + f b ≤ (xs.map f).sum := by
  have hnodup : [a, b].Nodup := List.nodup_cons.mpr ⟨by simpa using hne, List.nodup_singleton b⟩
  have hsubset : [a, b] ⊆ xs := List.forall_mem_cons.mpr ⟨ha, List.forall_mem_singleton.mpr hb⟩
  obtain ⟨ys, hperm, hsublist⟩ := List.subperm_of_subset hnodup hsubset
  have hsum := (hperm.map f).sum_eq
  rw [List.map_cons, List.map_singleton, List.sum_cons, List.sum_singleton] at hsum
  rw [← hsum]
  exact (hsublist.map f).sum_le_sum fun _ _ => Nat.zero_le _

/-- An object with at least these two members. -/
theorem le_utf8Length_compact_object {members : List (Str × Json)} {a b : Str × Json} (ha : a ∈ members)
    (hb : b ∈ members) (hne : a ≠ b) :
    utf8Length (compactMember a) + utf8Length (compactMember b) + 3 ≤
      utf8Length (Json.object members).compact := by
  cases members with
  | nil => cases ha
  | cons first members =>
    have hsum := @add_le_sum _ (fun member => utf8Length (compactMember member) + 1) _ _ _ ha hb hne
    rw [utf8Length_compact_object]
    omega

theorem utf8Length_compactMember (member : Str × Json) : utf8Length (compactMember member) =
    utf8Length (compactString member.1) + 1 + utf8Length member.2.compact := by
  have hcolon : (encodeChar (ord ':')).length = 1 := rfl
  rw [compactMember, utf8Length_append, utf8Length_cons, hcolon, Nat.add_assoc]

theorem utf8Length_separatedBy_le {α : Type} {f g : α → Str} {parts : List α}
    (h : ∀ part ∈ parts, utf8Length (f part) ≤ utf8Length (g part)) :
    utf8Length (separatedBy (ord ',') (parts.map f)) ≤ utf8Length (separatedBy (ord ',') (parts.map g)) := by
  cases parts with
  | nil => exact le_refl _
  | cons first parts =>
    have hsum := List.sum_le_sum fun part hpart => Nat.add_le_add_right (h part hpart) 1
    rw [← utf8Length_separatedBy, ← utf8Length_separatedBy] at hsum
    exact Nat.le_of_add_le_add_right hsum

/-- No text of a value is shorter than the compact one. -/
theorem utf8Length_compact_le {text : Str} {value : Json} (h : ValueText text value) :
    utf8Length value.compact ≤ utf8Length text := by
  induction h with
  | null => exact le_refl _
  | true => exact le_refl _
  | false => exact le_refl _
  | number => exact le_refl _
  | string h => exact utf8Length_compactString_le h
  | emptyArray =>
    rw [Json.compact_array, utf8Length_enclosed, utf8Length_enclosed]
    exact Nat.add_le_add_right (Nat.add_le_add_left (Nat.zero_le _) _) _
  | @array items _ _ _ ih =>
    rw [Json.compact_array, utf8Length_enclosed, utf8Length_enclosed, List.map_map]
    refine Nat.add_le_add_right (Nat.add_le_add_left (utf8Length_separatedBy_le fun item hitem => ?_) _) _
    have hitem := ih item hitem
    rw [ItemText.padded, utf8Length_append, utf8Length_append, Function.comp_apply]
    omega
  | emptyObject =>
    rw [Json.compact_object, utf8Length_enclosed, utf8Length_enclosed]
    exact Nat.add_le_add_right (Nat.add_le_add_left (Nat.zero_le _) _) _
  | @object members _ _ hkeys _ ih =>
    rw [Json.compact_object, utf8Length_enclosed, utf8Length_enclosed, List.map_map]
    refine Nat.add_le_add_right (Nat.add_le_add_left (utf8Length_separatedBy_le fun member hmember => ?_) _) _
    have hvalue := ih member hmember
    have hkey := utf8Length_compactString_le (hkeys member hmember)
    simp only [Function.comp_apply, MemberText.member, compactMember, MemberText.padded, ItemText.padded,
      utf8Length_append, utf8Length_cons]
    omega

/-- The lexeme of a number is one of the grammar. -/
def AdmitsNumbers : Json → Prop
  | .number lexeme => NumberText lexeme.text
  | _ => True

theorem admitted_numbers {text : Str} {value : Json} (h : ValueText text value) :
    Admitted AdmitsNumbers value := by
  induction h with
  | null => exact .null trivial
  | true => exact .bool trivial
  | false => exact .bool trivial
  | number h => exact .number h
  | string => exact .string trivial
  | emptyArray => exact .array trivial fun _ h => absurd h List.not_mem_nil
  | array _ _ _ ih => exact .array trivial (List.forall_mem_map.mpr ih)
  | emptyObject => exact .object trivial fun _ h => absurd h List.not_mem_nil
  | object _ _ _ _ ih => exact .object trivial (List.forall_mem_map.mpr ih)

theorem isSpacing_nil : IsSpacing [] := fun _ h => absurd h List.not_mem_nil

theorem valueText_compact {value : Json} (h : Admitted AdmitsNumbers value) : ValueText value.compact value := by
  induction h with
  | null => exact .null
  | @bool b =>
    cases b with
    | false => exact .false
    | true => exact .true
  | number h => exact .number h
  | string => exact .string (stringText_compactString _)
  | @array items _ _ ih =>
    rw [Json.compact_array]
    cases items with
    | nil => exact .emptyArray isSpacing_nil
    | cons first items =>
      have h := @ValueText.array ((first :: items).map fun item => ⟨[], item.compact, [], item⟩)
        (List.cons_ne_nil _ _) (List.forall_mem_map.mpr fun _ _ => ⟨isSpacing_nil, isSpacing_nil⟩)
        (List.forall_mem_map.mpr ih)
      simp only [List.map_map, Function.comp_def, ItemText.padded, List.append_nil, List.map_id'] at h
      exact h
  | @object members _ _ ih =>
    rw [Json.compact_object]
    cases members with
    | nil => exact .emptyObject isSpacing_nil
    | cons first members =>
      have h := @ValueText.object ((first :: members).map fun member =>
          ⟨[], compactString member.1, member.1, [], ⟨[], member.2.compact, [], member.2⟩⟩)
        (List.cons_ne_nil _ _)
        (List.forall_mem_map.mpr fun _ _ => ⟨isSpacing_nil, isSpacing_nil, isSpacing_nil, isSpacing_nil⟩)
        (List.forall_mem_map.mpr fun _ _ => stringText_compactString _) (List.forall_mem_map.mpr ih)
      simp only [List.map_map, Function.comp_def, MemberText.padded, MemberText.member, ItemText.padded,
        List.append_nil, List.map_id'] at h
      exact h

theorem jsonText_compact {value : Json} (h : Admitted AdmitsNumbers value) : JsonText value.compact value := by
  have hcompact := JsonText.mk isSpacing_nil (valueText_compact h) isSpacing_nil
  rwa [List.append_nil] at hcompact

/-- The texts of a value have at least the bytes of the compact one. -/
theorem utf8Length_compact_le_text {text : Str} {value : Json} (h : JsonText text value) :
    utf8Length value.compact ≤ utf8Length text := by
  obtain ⟨_, hvalue, _⟩ := h
  have hle := utf8Length_compact_le hvalue
  rw [utf8Length_append, utf8Length_append]
  omega

end Values

section Scalars

/-- The strings and the keys have no unpaired surrogate. -/
def AdmitsScalars : Json → Prop
  | .string s => s.any isSurrogate = false
  | .object members => ∀ member ∈ members, member.1.any isSurrogate = false
  | _ => True

theorem isSurrogate_ascii {c : CodePoint} (h : c.val < 0x80) : isSurrogate c = false := by
  simp only [isSurrogate, Bool.and_eq_false_iff, decide_eq_false_iff_not]
  omega

theorem any_isSurrogate_compactChar {c : CodePoint} (h : isSurrogate c = false) :
    (compactChar c).any isSurrogate = false := by
  unfold compactChar
  split_ifs
  · simpa [h] using (by decide : isSurrogate (ord '\\') = false)
  · simpa using h
  · split
    · rename_i letter hletter
      have hscalar := isSurrogate_ascii (escapeLetter_ascii hletter)
      simpa [hscalar] using (by decide : isSurrogate (ord '\\') = false)
    · have hdigit : ∀ d, isSurrogate (hexDigit d) = false := fun d => isSurrogate_ascii (hexDigit_ascii d)
      simp only [List.any_cons, List.any_nil, hdigit, Bool.or_false]
      decide

theorem any_isSurrogate_compactString {s : Str} (h : s.any isSurrogate = false) :
    (compactString s).any isSurrogate = false := by
  have hquote : isSurrogate (ord '"') = false := by decide
  rw [compactString, List.any_cons, List.any_append, List.any_flatMap, hquote]
  simp only [List.any_cons, List.any_nil, hquote, Bool.or_false, Bool.false_or]
  rw [List.any_eq_false] at h ⊢
  intro c hc
  rw [any_isSurrogate_compactChar (Bool.eq_false_iff.mpr (h c hc))]
  exact Bool.false_ne_true

theorem any_separatedBy {p : CodePoint → Bool} {separator : CodePoint} (hseparator : p separator = false)
    {parts : List Str} (h : ∀ part ∈ parts, part.any p = false) :
    (separatedBy separator parts).any p = false := by
  cases parts with
  | nil => rfl
  | cons first parts =>
    obtain ⟨hfirst, hparts⟩ := List.forall_mem_cons.mp h
    rw [separatedBy, List.any_append, hfirst, List.any_flatMap, Bool.false_or, List.any_eq_false]
    intro part hpart
    rw [List.any_cons, hseparator, hparts part hpart]
    exact Bool.false_ne_true

theorem any_enclosed {p : CodePoint → Bool} {c d : CodePoint} (hc : p c = false) (hd : p d = false)
    {text : Str} (h : text.any p = false) : (c :: (text ++ [d])).any p = false := by
  rw [List.any_cons, List.any_append, hc, h, List.any_cons, hd]
  rfl

/-- The compact text can be encoded. -/
theorem any_isSurrogate_compact {value : Json} (h : Admitted AdmitsScalars value) :
    value.compact.any isSurrogate = false := by
  have hcomma : isSurrogate (ord ',') = false := by decide
  induction h with
  | null => decide
  | @bool b =>
    cases b with
    | false => decide
    | true => decide
  | number => exact Numeral.scalar _
  | string h => exact any_isSurrogate_compactString h
  | array _ _ ih =>
    rw [Json.compact_array]
    exact any_enclosed (by decide) (by decide) (any_separatedBy hcomma (List.forall_mem_map.mpr ih))
  | object hkeys _ ih =>
    rw [Json.compact_object]
    refine any_enclosed (by decide) (by decide) (any_separatedBy hcomma (List.forall_mem_map.mpr ?_))
    intro member hmember
    have hcolon : isSurrogate (ord ':') = false := by decide
    rw [compactMember, List.any_append, any_isSurrogate_compactString (hkeys member hmember), List.any_cons,
      hcolon, ih member hmember]
    rfl

end Scalars
end AgenticRag.Python

import AgenticRag.Ingestion.DocumentParsing
import AgenticRag.Lib.Joins

/-! Normalization of parsed sections and the offsets of each section in the result. -/
namespace AgenticRag.Ingestion
open Lib Python

/-- `EmptyDocumentError`, or a `ValueError`; `UnicodeEncodeError` is one. -/
inductive TextError where
  | emptyDocument | value
  deriving DecidableEq

/-- A span that passed `__post_init__`; offsets and indices are naturals by construction. -/
structure SourceSpan where
  startOffset : Nat
  endOffset : Nat
  sectionIndex : Nat
  pageNumber : Option Nat
  nonempty : startOffset < endOffset
  pageNumber_pos : ∀ p, pageNumber = some p → 1 ≤ p

/-- `SourceSpan(...)`. -/
def SourceSpan.mk? (startOffset endOffset sectionIndex : Nat) (pageNumber : Option Nat) :
    Except TextError SourceSpan :=
  if h : startOffset < endOffset then
    if hp : ∀ p ∈ pageNumber, 1 ≤ p then
      .ok ⟨startOffset, endOffset, sectionIndex, pageNumber, h, fun p hp' => hp p hp'⟩
    else .error .value
  else .error .value

theorem SourceSpan.mk?_ok {startOffset endOffset : Nat} (sectionIndex : Nat)
    (pageNumber : Option Nat) (h : startOffset < endOffset) (hp : ∀ p, pageNumber = some p → 1 ≤ p) :
    ∃ span, SourceSpan.mk? startOffset endOffset sectionIndex pageNumber = .ok span ∧
      span.startOffset = startOffset ∧ span.endOffset = endOffset ∧ span.pageNumber = pageNumber :=
  ⟨⟨startOffset, endOffset, sectionIndex, pageNumber, h, hp⟩,
    (dif_pos h).trans (dif_pos hp), rfl, rfl, rfl⟩

/-- A document that passed `__post_init__`. -/
structure NormalizedDocument where
  text : Str
  sourceSpans : List SourceSpan
  nonblank : strip text ≠ []
  spans_within : ∀ span ∈ sourceSpans, span.endOffset ≤ text.length

/-- `NormalizedDocument(...)`. -/
def NormalizedDocument.mk? (text : Str) (sourceSpans : List SourceSpan) :
    Except TextError NormalizedDocument :=
  if h : strip text ≠ [] then
    if hs : ∀ span ∈ sourceSpans, span.endOffset ≤ text.length then
      .ok ⟨text, sourceSpans, h, hs⟩
    else .error .value
  else .error .emptyDocument

theorem NormalizedDocument.mk?_fields {text : Str} {sourceSpans : List SourceSpan}
    {document : NormalizedDocument} (h : NormalizedDocument.mk? text sourceSpans = .ok document) :
    document.text = text ∧ document.sourceSpans = sourceSpans := by
  unfold NormalizedDocument.mk? at h
  by_cases ht : strip text ≠ []
  · rw [dif_pos ht] at h
    by_cases hs : ∀ span ∈ sourceSpans, span.endOffset ≤ text.length
    · rw [dif_pos hs] at h
      obtain rfl := Except.ok.inj h
      exact ⟨rfl, rfl⟩
    · rw [dif_neg hs] at h
      cases h
  · rw [dif_neg ht] at h
    cases h

def utf8Bom : CodePoint := ⟨0xFEFF, by decide⟩
def replacementCharacter : CodePoint := ⟨0xFFFD, by decide⟩

/-- `_sanitize_character`. -/
def sanitizeCharacter (c : CodePoint) : CodePoint :=
  if c = newline ∨ c = tab then c
  else if isControl c then space
  else if isSurrogate c then replacementCharacter
  else c

/-- `text.removeprefix(_UTF8_BOM)`. -/
def removeBom : Str → Str
  | c :: rest => if c = utf8Bom then rest else c :: rest
  | [] => []

/-- `text.replace("\r\n", "\n")`. -/
def replaceCrLf : Str → Str
  | a :: b :: rest =>
    if a = carriageReturn ∧ b = newline then newline :: replaceCrLf rest
    else a :: replaceCrLf (b :: rest)
  | s => s

/-- `text.replace("\r", "\n")`. -/
def replaceCr (s : Str) : Str := s.map fun c => if c = carriageReturn then newline else c

/-- The loop over the raw lines; blank lines at the front are dropped, a run of blank
lines inside becomes one. -/
def outputLines : List Str → Bool → List Str → List Str
  | [], _, out => out
  | rawLine :: rest, blankPending, out =>
    let line := rstripWhile isBlank rawLine
    if stripWhile isBlank line = [] then outputLines rest (blankPending || !out.isEmpty) out
    else outputLines rest false (out ++ (if blankPending then [[], line] else [line]))

/-- `_normalize_fragment`. -/
def normalizeFragment (text : Str) : Str :=
  let normalized := (replaceCr (replaceCrLf (removeBom text))).map sanitizeCharacter
  stripWhile isBlank
    ([newline].intercalate (outputLines (normalized.splitOn newline) false []))

/-- What the loop of `normalize` carries from section to section. -/
structure NormalizeState where
  fragments : List Str
  sourceSpans : List SourceSpan
  currentOffset : Nat

/-- The body of the loop for one section. -/
def normalizeSection (st : NormalizeState) (sectionIndex : Nat) (s : ParsedSection) :
    Except TextError NormalizeState :=
  let normalizedSection := normalizeFragment s.text
  if strip normalizedSection = [] then .ok st
  else
    let startOffset := if st.fragments = [] then st.currentOffset else st.currentOffset + 2
    let currentOffset := startOffset + normalizedSection.length
    (SourceSpan.mk? startOffset currentOffset sectionIndex s.pageNumber).map fun span =>
      ⟨st.fragments ++ [normalizedSection], st.sourceSpans ++ [span], currentOffset⟩

def normalizeSections : NormalizeState → Nat → List ParsedSection → Except TextError NormalizeState
  | st, _, [] => .ok st
  | st, sectionIndex, s :: rest => do
    normalizeSections (← normalizeSection st sectionIndex s) (sectionIndex + 1) rest

/-- `TextNormalizer.normalize`. -/
def normalize (document : ParsedDocument) : Except TextError NormalizedDocument := do
  let st ← normalizeSections ⟨[], [], 0⟩ 0 document.sections
  let normalizedText := [newline, newline].intercalate st.fragments
  if strip normalizedText = [] then .error .emptyDocument
  else NormalizedDocument.mk? normalizedText st.sourceSpans

section Characters

/-- What `_sanitize_character` leaves: no surrogate, and no control but newline and tab. -/
def Sanitized (c : CodePoint) : Prop :=
  isSurrogate c = false ∧ (isControl c = true → c = newline ∨ c = tab)

theorem sanitizeCharacter_sanitized (c : CodePoint) : Sanitized (sanitizeCharacter c) := by
  unfold sanitizeCharacter
  split
  · rename_i h
    rcases h with rfl | rfl
    · exact ⟨by decide, fun _ => .inl rfl⟩
    · exact ⟨by decide, fun _ => .inr rfl⟩
  · split
    · exact ⟨by decide, by decide⟩
    · split
      · exact ⟨by decide, by decide⟩
      · rename_i hc hs
        exact ⟨by simpa using hs, fun h => absurd h hc⟩

private theorem mem_outputLines {raw : List Str} {blankPending : Bool} {out : List Str} {line : Str}
    {c : CodePoint} (h : line ∈ outputLines raw blankPending out) (hc : c ∈ line) :
    (∃ l ∈ raw, c ∈ l) ∨ ∃ l ∈ out, c ∈ l := by
  induction raw generalizing blankPending out with
  | nil => exact .inr ⟨line, h, hc⟩
  | cons rawLine rest ih =>
    rw [outputLines] at h
    split at h
    · rcases ih h with ⟨l, hl, hcl⟩ | hout
      · exact .inl ⟨l, List.mem_cons_of_mem _ hl, hcl⟩
      · exact .inr hout
    · rcases ih h with ⟨l, hl, hcl⟩ | ⟨l, hl, hcl⟩
      · exact .inl ⟨l, List.mem_cons_of_mem _ hl, hcl⟩
      · rcases List.mem_append.mp hl with hl | hl
        · exact .inr ⟨l, hl, hcl⟩
        · have hline : c ∈ rstripWhile isBlank rawLine := by
            cases blankPending with
            | true =>
              rcases List.mem_cons.mp hl with rfl | hl
              · cases hcl
              · obtain rfl := List.mem_singleton.mp hl
                exact hcl
            | false =>
              obtain rfl := List.mem_singleton.mp hl
              exact hcl
          exact .inl ⟨rawLine, List.mem_cons_self, (List.rdropWhile_prefix _ _).subset hline⟩

theorem mem_of_mem_stripWhile {p : CodePoint → Bool} {s : Str} {c : CodePoint}
    (h : c ∈ stripWhile p s) : c ∈ s :=
  (List.dropWhile_suffix p).subset ((List.rdropWhile_prefix _ _).subset h)

/-- Whatever the input, a fragment holds sanitized characters only. -/
theorem normalizeFragment_sanitized {text : Str} {c : CodePoint} (h : c ∈ normalizeFragment text) :
    Sanitized c := by
  rcases mem_intercalate (mem_of_mem_stripWhile h) with hc | ⟨line, hline, hc⟩
  · obtain rfl := List.mem_singleton.mp hc
    exact ⟨by decide, fun _ => .inl rfl⟩
  · rcases mem_outputLines hline hc with ⟨piece, hp, hc⟩ | ⟨_, hl, _⟩
    · obtain ⟨raw, _, rfl⟩ := List.mem_map.mp (mem_of_mem_splitOn hp hc)
      exact sanitizeCharacter_sanitized raw
    · cases hl

end Characters

section Layout

/-- The sections that contribute text. -/
def keptSections (sections : List ParsedSection) : List ParsedSection :=
  sections.filter fun s => strip (normalizeFragment s.text) ≠ []

/-- A fragment, each character with the page it comes from. -/
def labelledSection (s : ParsedSection) : List (CodePoint × Option Nat) :=
  (normalizeFragment s.text).map fun c => (c, s.pageNumber)

def labelledGap : List (CodePoint × Option Nat) := [(newline, none), (newline, none)]

/-- The normalized text with the page of every character; separators have none. -/
def labelledText (sections : List ParsedSection) : List (CodePoint × Option Nat) :=
  labelledGap.intercalate ((keptSections sections).map labelledSection)

/-- Spans in order and apart, each over characters of its own page, and no page character
outside them. -/
structure Layout (labels : List (CodePoint × Option Nat)) (spans : List SourceSpan) : Prop where
  ordered : spans.Pairwise fun a b => a.endOffset < b.startOffset
  within : ∀ span ∈ spans, span.endOffset ≤ labels.length
  labelled : ∀ span ∈ spans, ∀ k, span.startOffset ≤ k → k < span.endOffset →
    ∃ c, labels[k]? = some (c, span.pageNumber)
  separated : ∀ k c p, labels[k]? = some (c, p) →
    (∃ span ∈ spans, span.startOffset ≤ k ∧ k < span.endOffset) ∨ c = newline ∧ p = none

theorem Layout.nil : Layout [] [] where
  ordered := List.Pairwise.nil
  within := by simp
  labelled := by simp
  separated := by simp

/-- A gap of separators and one more section keep the layout. -/
theorem Layout.append {labels gap : List (CodePoint × Option Nat)} {spans : List SourceSpan}
    (h : Layout labels spans) (hgap : ∀ x ∈ gap, x = (newline, none))
    (hapart : spans = [] ∨ gap ≠ []) {fragment : Str} {span : SourceSpan}
    (hstart : span.startOffset = labels.length + gap.length)
    (hend : span.endOffset = span.startOffset + fragment.length) :
    Layout (labels ++ (gap ++ fragment.map fun c => (c, span.pageNumber))) (spans ++ [span]) where
  ordered := by
    rw [List.pairwise_append]
    refine ⟨h.ordered, List.pairwise_singleton _ _, ?_⟩
    intro a ha b hb
    obtain rfl := List.mem_singleton.mp hb
    have hlen := h.within a ha
    rcases hapart with rfl | hne
    · cases ha
    · have := List.length_pos_iff.mpr hne
      omega
  within := by
    intro a ha
    simp only [List.length_append, List.length_map]
    rcases List.mem_append.mp ha with ha | ha
    · have := h.within a ha
      omega
    · obtain rfl := List.mem_singleton.mp ha
      omega
  labelled := by
    intro a ha k hk hk'
    rcases List.mem_append.mp ha with ha | ha
    · have := h.within a ha
      rw [List.getElem?_append_left (by omega)]
      exact h.labelled a ha k hk hk'
    · obtain rfl := List.mem_singleton.mp ha
      rw [List.getElem?_append_right (by omega), List.getElem?_append_right (by omega),
        List.getElem?_map, List.getElem?_eq_getElem (by omega)]
      exact ⟨_, rfl⟩
  separated := by
    intro k c p hk
    rcases Nat.lt_or_ge k labels.length with hlt | hge
    · rw [List.getElem?_append_left hlt] at hk
      rcases h.separated k c p hk with ⟨a, ha, hin⟩ | hsep
      · exact .inl ⟨a, List.mem_append_left _ ha, hin⟩
      · exact .inr hsep
    · rw [List.getElem?_append_right hge] at hk
      rcases Nat.lt_or_ge (k - labels.length) gap.length with hlt | hge'
      · rw [List.getElem?_append_left hlt] at hk
        have := hgap _ (List.mem_of_getElem? hk)
        exact .inr (Prod.mk.inj this)
      · rw [List.getElem?_append_right hge'] at hk
        have hlt := (List.getElem?_eq_some_iff.mp hk).1
        rw [List.length_map] at hlt
        exact .inl ⟨span, List.mem_append_right _ List.mem_cons_self, by omega, by omega⟩

end Layout

section Normalize

/-- The loop invariant: what the state says of the sections already read. -/
structure Normalizing (done : List ParsedSection) (st : NormalizeState) : Prop where
  fragments : st.fragments = (keptSections done).map fun s => normalizeFragment s.text
  pages : st.sourceSpans.map SourceSpan.pageNumber =
    (keptSections done).map ParsedSection.pageNumber
  offset : st.currentOffset = (labelledText done).length
  layout : Layout (labelledText done) st.sourceSpans

private theorem Normalizing.init : Normalizing [] ⟨[], [], 0⟩ where
  fragments := rfl
  pages := rfl
  offset := rfl
  layout := Layout.nil

private theorem keptSections_concat (done : List ParsedSection) (s : ParsedSection) :
    keptSections (done ++ [s]) =
      if strip (normalizeFragment s.text) = [] then keptSections done
      else keptSections done ++ [s] := by
  unfold keptSections
  rw [List.filter_append]
  split <;> simp_all

/-- One section never raises, and keeps the invariant. -/
private theorem normalizeSection_spec {done : List ParsedSection} {st : NormalizeState}
    (h : Normalizing done st) (i : Nat) (s : ParsedSection) :
    ∃ st', normalizeSection st i s = .ok st' ∧ Normalizing (done ++ [s]) st' := by
  have hkept := keptSections_concat done s
  unfold normalizeSection
  by_cases hs : strip (normalizeFragment s.text) = []
  · rw [if_pos hs] at hkept
    refine ⟨st, if_pos hs, ?_⟩
    constructor
    · rw [hkept, h.fragments]
    · rw [hkept, h.pages]
    · rw [labelledText, hkept, h.offset, labelledText]
    · rw [labelledText, hkept]
      exact h.layout
  · rw [if_neg hs] at hkept ⊢
    have hpos : 0 < (normalizeFragment s.text).length := by
      apply List.length_pos_iff.mpr
      intro hnil
      rw [hnil] at hs
      exact hs rfl
    have hempty : st.fragments = [] ↔ (keptSections done).map labelledSection = [] := by
      rw [h.fragments, List.map_eq_nil_iff, List.map_eq_nil_iff]
    have hspans : st.sourceSpans = [] ↔ st.fragments = [] := by
      rw [← List.map_eq_nil_iff (f := SourceSpan.pageNumber), h.pages, h.fragments,
        List.map_eq_nil_iff, List.map_eq_nil_iff]
    have htext : labelledText (done ++ [s]) = if st.fragments = [] then labelledSection s
        else labelledText done ++ (labelledGap ++ labelledSection s) := by
      rw [labelledText, hkept, List.map_append, List.map_singleton, intercalate_concat]
      simp only [hempty, labelledText]
    have hnil : st.fragments = [] → labelledText done = [] := by
      intro hf
      rw [labelledText, hempty.mp hf]
      rfl
    dsimp only
    generalize hs₀ : (if st.fragments = [] then st.currentOffset else st.currentOffset + 2) = start
    obtain ⟨span, hspan, hstart, hend, hpage⟩ := SourceSpan.mk?_ok i s.pageNumber
      (Nat.lt_add_of_pos_right hpos : start < start + (normalizeFragment s.text).length)
      s.pageNumber_pos
    rw [h.offset] at hs₀
    have hlabel : labelledSection s =
        (normalizeFragment s.text).map fun c => (c, span.pageNumber) := by
      rw [hpage]
      rfl
    refine ⟨_, congrArg (Except.map _) hspan, ?_⟩
    constructor
    · rw [hkept, List.map_append, ← h.fragments, List.map_singleton]
    · rw [hkept, List.map_append, List.map_append, ← h.pages, List.map_singleton,
        List.map_singleton, hpage]
    · change start + (normalizeFragment s.text).length = _
      rw [htext, ← hs₀]
      split
      · rename_i hf
        simp [hnil hf, labelledSection]
      · simp only [labelledSection, labelledGap, List.length_append, List.length_map,
          List.length_cons, List.length_nil]
        omega
    · rw [← hstart] at hend
      rw [htext, hlabel]
      split
      · rename_i hf
        have hl := h.layout
        rw [if_pos hf, hnil hf] at hs₀
        rw [hnil hf] at hl
        have hnone : ∀ x ∈ ([] : List (CodePoint × Option Nat)), x = (newline, none) := by simp
        have hlay := hl.append hnone (.inl (hspans.mpr hf)) (hstart.trans hs₀.symm) hend
        rwa [List.nil_append, List.nil_append] at hlay
      · rename_i hf
        rw [if_neg hf] at hs₀
        have hgap : ∀ x ∈ labelledGap, x = (newline, none) := by simp [labelledGap]
        exact h.layout.append hgap (.inr (by simp [labelledGap])) (hstart.trans hs₀.symm) hend

private theorem normalizeSections_spec {done : List ParsedSection} {st : NormalizeState}
    (h : Normalizing done st) (i : Nat) (rest : List ParsedSection) :
    ∃ st', normalizeSections st i rest = .ok st' ∧ Normalizing (done ++ rest) st' := by
  induction rest generalizing done st i with
  | nil => exact ⟨st, rfl, by rwa [List.append_nil]⟩
  | cons s rest ih =>
    obtain ⟨st₁, hs, h₁⟩ := normalizeSection_spec h i s
    obtain ⟨st₂, hr, h₂⟩ := ih h₁ (i + 1)
    refine ⟨st₂, ?_, by rwa [List.append_assoc] at h₂⟩
    rw [normalizeSections, hs]
    exact hr

theorem labelledText_fst (sections : List ParsedSection) :
    (labelledText sections).map Prod.fst =
      [newline, newline].intercalate ((keptSections sections).map fun s => normalizeFragment s.text) := by
  have hsection : List.map Prod.fst ∘ labelledSection = fun s => normalizeFragment s.text := by
    funext s
    simp [labelledSection, Function.comp_def]
  rw [labelledText, map_intercalate, List.map_map, hsection]
  rfl

/-- What a normalized document is: the labelled text, laid out by its spans, the pages of the
spans those of the sections that contribute. -/
theorem normalize_ok {document : ParsedDocument} {normalized : NormalizedDocument}
    (h : normalize document = .ok normalized) :
    normalized.text = (labelledText document.sections).map Prod.fst ∧
      Layout (labelledText document.sections) normalized.sourceSpans ∧
      normalized.sourceSpans.map SourceSpan.pageNumber =
        (keptSections document.sections).map ParsedSection.pageNumber := by
  obtain ⟨st, hst, hn⟩ := normalizeSections_spec Normalizing.init 0 document.sections
  rw [List.nil_append] at hn
  obtain ⟨st', hst', h⟩ := bind_eq_ok.mp h
  obtain rfl := Except.ok.inj (hst.symm.trans hst')
  dsimp only at h
  split at h
  · cases h
  · obtain ⟨htext, hspans⟩ := NormalizedDocument.mk?_fields h
    rw [htext, hspans]
    exact ⟨by rw [labelledText_fst, ← hn.fragments], hn.layout, hn.pages⟩

/-- Normalization accepts a document or finds it empty; no constructor raises. -/
theorem normalize_ne_value (document : ParsedDocument) : normalize document ≠ .error .value := by
  obtain ⟨st, hst, hn⟩ := normalizeSections_spec Normalizing.init 0 document.sections
  rw [List.nil_append] at hn
  intro h
  simp only [normalize, hst, bind, Except.bind] at h
  split at h
  · cases h
  · rename_i hblank
    unfold NormalizedDocument.mk? at h
    rw [dif_pos hblank, dif_pos] at h
    · cases h
    · intro span hspan
      have := hn.layout.within span hspan
      rwa [← List.length_map Prod.fst, labelledText_fst, ← hn.fragments] at this

/-- A document is found empty when the labelled text is blank. -/
theorem normalize_empty {document : ParsedDocument} (h : normalize document = .error .emptyDocument) :
    strip ((labelledText document.sections).map Prod.fst) = [] := by
  obtain ⟨st, hst, hn⟩ := normalizeSections_spec Normalizing.init 0 document.sections
  rw [List.nil_append] at hn
  rw [labelledText_fst, ← hn.fragments]
  simp only [normalize, hst, bind, Except.bind] at h
  split at h
  · assumption
  · rename_i hblank
    unfold NormalizedDocument.mk? at h
    rw [dif_pos hblank] at h
    split at h <;> cases h

theorem normalize_sanitized {document : ParsedDocument} {normalized : NormalizedDocument}
    (h : normalize document = .ok normalized) {c : CodePoint} (hc : c ∈ normalized.text) :
    Sanitized c := by
  rw [(normalize_ok h).1, labelledText_fst] at hc
  rcases mem_intercalate hc with hc | ⟨fragment, hf, hc⟩
  · have hnl : c = newline := by simpa using hc
    rw [hnl]
    exact ⟨by decide, fun _ => .inl rfl⟩
  · obtain ⟨s, _, rfl⟩ := List.mem_map.mp hf
    exact normalizeFragment_sanitized hc

end Normalize

end AgenticRag.Ingestion

import AgenticRag.Ingestion.TextNormalization
import AgenticRag.Lib.Tiles

/-! The source spans of a normalized document and the separators between them cut its text
up: every character is in exactly one of them. -/
namespace AgenticRag.Ingestion
open Lib Python

/-- The range of a span. -/
def SourceSpan.extent (span : SourceSpan) : Extent := ⟨span.startOffset, span.endOffset⟩

/-- `"\n\n"`, which stands between two fragments. -/
def blankLine : Str := [newline, newline]

/-- What a section contributes when it is not blank. -/
def Contributes (s : ParsedSection) : Prop := strip (normalizeFragment s.text) ≠ []

/-- A span of a section over a text: the fragment of the section, and its page. -/
structure SpanOf (text : Str) (span : SourceSpan) (s : ParsedSection) : Prop where
  text : span.extent.slice text = normalizeFragment s.text
  page : span.pageNumber = s.pageNumber

/-- The spans partition the text. -/
structure SpanPartition (sections : List ParsedSection) (text : Str) (spans : List SourceSpan) :
    Prop where
  increasing : spans.Pairwise fun a b => a.sectionIndex < b.sectionIndex
  contributing : ∀ i, (∃ span ∈ spans, span.sectionIndex = i) ↔
    ∃ s, sections[i]? = some s ∧ Contributes s
  exact : ∀ span ∈ spans, ∃ s, sections[span.sectionIndex]? = some s ∧ SpanOf text span s
  first : ∀ span, spans.head? = some span → span.startOffset = 0
  last : ∀ span, spans.getLast? = some span → span.endOffset = text.length
  separated : spans.IsChain fun a b => b.startOffset = a.endOffset + 2 ∧
    (⟨a.endOffset, b.startOffset⟩ : Extent).slice text = blankLine
  once : ∀ k, k < text.length →
    (Extent.withGaps (spans.map SourceSpan.extent)).countP (fun e => e.Contains k) = 1

section Sections

theorem SourceSpan.mk?_fields {startOffset endOffset sectionIndex : Nat} {pageNumber : Option Nat}
    {span : SourceSpan} (h : SourceSpan.mk? startOffset endOffset sectionIndex pageNumber = .ok span) :
    span.extent = ⟨startOffset, endOffset⟩ ∧ span.sectionIndex = sectionIndex ∧
      span.pageNumber = pageNumber := by
  unfold SourceSpan.mk? at h
  split at h
  · split at h
    · obtain rfl := Except.ok.inj h
      exact ⟨rfl, rfl, rfl⟩
    · cases h
  · cases h

/-- What one section does: nothing when it is blank, else a fragment and its span. -/
theorem normalizeSection_cases {st st' : NormalizeState} {i : Nat} {s : ParsedSection}
    (h : normalizeSection st i s = .ok st') :
    (¬ Contributes s ∧ st' = st) ∨
    (Contributes s ∧ ∃ start span,
      start = (if st.fragments = [] then st.currentOffset else st.currentOffset + 2) ∧
      span.extent = ⟨start, start + (normalizeFragment s.text).length⟩ ∧
      span.sectionIndex = i ∧ span.pageNumber = s.pageNumber ∧
      st' = ⟨st.fragments ++ [normalizeFragment s.text], st.sourceSpans ++ [span],
        start + (normalizeFragment s.text).length⟩) := by
  rw [normalizeSection] at h
  by_cases hs : strip (normalizeFragment s.text) = []
  · rw [if_pos hs] at h
    exact .inl ⟨not_not.mpr hs, (Except.ok.inj h).symm⟩
  · rw [if_neg hs] at h
    obtain ⟨span, hspan, hst⟩ := map_eq_ok.mp h
    obtain ⟨hextent, hindex, hpage⟩ := SourceSpan.mk?_fields hspan
    exact .inr ⟨hs, _, span, rfl, hextent, hindex, hpage, hst.symm⟩

/-- The loop invariant: the running offset is the length of the text joined so far, the
spans tile it, and they belong to the sections read that contribute. -/
structure Partitioning (done : List ParsedSection) (st : NormalizeState) : Prop where
  tiles : Tiles blankLine st.fragments (st.sourceSpans.map SourceSpan.extent)
  offset : st.currentOffset = (blankLine.intercalate st.fragments).length
  increasing : st.sourceSpans.Pairwise fun a b => a.sectionIndex < b.sectionIndex
  contributing : ∀ i, (∃ span ∈ st.sourceSpans, span.sectionIndex = i) ↔
    ∃ s, done[i]? = some s ∧ Contributes s
  exact : List.Forall₂ (fun fragment span => ∃ s, done[span.sectionIndex]? = some s ∧
    fragment = normalizeFragment s.text ∧ span.pageNumber = s.pageNumber) st.fragments st.sourceSpans

private theorem Partitioning.empty : Partitioning [] ⟨[], [], 0⟩ where
  tiles := .nil
  offset := rfl
  increasing := .nil
  contributing := by simp
  exact := .nil

private theorem getElem?_concat_of_some {done : List ParsedSection} {s t : ParsedSection} {i : Nat}
    (h : done[i]? = some t) : (done ++ [s])[i]? = some t := by
  rw [List.getElem?_append_left (List.getElem?_eq_some_iff.mp h).1, h]

private theorem exists_concat {done : List ParsedSection} {s : ParsedSection} {i : Nat} :
    (∃ t, (done ++ [s])[i]? = some t ∧ Contributes t) ↔
      (∃ t, done[i]? = some t ∧ Contributes t) ∨ (i = done.length ∧ Contributes s) := by
  rcases lt_trichotomy i done.length with hi | hi | hi
  · rw [List.getElem?_append_left hi]
    simp [hi.ne]
  · subst hi
    simp
  · have hlen : (done ++ [s]).length ≤ i := by
      rw [List.length_append, List.length_singleton]
      omega
    rw [List.getElem?_eq_none hlen, List.getElem?_eq_none hi.le]
    simp [hi.ne']

/-- One section keeps the invariant. -/
private theorem Partitioning.step {done : List ParsedSection} {st st' : NormalizeState}
    {s : ParsedSection} (h : Partitioning done st)
    (hstep : normalizeSection st done.length s = .ok st') : Partitioning (done ++ [s]) st' := by
  have hold : List.Forall₂ (fun fragment span => ∃ t, (done ++ [s])[span.sectionIndex]? = some t ∧
      fragment = normalizeFragment t.text ∧ span.pageNumber = t.pageNumber)
      st.fragments st.sourceSpans :=
    h.exact.imp fun _ _ ⟨t, ht, hfields⟩ => ⟨t, getElem?_concat_of_some ht, hfields⟩
  rcases normalizeSection_cases hstep with
    ⟨hblank, rfl⟩ | ⟨hkept, start, span, hstart, hextent, hindex, hpage, rfl⟩
  · refine ⟨h.tiles, h.offset, h.increasing, ?_, hold⟩
    intro i
    rw [h.contributing, exists_concat]
    simp [hblank]
  · have htiles : Tiles blankLine (st.fragments ++ [normalizeFragment s.text])
        (st.sourceSpans.map SourceSpan.extent ++
          [⟨start, start + (normalizeFragment s.text).length⟩]) := by
      refine h.tiles.concat _ ?_
      rw [hstart, h.offset]
      split
      · rename_i hnil
        rw [hnil]
        rfl
      · rfl
    have hlast : (blankLine.intercalate (st.fragments ++ [normalizeFragment s.text])).length =
        start + (normalizeFragment s.text).length :=
      (htiles.stop_of_getLast List.getLast?_concat).symm
    refine ⟨?_, hlast.symm, ?_, ?_, ?_⟩
    · rwa [List.map_append, List.map_singleton, hextent]
    · rw [List.pairwise_append]
      refine ⟨h.increasing, List.pairwise_singleton _ _, ?_⟩
      intro a ha b hb
      obtain rfl := List.mem_singleton.mp hb
      obtain ⟨t, ht, _⟩ := (h.contributing a.sectionIndex).mp ⟨a, ha, rfl⟩
      rw [hindex]
      exact (List.getElem?_eq_some_iff.mp ht).1
    · intro i
      rw [exists_concat, ← h.contributing]
      simp only [List.mem_append, List.mem_singleton, or_and_right, exists_or, exists_eq_left,
        hindex, hkept, and_true]
      rw [eq_comm (a := i)]
    · refine List.rel_append hold (.cons ⟨s, ?_, rfl, hpage⟩ .nil)
      rw [hindex, List.getElem?_concat_length]

private theorem Partitioning.run {done : List ParsedSection} {st st' : NormalizeState}
    (h : Partitioning done st) {rest : List ParsedSection}
    (hrun : normalizeSections st done.length rest = .ok st') : Partitioning (done ++ rest) st' := by
  induction rest generalizing done st with
  | nil =>
    obtain rfl := Except.ok.inj hrun
    rwa [List.append_nil]
  | cons s rest ih =>
    rw [normalizeSections] at hrun
    obtain ⟨st₁, hs, hrest⟩ := bind_eq_ok.mp hrun
    have hlen : done.length + 1 = (done ++ [s]).length := by
      rw [List.length_append, List.length_singleton]
    rw [hlen] at hrest
    have := ih (h.step hs) hrest
    rwa [List.append_assoc] at this

end Sections

/-- The spans of an accepted document. -/
theorem normalize_partitions {document : ParsedDocument} {normalized : NormalizedDocument}
    (h : normalize document = .ok normalized) :
    SpanPartition document.sections normalized.text normalized.sourceSpans := by
  obtain ⟨st, hst, hrest⟩ := bind_eq_ok.mp h
  have hp := Partitioning.empty.run hst
  rw [List.nil_append] at hp
  have hdone : normalized.text = blankLine.intercalate st.fragments ∧
      normalized.sourceSpans = st.sourceSpans := by
    dsimp only at hrest
    split at hrest
    · cases hrest
    · exact NormalizedDocument.mk?_fields hrest
  rw [hdone.1, hdone.2]
  have hslices := List.forall₂_map_right_iff.mp hp.tiles.slices_eq
  have hgaps := (List.isChain_map SourceSpan.extent).mp hp.tiles.gaps
  refine ⟨hp.increasing, hp.contributing, ?_, ?_, ?_, hgaps, ?_⟩
  · intro span hspan
    obtain ⟨i, hi, rfl⟩ := List.getElem_of_mem hspan
    have hexact := List.forall₂_iff_get.mp hp.exact
    have hslice := (List.forall₂_iff_get.mp hslices).2 i (hexact.1 ▸ hi) hi
    obtain ⟨s, hs, hfragment, hpage⟩ := hexact.2 i (hexact.1 ▸ hi) hi
    exact ⟨s, hs, hslice.trans hfragment, hpage⟩
  · intro span hspan
    refine hp.tiles.start_of_head (?_ : _ = some span.extent)
    rw [List.head?_map, hspan, Option.map_some]
  · intro span hspan
    refine hp.tiles.stop_of_getLast (?_ : _ = some span.extent)
    rw [List.getLast?_map, hspan, Option.map_some]
  · intro k hk
    exact hp.tiles.count hk

/-- A page of a parsed document, numbered from one. -/
def numberedPage (index : Nat) (text : Str) : ParsedSection :=
  ⟨text, some (index + 1), fun _ hp => Option.some.inj hp ▸ Nat.le_add_left 1 index⟩

def threePages : ParsedDocument :=
  ⟨[numberedPage 0 (str " Page one \r\n"), numberedPage 1 (str "\n\n"), numberedPage 2 (str "Page three")]⟩

theorem normalize_partitions_threePages : ∃ normalized, normalize threePages = .ok normalized ∧
    normalized.text = str "Page one\n\nPage three" ∧
    SpanPartition threePages.sections normalized.text normalized.sourceSpans := by
  have hany : (normalize threePages).toOption.any
      (fun normalized => normalized.text = str "Page one\n\nPage three") = true := by decide +kernel
  obtain ⟨normalized, hnormalized, htext⟩ := (Option.any_eq_true _ _).mp hany
  have h := toOption_eq_some.mp hnormalized
  exact ⟨normalized, h, of_decide_eq_true htext, normalize_partitions h⟩

end AgenticRag.Ingestion

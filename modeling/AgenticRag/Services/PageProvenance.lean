import AgenticRag.Services.PipelineSafety

/-! The pages of a chunk row against the page of every character of the text. -/
namespace AgenticRag.Services
open Lib Python Db Ingestion

/-- The character at this offset of the normalized text comes from this page. -/
def PageAt (document : ParsedDocument) (offset page : Nat) : Prop :=
  ∃ c, (labelledText document.sections)[offset]? = some (c, some page)

/-- The pages of two spans in order. -/
def PageLt (a b : SourceSpan) : Prop :=
  ∀ p q, a.pageNumber = some p → b.pageNumber = some q → p < q

section Labels
variable {labels : List (CodePoint × Option Nat)} {spans : List SourceSpan}

/-- A character has a page exactly when a span of that page covers it. -/
theorem label_iff (h : Layout labels spans) {k p : Nat} :
    (∃ c, labels[k]? = some (c, some p)) ↔
      ∃ span ∈ spans, span.startOffset ≤ k ∧ k < span.endOffset ∧ span.pageNumber = some p := by
  constructor
  · rintro ⟨c, hc⟩
    rcases h.separated k c _ hc with ⟨span, hspan, hlo, hhi⟩ | ⟨_, hnone⟩
    · obtain ⟨d, hd⟩ := h.labelled span hspan k hlo hhi
      have hpage := Option.some.inj (hd.symm.trans hc)
      exact ⟨span, hspan, hlo, hhi, (Prod.mk.inj hpage).2⟩
    · cases hnone
  · rintro ⟨span, hspan, hlo, hhi, hpage⟩
    rw [← hpage]
    exact h.labelled span hspan k hlo hhi

/-- Along the text the pages do not go back. -/
theorem page_mono (h : Layout labels spans) (hpages : spans.Pairwise PageLt) {k j p q : Nat}
    (hk : ∃ c, labels[k]? = some (c, some p)) (hj : ∃ c, labels[j]? = some (c, some q))
    (hkj : k ≤ j) : p ≤ q := by
  obtain ⟨a, ha, halo, hahi, hap⟩ := (label_iff h).mp hk
  obtain ⟨b, hb, hblo, hbhi, hbq⟩ := (label_iff h).mp hj
  obtain ⟨m, hm, rfl⟩ := List.getElem_of_mem ha
  obtain ⟨n, hn, rfl⟩ := List.getElem_of_mem hb
  rcases Nat.lt_trichotomy m n with hmn | rfl | hnm
  · exact (List.pairwise_iff_getElem.mp hpages m n hm hn hmn p q hap hbq).le
  · rw [hap] at hbq
    exact (Option.some.inj hbq).le
  · have := List.pairwise_iff_getElem.mp h.ordered n m hn hm hnm
    omega

/-- A span meets the range exactly when it covers an offset of the range. -/
theorem mem_pageNumbers_iff_label {document : NormalizedDocument}
    (h : Layout labels document.sourceSpans) {startOffset endOffset p : Nat}
    (hlt : startOffset < endOffset) : p ∈ pageNumbers document startOffset endOffset ↔
      ∃ k, startOffset ≤ k ∧ k < endOffset ∧ ∃ c, labels[k]? = some (c, some p) := by
  rw [mem_pageNumbers]
  constructor
  · rintro ⟨span, hspan, hlo, hhi, hpage⟩
    have hne := span.nonempty
    exact ⟨max span.startOffset startOffset, by omega, by omega,
      (label_iff h).mpr ⟨span, hspan, by omega, by omega, hpage⟩⟩
  · rintro ⟨k, hlo, hhi, hlabel⟩
    obtain ⟨span, hspan, hslo, hshi, hpage⟩ := (label_iff h).mp hlabel
    exact ⟨span, hspan, by omega, by omega, hpage⟩

private theorem addPage_ascending {startOffset endOffset : Nat} {numbers : List Nat}
    {span : SourceSpan} (hn : numbers.Pairwise (· < ·))
    (hlt : ∀ x ∈ numbers, ∀ p, span.pageNumber = some p → x < p) :
    (addPage startOffset endOffset numbers span).Pairwise (· < ·) := by
  unfold addPage
  split
  · exact hn
  · split
    · rename_i p hp
      split
      · exact hn
      · refine List.pairwise_append.mpr ⟨hn, List.pairwise_singleton _ _, ?_⟩
        intro x hx y hy
        obtain rfl := List.mem_singleton.mp hy
        exact hlt x hx _ hp
    · exact hn

private theorem foldl_addPage_ascending {startOffset endOffset : Nat} {numbers : List Nat}
    (hpages : spans.Pairwise PageLt) (hn : numbers.Pairwise (· < ·))
    (hlt : ∀ x ∈ numbers, ∀ span ∈ spans, ∀ p, span.pageNumber = some p → x < p) :
    (spans.foldl (addPage startOffset endOffset) numbers).Pairwise (· < ·) := by
  induction spans generalizing numbers with
  | nil => exact hn
  | cons span spans ih =>
    obtain ⟨hspan, hrest⟩ := List.pairwise_cons.mp hpages
    refine ih hrest (addPage_ascending hn fun x hx => hlt x hx span List.mem_cons_self) ?_
    intro x hx later hlater q hq
    rcases mem_addPage.mp hx with hx | ⟨_, _, hp⟩
    · exact hlt x hx later (List.mem_cons_of_mem _ hlater) q hq
    · exact hspan later hlater x q hp hq

end Labels

section Pages
variable {document : ParsedDocument} {normalized : NormalizedDocument} {n : Nat}

/-- In a document with numbered pages each span has a page, and the pages ascend. -/
theorem spans_numbered (hpages : document.PagesNumbered n) (h : normalize document = .ok normalized) :
    normalized.sourceSpans.Pairwise PageLt ∧
      ∀ span ∈ normalized.sourceSpans, ∃ p, span.pageNumber = some p ∧ p ≤ n := by
  obtain ⟨_, _, hspans⟩ := normalize_ok h
  have hsub : (normalized.sourceSpans.map SourceSpan.pageNumber).Sublist
      ((List.range' 1 n).map some) := by
    rw [hspans, ← hpages]
    exact List.filter_sublist.map _
  obtain ⟨pages, hpsub, heq⟩ := List.sublist_map_iff.mp hsub
  constructor
  · have hasc : pages.Pairwise (· < ·) := List.Pairwise.sublist hpsub List.pairwise_lt_range'
    have hmap : (pages.map some).Pairwise fun a b => ∀ p q, a = some p → b = some q → p < q := by
      rw [List.pairwise_map]
      refine hasc.imp ?_
      rintro a b hab _ _ ⟨⟩ ⟨⟩
      exact hab
    rw [← heq, List.pairwise_map] at hmap
    exact hmap
  · intro span hspan
    have hmem : span.pageNumber ∈ pages.map some := heq ▸ List.mem_map_of_mem hspan
    obtain ⟨p, hp, hpage⟩ := List.mem_map.mp hmem
    have := List.mem_range'_1.mp (hpsub.subset hp)
    exact ⟨p, hpage.symm, by omega⟩

/-- A character that is not space belongs to a page. -/
theorem pageAt_of_nonspace (hpages : document.PagesNumbered n)
    (h : normalize document = .ok normalized) {k : Nat}
    (hk : ∃ c, normalized.text[k]? = some c ∧ isSpace c = false) :
    ∃ p, p ≤ n ∧ PageAt document k p := by
  obtain ⟨htext, hlayout, _⟩ := normalize_ok h
  obtain ⟨c, hc, hs⟩ := hk
  rw [htext, List.getElem?_map] at hc
  obtain ⟨⟨d, label⟩, hlabel, rfl⟩ := Option.map_eq_some_iff.mp hc
  rcases hlayout.separated k d label hlabel with ⟨span, hspan, hlo, hhi⟩ | ⟨rfl, _⟩
  · obtain ⟨p, hp, hpn⟩ := (spans_numbered hpages h).2 span hspan
    exact ⟨p, hpn, (label_iff hlayout).mpr ⟨span, hspan, hlo, hhi, hp⟩⟩
  · cases hs

end Pages

/-- One chunk and its row against the labelled text of a document with pages `1..n`. -/
structure ExactPages (document : ParsedDocument) (n : Nat) (normalized : NormalizedDocument)
    (c : TextChunk) (row : DocumentChunk) : Prop where
  text_eq : c.text = (normalized.text.drop c.startOffset).take (c.endOffset - c.startOffset)
  ends : ∃ a b, row.pageStart = some a ∧ row.pageEnd = some b ∧ 1 ≤ a ∧ a ≤ b ∧ b ≤ n ∧
    PageAt document c.startOffset a ∧ PageAt document (c.endOffset - 1) b
  ascending : c.pageNumbers.Pairwise (· < ·)
  contributing : ∀ p, p ∈ c.pageNumbers ↔
    ∃ k, c.startOffset ≤ k ∧ k < c.endOffset ∧ PageAt document k p

/-- Every row cites the page of its first and of its last character, and its chunk lists the
pages of its characters. -/
theorem durable_pages_exact (sha256 : Sha256) (uuid5 : UUID → Str → UUID) (cfg : ChunkingConfig)
    (claimed : ClaimedDocument) {document : ParsedDocument} {normalized : NormalizedDocument}
    {n : Nat} (hpages : document.PagesNumbered n) (hnorm : normalize document = .ok normalized) :
    normalized.text = (labelledText document.sections).map Prod.fst ∧
      ∃ chunks, chunk sha256 cfg normalized = .ok chunks ∧
        ∀ c ∈ chunks, ExactPages document n normalized c (durableChunk uuid5 claimed c) := by
  obtain ⟨htext, hlayout, _⟩ := normalize_ok hnorm
  obtain ⟨hasc, _⟩ := spans_numbered hpages hnorm
  obtain ⟨chunks, hchunks, _, hchunked⟩ :=
    chunk_ok cfg fun c hc => (normalize_sanitized hnorm hc).1
  refine ⟨htext, chunks, hchunks, ?_⟩
  intro c hc
  have hof := hchunked.each c hc
  have hlt := c.range_nonempty
  have hmem : ∀ p, p ∈ c.pageNumbers ↔
      ∃ k, c.startOffset ≤ k ∧ k < c.endOffset ∧ PageAt document k p := by
    intro p
    rw [hof.pages]
    exact mem_pageNumbers_iff_label hlayout hlt
  obtain ⟨a, han, ha⟩ := pageAt_of_nonspace hpages hnorm hof.first
  obtain ⟨b, hbn, hb⟩ := pageAt_of_nonspace hpages hnorm hof.last
  have ha' := (hmem a).mpr ⟨_, le_rfl, hlt, ha⟩
  have hb' := (hmem b).mpr ⟨_, by omega, by omega, hb⟩
  refine ⟨hof.text_eq, ⟨a, b, ?_, ?_, c.pageNumbers_pos a ha', ?_, hbn, ha, hb⟩, ?_, hmem⟩
  · refine List.min?_eq_some_iff.mpr ⟨ha', fun p hp => ?_⟩
    obtain ⟨k, hk, _, hpk⟩ := (hmem p).mp hp
    exact page_mono hlayout hasc ha hpk hk
  · refine List.max?_eq_some_iff.mpr ⟨hb', fun p hp => ?_⟩
    obtain ⟨k, _, hk, hpk⟩ := (hmem p).mp hp
    exact page_mono hlayout hasc hpk hb (by omega)
  · exact page_mono hlayout hasc ha hb (by omega)
  · rw [hof.pages]
    exact foldl_addPage_ascending hasc List.Pairwise.nil (fun _ h => nomatch h)

private theorem firstPage_pos : ∀ p, some 1 = some p → 1 ≤ p := by simp

/-- Three pages, the second one blank. -/
def threePages : ParsedDocument :=
  ⟨[⟨str "ab ", some 1, firstPage_pos⟩, ⟨str " \n", some 2, by simp⟩, ⟨str "cd", some 3, by simp⟩]⟩

theorem durable_pages_exact_threePages :
    ∃ normalized, normalize threePages = .ok normalized ∧
      normalized.text = (labelledText threePages.sections).map Prod.fst ∧
      ∃ chunks, chunk zeroSha256 ⟨5, 1, by decide⟩ normalized = .ok chunks ∧
        ∀ c ∈ chunks, ExactPages threePages 3 normalized c
          (durableChunk zeroUuid5 exampleClaimed c) := by
  cases h : normalize threePages with
  | ok normalized =>
    exact ⟨normalized, rfl, durable_pages_exact zeroSha256 zeroUuid5 ⟨5, 1, by decide⟩
      exampleClaimed (by decide : threePages.PagesNumbered 3) h⟩
  | error e =>
    have hok : (normalize threePages).isOk = true := by decide
    rw [h] at hok
    cases hok

end AgenticRag.Services

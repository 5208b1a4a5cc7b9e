import AgenticRag.Ingestion.TextNormalization
import Mathlib.Data.Vector.Basic

/-! The character-window chunker. SHA-256 is a parameter; its type says that a digest has
32 bytes. -/
namespace AgenticRag.Ingestion
open Lib Python

abbrev Sha256 := List UInt8 → List.Vector UInt8 32

/-- `hashlib.sha256(...).hexdigest()`. -/
def hexdigest (sha256 : Sha256) (bytes : List UInt8) : Str := hexBytes (sha256 bytes).toList

/-- A configuration that passed `__post_init__`. -/
structure ChunkingConfig where
  chunkSize : Nat
  overlap : Nat
  overlap_lt : overlap < chunkSize

/-- `ChunkingConfig(...)` on integers. -/
def ChunkingConfig.mk? (chunkSize overlap : Int) : Except TextError ChunkingConfig :=
  if chunkSize ≤ 0 then .error .value
  else if overlap < 0 then .error .value
  else if h : overlap.toNat < chunkSize.toNat then .ok ⟨chunkSize.toNat, overlap.toNat, h⟩
  else .error .value

/-- A chunk that passed `__post_init__`; indices, counts and offsets are naturals. -/
structure TextChunk where
  chunkIndex : Nat
  text : Str
  tokenCount : Nat
  startOffset : Nat
  endOffset : Nat
  contentHash : Str
  pageNumbers : List Nat
  text_nonempty : text ≠ []
  range_nonempty : startOffset < endOffset
  contentHash_length : contentHash.length = 64
  pageNumbers_pos : ∀ p ∈ pageNumbers, 1 ≤ p

/-- `TextChunk(...)`. -/
def TextChunk.mk? (chunkIndex : Nat) (text : Str) (tokenCount startOffset endOffset : Nat)
    (contentHash : Str) (pageNumbers : List Nat) : Except TextError TextChunk :=
  if h₁ : text ≠ [] then
    if h₂ : startOffset < endOffset then
      if h₃ : contentHash.length = 64 then
        if h₄ : ∀ p ∈ pageNumbers, 1 ≤ p then
          .ok ⟨chunkIndex, text, tokenCount, startOffset, endOffset, contentHash, pageNumbers,
            h₁, h₂, h₃, h₄⟩
        else .error .value
      else .error .value
    else .error .value
  else .error .value

/-- `len(_TOKEN_PATTERN.findall(text))`: the maximal runs of characters that are not space. -/
def tokenCount (text : Str) : Nat := ((text.splitOnP isSpace).filter fun token => !token.isEmpty).length

/-- `_skip_whitespace`. -/
def skipWhitespace (text : Str) (startOffset : Nat) : Nat :=
  startOffset + ((text.drop startOffset).takeWhile isSpace).length

/-- `_trim_trailing_whitespace`. -/
def trimTrailingWhitespace (text : Str) (startOffset endOffset : Nat) : Nat :=
  startOffset + (rstripWhile isSpace ((text.take endOffset).drop startOffset)).length

/-- The body of the loop of `_page_numbers`. -/
def addPage (startOffset endOffset : Nat) (numbers : List Nat) (span : SourceSpan) : List Nat :=
  if span.startOffset ≥ endOffset ∨ span.endOffset ≤ startOffset then numbers
  else match span.pageNumber with
    | some p => if p ∈ numbers then numbers else numbers ++ [p]
    | none => numbers

/-- `_page_numbers`. -/
def pageNumbers (document : NormalizedDocument) (startOffset endOffset : Nat) : List Nat :=
  document.sourceSpans.foldl (addPage startOffset endOffset) []

/-- `_select_end`. -/
def selectEnd (cfg : ChunkingConfig) (text : Str) (startOffset hardEnd : Nat) : Nat :=
  if hardEnd = text.length then hardEnd
  else
    let minimumBoundary := startOffset + max (cfg.overlap + 1) (cfg.chunkSize / 2)
    if minimumBoundary ≥ hardEnd then hardEnd
    else
      let paragraphBoundary := rfind text (str "\n\n") minimumBoundary hardEnd
      if paragraphBoundary ≥ minimumBoundary then paragraphBoundary.toNat
      else
        let lineBoundary := rfind text (str "\n") minimumBoundary hardEnd
        if lineBoundary ≥ minimumBoundary then lineBoundary.toNat
        else
          let sentenceBoundary := max (rfind text (str ". ") minimumBoundary hardEnd)
            (max (rfind text (str "! ") minimumBoundary hardEnd)
              (rfind text (str "? ") minimumBoundary hardEnd))
          if sentenceBoundary ≥ minimumBoundary then (sentenceBoundary + 1).toNat
          else
            let whitespaceBoundary := max (rfind text (str " ") minimumBoundary hardEnd)
              (rfind text (str "\t") minimumBoundary hardEnd)
            if whitespaceBoundary ≥ minimumBoundary then whitespaceBoundary.toNat else hardEnd

/-- The chunk over `text[startOffset:endOffset]`. -/
def textChunk (sha256 : Sha256) (document : NormalizedDocument) (chunkIndex startOffset endOffset : Nat) :
    Except TextError TextChunk :=
  let chunkText := (document.text.drop startOffset).take (endOffset - startOffset)
  match encodeUtf8 chunkText with
  | none => .error .value
  | some encoded => TextChunk.mk? chunkIndex chunkText (tokenCount chunkText) startOffset endOffset
      (hexdigest sha256 encoded) (pageNumbers document startOffset endOffset)

/-- The loop of `chunk`. Each turn moves `nextStart` forward, so the length of the text
bounds the turns and the fuel is never used up. -/
def chunkFrom (sha256 : Sha256) (cfg : ChunkingConfig) (document : NormalizedDocument) :
    Nat → Nat → List TextChunk → Except TextError (List TextChunk)
  | 0, _, _ => .error .value
  | fuel + 1, nextStart, chunks =>
    let text := document.text
    if nextStart ≥ text.length then .ok chunks
    else
      let startOffset := skipWhitespace text nextStart
      if startOffset ≥ text.length then .ok chunks
      else
        let hardEnd := min (startOffset + cfg.chunkSize) text.length
        let selectedEnd := selectEnd cfg text startOffset hardEnd
        let endOffset := trimTrailingWhitespace text startOffset selectedEnd
        if endOffset ≤ startOffset then
          chunkFrom sha256 cfg document fuel (max selectedEnd (startOffset + 1)) chunks
        else
          match textChunk sha256 document chunks.length startOffset endOffset with
          | .error e => .error e
          | .ok chunk =>
            if endOffset = text.length then .ok (chunks ++ [chunk])
            else chunkFrom sha256 cfg document fuel (max (endOffset - cfg.overlap) (startOffset + 1))
              (chunks ++ [chunk])

/-- `DeterministicChunker.chunk`. -/
def chunk (sha256 : Sha256) (cfg : ChunkingConfig) (document : NormalizedDocument) :
    Except TextError (List TextChunk) :=
  chunkFrom sha256 cfg document (document.text.length + 1) 0 []

section Boundaries
variable {text : Str} {startOffset endOffset : Nat}

theorem hexdigest_length (sha256 : Sha256) (bytes : List UInt8) :
    (hexdigest sha256 bytes).length = 64 := by
  rw [hexdigest, hexBytes_length, List.Vector.toList_length]

theorem le_skipWhitespace (text : Str) (startOffset : Nat) :
    startOffset ≤ skipWhitespace text startOffset := Nat.le_add_right _ _

theorem skipWhitespace_lt_of_nonblank (h : strip text ≠ []) :
    skipWhitespace text 0 < text.length := by
  unfold skipWhitespace
  rw [List.drop_zero, Nat.zero_add]
  refine lt_of_le_of_ne (List.takeWhile_prefix _).length_le ?_
  intro hlen
  apply h
  rw [strip_eq_nil]
  have hall := (List.takeWhile_prefix isSpace).eq_of_length hlen
  exact List.takeWhile_eq_self_iff.mp hall

theorem skipWhitespace_spec (h : skipWhitespace text startOffset < text.length) :
    ∃ c, text[skipWhitespace text startOffset]? = some c ∧ isSpace c = false := by
  unfold skipWhitespace at h ⊢
  generalize hn : ((text.drop startOffset).takeWhile isSpace).length = n at h ⊢
  have hdrop : (text.drop startOffset).dropWhile isSpace = text.drop (startOffset + n) := by
    have happ := List.takeWhile_append_dropWhile (p := isSpace) (l := text.drop startOffset)
    have hleft : List.drop ((text.drop startOffset).takeWhile isSpace).length
        ((text.drop startOffset).takeWhile isSpace ++ (text.drop startOffset).dropWhile isSpace) =
        (text.drop startOffset).dropWhile isSpace := List.drop_left
    rw [happ, hn, List.drop_drop] at hleft
    exact hleft.symm
  have hcons := List.drop_eq_getElem_cons h
  refine ⟨text[startOffset + n], List.getElem?_eq_getElem h, ?_⟩
  have hne : (text.drop startOffset).dropWhile isSpace ≠ [] := by
    rw [hdrop, hcons]
    exact List.cons_ne_nil _ _
  have hnot := List.head_dropWhile_not isSpace hne
  simp only [hdrop, hcons, List.head_cons] at hnot
  exact hnot

/-- The selected end lies past the start and not past the hard end. -/
theorem selectEnd_bounds (cfg : ChunkingConfig) (text : Str) {hardEnd : Nat}
    (h : startOffset < hardEnd) :
    startOffset < selectEnd cfg text startOffset hardEnd ∧
      selectEnd cfg text startOffset hardEnd ≤ hardEnd := by
  unfold selectEnd
  generalize hm : startOffset + max (cfg.overlap + 1) (cfg.chunkSize / 2) = m
  have hb (sub : Str) (hs : sub.length ≤ 2) : rfind text sub m hardEnd ≤ (hardEnd : Int) - sub.length :=
    rfind_le (by omega)
  have hparagraph := hb (str "\n\n") (by decide)
  have hline := hb (str "\n") (by decide)
  have hperiod := hb (str ". ") (by decide)
  have hexclamation := hb (str "! ") (by decide)
  have hquestion := hb (str "? ") (by decide)
  have hspace := hb (str " ") (by decide)
  have htab := hb (str "\t") (by decide)
  have htwo : (str "\n\n").length = 2 ∧ (str ". ").length = 2 ∧ (str "! ").length = 2 ∧
      (str "? ").length = 2 := by decide
  have hone : (str "\n").length = 1 ∧ (str " ").length = 1 ∧ (str "\t").length = 1 := by decide
  dsimp only
  split_ifs <;> omega

/-- Trimming from a character that is not space keeps it, and ends on another one. -/
theorem trimTrailingWhitespace_spec {c : CodePoint} (hlt : startOffset < endOffset)
    (hle : endOffset ≤ text.length) (hc : text[startOffset]? = some c) (hs : isSpace c = false) :
    startOffset < trimTrailingWhitespace text startOffset endOffset ∧
      trimTrailingWhitespace text startOffset endOffset ≤ endOffset ∧
      ∃ d, text[trimTrailingWhitespace text startOffset endOffset - 1]? = some d ∧
        isSpace d = false := by
  unfold trimTrailingWhitespace
  generalize hw : (text.take endOffset).drop startOffset = w
  have hlen : w.length = endOffset - startOffset := by
    rw [← hw, List.length_drop, List.length_take]
    omega
  have hget (k : Nat) (hk : k < w.length) : w[k]? = text[startOffset + k]? := by
    rw [← hw, List.getElem?_drop, List.getElem?_take_of_lt (by omega)]
  have hne : rstripWhile isSpace w ≠ [] := by
    intro hnil
    have hmem : c ∈ w := List.mem_of_getElem? ((hget 0 (by omega)).trans hc)
    have := List.rdropWhile_eq_nil_iff.mp hnil c hmem
    rw [hs] at this
    cases this
  have hpre : rstripWhile isSpace w <+: w := List.rdropWhile_prefix _ _
  have hpos := List.length_pos_iff.mpr hne
  have hle' := hpre.length_le
  refine ⟨by omega, by omega, (rstripWhile isSpace w).getLast hne, ?_, ?_⟩
  · have hlast : w[(rstripWhile isSpace w).length - 1]? =
        some ((rstripWhile isSpace w).getLast hne) := by
      rw [← List.getLast?_eq_some_getLast hne, List.getLast?_eq_getElem?]
      rw [List.getElem?_eq_getElem (by omega), List.getElem?_eq_getElem (by omega),
      hpre.getElem (by omega)]
    rw [← hlast, hget _ (by omega)]
    congr 1
    omega
  · exact eq_false_of_ne_true (List.rdropWhile_last_not isSpace w hne)

end Boundaries

section Pages

theorem mem_addPage {startOffset endOffset p : Nat} {numbers : List Nat} {span : SourceSpan} :
    p ∈ addPage startOffset endOffset numbers span ↔ p ∈ numbers ∨
      span.startOffset < endOffset ∧ startOffset < span.endOffset ∧ span.pageNumber = some p := by
  unfold addPage
  split
  · rename_i h
    constructor
    · exact .inl
    · rintro (hp | ⟨h₁, h₂, _⟩)
      · exact hp
      · omega
  · rename_i h
    have hin : span.startOffset < endOffset ∧ startOffset < span.endOffset := by omega
    cases hpage : span.pageNumber with
    | none => simp
    | some q =>
      dsimp only
      split
      · rename_i hq
        constructor
        · exact .inl
        · rintro (hp | ⟨_, _, hqp⟩)
          · exact hp
          · rwa [← Option.some.inj hqp]
      · rw [List.mem_append, List.mem_singleton]
        simp [hin, eq_comm]

private theorem mem_foldl_addPage {startOffset endOffset p : Nat} {spans : List SourceSpan}
    {numbers : List Nat} : p ∈ spans.foldl (addPage startOffset endOffset) numbers ↔
      p ∈ numbers ∨ ∃ span ∈ spans, span.startOffset < endOffset ∧ startOffset < span.endOffset ∧
        span.pageNumber = some p := by
  induction spans generalizing numbers with
  | nil => simp
  | cons span spans ih =>
    rw [List.foldl_cons, ih, mem_addPage, or_assoc]
    simp only [List.mem_cons, exists_eq_or_imp]

/-- The pages of the spans that meet the range. -/
theorem mem_pageNumbers {document : NormalizedDocument} {startOffset endOffset p : Nat} :
    p ∈ pageNumbers document startOffset endOffset ↔ ∃ span ∈ document.sourceSpans,
      span.startOffset < endOffset ∧ startOffset < span.endOffset ∧ span.pageNumber = some p := by
  simp [pageNumbers, mem_foldl_addPage]

private theorem pageNumbers_pos {document : NormalizedDocument} {startOffset endOffset : Nat} :
    ∀ p ∈ pageNumbers document startOffset endOffset, 1 ≤ p := by
  intro p hp
  obtain ⟨span, _, _, _, hpage⟩ := mem_pageNumbers.mp hp
  exact span.pageNumber_pos p hpage

end Pages

section Chunks
variable {sha256 : Sha256} {document : NormalizedDocument}

/-- What is true of every chunk of a document. -/
structure ChunkOf (sha256 : Sha256) (document : NormalizedDocument) (chunk : TextChunk) : Prop where
  within : chunk.endOffset ≤ document.text.length
  text_eq : chunk.text =
    (document.text.drop chunk.startOffset).take (chunk.endOffset - chunk.startOffset)
  first : ∃ c, document.text[chunk.startOffset]? = some c ∧ isSpace c = false
  last : ∃ c, document.text[chunk.endOffset - 1]? = some c ∧ isSpace c = false
  hash : ∃ encoded, encodeUtf8 chunk.text = some encoded ∧
    chunk.contentHash = hexdigest sha256 encoded
  pages : chunk.pageNumbers = pageNumbers document chunk.startOffset chunk.endOffset

theorem ChunkOf.mem_text {chunk : TextChunk} (h : ChunkOf sha256 document chunk) {c : CodePoint}
    (hc : c ∈ chunk.text) : c ∈ document.text := by
  rw [h.text_eq] at hc
  exact List.mem_of_mem_drop (List.mem_of_mem_take hc)

/-- A chunk has a character that is not space, so no notion of blank takes it for blank. -/
theorem ChunkOf.exists_nonspace {chunk : TextChunk} (h : ChunkOf sha256 document chunk) :
    ∃ c ∈ chunk.text, isSpace c = false := by
  obtain ⟨c, hc, hs⟩ := h.first
  refine ⟨c, ?_, hs⟩
  have hlt := chunk.range_nonempty
  rw [h.text_eq]
  apply List.mem_of_getElem? (i := 0)
  rw [List.getElem?_take_of_lt (by omega), List.getElem?_drop, Nat.add_zero]
  exact hc

theorem ChunkOf.strip_ne_nil {chunk : TextChunk} (h : ChunkOf sha256 document chunk) :
    strip chunk.text ≠ [] := by
  obtain ⟨c, hc, hs⟩ := h.exists_nonspace
  exact strip_ne_nil_of_mem hc hs

/-- Over a range that starts and ends on characters that are not space, the chunk is made. -/
private theorem textChunk_ok (henc : ∀ c ∈ document.text, isSurrogate c = false)
    (chunkIndex : Nat) {startOffset endOffset : Nat} (hlt : startOffset < endOffset)
    (hle : endOffset ≤ document.text.length)
    (hfirst : ∃ c, document.text[startOffset]? = some c ∧ isSpace c = false)
    (hlast : ∃ c, document.text[endOffset - 1]? = some c ∧ isSpace c = false) :
    ∃ chunk, textChunk sha256 document chunkIndex startOffset endOffset = .ok chunk ∧
      chunk.chunkIndex = chunkIndex ∧ chunk.endOffset = endOffset ∧
      ChunkOf sha256 document chunk := by
  unfold textChunk
  generalize htext : (document.text.drop startOffset).take (endOffset - startOffset) = chunkText
  have hsome : (encodeUtf8 chunkText).isSome := by
    rw [encodeUtf8_isSome, ← htext]
    exact fun c hc => henc c (List.mem_of_mem_drop (List.mem_of_mem_take hc))
  obtain ⟨encoded, hencoded⟩ := Option.isSome_iff_exists.mp hsome
  have hne : chunkText ≠ [] := by
    apply List.ne_nil_of_length_pos
    rw [← htext, List.length_take, List.length_drop]
    omega
  dsimp only
  rw [hencoded]
  refine ⟨⟨chunkIndex, chunkText, tokenCount chunkText, startOffset, endOffset,
    hexdigest sha256 encoded, pageNumbers document startOffset endOffset, hne, hlt,
    hexdigest_length _ _, pageNumbers_pos⟩, ?_, rfl, rfl, ?_⟩
  · exact (dif_pos hne).trans ((dif_pos hlt).trans ((dif_pos (hexdigest_length _ _)).trans
      (dif_pos pageNumbers_pos)))
  · exact ⟨hle, htext.symm, hfirst, hlast, ⟨encoded, hencoded, rfl⟩, rfl⟩

/-- The loop invariant: chunks so far are numbered and are chunks of the document. -/
structure Chunked (sha256 : Sha256) (document : NormalizedDocument) (chunks : List TextChunk) :
    Prop where
  numbered : chunks.map TextChunk.chunkIndex = List.range chunks.length
  each : ∀ chunk ∈ chunks, ChunkOf sha256 document chunk

private theorem Chunked.concat {chunks : List TextChunk} {chunk : TextChunk}
    (h : Chunked sha256 document chunks) (hindex : chunk.chunkIndex = chunks.length)
    (hchunk : ChunkOf sha256 document chunk) : Chunked sha256 document (chunks ++ [chunk]) where
  numbered := by
    rw [List.map_append, h.numbered, List.map_singleton, hindex, List.length_append,
      List.length_singleton, List.range_succ]
  each := by
    intro c hc
    rcases List.mem_append.mp hc with hc | hc
    · exact h.each c hc
    · obtain rfl := List.mem_singleton.mp hc
      exact hchunk

/-- The range the loop takes from a position where text is left. -/
private theorem chunkRange (cfg : ChunkingConfig) {startOffset : Nat}
    (hlt : startOffset < document.text.length)
    (hfirst : ∃ c, document.text[startOffset]? = some c ∧ isSpace c = false) :
    let selectedEnd := selectEnd cfg document.text startOffset
      (min (startOffset + cfg.chunkSize) document.text.length)
    let endOffset := trimTrailingWhitespace document.text startOffset selectedEnd
    startOffset < endOffset ∧ endOffset ≤ document.text.length ∧
      ∃ c, document.text[endOffset - 1]? = some c ∧ isSpace c = false := by
  obtain ⟨c, hc, hs⟩ := hfirst
  have hcfg := cfg.overlap_lt
  have hhard : startOffset < min (startOffset + cfg.chunkSize) document.text.length := by omega
  obtain ⟨hlo, hhi⟩ := selectEnd_bounds cfg document.text hhard
  obtain ⟨h₁, h₂, h₃⟩ := trimTrailingWhitespace_spec hlo (hhi.trans (Nat.min_le_right _ _)) hc hs
  exact ⟨h₁, h₂.trans (hhi.trans (Nat.min_le_right _ _)), h₃⟩

/-- The loop ends with numbered chunks of the document; one is made wherever text is left. -/
private theorem chunkFrom_ok (cfg : ChunkingConfig)
    (henc : ∀ c ∈ document.text, isSurrogate c = false) (fuel nextStart : Nat)
    {chunks : List TextChunk} (hfuel : document.text.length < nextStart + fuel) (hpos : 0 < fuel)
    (h : Chunked sha256 document chunks) :
    ∃ out, chunkFrom sha256 cfg document fuel nextStart chunks = .ok out ∧
      Chunked sha256 document out ∧
      (chunks ≠ [] ∨ skipWhitespace document.text nextStart < document.text.length → out ≠ []) := by
  induction fuel generalizing nextStart chunks with
  | zero => omega
  | succ fuel ih =>
    have hskip := le_skipWhitespace document.text nextStart
    rw [chunkFrom]
    dsimp only
    split
    · exact ⟨chunks, rfl, h, fun hne => hne.resolve_right (by omega)⟩
    · split
      · exact ⟨chunks, rfl, h, fun hne => hne.resolve_right (by omega)⟩
      · rename_i hnext hstart
        have hlt := Nat.lt_of_not_le hstart
        have hfirst := skipWhitespace_spec hlt
        obtain ⟨hend, hle, hlast⟩ := chunkRange cfg hlt hfirst
        generalize trimTrailingWhitespace document.text _ _ = endOffset at hend hle hlast ⊢
        generalize skipWhitespace document.text nextStart = startOffset at *
        rw [if_neg (Nat.not_le.mpr hend)]
        obtain ⟨chunk, hchunk, hindex, _, hof⟩ :=
          textChunk_ok henc chunks.length hend hle hfirst hlast
        rw [hchunk]
        dsimp only
        have hcat := h.concat hindex hof
        split
        · exact ⟨_, rfl, hcat, fun _ => List.concat_ne_nil _ _⟩
        · obtain ⟨out, hout, hdone, hne⟩ := ih
            (max (endOffset - cfg.overlap) (startOffset + 1)) (by omega) (by omega) hcat
          exact ⟨out, hout, hdone, fun _ => hne (.inl (List.concat_ne_nil _ _))⟩

/-- Chunking a document without surrogates returns, with at least one chunk. -/
theorem chunk_ok (cfg : ChunkingConfig) (henc : ∀ c ∈ document.text, isSurrogate c = false) :
    ∃ chunks, chunk sha256 cfg document = .ok chunks ∧ chunks ≠ [] ∧
      Chunked sha256 document chunks := by
  have hinit : Chunked sha256 document [] := ⟨rfl, fun _ h => nomatch h⟩
  obtain ⟨chunks, hok, hchunked, hne⟩ :=
    chunkFrom_ok cfg henc (document.text.length + 1) 0 (by omega) (by omega) hinit
  exact ⟨chunks, hok, hne (.inr (skipWhitespace_lt_of_nonblank document.nonblank)), hchunked⟩

end Chunks

end AgenticRag.Ingestion

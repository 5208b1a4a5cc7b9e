import AgenticRag.Ingestion.ChunkWindows

/-! The chunker returns for every document that strict UTF-8 encodes, and its chunks
cover the text. -/
namespace AgenticRag.Ingestion
open Lib Python

/-- The shape of the chunks of a document. -/
structure Coverage (cfg : ChunkingConfig) (document : NormalizedDocument) (chunks : List TextChunk) :
    Prop where
  nonempty : chunks ≠ []
  numbered : chunks.map TextChunk.chunkIndex = List.range chunks.length
  text_eq : ∀ chunk ∈ chunks, chunk.endOffset ≤ document.text.length ∧ chunk.text =
    (document.text.drop chunk.startOffset).take (chunk.endOffset - chunk.startOffset)
  text_length : ∀ chunk ∈ chunks, chunk.text ≠ [] ∧ chunk.text.length ≤ cfg.chunkSize
  trimmed : ∀ chunk ∈ chunks, (∃ c, chunk.text.head? = some c ∧ isSpace c = false) ∧
    ∃ c, chunk.text.getLast? = some c ∧ isSpace c = false
  increasing : (chunks.map TextChunk.startOffset).Pairwise (· < ·)
  overlap : chunks.Pairwise fun a b => a.endOffset ≤ b.startOffset + cfg.overlap
  covered : ∀ k c, document.text[k]? = some c → isSpace c = false →
    ∃ chunk ∈ chunks, chunk.startOffset ≤ k ∧ k < chunk.endOffset

section Chunks
variable {sha256 : Sha256} {cfg : ChunkingConfig} {document : NormalizedDocument}
  {chunks : List TextChunk}

theorem windows_of_chunk (h : chunk sha256 cfg document = .ok chunks) :
    Windows cfg document.text 0 (chunks.map TextChunk.range) ∧
      ∀ chunk ∈ chunks, ChunkText document chunk := by
  obtain ⟨added, rfl, hwindows, htext⟩ := windows_of_chunkFrom h
  exact ⟨hwindows, htext⟩

theorem chunk_covered (h : chunk sha256 cfg document = .ok chunks) {k : Nat} {c : CodePoint}
    (hc : document.text[k]? = some c) (hs : isSpace c = false) :
    ∃ chunk ∈ chunks, chunk.startOffset ≤ k ∧ k < chunk.endOffset := by
  obtain ⟨range, hr, hmem⟩ := (windows_of_chunk h).1.covered (Nat.zero_le k) hc hs
  obtain ⟨chunk, hchunk, rfl⟩ := List.mem_map.mp hr
  exact ⟨chunk, hchunk, hmem⟩

private theorem text_ends {chunk : TextChunk} (htext : ChunkText document chunk)
    (hwindow : IsWindow cfg document.text chunk.startOffset chunk.endOffset) :
    (∃ c, chunk.text.head? = some c ∧ isSpace c = false) ∧
      ∃ c, chunk.text.getLast? = some c ∧ isSpace c = false := by
  have hnonempty := hwindow.nonempty
  have hwithin := hwindow.within
  have hlen : chunk.text.length = chunk.endOffset - chunk.startOffset := by
    rw [htext.text_eq, List.length_take, List.length_drop]
    omega
  have hget (k : Nat) (hk : k < chunk.text.length) :
      chunk.text[k]? = document.text[chunk.startOffset + k]? := by
    rw [htext.text_eq, List.getElem?_take_of_lt (by omega), List.getElem?_drop]
  rw [List.head?_eq_getElem?, List.getLast?_eq_getElem?, hget 0 (by omega), hget _ (by omega), hlen]
  have hend : chunk.startOffset + (chunk.endOffset - chunk.startOffset - 1) = chunk.endOffset - 1 := by
    omega
  rw [Nat.add_zero, hend]
  exact ⟨hwindow.first, hwindow.last⟩

theorem coverage_of_chunk (h : chunk sha256 cfg document = .ok chunks) (hne : chunks ≠ [])
    (hnumbered : chunks.map TextChunk.chunkIndex = List.range chunks.length) :
    Coverage cfg document chunks := by
  obtain ⟨hwindows, htext⟩ := windows_of_chunk h
  have hwindow : ∀ chunk ∈ chunks,
      IsWindow cfg document.text chunk.startOffset chunk.endOffset := fun chunk hc =>
    (hwindows.each _ (List.mem_map_of_mem hc)).2
  have hordered := List.pairwise_map.mp hwindows.ordered
  refine ⟨hne, hnumbered, ?_, ?_, ?_, ?_, ?_, ?_⟩
  · exact fun chunk hc => ⟨(hwindow chunk hc).within, (htext chunk hc).text_eq⟩
  · intro chunk hc
    refine ⟨chunk.text_nonempty, ?_⟩
    have hwidth := (hwindow chunk hc).width
    rw [(htext chunk hc).text_eq, List.length_take]
    omega
  · exact fun chunk hc => text_ends (htext chunk hc) (hwindow chunk hc)
  · exact List.pairwise_map.mpr (hordered.imp And.left)
  · exact hordered.imp And.right
  · exact fun k c hc hs => chunk_covered h hc hs

theorem isSpace_of_isSurrogate {c : CodePoint} (h : isSurrogate c = true) : isSpace c = false := by
  simp only [isSurrogate, Bool.and_eq_true, decide_eq_true_eq] at h
  simp only [isSpace, Bool.or_eq_false_iff, Bool.and_eq_false_iff, decide_eq_false_iff_not,
    beq_eq_false_iff_ne]
  omega

/-- A surrogate is not space, so a chunk would hold it; none does. -/
theorem chunk_surrogate {c : CodePoint} (hc : c ∈ document.text) (hs : isSurrogate c = true) :
    chunk sha256 cfg document ≠ .ok chunks := by
  intro h
  have hspace : isSpace c = false := isSpace_of_isSurrogate hs
  obtain ⟨k, hk⟩ := List.getElem?_of_mem hc
  obtain ⟨chunk, hchunk, hstart, hend⟩ := chunk_covered h hk hspace
  have htext := (windows_of_chunk h).2 chunk hchunk
  have hmem : c ∈ chunk.text := by
    rw [htext.text_eq]
    apply List.mem_of_getElem? (i := k - chunk.startOffset)
    rw [List.getElem?_take_of_lt (by omega), List.getElem?_drop, Nat.add_sub_cancel' hstart]
    exact hk
  have hnone := encodeUtf8_isSome.mp htext.encoded c hmem
  rw [hs] at hnone
  cases hnone

/-- More fuel than the text is long changes nothing. -/
theorem chunkFrom_fuel (extra fuel nextStart : Nat) (hfuel : document.text.length < nextStart + fuel)
    (hpos : 0 < fuel) : chunkFrom sha256 cfg document (fuel + extra) nextStart chunks =
      chunkFrom sha256 cfg document fuel nextStart chunks := by
  induction fuel generalizing nextStart chunks with
  | zero => omega
  | succ fuel ih =>
    rw [Nat.succ_add, chunkFrom, chunkFrom]
    dsimp only
    have hskip := le_skipWhitespace document.text nextStart
    split
    · rfl
    split
    · rfl
    rename_i hnext hstart
    split
    · exact ih _ (by omega) (by omega)
    split
    · rfl
    split
    · rfl
    · exact ih _ (by omega) (by omega)

/-- The chunker always ends. It raises when the text holds a surrogate, and returns
chunks that cover the text otherwise. -/
theorem chunk_coverage (sha256 : Sha256) (cfg : ChunkingConfig) (document : NormalizedDocument) :
    (∀ extra, chunkFrom sha256 cfg document (document.text.length + 1 + extra) 0 [] =
      chunk sha256 cfg document) ∧
    ((∃ c ∈ document.text, isSurrogate c = true) → ∃ e, chunk sha256 cfg document = .error e) ∧
    ((∀ c ∈ document.text, isSurrogate c = false) →
      ∃ chunks, chunk sha256 cfg document = .ok chunks ∧ Coverage cfg document chunks) := by
  refine ⟨fun extra => chunkFrom_fuel extra _ 0 (by omega) (by omega), ?_, ?_⟩
  · rintro ⟨c, hc, hs⟩
    cases h : chunk sha256 cfg document with
    | error e => exact ⟨e, rfl⟩
    | ok chunks => exact absurd h (chunk_surrogate hc hs)
  · intro henc
    obtain ⟨chunks, hok, hne, hchunked⟩ := chunk_ok cfg henc
    exact ⟨chunks, hok, coverage_of_chunk hok hne hchunked.numbered⟩

end Chunks

/-- A document that no normalizer makes: an unpaired surrogate. -/
def surrogateDocument : NormalizedDocument where
  text := [0xD800]
  sourceSpans := []
  nonblank := by decide
  spans_within := by simp

theorem chunk_coverage_fails : chunk (fun _ => List.Vector.replicate 32 0) ⟨2, 1, by decide⟩
    surrogateDocument = .error .value :=
  errorOf_eq_some.mp (by decide +kernel)

end AgenticRag.Ingestion

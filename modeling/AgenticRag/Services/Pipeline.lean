import AgenticRag.Ingestion.Chunking
import AgenticRag.Services.Processing

/-! What `process_next` computes between its transactions: source verification, chunks,
durable rows and vector records. Parsers, storage and embedding models are parameters. -/
namespace AgenticRag.Services
open Lib Python Db Ingestion

abbrev Bytes := List UInt8

structure DocumentArtifact where
  content : Bytes
  mediaType : String
  filename : Str

/-- How the handlers of `process_next` see an error of the text components. -/
def textRaised : TextError → Raised
  | .emptyDocument => .expected .documentProcessing
  | .value => .unexpected

def parseRaised : ParseError → Raised
  | .value | .unexpected => .unexpected
  | _ => .expected .documentProcessing

def embeddingRaised : EmbeddingError → Raised
  | .input => .expected .embeddingInput
  | .request => .expected .embeddingRequest
  | .response => .expected .embeddingResponse

/-- `_read_and_verify_source` after the read. -/
def verifySource (sha256 : Sha256) (claimed : ClaimedDocument) (content : Bytes) :
    Except Raised Bytes :=
  if content.length ≠ claimed.sizeBytes then .error (.expected .sourceIntegrity)
  else if hexdigest sha256 content ≠ claimed.sha256 then .error (.expected .sourceIntegrity)
  else .ok content

/-- The checks of `_parse_and_chunk` on the chunk expected at one index. -/
def consistentChunk (sha256 : Sha256) (expectedIndex : Nat) (chunk : TextChunk) :
    Except Raised Unit :=
  match encodeUtf8 chunk.text with
  | none => .error .unexpected
  | some encoded =>
    if chunk.chunkIndex ≠ expectedIndex ∨ chunk.contentHash ≠ hexdigest sha256 encoded then
      .error (.expected .processingInvariant)
    else .ok ()

/-- The loop over `enumerate(chunks)`. -/
def consistentChunks (sha256 : Sha256) : Nat → List TextChunk → Except Raised Unit
  | _, [] => .ok ()
  | expectedIndex, chunk :: rest => do
    consistentChunk sha256 expectedIndex chunk
    consistentChunks sha256 (expectedIndex + 1) rest

/-- `_parse_and_chunk`. -/
def parseAndChunk (sha256 : Sha256) (cfg : ChunkingConfig)
    (parse : DocumentArtifact → Except ParseError ParsedDocument) (claimed : ClaimedDocument)
    (content : Bytes) : Except Raised (List TextChunk) := do
  let parsed ← (parse ⟨content, claimed.mediaType, claimed.filename⟩).mapError parseRaised
  let normalized ← (normalize parsed).mapError textRaised
  let chunks ← (chunk sha256 cfg normalized).mapError textRaised
  if chunks = [] then throw (.expected .processingInvariant)
  consistentChunks sha256 0 chunks
  return chunks

/-- `f"{chunk.chunk_index}:{chunk.content_hash}"`. -/
def chunkName (chunk : TextChunk) : Str :=
  natStr chunk.chunkIndex ++ ord ':' :: chunk.contentHash

/-- The row `_replace_chunks` builds from one chunk. -/
def durableChunk (uuid5 : UUID → Str → UUID) (claimed : ClaimedDocument) (chunk : TextChunk) :
    DocumentChunk where
  id := uuid5 claimed.documentId (chunkName chunk)
  documentId := claimed.documentId
  chunkIndex := chunk.chunkIndex
  normalizedText := chunk.text
  tokenCount := chunk.tokenCount
  contentSha256 := some chunk.contentHash
  startOffset := some chunk.startOffset
  endOffset := some chunk.endOffset
  pageStart := chunk.pageNumbers.min?
  pageEnd := chunk.pageNumbers.max?

def durableChunks (uuid5 : UUID → Str → UUID) (claimed : ClaimedDocument)
    (chunks : List TextChunk) : List DocumentChunk :=
  chunks.map (durableChunk uuid5 claimed)

/-- `_embed_chunks`; the model checks its texts before it answers. -/
def embedChunks (embed : List Str → Except EmbeddingError Object) (dimension : Int)
    (claimed : ClaimedDocument) (chunks : List DocumentChunk) :
    Except Raised (List VectorRecord) := do
  let texts ← (validateTexts (chunks.map DocumentChunk.normalizedText)).mapError
    embeddingRaised
  let vectors ← (embed texts).mapError embeddingRaised
  let validated ← (validateEmbeddingBatch (chunks.map DocumentChunk.normalizedText) vectors
    dimension).mapError embeddingRaised
  makeVectorRecords claimed.knowledgeBaseId chunks validated

section Rows
variable {sha256 : Sha256} {document : NormalizedDocument}

theorem matchesSha256_hexdigest (sha256 : Sha256) (bytes : Bytes) :
    matchesSha256 (hexdigest sha256 bytes) = true := by
  rw [matchesSha256, hexdigest_length, beq_self_eq_true, Bool.true_and, List.all_eq_true]
  exact fun c hc => hexBytes_isLowerHex hc

private theorem validPageRange (chunk : TextChunk) :
    ValidPageRange chunk.pageNumbers.min? chunk.pageNumbers.max? := by
  cases hmin : chunk.pageNumbers.min? with
  | none =>
    rw [List.min?_eq_none_iff] at hmin
    exact .inl ⟨rfl, by rw [hmin]; rfl⟩
  | some a =>
    have ha := List.min?_eq_some_iff.mp hmin
    obtain ⟨b, hb⟩ := Option.isSome_iff_exists.mp (List.isSome_max?_of_mem ha.1)
    exact .inr ⟨a, b, rfl, hb, chunk.pageNumbers_pos a ha.1,
      (List.max?_eq_some_iff.mp hb).2 a ha.1⟩

/-- The row of a chunk satisfies the constraints of its table. -/
theorem durableChunk_checks (uuid5 : UUID → Str → UUID) (claimed : ClaimedDocument)
    {chunk : TextChunk} (h : ChunkOf sha256 document chunk) :
    (durableChunk uuid5 claimed chunk).Checks where
  nonempty_normalized_text := by
    obtain ⟨c, hc, hs⟩ := h.exists_nonspace
    apply List.length_pos_iff.mpr
    intro hnil
    have hsp : c = space := by simpa using stripWhile_eq_nil.mp hnil c hc
    rw [hsp] at hs
    cases hs
  valid_content_sha256 := by
    rintro _ ⟨⟩
    obtain ⟨encoded, _, hhash⟩ := h.hash
    rw [hhash]
    exact matchesSha256_hexdigest _ _
  valid_source_offsets := .inr ⟨_, _, rfl, rfl, chunk.range_nonempty⟩
  valid_page_range := validPageRange chunk

theorem consistentChunks_ok {k : Nat} {chunks : List TextChunk}
    (hindex : chunks.map TextChunk.chunkIndex = List.range' k chunks.length)
    (heach : ∀ chunk ∈ chunks, ChunkOf sha256 document chunk) :
    consistentChunks sha256 k chunks = .ok () := by
  induction chunks generalizing k with
  | nil => rfl
  | cons chunk rest ih =>
    rw [List.map_cons, List.length_cons, List.range'_succ] at hindex
    obtain ⟨hk, hrest⟩ := List.cons.inj hindex
    obtain ⟨encoded, hencoded, hhash⟩ := (heach chunk List.mem_cons_self).hash
    have hfirst : consistentChunk sha256 k chunk = .ok () := by
      rw [consistentChunk, hencoded]
      dsimp only
      rw [if_neg (by simp [hk, hhash])]
    rw [consistentChunks, hfirst]
    exact ih hrest fun c hc => heach c (List.mem_cons_of_mem _ hc)

/-- Names of chunks of different indices differ: the index ends at the first colon. -/
private theorem chunkName_index {a b : TextChunk} (h : chunkName a = chunkName b) :
    a.chunkIndex = b.chunkIndex := by
  have hcolon : ∀ n, ∀ c ∈ natStr n, (c != ord ':') = true := by
    intro n c hc
    obtain ⟨_, hle⟩ := natStr_digit hc
    rw [bne_iff_ne]
    rintro rfl
    exact absurd hle (by decide)
  have htake := congrArg (List.takeWhile (· != ord ':')) h
  rw [chunkName, chunkName, List.takeWhile_append_of_pos (hcolon _),
    List.takeWhile_append_of_pos (hcolon _), List.takeWhile_cons_of_neg (by simp),
    List.takeWhile_cons_of_neg (by simp), List.append_nil, List.append_nil] at htake
  exact natStr_injective htake

/-- With the names of the call free of collisions, the row ids are distinct. -/
theorem durableChunks_ids {uuid5 : UUID → Str → UUID} {claimed : ClaimedDocument}
    {chunks : List TextChunk} (h : Chunked sha256 document chunks)
    (huuid : Set.InjOn (uuid5 claimed.documentId) {name | ∃ c ∈ chunks, name = chunkName c}) :
    ((durableChunks uuid5 claimed chunks).map DocumentChunk.id).Nodup := by
  have hindex : (chunks.map TextChunk.chunkIndex).Nodup := by
    rw [h.numbered]
    exact List.nodup_range
  rw [durableChunks, List.map_map]
  refine List.Nodup.map_on ?_ hindex.of_map
  intro a ha b hb hab
  apply List.inj_on_of_nodup_map hindex ha hb
  exact chunkName_index (huuid ⟨a, ha, rfl⟩ ⟨b, hb, rfl⟩ hab)

end Rows

end AgenticRag.Services

import AgenticRag.Services.Pipeline

/-! Nothing downstream of normalization rejects what normalization accepts. -/
namespace AgenticRag.Services
open Lib Python Db Ingestion

def nul : CodePoint := 0

/-- No two names of the call share a `uuid5`. -/
def NamesApart (uuid5 : UUID → Str → UUID) (claimed : ClaimedDocument) (chunks : List TextChunk) :
    Prop :=
  Set.InjOn (uuid5 claimed.documentId) {name | ∃ c ∈ chunks, name = chunkName c}

/-- The checks after normalization, for the chunks of one document and any embedding batch the
boundary accepts. -/
structure Accepted (sha256 : Sha256) (uuid5 : UUID → Str → UUID) (svc : IngestionProcessingService)
    (dimension : Int) (claimed : ClaimedDocument) (chunks : List TextChunk) : Prop where
  nonempty : chunks ≠ []
  encodes : ∀ c ∈ chunks, (encodeUtf8 c.text).isSome
  consistent : consistentChunks sha256 0 chunks = .ok ()
  rows_checked : ∀ row ∈ durableChunks uuid5 claimed chunks, row.Checks
  rows_without_nul : ∀ row ∈ durableChunks uuid5 claimed chunks,
    nul ∉ row.normalizedText ∧ ∀ hash, row.contentSha256 = some hash → nul ∉ hash
  rows_indices : ((durableChunks uuid5 claimed chunks).map DocumentChunk.chunkIndex).Nodup
  rows_ids : NamesApart uuid5 claimed chunks →
    ((durableChunks uuid5 claimed chunks).map DocumentChunk.id).Nodup
  texts : validateTexts ((durableChunks uuid5 claimed chunks).map DocumentChunk.normalizedText) =
    .ok ((durableChunks uuid5 claimed chunks).map DocumentChunk.normalizedText)
  records : ∀ vectors embeddings,
    validateEmbeddingBatch ((durableChunks uuid5 claimed chunks).map DocumentChunk.normalizedText)
      vectors dimension = .ok embeddings →
    ∃ records, makeVectorRecords claimed.knowledgeBaseId (durableChunks uuid5 claimed chunks)
        embeddings = .ok records ∧
      (NamesApart uuid5 claimed chunks → ∀ batch ∈ svc.batches records,
        validateRecords batch dimension = .ok batch)

section Proofs
variable {sha256 : Sha256} {document : NormalizedDocument} {chunks : List TextChunk}
  {uuid5 : UUID → Str → UUID} {claimed : ClaimedDocument}

private theorem nul_not_mem_text (hs : ∀ c ∈ document.text, Sanitized c) {chunk : TextChunk}
    (h : ChunkOf sha256 document chunk) : nul ∉ chunk.text := by
  intro hnul
  rcases (hs nul (h.mem_text hnul)).2 (by decide) with h | h
  · exact absurd h (by decide)
  · exact absurd h (by decide)

private theorem nul_not_mem_hexdigest (sha256 : Sha256) (bytes : Bytes) :
    nul ∉ hexdigest sha256 bytes := by
  intro hnul
  exact absurd (hexBytes_isLowerHex hnul) (by decide)

private theorem vectorIds {rows : List DocumentChunk} {embeddings : List EmbeddingVector}
    {records : List VectorRecord} {knowledgeBaseId : UUID}
    (h : makeVectorRecords knowledgeBaseId rows embeddings = .ok records) :
    records.map VectorRecord.vectorId = (rows.map DocumentChunk.id).map stableVectorId := by
  have hall : List.Forall₂ Eq (rows.map fun c => stableVectorId c.id)
      (records.map VectorRecord.vectorId) := by
    rw [List.forall₂_map_left_iff, List.forall₂_map_right_iff]
    exact (makeVectorRecords_ok h).imp fun _ _ hr => hr.1.symm
  rw [List.forall₂_eq_eq_eq] at hall
  rw [← hall, List.map_map]
  rfl

private theorem batches_valid {svc : IngestionProcessingService} {dimension : Int}
    {rows : List DocumentChunk} {embeddings : List EmbeddingVector} {records : List VectorRecord}
    {knowledgeBaseId : UUID} (h : makeVectorRecords knowledgeBaseId rows embeddings = .ok records)
    (hids : (rows.map DocumentChunk.id).Nodup)
    (hdim : ∀ e ∈ embeddings, (e.length : Int) = dimension) {batch : List VectorRecord}
    (hbatch : batch ∈ svc.batches records) : validateRecords batch dimension = .ok batch := by
  have hsub := sublist_of_mem_slices hbatch
  rw [validateRecords_eq_ok]
  refine ⟨rfl, (hsub.map _).nodup ?_, fun r hr => hdim _ (makeVectorRecords_embedding h (hsub.subset hr))⟩
  rw [vectorIds h]
  exact hids.map stableVectorId_injective

/-- Numbered chunks of a sanitized document pass every later check. -/
theorem accepted_of_chunked (svc : IngestionProcessingService) (dimension : Int)
    (h : Chunked sha256 document chunks) (hne : chunks ≠ [])
    (hs : ∀ c ∈ document.text, Sanitized c) :
    Accepted sha256 uuid5 svc dimension claimed chunks where
  nonempty := hne
  encodes := by
    intro c hc
    obtain ⟨encoded, hencoded, _⟩ := (h.each c hc).hash
    rw [hencoded]
    rfl
  consistent := by
    refine consistentChunks_ok ?_ h.each
    rw [h.numbered, List.range_eq_range']
  rows_checked := by
    intro row hrow
    obtain ⟨c, hc, rfl⟩ := List.mem_map.mp hrow
    exact durableChunk_checks uuid5 claimed (h.each c hc)
  rows_without_nul := by
    intro row hrow
    obtain ⟨c, hc, rfl⟩ := List.mem_map.mp hrow
    refine ⟨nul_not_mem_text hs (h.each c hc), ?_⟩
    rintro _ ⟨⟩
    obtain ⟨encoded, _, hhash⟩ := (h.each c hc).hash
    rw [hhash]
    exact nul_not_mem_hexdigest _ _
  rows_indices := by
    have hindex : (durableChunks uuid5 claimed chunks).map DocumentChunk.chunkIndex =
        chunks.map TextChunk.chunkIndex := List.map_map
    rw [hindex, h.numbered]
    exact List.nodup_range
  rows_ids := durableChunks_ids h
  texts := by
    rw [validateTexts, if_neg]
    rw [List.any_eq_true]
    rintro ⟨text, htext, hblank⟩
    obtain ⟨row, hrow, rfl⟩ := List.mem_map.mp htext
    obtain ⟨c, hc, rfl⟩ := List.mem_map.mp hrow
    exact (h.each c hc).strip_ne_nil (of_decide_eq_true hblank)
  records := by
    intro vectors embeddings hbatch
    obtain ⟨hpos, hlen, hall⟩ := validateEmbeddingBatch_ok hbatch
    rw [List.length_map] at hlen
    have hrows : ∀ row ∈ durableChunks uuid5 claimed chunks, strip row.normalizedText ≠ [] ∧
        ∃ hash, row.contentSha256 = some hash ∧ matchesSha256 hash = true := by
      intro row hrow
      obtain ⟨c, hc, rfl⟩ := List.mem_map.mp hrow
      exact ⟨(h.each c hc).strip_ne_nil, c.contentHash, rfl,
        (durableChunk_checks uuid5 claimed (h.each c hc)).valid_content_sha256 _ rfl⟩
    have hvectors : ∀ e ∈ embeddings, e ≠ [] ∧ ∀ x ∈ e, x.isFinite = true := by
      intro e he
      refine ⟨?_, (hall e he).2⟩
      rintro rfl
      have hzero := (hall [] he).1
      rw [List.length_nil] at hzero
      omega
    obtain ⟨records, hrecords⟩ :=
      makeVectorRecords_exists claimed.knowledgeBaseId hlen.symm hrows hvectors
    exact ⟨records, hrecords, fun happart batch => batches_valid hrecords (durableChunks_ids h happart)
      fun e he => (hall e he).1⟩

end Proofs

/-- A document the normalizer does not find empty goes through chunking, the row constraints,
the embedding boundary and the record checks. -/
theorem normalized_document_accepted (sha256 : Sha256) (uuid5 : UUID → Str → UUID)
    (svc : IngestionProcessingService) (cfg : ChunkingConfig)
    (parse : DocumentArtifact → Except ParseError ParsedDocument) (dimension : Int)
    (claimed : ClaimedDocument) (content : Bytes) {parsed : ParsedDocument}
    (hparse : parse ⟨content, claimed.mediaType, claimed.filename⟩ = .ok parsed)
    (haccepts : normalize parsed ≠ .error .emptyDocument) :
    ∃ normalized chunks, normalize parsed = .ok normalized ∧
      chunk sha256 cfg normalized = .ok chunks ∧
      parseAndChunk sha256 cfg parse claimed content = .ok chunks ∧
      Accepted sha256 uuid5 svc dimension claimed chunks := by
  obtain ⟨normalized, hnormalized⟩ : ∃ normalized, normalize parsed = .ok normalized := by
    cases hn : normalize parsed with
    | ok normalized => exact ⟨normalized, rfl⟩
    | error e =>
      cases e with
      | emptyDocument => exact absurd hn haccepts
      | value => exact absurd hn (normalize_ne_value parsed)
  have hs : ∀ c ∈ normalized.text, Sanitized c := fun c hc => normalize_sanitized hnormalized hc
  obtain ⟨chunks, hchunks, hne, hchunked⟩ := chunk_ok cfg fun c hc => (hs c hc).1
  have hall : Accepted sha256 uuid5 svc dimension claimed chunks :=
    accepted_of_chunked svc dimension hchunked hne hs
  refine ⟨normalized, chunks, hnormalized, hchunks, ?_, hall⟩
  simp [parseAndChunk, hparse, hnormalized, hchunks, hne, hall.consistent, Except.mapError, bind,
    Except.bind, pure, Except.pure]

section Example

def zeroSha256 : Sha256 := fun _ => List.Vector.replicate 32 0

def zeroUuid5 : UUID → Str → UUID := fun _ name => ⟨name.length % 2 ^ 128, Nat.mod_lt _ (by decide)⟩

def exampleClaimed : ClaimedDocument where
  jobId := 1
  documentId := 2
  knowledgeBaseId := 3
  storageKey := str "key"
  filename := str "a.pdf"
  mediaType := "application/pdf"
  sizeBytes := 1
  sha256 := str "digest"

/-- A page with a control, an unpaired surrogate and a blank line. -/
def exampleParsed : ParsedDocument :=
  ⟨[⟨[nul, ⟨0xD800, by decide⟩] ++ str " a\r\n \nb", some 1, by simp⟩]⟩

theorem normalized_document_accepted_example :
    ∃ normalized chunks, normalize exampleParsed = .ok normalized ∧
      chunk zeroSha256 ⟨2, 1, by decide⟩ normalized = .ok chunks ∧
      parseAndChunk zeroSha256 ⟨2, 1, by decide⟩ (fun _ => .ok exampleParsed) exampleClaimed [0] =
        .ok chunks ∧
      Accepted zeroSha256 zeroUuid5 exampleService 4 exampleClaimed chunks := by
  refine normalized_document_accepted zeroSha256 zeroUuid5 exampleService ⟨2, 1, by decide⟩
    (fun _ => .ok exampleParsed) 4 exampleClaimed [0] rfl ?_
  intro h
  have hok : (normalize exampleParsed).isOk = true := by decide
  rw [h] at hok
  cases hok

end Example
end AgenticRag.Services

import AgenticRag.Ingestion.EmbeddingClosed
import AgenticRag.Ingestion.PointwiseEmbedding
import AgenticRag.Services.PipelineSafety
import AgenticRag.Services.RebuildAccounts

/-! Ingestion and rebuild make the same records of a document. Ingestion embeds all rows by one
call before they are read back; a rebuild reads them in the order of the chunks and embeds batch
by batch. -/
namespace AgenticRag.Services
open Lib Python Db Ingestion

def rowTexts (rows : List DocumentChunk) : List Str := rows.map DocumentChunk.normalizedText

/-- `_replace_vectors`. -/
def replaceVectors (svc : IngestionProcessingService) (deleted : StoreReply) (upserted : Nat → StoreReply)
    (documentId : UUID) (records : List VectorRecord) (service : IndexService) :
    Except Raised Unit × IndexService :=
  match service.deleteByDocument documentId deleted with
  | (.error raised, service) => (.error raised, service)
  | (.ok _, service) =>
    match upsertBatches upserted 0 (svc.batches records) 0 service with
    | ((some raised, _), service) => (.error raised, service)
    | ((none, _), service) => (.ok (), service)

/-- The document of a claim in a later database: completed, with the rows of the commit. -/
structure CompletedFrom (claimed : ClaimedDocument) (committed later : Database) (document : Document) :
    Prop where
  found : later.documents.find? claimed.documentId = some document
  status : document.status = .completed
  knowledgeBase : document.knowledgeBaseId = claimed.knowledgeBaseId
  rows : (later.chunksOf claimed.documentId).Perm (committed.chunksOf claimed.documentId)

/-- The calls of a rebuild all return. -/
structure AllReturn {σ : Type} (svc : IngestionProcessingService) (environment : RebuildEnvironment)
    (calls : Nat → EmbeddingCall σ) (rows : List DocumentChunk) : Prop where
  initialized : environment.initialized = none
  embedded : ∀ batch ∈ (svc.batches rows).zipIdx, ∃ vectors,
    (calls batch.2).result (rowTexts batch.1) = .ok vectors
  deleted : environment.deleted = .returned
  upserted : ∀ i, environment.upserted i = .returned

/-- A rebuild of the rows whose records ingestion put into the index: it loads those rows, makes
those records and leaves the index as it is; when its calls return it succeeds. -/
structure SameIndex {σ : Type} (svc : IngestionProcessingService) (environment : RebuildEnvironment)
    (calls : Nat → EmbeddingCall σ) (later : Database) (document : Document) (rows : List DocumentChunk)
    (records : List VectorRecord) (service : IndexService) : Prop where
  loaded : ∀ maxChunks document' rows',
    loadRebuildDocument later document.id maxChunks = .ok (document', rows') →
      document' = document ∧ rows' = rows
  made : ∀ records', recordsForChunks svc environment.answers document rows = .ok records' →
    records' = records
  unchanged : ∀ maxChunks initialized result world',
    rebuildDocument svc environment document.id maxChunks ⟨initialized, service⟩ = (.ok result, world') →
      result.documentsIndexed = 1 → world'.service.records = service.records
  succeeds : AllReturn svc environment calls rows → ∀ (maxChunks : Int) initialized, rows.length ≤ maxChunks →
    rebuildDocument svc environment document.id maxChunks ⟨initialized, service⟩ =
      (.ok ⟨1, 1, rows.length, []⟩, ⟨true, ⟨service.records, service.returned ++ records⟩⟩)

section Rows
variable {sha256 : Sha256} {chunks : List TextChunk}

theorem consistentChunks_numbered {k : Nat} (h : consistentChunks sha256 k chunks = .ok ()) :
    chunks.map TextChunk.chunkIndex = List.range' k chunks.length := by
  induction chunks generalizing k with
  | nil => rfl
  | cons chunk rest ih =>
    rw [consistentChunks] at h
    obtain ⟨_, hfirst, hrest⟩ := bind_eq_ok.mp h
    rw [List.map_cons, List.length_cons, List.range'_succ, ih hrest]
    congr 1
    rw [consistentChunk] at hfirst
    split at hfirst
    · cases hfirst
    · split at hfirst
      · cases hfirst
      · rename_i hagree
        rw [not_or, not_not] at hagree
        exact hagree.1

/-- The chunks of a document are numbered from zero. -/
theorem parseAndChunk_numbered {cfg : ChunkingConfig} {claimed : ClaimedDocument} {content : Bytes}
    {parse : DocumentArtifact → Except ParseError ParsedDocument}
    (h : parseAndChunk sha256 cfg parse claimed content = .ok chunks) :
    chunks ≠ [] ∧ chunks.map TextChunk.chunkIndex = List.range chunks.length := by
  obtain ⟨parsed, _, h⟩ := bind_eq_ok.mp h
  obtain ⟨normalized, _, h⟩ := bind_eq_ok.mp h
  obtain ⟨made, _, h⟩ := bind_eq_ok.mp h
  split at h
  · cases h
  rename_i hnonempty
  obtain ⟨_, hconsistent, h⟩ := bind_eq_ok.mp h
  obtain rfl := Except.ok.inj h
  rw [List.range_eq_range']
  exact ⟨hnonempty, consistentChunks_numbered hconsistent⟩

variable {svc : IngestionProcessingService} {uuid5 : UUID → Str → UUID} {claimed : ClaimedDocument}
  {db committed later : Database} {document : Document} {rows : List DocumentChunk} {now : Time}

theorem durableChunks_sorted (hnumbered : chunks.map TextChunk.chunkIndex = List.range chunks.length) :
    (durableChunks uuid5 claimed chunks).Pairwise fun a b => a.chunkIndex < b.chunkIndex := by
  have hindex : (durableChunks uuid5 claimed chunks).map DocumentChunk.chunkIndex =
      chunks.map TextChunk.chunkIndex := List.map_map
  rw [← List.pairwise_map (R := (· < ·)), hindex, hnumbered]
  exact List.pairwise_lt_range

/-- A replacement commits its rows and no others of the document. -/
theorem replaceChunks_rows (h : svc.replaceChunks db claimed rows now = .ok committed) :
    (committed.chunksOf claimed.documentId).Perm rows := by
  obtain ⟨job, mid, _, hmid, rfl⟩ := replaceChunks_ok h
  obtain ⟨hdocument, hids, hmem, _⟩ := replaceForDocumentInternal_ok hmid
  change (mid.chunksOf claimed.documentId).Perm rows
  have hnodup : (mid.chunksOf claimed.documentId).Nodup := mid.documentChunks.nodup_rows.filter _
  rw [List.perm_ext_iff_of_nodup hnodup hids.of_map]
  intro c
  rw [Database.mem_chunksOf, hmem]
  constructor
  · rintro ⟨hc | ⟨_, hother⟩, hd⟩
    · exact hc
    · exact absurd hd hother
  · exact fun hc => ⟨.inl hc, hdocument c hc⟩

/-- The rows of a completed document are read back as they were made. -/
theorem CompletedFrom.sorted (h : CompletedFrom claimed committed later document)
    (hcommitted : svc.replaceChunks db claimed rows now = .ok committed)
    (hsorted : rows.Pairwise fun a b => a.chunkIndex < b.chunkIndex) :
    orderBy DocumentChunk.chunkIndex (later.chunksOf claimed.documentId) = rows :=
  orderBy_eq_of_sorted (h.rows.trans (replaceChunks_rows hcommitted)) hsorted

/-- A load that meets no limit succeeds. -/
theorem loadRebuildDocument_eq_ok {documentId : UUID} {maxChunks : Int}
    (hfound : later.documents.find? documentId = some document) (hstatus : document.status = .completed)
    (hrows : orderBy DocumentChunk.chunkIndex (later.chunksOf documentId) = rows) (hne : rows ≠ [])
    (hhash : ∀ c ∈ rows, c.contentSha256.isSome) (hmax : rows.length ≤ maxChunks) :
    loadRebuildDocument later documentId maxChunks = .ok (document, rows) := by
  have hpos : 0 < rows.length := List.length_pos_iff.mpr hne
  have hlist : listForDocumentInternal later documentId (some (maxChunks + 1)) = .ok rows := by
    simp only [listForDocumentInternal, hrows]
    rw [if_neg (by omega), List.take_of_length_le (by omega)]
  simp only [loadRebuildDocument, hfound, hlist]
  rw [if_neg (not_not.mpr hstatus), if_neg (not_lt.mpr hmax), if_neg (by simpa using hne), if_neg]
  rw [List.any_eq_true]
  rintro ⟨c, hc, hnone⟩
  rw [Option.isNone_iff_eq_none] at hnone
  have hsome := hhash c hc
  rw [hnone] at hsome
  cases hsome

end Rows

section Records
variable {σ : Type} {svc : IngestionProcessingService} {claimed : ClaimedDocument} {document : Document}
  {rows : List DocumentChunk} {records : List VectorRecord} {vectorOf : Str → EmbeddingVector}
  {dimension : Int} {knowledgeBaseId : UUID}

theorem rowTexts_map (vectorOf : Str → EmbeddingVector) (rows : List DocumentChunk) :
    (rowTexts rows).map vectorOf = rows.map fun c => vectorOf c.normalizedText := List.map_map

/-- Each row has the record made of it with the vector of its text, and no other. -/
theorem rebuilt_unique {records' : List VectorRecord}
    (h : List.Forall₂ (RebuiltRecord knowledgeBaseId vectorOf) rows records)
    (h' : List.Forall₂ (RebuiltRecord knowledgeBaseId vectorOf) rows records') : records' = records := by
  have hunique : Relator.RightUnique (RebuiltRecord knowledgeBaseId vectorOf) :=
    fun _ _ _ hr hr' => hr.unique hr'
  exact List.right_unique_forall₂' hunique h' h

/-- What ingestion makes of the answer of a pointwise model, and the vectors it has accepted. -/
theorem embedChunks_rebuilt {embed : List Str → Except EmbeddingError Object} {call : EmbeddingCall σ}
    (hanswers : call.Answers (rowTexts rows) (embed (rowTexts rows)))
    (hpointwise : call.Pointwise vectorOf (rowTexts rows))
    (h : embedChunks embed dimension claimed rows = .ok records) :
    List.Forall₂ (RebuiltRecord claimed.knowledgeBaseId vectorOf) rows records ∧ 0 < dimension ∧
      ∀ c ∈ rows, (vectorOf c.normalizedText).length = dimension ∧
        ∀ x ∈ vectorOf c.normalizedText, x.isFinite = true := by
  obtain ⟨texts, htexts, h⟩ := bind_eq_ok.mp h
  obtain rfl := validateTexts_ok (mapError_eq_ok.mp htexts)
  obtain ⟨object, hobject, h⟩ := bind_eq_ok.mp h
  obtain ⟨validated, hvalidated, h⟩ := bind_eq_ok.mp h
  have hvalidated := mapError_eq_ok.mp hvalidated
  obtain rfl := hanswers.validated hpointwise (mapError_eq_ok.mp hobject) hvalidated
  obtain ⟨hdimension, _, hvectors⟩ := validateEmbeddingBatch_ok hvalidated
  rw [rowTexts_map] at h hvectors
  refine ⟨makeVectorRecords_rebuilt h, hdimension, fun c hc => ?_⟩
  exact hvectors _ (List.mem_map_of_mem hc)

/-- The loop of `_records_for_chunks` puts the records of its batches together. -/
theorem recordsForChunks_eq_ok {answers : Nat → Except Raised Object} :
    recordsForChunks svc answers document rows = .ok records ↔
      ∃ mades, List.Forall₂ (fun batch made => ∃ object, answers batch.2 = .ok object ∧
        recordsForBatch svc document batch.1 (.ok object) = .ok made) (svc.batches rows).zipIdx mades ∧
        records = mades.flatten := by
  rw [recordsForChunks, foldlM_append, bind_eq_ok]
  refine exists_congr fun mades => ?_
  rw [mapM_eq_ok, List.nil_append, Except.ok.injEq, eq_comm (a := records)]
  simp only [bind_eq_ok]

/-- What a rebuild makes batch by batch. -/
theorem recordsForChunks_rebuilt {answers : Nat → Except Raised Object} {calls : Nat → EmbeddingCall σ}
    (hanswers : ∀ batch ∈ (svc.batches rows).zipIdx,
      (calls batch.2).Answers (rowTexts batch.1) (answers batch.2))
    (hpointwise : ∀ batch ∈ (svc.batches rows).zipIdx,
      (calls batch.2).Pointwise vectorOf (rowTexts batch.1))
    (h : recordsForChunks svc answers document rows = .ok records) :
    List.Forall₂ (RebuiltRecord document.knowledgeBaseId vectorOf) rows records := by
  obtain ⟨mades, hmades, rfl⟩ := recordsForChunks_eq_ok.mp h
  have heach : List.Forall₂ (fun batch made =>
      List.Forall₂ (RebuiltRecord document.knowledgeBaseId vectorOf) batch.1 made)
      (svc.batches rows).zipIdx mades := by
    refine List.forall₂_iff_get.mpr ⟨hmades.length_eq, fun i hi hi' => ?_⟩
    have hbatch := List.get_mem (svc.batches rows).zipIdx ⟨i, hi⟩
    obtain ⟨object, hobject, hmade⟩ := (List.forall₂_iff_get.mp hmades).2 i hi hi'
    refine recordsForBatch_ok hmade fun vectors validated hvectors hvalidated => ?_
    obtain rfl := Except.ok.inj hvectors
    rw [← rowTexts_map]
    exact (hanswers _ hbatch).validated (hpointwise _ hbatch) hobject hvalidated
  have hall := forall₂_flatten heach
  rwa [batches_flatten] at hall

/-- The vectors of rows that have records make records again. -/
theorem recordsForBatch_exists {batch : List DocumentChunk} (hdimension : 0 < svc.embeddingDimension)
    (hvectors : ∀ c ∈ batch, (vectorOf c.normalizedText).length = svc.embeddingDimension ∧
      ∀ x ∈ vectorOf c.normalizedText, x.isFinite = true)
    (hrecord : ∀ c ∈ batch, ∃ r, RebuiltRecord knowledgeBaseId vectorOf c r) :
    ∃ made, recordsForBatch svc document batch
      (.ok (vectorsObject (batch.map fun c => vectorOf c.normalizedText))) = .ok made := by
  have hvalidated : validateEmbeddingBatch (rowTexts batch)
      (vectorsObject (batch.map fun c => vectorOf c.normalizedText)) svc.embeddingDimension =
        .ok (batch.map fun c => vectorOf c.normalizedText) := by
    refine validateEmbeddingBatch_vectors hdimension ?_ ?_
    · rw [rowTexts, List.length_map, List.length_map]
    · intro vector hvector
      obtain ⟨c, hc, rfl⟩ := List.mem_map.mp hvector
      exact hvectors c hc
  have hmade : ∃ made, makeVectorRecords document.knowledgeBaseId batch
      (batch.map fun c => vectorOf c.normalizedText) = .ok made := by
    refine makeVectorRecords_exists document.knowledgeBaseId (List.length_map _).symm ?_ ?_
    · intro c hc
      obtain ⟨r, hr⟩ := hrecord c hc
      exact ⟨hr.normalizedText ▸ r.text_nonblank, r.contentHash, hr.contentHash, r.contentHash_hex⟩
    · intro vector hvector
      obtain ⟨c, hc, rfl⟩ := List.mem_map.mp hvector
      obtain ⟨r, hr⟩ := hrecord c hc
      exact hr.embedding ▸ ⟨r.embedding_nonempty, r.embedding_finite⟩
  obtain ⟨made, hmade⟩ := hmade
  refine ⟨made, bind_eq_ok.mpr ⟨_, rfl, bind_eq_ok.mpr ⟨_, ?_, hmade⟩⟩⟩
  exact mapError_eq_ok.mpr hvalidated

/-- Batch by batch there is a record of each row again. -/
theorem recordsForChunks_exists {answers : Nat → Except Raised Object} {calls : Nat → EmbeddingCall σ}
    (hanswers : ∀ batch ∈ (svc.batches rows).zipIdx,
      (calls batch.2).Answers (rowTexts batch.1) (answers batch.2))
    (hpointwise : ∀ batch ∈ (svc.batches rows).zipIdx,
      (calls batch.2).Pointwise vectorOf (rowTexts batch.1))
    (hreturn : ∀ batch ∈ (svc.batches rows).zipIdx, ∃ vectors,
      (calls batch.2).result (rowTexts batch.1) = .ok vectors)
    (hdimension : 0 < svc.embeddingDimension)
    (hvectors : ∀ c ∈ rows, (vectorOf c.normalizedText).length = svc.embeddingDimension ∧
      ∀ x ∈ vectorOf c.normalizedText, x.isFinite = true)
    (hrecords : List.Forall₂ (RebuiltRecord knowledgeBaseId vectorOf) rows records) :
    ∃ records', recordsForChunks svc answers document rows = .ok records' := by
  have heach : ∀ batch ∈ (svc.batches rows).zipIdx, ∃ made,
      (answers batch.2 >>= fun object => recordsForBatch svc document batch.1 (.ok object)) =
        .ok made := by
    intro batch hbatch
    have hmem : ∀ c ∈ batch.1, c ∈ rows := fun c hc =>
      mem_of_mem_slices ((List.mem_zipIdx hbatch).2.2 ▸ List.getElem_mem _) hc
    obtain ⟨vectors, hresult⟩ := hreturn batch hbatch
    have hanswer := hanswers batch hbatch
    rw [EmbeddingCall.Answers, toOption_eq_some.mpr hresult, Option.map_some, toOption_eq_some,
      (hpointwise batch hbatch).result hresult, rowTexts_map] at hanswer
    have hmade : ∃ made, recordsForBatch svc document batch.1
        (.ok (vectorsObject (batch.1.map fun c => vectorOf c.normalizedText))) = .ok made := by
      have hrecord : ∀ c ∈ batch.1, ∃ r, RebuiltRecord knowledgeBaseId vectorOf c r := by
        intro c hc
        obtain ⟨r, _, hr⟩ := exists_of_forall₂_left hrecords (hmem c hc)
        exact ⟨r, hr⟩
      exact recordsForBatch_exists hdimension (fun c hc => hvectors c (hmem c hc)) hrecord
    obtain ⟨made, hmade⟩ := hmade
    exact ⟨made, bind_eq_ok.mpr ⟨_, hanswer, hmade⟩⟩
  obtain ⟨mades, hmades⟩ := mapM_ok_of_forall heach
  refine ⟨mades.flatten, ?_⟩
  rw [recordsForChunks, foldlM_append, hmades]
  rfl

end Records

section Index
variable {svc : IngestionProcessingService} {documentId : UUID} {records : List VectorRecord}
  {service : IndexService}

/-- A replacement that returns leaves the records in place of what the document had. -/
theorem replaceVectors_ok {deleted : StoreReply} {upserted : Nat → StoreReply} {before : IndexService}
    (h : replaceVectors svc deleted upserted documentId records before = (.ok (), service)) :
    service.records = (before.records.deleteByDocument documentId).upsert records := by
  rw [replaceVectors] at h
  cases deleted with
  | lost raised took => cases h
  | returned =>
    simp only [IndexService.deleteByDocument] at h
    have hdone := upsertBatches_done upserted (svc.batches records) 0 0
      { before with records := before.records.deleteByDocument documentId }
    rw [batches_flatten] at hdone
    generalize upsertBatches upserted 0 (svc.batches records) 0 _ = loop at h hdone
    obtain ⟨⟨raised, n⟩, after⟩ := loop
    cases raised with
    | some raised => cases h
    | none =>
      obtain ⟨_, rfl⟩ := Prod.mk.inj h
      exact (hdone rfl).2

/-- Upserts that return all count and leave every record. -/
theorem upsertBatches_returned {upserted : Nat → StoreReply} (h : ∀ i, upserted i = .returned)
    (batches : List (List VectorRecord)) (i n : Nat) (service : IndexService) :
    upsertBatches upserted i batches n service = ((none, n + batches.flatten.length),
      ⟨service.records.upsert batches.flatten, service.returned ++ batches.flatten⟩) := by
  induction batches generalizing i n service with
  | nil =>
    rw [List.flatten_nil, List.append_nil]
    rfl
  | cons batch batches ih =>
    rw [upsertBatches_cons, h i]
    simp only [StoreReply.result, IndexService.upsert]
    rw [ih, List.flatten_cons, List.length_append, List.append_assoc, Nat.add_assoc]
    simp only [VectorIndex.upsert, List.foldl_append]

variable {environment : RebuildEnvironment} {maxChunks : Int} {document : Document} {later : Database}
  {rows : List DocumentChunk} {initialized : Bool}

/-- A rebuild that returns goes through its load. -/
theorem rebuildDocument_ok {result : RebuildResult} {world world' : RebuildWorld}
    (h : rebuildDocument svc environment documentId maxChunks world = (.ok result, world')) :
    rebuildInitialized svc environment documentId maxChunks world.service = (.ok result, world'.service) := by
  rw [rebuildDocument] at h
  split at h
  · cases h
  have hservice : (world.initializeIndex environment.initialized).2.service = world.service := by
    unfold RebuildWorld.initializeIndex
    split
    · rfl
    · cases environment.initialized <;> rfl
  generalize world.initializeIndex environment.initialized = start at h hservice
  obtain ⟨started, world⟩ := start
  cases started with
  | error raised => cases h
  | ok u =>
    simp only at h hservice
    rw [hservice] at h
    generalize rebuildInitialized svc environment documentId maxChunks _ = rebuilt at h ⊢
    obtain ⟨returned, after⟩ := rebuilt
    obtain ⟨rfl, rfl⟩ := Prod.mk.inj h
    rfl

/-- A rebuild that counts its document has replaced its records. -/
theorem rebuildDocument_records {result : RebuildResult} {world' : RebuildWorld}
    (hloaded : environment.loaded = .ok later)
    (h : rebuildDocument svc environment documentId maxChunks ⟨initialized, service⟩ = (.ok result, world'))
    (hone : result.documentsIndexed = 1) :
    ∃ document rows records, loadRebuildDocument later documentId maxChunks = .ok (document, rows) ∧
      recordsForChunks svc environment.answers document rows = .ok records ∧
      world'.service.records = (service.records.deleteByDocument documentId).upsert records := by
  have hrebuilt := rebuildDocument_ok h
  cases hload : loadRebuildDocument later documentId maxChunks with
  | error error =>
    rw [rebuildInitialized_refused hloaded hload] at hrebuilt
    cases hrebuilt
  | ok found =>
    obtain ⟨document, rows⟩ := found
    rw [rebuildInitialized_loaded hloaded hload] at hrebuilt
    have hdone := replaceDocumentVectors_ok (congrArg Prod.fst hrebuilt)
    obtain ⟨records, hrecords, hafter⟩ := hdone.indexed hone
    rw [hrebuilt] at hafter
    exact ⟨document, rows, records, rfl, hrecords, hafter⟩

/-- A rebuild whose calls return. -/
theorem rebuildDocument_returned (hmax : 1 ≤ maxChunks) (hinitialized : environment.initialized = none)
    (hdeleted : environment.deleted = .returned) (hupserted : ∀ i, environment.upserted i = .returned)
    (hloaded : environment.loaded = .ok later)
    (hload : loadRebuildDocument later documentId maxChunks = .ok (document, rows))
    (hrecords : recordsForChunks svc environment.answers document rows = .ok records) :
    rebuildDocument svc environment documentId maxChunks ⟨initialized, service⟩ =
      (.ok ⟨1, 1, records.length, []⟩,
        ⟨true, ⟨(service.records.deleteByDocument documentId).upsert records, service.returned ++ records⟩⟩) := by
  have hstart : RebuildWorld.initializeIndex ⟨initialized, service⟩ environment.initialized =
      (.ok (), ⟨true, service⟩) := by
    rw [hinitialized]
    cases initialized <;> rfl
  rw [rebuildDocument, if_neg (not_lt.mpr hmax), hstart]
  simp only [rebuildInitialized_loaded hloaded hload, replaceDocumentVectors, hrecords, hdeleted,
    IndexService.deleteByDocument, upsertBatches_returned hupserted, batches_flatten]

end Index

/-- The success transition after the commit completes the document. -/
theorem completedFrom_of_completeSuccess {svc : IngestionProcessingService} {claimed : ClaimedDocument}
    {committed later : Database} {job : IngestionJob} {row : Document} {now : Time}
    (hrow : committed.documents.find? claimed.documentId = some row)
    (hbase : row.knowledgeBaseId = claimed.knowledgeBaseId)
    (howned : getOwnedProcessingInternal committed claimed.jobId svc.workerId.value now = some job)
    (hjob : job.documentId = claimed.documentId)
    (h : svc.completeSuccess committed claimed.jobId now = some later) :
    CompletedFrom claimed committed later { row with status := .completed } := by
  rw [IngestionProcessingService.completeSuccess, howned, Option.map_some, hjob] at h
  obtain rfl := Option.some.inj h
  refine ⟨?_, rfl, hbase, ?_⟩
  · rw [Database.find?_flushDocumentStatus, Database.flushJob_documents, hrow, Option.map_some, if_pos rfl]
  · rw [Database.chunksOf, Database.flushDocumentStatus_documentChunks, Database.flushJob_documentChunks]
    exact .refl _

/-- A rebuild of a document makes the records that its ingestion put into the index, whatever the
batch sizes of the provider and of the two services, and so leaves the index as it is. -/
theorem rebuild_same_index {σ τ : Type} (sha256 : Sha256) (uuid5 : UUID → Str → UUID)
    (cfg : ChunkingConfig) (parse : DocumentArtifact → Except ParseError ParsedDocument)
    {ingestion rebuild : IngestionProcessingService} {claimed : ClaimedDocument} {content : Bytes}
    {chunks : List TextChunk} {rows : List DocumentChunk} {db committed later : Database} {now : Time}
    {document : Document} {vectorOf : Str → EmbeddingVector}
    {embed : List Str → Except EmbeddingError Object} {call : EmbeddingCall σ}
    {records : List VectorRecord} {deleted : StoreReply} {upserted : Nat → StoreReply}
    {before service : IndexService} {environment : RebuildEnvironment} {calls : Nat → EmbeddingCall τ}
    (hchunks : parseAndChunk sha256 cfg parse claimed content = .ok chunks)
    (hrows : rows = durableChunks uuid5 claimed chunks)
    (hcommitted : ingestion.replaceChunks db claimed rows now = .ok committed)
    (hcall : call.Pointwise vectorOf (rowTexts rows) ∧ call.Answers (rowTexts rows) (embed (rowTexts rows)))
    (hrecords : embedChunks embed ingestion.embeddingDimension claimed rows = .ok records)
    (hreplaced : replaceVectors ingestion deleted upserted claimed.documentId records before = (.ok (), service))
    (hlater : CompletedFrom claimed committed later document)
    (hloaded : environment.loaded = .ok later)
    (hdimension : rebuild.embeddingDimension = ingestion.embeddingDimension)
    (hcalls : ∀ batch ∈ (rebuild.batches rows).zipIdx,
      (calls batch.2).Pointwise vectorOf (rowTexts batch.1) ∧
        (calls batch.2).Answers (rowTexts batch.1) (environment.answers batch.2)) :
    SameIndex rebuild environment calls later document rows records service := by
  have hid : document.id = claimed.documentId := Table.find?_key hlater.found
  obtain ⟨hchunk, hnumbered⟩ := parseAndChunk_numbered hchunks
  have hsorted : orderBy DocumentChunk.chunkIndex (later.chunksOf claimed.documentId) = rows :=
    hlater.sorted hcommitted (hrows ▸ durableChunks_sorted hnumbered)
  have hloads : ∀ maxChunks document' rows',
      loadRebuildDocument later claimed.documentId maxChunks = .ok (document', rows') →
        document' = document ∧ rows' = rows := by
    intro maxChunks document' rows' hload
    obtain ⟨hfound, rfl⟩ := loadRebuildDocument_sorted hload
    exact ⟨Option.some.inj (hfound.symm.trans hlater.found), hsorted⟩
  obtain ⟨hmade, hpos, hvectors⟩ := embedChunks_rebuilt hcall.2 hcall.1 hrecords
  have hsame : ∀ records', recordsForChunks rebuild environment.answers document rows = .ok records' →
      records' = records := by
    intro records' hrecords'
    have hmade' := recordsForChunks_rebuilt (fun batch hbatch => (hcalls batch hbatch).2)
      (fun batch hbatch => (hcalls batch hbatch).1) hrecords'
    rw [hlater.knowledgeBase] at hmade'
    exact rebuilt_unique hmade hmade'
  have hservice : (service.records.deleteByDocument claimed.documentId).upsert records =
      service.records := by
    rw [replaceVectors_ok hreplaced]
    exact VectorIndex.replace_again _ _ _
  rw [← hid] at hloads hservice
  refine ⟨hloads, hsame, ?_, ?_⟩
  · intro maxChunks initialized result world' hrebuilt hone
    obtain ⟨document', rows', records', hload, hrecords', hafter⟩ :=
      rebuildDocument_records hloaded hrebuilt hone
    obtain ⟨rfl, rfl⟩ := hloads _ _ _ hload
    rw [hafter, hsame records' hrecords', hservice]
  · intro hreturn maxChunks initialized hmax
    have hne : rows ≠ [] := by
      rw [hrows, durableChunks, Ne, List.map_eq_nil_iff]
      exact hchunk
    have hhash : ∀ c ∈ rows, c.contentSha256.isSome := by
      intro c hc
      obtain ⟨r, _, hr⟩ := exists_of_forall₂_left hmade hc
      rw [hr.contentHash]
      rfl
    have hload := loadRebuildDocument_eq_ok (hid ▸ hlater.found) hlater.status (hid ▸ hsorted) hne hhash hmax
    obtain ⟨records', hrecords'⟩ := recordsForChunks_exists (fun batch hbatch => (hcalls batch hbatch).2)
      (fun batch hbatch => (hcalls batch hbatch).1) hreturn.embedded (hdimension ▸ hpos)
      (hdimension ▸ hvectors) hmade
    obtain rfl := hsame records' hrecords'
    have hpositive : 1 ≤ maxChunks := by
      have hlength : 0 < rows.length := List.length_pos_iff.mpr hne
      omega
    rw [rebuildDocument_returned hpositive hreturn.initialized hreturn.deleted hreturn.upserted hloaded hload
      hrecords', hservice, hmade.length_eq]

section Example

/-- A response with one value for each of its texts. -/
def vectorsResponse (count : Nat) : Retrieval.ProviderResponse where
  statusCode := 200
  headers _ := none
  rawParts := [(str "\x7b\"model\":\"m\",\"embeddings\":[" ++
    List.intercalate (str ",") (List.replicate count (str "[0.5]")) ++ str "]\x7d").map fun c =>
      UInt8.ofNat c.val]
  broken := false

/-- The adapter with a batch size, against a server that has one vector for every text. -/
def levelCall (batchSize : Nat) (h : 0 < batchSize) (counts : Nat → Nat) : EmbeddingCall Unit :=
  .ollama exampleRuntime { exampleEmbeddingModel with batchSize, batchSize_pos := h } fun i =>
    .response (vectorsResponse (counts i)) false

def levelVector (_ : Str) : EmbeddingVector := [⟨0⟩]

def levelAnswer (texts : List Str) : Object := vectorsObject (texts.map levelVector)

/-- The identifier is the number of the chunk. -/
def numberUuid5 (_ : UUID) (name : Str) : UUID := Fin.ofNat _ (name.headD 0).val

/-- Three chunks of one letter. -/
def lettersChunks : Except Raised (List TextChunk) :=
  parseAndChunk zeroSha256 exampleService.chunkingConfig
    (fun _ => .ok ⟨[⟨str "a b c", none, ParsedSection.unnumbered⟩]⟩) exampleClaimed [0]

def lettersTexts : List Str := [str "a", str "b", str "c"]

def lettersDatabase : Database :=
  { exampleDatabase with
    documents := ⟨[{ exampleDocument with status := .processing }], List.nodup_singleton _⟩
    ingestionJobs := ⟨[{
      id := 1, documentId := 2, status := .processing, attemptCount := 1, maxAttempts := 3
      progressPercent := 0, claimedBy := some exampleService.workerId.value, claimedAt := some 10
      leaseExpiresAt := some 70, nextRetryAt := none, errorCode := none, safeErrorMessage := none
      startedAt := some 10, finishedAt := none, createdAt := 0 }], List.nodup_singleton _⟩ }

def wideService : IngestionProcessingService :=
  { exampleService with rebuildBatchSize := 3, rebuildBatchSize_pos := Nat.succ_pos 2 }

/-- The batches of a call, each answered with the vectors of its texts. -/
def levelBatches (batchSize : Nat) (h : 0 < batchSize) (counts : Nat → Nat) (texts : List Str) : Bool :=
  (slices batchSize texts).zipIdx.all fun batch =>
    (embedBatch exampleRuntime { exampleEmbeddingModel with batchSize, batchSize_pos := h } batch.1
      (.response (vectorsResponse (counts batch.2)) false)).toOption = some (batch.1.map levelVector)

theorem levelCall_pointwise {batchSize : Nat} {h : 0 < batchSize} {counts : Nat → Nat} {texts : List Str}
    (hbatches : levelBatches batchSize h counts texts = true) :
    (levelCall batchSize h counts).Pointwise levelVector texts := by
  intro batch hbatch vectors hvectors
  have hlevel := of_decide_eq_true (List.all_eq_true.mp hbatches batch hbatch)
  rw [hvectors] at hlevel
  exact Option.some.inj hlevel

theorem levelCall_answers {ε : Type} {batchSize : Nat} {h : 0 < batchSize} {counts : Nat → Nat}
    {texts : List Str}
    (hresult : ((levelCall batchSize h counts).result texts).toOption = some (texts.map levelVector)) :
    (levelCall batchSize h counts).Answers texts (.ok (levelAnswer texts) : Except ε Object) := by
  rw [EmbeddingCall.Answers, hresult]
  rfl

/-- The stages of ingestion up to the records, and the batches of the rebuild. -/
def lettersIngested (chunks : List TextChunk) : Bool :=
  let rows := durableChunks numberUuid5 exampleClaimed chunks
  rowTexts rows = lettersTexts &&
    ((exampleService.replaceChunks lettersDatabase exampleClaimed rows 20).toOption.any fun committed =>
      (committed.documents.find? 2).any (fun row => row.knowledgeBaseId = 3) &&
        (getOwnedProcessingInternal committed 1 exampleService.workerId.value 30).any fun job =>
          job.documentId = 2) &&
    (embedChunks (fun texts => .ok (levelAnswer texts)) 1 exampleClaimed rows).toOption.isSome &&
    (wideService.batches rows).zipIdx.map (fun batch => (rowTexts batch.1, batch.2)) = [(lettersTexts, 0)]

theorem rebuild_same_index_example : ∃ environment calls later document rows records service,
    rowTexts rows = lettersTexts ∧ AllReturn wideService environment calls rows ∧
      SameIndex (σ := Unit) wideService environment calls later document rows records service := by
  have hany : lettersChunks.toOption.any lettersIngested = true := by decide +kernel
  obtain ⟨chunks, hchunks, hingested⟩ := Option.any_eq_true _ _ |>.mp hany
  simp only [lettersIngested, Bool.and_eq_true, decide_eq_true_eq] at hingested
  obtain ⟨⟨⟨htexts, hcommits⟩, hrecords⟩, hbatches⟩ := hingested
  generalize hrows : durableChunks numberUuid5 exampleClaimed chunks = rows
    at htexts hcommits hrecords hbatches
  obtain ⟨committed, hcommitted, hready⟩ := Option.any_eq_true _ _ |>.mp hcommits
  obtain ⟨hrow, howned⟩ := Bool.and_eq_true _ _ |>.mp hready
  obtain ⟨row, hrow, hbase⟩ := Option.any_eq_true _ _ |>.mp hrow
  obtain ⟨job, howned, hjob⟩ := Option.any_eq_true _ _ |>.mp howned
  obtain ⟨records, hrecords⟩ := Option.isSome_iff_exists.mp hrecords
  have hsuccess : exampleService.completeSuccess committed exampleClaimed.jobId 30 =
      some ((committed.flushJob (succeededJob job 30)).flushDocumentStatus job.documentId .completed) := by
    rw [IngestionProcessingService.completeSuccess]
    exact congrArg (Option.map _) howned
  have hlater := completedFrom_of_completeSuccess hrow (of_decide_eq_true hbase) howned
    (of_decide_eq_true hjob) hsuccess
  have hfirst : levelBatches 2 (Nat.succ_pos 1) (fun i => 2 - i) lettersTexts = true ∧
      ((levelCall 2 (Nat.succ_pos 1) fun i => 2 - i).result lettersTexts).toOption =
        some (lettersTexts.map levelVector) := by decide +kernel
  have hagain : levelBatches 1 Nat.one_pos (fun _ => 1) lettersTexts = true ∧
      ((levelCall 1 Nat.one_pos fun _ => 1).result lettersTexts).toOption =
        some (lettersTexts.map levelVector) := by decide +kernel
  have hbatch : ∀ batch ∈ (wideService.batches rows).zipIdx, rowTexts batch.1 = lettersTexts := by
    intro batch hbatch
    have hmem := List.mem_map_of_mem (f := fun batch => (rowTexts batch.1, batch.2)) hbatch
    rw [hbatches] at hmem
    exact congrArg Prod.fst (List.mem_singleton.mp hmem)
  let before : IndexService := ⟨VectorIndex.empty.upsert [rebuildRecord 2 6], []⟩
  have hreplaced : replaceVectors exampleService .returned (fun _ => .returned) exampleClaimed.documentId
      records before =
        (.ok (), ⟨(before.records.deleteByDocument exampleClaimed.documentId).upsert records,
          before.returned ++ records⟩) := by
    simp only [replaceVectors, IndexService.deleteByDocument, upsertBatches_returned (fun _ => rfl),
      batches_flatten]
  have hcall : (levelCall 2 (Nat.succ_pos 1) fun i => 2 - i).Pointwise levelVector (rowTexts rows) ∧
      (levelCall 2 (Nat.succ_pos 1) fun i => 2 - i).Answers (rowTexts rows)
        (.ok (levelAnswer (rowTexts rows)) : Except EmbeddingError Object) := by
    rw [htexts]
    exact ⟨levelCall_pointwise hfirst.1, levelCall_answers hfirst.2⟩
  refine ⟨⟨none, .ok _, fun _ => .ok (levelAnswer lettersTexts), .returned, fun _ => .returned⟩,
    fun _ => levelCall 1 Nat.one_pos fun _ => 1, _, _, rows, records, _, htexts,
    ⟨rfl, fun batch hmem => ⟨lettersTexts.map levelVector, ?_⟩, rfl, fun _ => rfl⟩,
    rebuild_same_index zeroSha256 numberUuid5 exampleService.chunkingConfig
      (fun _ => .ok ⟨[⟨str "a b c", none, ParsedSection.unnumbered⟩]⟩) (toOption_eq_some.mp hchunks)
      hrows.symm (toOption_eq_some.mp hcommitted) hcall (toOption_eq_some.mp hrecords) hreplaced hlater rfl
      rfl fun batch hmem => ?_⟩
  · rw [hbatch batch hmem]
    exact toOption_eq_some.mp hagain.2
  · rw [hbatch batch hmem]
    exact ⟨levelCall_pointwise hagain.1, levelCall_answers hagain.2⟩

end Example
end AgenticRag.Services

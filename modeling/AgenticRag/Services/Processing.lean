import AgenticRag.Db.Repositories
import AgenticRag.Ingestion.Chunking
import AgenticRag.Ingestion.VectorStore
import AgenticRag.Lib.Slices
import AgenticRag.Security.Authorization

/-! The transactions of the ingestion service, each one a function of the committed
state it runs in and of the clock value read before it. -/
namespace AgenticRag.Services
open Lib Python Db Ingestion Security

/-- A `worker_id` the service's constructor and the `claimed_by` column accept. -/
structure WorkerId where
  value : Str
  nonblank : strip value ≠ []
  length_le : value.length ≤ 255

theorem WorkerId.ext_value {v w : WorkerId} (h : v.value = w.value) : v = w := by
  cases v
  cases w
  cases h
  rfl

instance : DecidableEq WorkerId := fun v w =>
  decidable_of_iff (v.value = w.value) ⟨WorkerId.ext_value, fun h => h ▸ rfl⟩

/-- `character.isascii() and (character.isalnum() or character in ".-")`. -/
def isHostnameCharacter (c : CodePoint) : Bool :=
  (0x30 ≤ c.val && c.val ≤ 0x39) || (0x41 ≤ c.val && c.val ≤ 0x5A) ||
    (0x61 ≤ c.val && c.val ≤ 0x7A) || c == ord '.' || c == ord '-'

def workerSuffix (pid : Fin (2 ^ 31)) (token : UUID) : Str :=
  ord ':' :: (natStr pid ++ ord ':' :: (hexFixed 32 token.val).take 12)

/-- `_worker_id`: host name, process id and a random token, cut to 255 characters. -/
def workerId (rawHostname : Str) (pid : Fin (2 ^ 31)) (token : UUID) : WorkerId where
  value :=
    let hostname := (if rawHostname = [] then str "unknown-host" else rawHostname).map fun c =>
      if isHostnameCharacter c then c else ord '_'
    hostname.take (255 - (workerSuffix pid token).length) ++ workerSuffix pid token
  nonblank := strip_ne_nil_of_mem
    (List.mem_append_right _ (show ord ':' ∈ workerSuffix pid token from List.mem_cons_self))
    (by decide)
  length_le := by
    have hpid : (natStr pid).length ≤ 10 :=
      natStr_length_le (by decide) (pid.isLt.trans (by norm_num))
    have hs : (workerSuffix pid token).length ≤ 24 := by
      simp only [workerSuffix, List.length_cons, List.length_append, List.length_take,
        hexFixed_length]
      omega
    simp only [List.length_append, List.length_take]
    omega

/-- The classes named in `_EXPECTED_PROCESSING_FAILURES`. -/
inductive ProcessingError where
  | documentProcessing | sourceIntegrity | processingInvariant | fileTooLarge | storage
  | embeddingInput | embeddingRequest | embeddingResponse
  | vectorStoreInput | vectorStoreConfiguration | vectorStoreNotInitialized
  | vectorStoreRequest | vectorStoreResponse | sqlAlchemy
  deriving DecidableEq

structure Failure where
  code : String
  safeMessage : String
  retryable : Bool
  deriving DecidableEq

/-- `_classify_failure` on the expected classes. -/
def classifyFailure : ProcessingError → Failure
  | .sourceIntegrity => ⟨"SOURCE_INTEGRITY_FAILED",
      "The stored document failed integrity validation.", false⟩
  | .processingInvariant => ⟨"PROCESSING_INVARIANT_FAILED",
      "The document processor produced inconsistent output.", false⟩
  | .documentProcessing => ⟨"DOCUMENT_PROCESSING_FAILED",
      "The document could not be converted into searchable text.", false⟩
  | .fileTooLarge => ⟨"STORED_DOCUMENT_TOO_LARGE",
      "The stored document exceeds the processing limit.", false⟩
  | .storage => ⟨"STORAGE_READ_FAILED", "The stored document is temporarily unavailable.", true⟩
  | .sqlAlchemy => ⟨"DATABASE_OPERATION_FAILED", "The document state could not be persisted.", true⟩
  | .embeddingInput | .vectorStoreInput | .vectorStoreConfiguration =>
      ⟨"INGESTION_CONFIGURATION_FAILED", "The ingestion pipeline configuration is invalid.", false⟩
  | .embeddingRequest | .embeddingResponse | .vectorStoreNotInitialized | .vectorStoreRequest
  | .vectorStoreResponse => ⟨"INGESTION_DEPENDENCY_FAILED",
      "A document-processing dependency is temporarily unavailable.", true⟩

/-- What ends the `try` block of `process_next`, by the handler that takes it. -/
inductive Raised where
  | cancelled
  | leaseLost
  | expected (error : ProcessingError)
  | unexpected
  deriving DecidableEq

/-- The failure a handler records; losing the lease records none. -/
def Raised.failure? : Raised → Option Failure
  | .cancelled => some ⟨"PROCESSING_CANCELLED", "Document processing was interrupted.", true⟩
  | .leaseLost => none
  | .expected error => some (classifyFailure error)
  | .unexpected => some ⟨"INGESTION_FAILED", "The document could not be processed.", true⟩

/-- What recovery records on an abandoned attempt. -/
def leaseExpiredFailure : Failure :=
  ⟨"LEASE_EXPIRED", "The previous processing attempt did not finish.", true⟩

private theorem length_ofList_le {l : List Char} {n : Nat} (h : l.length ≤ n) :
    (String.ofList l).length ≤ n := by
  rwa [String.length_ofList]

/-- Every recorded message fits its column. -/
theorem failure_message_length {raised : Raised} {failure : Failure}
    (h : raised.failure? = some failure) : failure.safeMessage.length ≤ 1000 := by
  cases raised with
  | cancelled =>
    obtain rfl := Option.some.inj h
    exact length_ofList_le (by decide)
  | leaseLost => cases h
  | expected error =>
    obtain rfl := Option.some.inj h
    cases error <;> exact length_ofList_le (by decide)
  | unexpected =>
    obtain rfl := Option.some.inj h
    exact length_ofList_le (by decide)

theorem leaseExpired_message_length : leaseExpiredFailure.safeMessage.length ≤ 1000 :=
  length_ofList_le (by decide)

/-- The settings of the service, its chunker and its embedding model, as the constructor
admits them. -/
structure IngestionProcessingService where
  workerId : WorkerId
  chunkingConfig : ChunkingConfig
  embeddingDimension : Int
  leaseDuration : Time
  retryDelay : Time
  sourceMaxBytes : Nat
  rebuildBatchSize : Nat
  leaseDuration_pos : 0 < leaseDuration
  retryDelay_nonneg : 0 ≤ retryDelay
  sourceMaxBytes_pos : 0 < sourceMaxBytes
  rebuildBatchSize_pos : 0 < rebuildBatchSize

structure ClaimedDocument where
  jobId : UUID
  documentId : UUID
  knowledgeBaseId : UUID
  storageKey : Str
  filename : Str
  mediaType : String
  sizeBytes : Nat
  sha256 : Str
  deriving DecidableEq

/-- `_claimed_document`; the job's document is loaded with it. -/
def claimedDocument (job : IngestionJob) (document : Document) : ClaimedDocument where
  jobId := job.id
  documentId := document.id
  knowledgeBaseId := document.knowledgeBaseId
  storageKey := document.storageKey
  filename := document.originalFilename
  mediaType := document.mediaType
  sizeBytes := document.sizeBytes
  sha256 := document.sha256

/-- `_clear_lease`. -/
def clearLease (job : IngestionJob) : IngestionJob :=
  { job with claimedBy := none, claimedAt := none, leaseExpiresAt := none }

/-- The job row a failed or abandoned attempt leaves. -/
def settledJob (job : IngestionJob) (failure : Failure) (now retryDelay : Time) : IngestionJob :=
  let job := { clearLease job with
    errorCode := some failure.code
    safeErrorMessage := some failure.safeMessage }
  if failure.retryable ∧ job.attemptCount < job.maxAttempts then
    { job with
      status := .pending
      progressPercent := 0
      nextRetryAt := some (now + retryDelay)
      startedAt := none
      finishedAt := none }
  else { job with status := .failed, nextRetryAt := none, finishedAt := some now }

/-- The document status that goes with `settledJob`. -/
def settledStatus (job : IngestionJob) (failure : Failure) : DocumentStatus :=
  if failure.retryable ∧ job.attemptCount < job.maxAttempts then .pending else .failed

/-- The row a successful attempt leaves. -/
def succeededJob (job : IngestionJob) (now : Time) : IngestionJob :=
  { clearLease job with
    status := .completed
    progressPercent := 100
    nextRetryAt := none
    errorCode := none
    safeErrorMessage := none
    finishedAt := some now }

namespace IngestionProcessingService
variable (svc : IngestionProcessingService)

/-- One job of `recover_expired_leases`. -/
def recoverJob (now : Time) (db : Database) (job : IngestionJob) : Database :=
  (db.flushJob (settledJob job leaseExpiredFailure now svc.retryDelay)).flushDocumentStatus
    job.documentId (settledStatus job leaseExpiredFailure)

/-- `recover_expired_leases`. -/
def recoverExpiredLeases (db : Database) (locked : List UUID) (limit : Int) (now : Time) :
    Except RepositoryError (Nat × Database) :=
  (lockExpiredLeasesInternal db locked now limit).map fun jobs =>
    (jobs.length, jobs.foldl (svc.recoverJob now) db)

/-- `_claim_next`, with the claimed row besides what the source returns. -/
def claimNext (db : Database) (locked : List UUID) (now : Time) :
    Except RepositoryError (Option (IngestionJob × Database)) :=
  claimNextInternal db locked svc.workerId.value now (now + svc.leaseDuration)

/-- `_renew_lease`; `none` is its `False`. -/
def renewLease (db : Database) (jobId : UUID) (now : Time) : Option Database :=
  (getOwnedProcessingInternal db jobId svc.workerId.value now).map fun job =>
    db.flushJob { job with leaseExpiresAt := some (now + svc.leaseDuration) }

/-- The transaction of `_replace_chunks` on rows already built. -/
def replaceChunks (db : Database) (claimed : ClaimedDocument) (chunks : List DocumentChunk)
    (now : Time) : Except Raised Database :=
  match getOwnedProcessingInternal db claimed.jobId svc.workerId.value now with
  | none => .error .leaseLost
  | some job =>
    match replaceForDocumentInternal db claimed.documentId chunks with
    | .error .value => .error .unexpected
    | .error .integrity => .error (.expected .sqlAlchemy)
    | .ok db => .ok (db.flushJob { job with
        progressPercent := 50
        leaseExpiresAt := some (now + svc.leaseDuration) })

/-- `_complete_success`; `none` is its `LeaseLostError`. -/
def completeSuccess (db : Database) (jobId : UUID) (now : Time) : Option Database :=
  (getOwnedProcessingInternal db jobId svc.workerId.value now).map fun job =>
    (db.flushJob (succeededJob job now)).flushDocumentStatus job.documentId .completed

/-- `_complete_failure`; a job no longer owned is left alone. -/
def completeFailure (db : Database) (jobId : UUID) (failure : Failure) (now : Time) : Database :=
  match getOwnedProcessingInternal db jobId svc.workerId.value now with
  | none => db
  | some job =>
    (db.flushJob (settledJob job failure now svc.retryDelay)).flushDocumentStatus job.documentId
      (settledStatus job failure)

/-- `_batches`. -/
def batches {α : Type} (values : List α) : List (List α) := slices svc.rebuildBatchSize values

end IngestionProcessingService

/-- The row a user retry leaves. -/
def retriedJob (job : IngestionJob) : IngestionJob :=
  { job with
    status := .pending
    progressPercent := 0
    claimedBy := none
    claimedAt := none
    leaseExpiresAt := none
    nextRetryAt := none
    errorCode := none
    safeErrorMessage := none
    startedAt := none
    finishedAt := none }

/-- `retry_ingestion_job`: a pending job is returned as it is. -/
def retryIngestionJob (db : Database) (userId jobId : UUID) :
    Except AppException (IngestionJob × Database) :=
  match getRetryTargetForUser db jobId userId with
  | none => .error (.notFound "Ingestion job was not found.")
  | some (job, role) => do
    requireCapability (some role) .ingestionJobRetry
    if job.status = .pending then return (job, db)
    if job.status ≠ .failed then
      throw (.conflict "Only failed ingestion jobs can be retried.")
    return (retriedJob job,
      (db.flushJob (retriedJob job)).flushDocumentStatus job.documentId .pending)

/-- `_make_vector_records`; the strict `zip` and the two checks of each record. -/
def makeVectorRecords (knowledgeBaseId : UUID) (chunks : List DocumentChunk)
    (embeddings : List EmbeddingVector) : Except Raised (List VectorRecord) :=
  if chunks.length ≠ embeddings.length then .error .unexpected
  else (chunks.zip embeddings).mapM fun (chunk, embedding) =>
    match chunk.contentSha256 with
    | none => .error (.expected .processingInvariant)
    | some contentSha256 =>
      match VectorRecord.mk? (stableVectorId chunk.id) embedding knowledgeBaseId chunk.documentId
          chunk.id chunk.chunkIndex chunk.normalizedText contentSha256 with
      | .ok record => .ok record
      | .error _ => .error (.expected .vectorStoreInput)

section Specifications
variable {svc : IngestionProcessingService} {db db' : Database}

theorem settledJob_retry {job : IngestionJob} {failure : Failure} {now retryDelay : Time}
    (h : failure.retryable ∧ job.attemptCount < job.maxAttempts) :
    settledJob job failure now retryDelay = { clearLease job with
      errorCode := some failure.code
      safeErrorMessage := some failure.safeMessage
      status := .pending
      progressPercent := 0
      nextRetryAt := some (now + retryDelay)
      startedAt := none
      finishedAt := none } := if_pos h

theorem settledJob_fail {job : IngestionJob} {failure : Failure} {now retryDelay : Time}
    (h : ¬(failure.retryable ∧ job.attemptCount < job.maxAttempts)) :
    settledJob job failure now retryDelay = { clearLease job with
      errorCode := some failure.code
      safeErrorMessage := some failure.safeMessage
      status := .failed
      nextRetryAt := none
      finishedAt := some now } := if_neg h

@[simp] theorem settledJob_id (job : IngestionJob) (failure : Failure) (now retryDelay : Time) :
    (settledJob job failure now retryDelay).id = job.id := by
  by_cases h : failure.retryable ∧ job.attemptCount < job.maxAttempts
  · rw [settledJob_retry h]
    rfl
  · rw [settledJob_fail h]
    rfl

@[simp] theorem settledJob_documentId (job : IngestionJob) (failure : Failure)
    (now retryDelay : Time) : (settledJob job failure now retryDelay).documentId = job.documentId := by
  by_cases h : failure.retryable ∧ job.attemptCount < job.maxAttempts
  · rw [settledJob_retry h]
    rfl
  · rw [settledJob_fail h]
    rfl

/-- A retry that commits found its job for a role that may retry it, and left it as it is or reset it. -/
theorem retryIngestionJob_target {userId jobId : UUID} {job : IngestionJob}
    (h : retryIngestionJob db userId jobId = .ok (job, db')) :
    ∃ old role, getRetryTargetForUser db jobId userId = some (old, role) ∧
      requireCapability (some role) .ingestionJobRetry = .ok () ∧
      (old.status = .pending ∧ job = old ∧ db' = db ∨
        old.status = .failed ∧ job = retriedJob old ∧
          db' = (db.flushJob (retriedJob old)).flushDocumentStatus old.documentId .pending) := by
  unfold retryIngestionJob at h
  split at h
  · cases h
  · rename_i old role htarget
    obtain ⟨_, hcapability, h⟩ := bind_eq_ok.mp h
    refine ⟨old, role, htarget, hcapability, ?_⟩
    split at h
    · rename_i hp
      simp only [pure, Except.pure, Except.ok.injEq, Prod.mk.injEq] at h
      exact .inl ⟨hp, h.1.symm, h.2.symm⟩
    · split at h
      · simp [throw, throwThe, MonadExceptOf.throw, bind, Except.bind] at h
      · rename_i hf
        simp only [pure, Except.pure, Except.ok.injEq, Prod.mk.injEq] at h
        exact .inr ⟨not_not.mp hf, h.1.symm, h.2.symm⟩

theorem retryIngestionJob_ok {userId jobId : UUID} {job : IngestionJob}
    (h : retryIngestionJob db userId jobId = .ok (job, db')) :
    db.ingestionJobs.find? jobId = some job ∧ job.status = .pending ∧ db' = db ∨
      ∃ old, db.ingestionJobs.find? jobId = some old ∧ old.status = .failed ∧
        job = retriedJob old ∧
        db' = (db.flushJob (retriedJob old)).flushDocumentStatus old.documentId .pending := by
  obtain ⟨old, _, htarget, _, ⟨hpending, rfl, hdb⟩ | ⟨hfailed, hjob, hdb⟩⟩ := retryIngestionJob_target h
  · exact .inl ⟨getRetryTargetForUser_some htarget, hpending, hdb⟩
  · exact .inr ⟨old, getRetryTargetForUser_some htarget, hfailed, hjob, hdb⟩

/-- A replacement that commits ran under ownership and wrote its rows and the lease. -/
theorem replaceChunks_ok {claimed : ClaimedDocument} {chunks : List DocumentChunk} {now : Time}
    (h : svc.replaceChunks db claimed chunks now = .ok db') :
    ∃ job mid, getOwnedProcessingInternal db claimed.jobId svc.workerId.value now = some job ∧
      replaceForDocumentInternal db claimed.documentId chunks = .ok mid ∧
      db' = mid.flushJob { job with
        progressPercent := 50
        leaseExpiresAt := some (now + svc.leaseDuration) } := by
  unfold IngestionProcessingService.replaceChunks at h
  split at h
  · cases h
  · rename_i job howned
    split at h
    · cases h
    · cases h
    · rename_i mid hmid
      exact ⟨job, mid, howned, hmid, (Except.ok.inj h).symm⟩

/-- Records are made chunk by chunk, each under its chunk's stable id. -/
theorem makeVectorRecords_ok {knowledgeBaseId : UUID} {chunks : List DocumentChunk}
    {embeddings : List EmbeddingVector} {records : List VectorRecord}
    (h : makeVectorRecords knowledgeBaseId chunks embeddings = .ok records) :
    List.Forall₂ (fun (c : DocumentChunk) (r : VectorRecord) =>
      r.vectorId = stableVectorId c.id ∧ r.chunkId = c.id ∧ r.documentId = c.documentId ∧
        r.chunkIndex = c.chunkIndex ∧ r.normalizedText = c.normalizedText ∧
        c.contentSha256 = some r.contentHash ∧ r.knowledgeBaseId = knowledgeBaseId)
      chunks records := by
  unfold makeVectorRecords at h
  split at h
  · cases h
  · rename_i hlen
    have hall := mapM_eq_ok.mp h
    have hfst : chunks = (chunks.zip embeddings).map Prod.fst :=
      (List.map_fst_zip (not_not.mp hlen).le).symm
    rw [hfst, List.forall₂_map_left_iff]
    refine hall.imp ?_
    rintro ⟨c, e⟩ r hr
    dsimp only at hr ⊢
    split at hr
    · cases hr
    · rename_i hash hhash
      split at hr
      · rename_i record hrec
        obtain rfl := Except.ok.inj hr
        obtain ⟨h₁, _, h₃, h₄, h₅, h₆, h₇, h₈⟩ := VectorRecord.mk?_fields hrec
        exact ⟨h₁, h₅, h₄, h₆, h₇, by rw [hhash, h₈], h₃⟩
      · cases hr

/-- Each record carries one of the embeddings. -/
theorem makeVectorRecords_embedding {knowledgeBaseId : UUID} {chunks : List DocumentChunk}
    {embeddings : List EmbeddingVector} {records : List VectorRecord}
    (h : makeVectorRecords knowledgeBaseId chunks embeddings = .ok records) {r : VectorRecord}
    (hr : r ∈ records) : r.embedding ∈ embeddings := by
  unfold makeVectorRecords at h
  split at h
  · cases h
  · obtain ⟨⟨c, e⟩, hce, hmk⟩ := exists_of_forall₂ (mapM_eq_ok.mp h) hr
    dsimp only at hmk
    split at hmk
    · cases hmk
    · split at hmk
      · rename_i record hrec
        obtain rfl := Except.ok.inj hmk
        rw [(VectorRecord.mk?_fields hrec).2.1]
        exact (List.of_mem_zip hce).2
      · cases hmk

/-- Chunks with a digest and some text, and nonempty finite embeddings, make records. -/
theorem makeVectorRecords_exists (knowledgeBaseId : UUID) {chunks : List DocumentChunk}
    {embeddings : List EmbeddingVector} (hlen : chunks.length = embeddings.length)
    (hchunks : ∀ c ∈ chunks, strip c.normalizedText ≠ [] ∧
      ∃ hash, c.contentSha256 = some hash ∧ matchesSha256 hash = true)
    (hembeddings : ∀ e ∈ embeddings, e ≠ [] ∧ ∀ x ∈ e, x.isFinite = true) :
    ∃ records, makeVectorRecords knowledgeBaseId chunks embeddings = .ok records := by
  rw [makeVectorRecords, if_neg (not_not.mpr hlen)]
  apply mapM_ok_of_forall
  rintro ⟨c, e⟩ hce
  obtain ⟨hc, he⟩ := List.of_mem_zip hce
  obtain ⟨htext, hash, hhash, hhex⟩ := hchunks c hc
  obtain ⟨hne, hfin⟩ := hembeddings e he
  dsimp only
  rw [hhash]
  dsimp only
  rw [VectorRecord.mk?_ok htext hhex hne hfin]
  exact ⟨_, rfl⟩

end Specifications

def exampleService : IngestionProcessingService where
  workerId := ⟨str "worker-1", by decide, by decide⟩
  chunkingConfig := ⟨2, 1, by decide⟩
  embeddingDimension := 1
  leaseDuration := 60
  retryDelay := 30
  sourceMaxBytes := 1024
  rebuildBatchSize := 2
  leaseDuration_pos := by decide
  retryDelay_nonneg := by decide
  sourceMaxBytes_pos := by decide
  rebuildBatchSize_pos := by decide

end AgenticRag.Services

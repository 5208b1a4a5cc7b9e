import AgenticRag.Lib.OrderBy
import AgenticRag.Db.Models
import Mathlib.Data.Prod.Lex

/-! The worker-side queries on jobs and chunks, and the ORM's write-back of the
rows they loaded. -/
namespace AgenticRag.Db
open Lib Python

/-- `ValueError` of an argument check, or `IntegrityError` of the database. -/
inductive RepositoryError where
  | value | integrity
  deriving DecidableEq

namespace Database

/-- The flush of one loaded job. -/
def flushJob (db : Database) (job : IngestionJob) : Database :=
  { db with ingestionJobs := db.ingestionJobs.replace job }

/-- The flush of `job.document.status`. -/
def flushDocumentStatus (db : Database) (documentId : UUID) (status : DocumentStatus) : Database :=
  match db.documents.find? documentId with
  | none => db
  | some document => { db with documents := db.documents.replace { document with status } }

variable (db : Database)

@[simp] theorem flushJob_documents (job : IngestionJob) : (db.flushJob job).documents = db.documents :=
  rfl

@[simp] theorem flushJob_documentChunks (job : IngestionJob) :
    (db.flushJob job).documentChunks = db.documentChunks := rfl

@[simp] theorem flushDocumentStatus_ingestionJobs (d : UUID) (status : DocumentStatus) :
    (db.flushDocumentStatus d status).ingestionJobs = db.ingestionJobs := by
  unfold flushDocumentStatus
  split <;> rfl

@[simp] theorem flushDocumentStatus_documentChunks (d : UUID) (status : DocumentStatus) :
    (db.flushDocumentStatus d status).documentChunks = db.documentChunks := by
  unfold flushDocumentStatus
  split <;> rfl

theorem flushDocumentStatus_eq (d : UUID) (status : DocumentStatus) :
    db.flushDocumentStatus d status =
      { db with documents := (db.flushDocumentStatus d status).documents } := by
  unfold flushDocumentStatus
  split <;> rfl

theorem mem_flushDocumentStatus {d : UUID} {status : DocumentStatus} {document : Document} :
    document ∈ (db.flushDocumentStatus d status).documents ↔
      ∃ old ∈ db.documents, document = if old.id = d then { old with status } else old := by
  unfold flushDocumentStatus
  cases hd : db.documents.find? d with
  | none =>
    have hne := Table.find?_eq_none.mp hd
    constructor
    · exact fun h => ⟨document, h, (if_neg (hne document h)).symm⟩
    · rintro ⟨old, hold, rfl⟩
      rwa [if_neg (hne old hold)]
  | some found =>
    obtain ⟨hfound, rfl⟩ := Table.find?_eq_some.mp hd
    refine Table.mem_replace.trans ⟨?_, ?_⟩
    · rintro (⟨rfl, _⟩ | ⟨h, hne⟩)
      · exact ⟨found, hfound, (if_pos rfl).symm⟩
      · exact ⟨document, h, (if_neg hne).symm⟩
    · rintro ⟨old, hold, rfl⟩
      by_cases hid : old.id = found.id
      · obtain rfl := Table.eq_of_key_eq hold hfound hid
        exact .inl ⟨if_pos rfl, old, hold, rfl⟩
      · rw [if_neg hid]
        exact .inr ⟨hold, hid⟩

theorem find?_flushJob (job : IngestionJob) (k : UUID) :
    (db.flushJob job).ingestionJobs.find? k =
      if k = job.id then (db.ingestionJobs.find? k).map fun _ => job
      else db.ingestionJobs.find? k :=
  Table.find?_replace _ _ _

theorem find?_flushDocumentStatus (d : UUID) (status : DocumentStatus) (k : UUID) :
    (db.flushDocumentStatus d status).documents.find? k =
      (db.documents.find? k).map fun document =>
        if k = d then { document with status } else document := by
  unfold flushDocumentStatus
  cases hd : db.documents.find? d with
  | none =>
    by_cases hk : k = d
    · simp [hk, hd]
    · simp [hk]
  | some document =>
    have hid : document.id = d := Table.find?_key hd
    change (db.documents.replace { document with status }).find? k = _
    rw [Table.find?_replace]
    by_cases hk : k = d
    · simp [hk, hd, hid]
    · have : ¬ k = document.id := by rwa [hid]
      simp [hk, this]

end Database

/-- The WHERE clause of `claim_next_internal`. -/
def IngestionJob.eligible (job : IngestionJob) (claimedAt : Time) : Bool :=
  job.status = .pending ∧ job.attemptCount < job.maxAttempts ∧
    job.nextRetryAt.all (· ≤ claimedAt)

/-- `ORDER BY coalesce(next_retry_at, created_at), created_at, id`. -/
def IngestionJob.claimKey (job : IngestionJob) : Time ×ₗ Time ×ₗ UUID :=
  toLex (job.nextRetryAt.getD job.createdAt, toLex (job.createdAt, job.id))

/-- The fields a claim sets. -/
def IngestionJob.claim (job : IngestionJob) (workerId : Str) (claimedAt leaseExpiresAt : Time) :
    IngestionJob :=
  { job with
    status := .processing
    attemptCount := job.attemptCount + 1
    progressPercent := 0
    claimedBy := some workerId
    claimedAt := some claimedAt
    leaseExpiresAt := some leaseExpiresAt
    nextRetryAt := none
    errorCode := none
    safeErrorMessage := none
    startedAt := some claimedAt
    finishedAt := none }

/-- `claim_next_internal`. Rows in `locked` are held by other transactions and skipped. -/
def claimNextInternal (db : Database) (locked : List UUID) (workerId : Str)
    (claimedAt leaseExpiresAt : Time) : Except RepositoryError (Option (IngestionJob × Database)) :=
  if strip workerId = [] then .error .value
  else if leaseExpiresAt ≤ claimedAt then .error .value
  else
    let rows := db.ingestionJobs.rows.filter fun job => job.eligible claimedAt && job.id ∉ locked
    match (orderBy IngestionJob.claimKey rows).head? with
    | none => .ok none
    | some job =>
      let claimed := job.claim workerId claimedAt leaseExpiresAt
      .ok (some (claimed, (db.flushJob claimed).flushDocumentStatus job.documentId .processing))

/-- The WHERE clause of `lock_expired_leases_internal`. -/
def IngestionJob.leaseExpired (job : IngestionJob) (now : Time) : Bool :=
  job.status = .processing ∧ job.leaseExpiresAt.any (· ≤ now)

/-- `ORDER BY lease_expires_at, id`; the WHERE clause leaves no null lease. -/
def IngestionJob.expiryKey (job : IngestionJob) : Time ×ₗ UUID :=
  toLex (job.leaseExpiresAt.getD 0, job.id)

/-- `lock_expired_leases_internal`. -/
def lockExpiredLeasesInternal (db : Database) (locked : List UUID) (now : Time) (limit : Int) :
    Except RepositoryError (List IngestionJob) :=
  if limit < 1 then .error .value
  else
    let rows := db.ingestionJobs.rows.filter fun job => job.leaseExpired now && job.id ∉ locked
    .ok ((orderBy IngestionJob.expiryKey rows).take limit.toNat)

/-- The WHERE clause of `get_owned_processing_internal` after the id. -/
def IngestionJob.ownedBy (job : IngestionJob) (workerId : Str) (now : Time) : Bool :=
  job.status = .processing ∧ job.claimedBy = some workerId ∧ job.leaseExpiresAt.any (now < ·)

/-- `get_owned_processing_internal`. -/
def getOwnedProcessingInternal (db : Database) (jobId : UUID) (workerId : Str) (now : Time) :
    Option IngestionJob :=
  (db.ingestionJobs.find? jobId).filter fun job => job.ownedBy workerId now

/-- The inserts of `session.add_all(chunks)`: the primary key and the unique constraint
on `(document_id, chunk_index)`. -/
def insertChunks (table : Table DocumentChunk DocumentChunk.id) (chunks : List DocumentChunk) :
    Except RepositoryError (Table DocumentChunk DocumentChunk.id) :=
  if (chunks.map fun c => (c.documentId, c.chunkIndex)).Nodup ∧
      chunks.all fun c => table.rows.all fun r =>
        (r.documentId, r.chunkIndex) ≠ (c.documentId, c.chunkIndex) then
    match table.insertAll? chunks with
    | some table' => .ok table'
    | none => .error .integrity
  else .error .integrity

/-- `replace_for_document_internal`. -/
def replaceForDocumentInternal (db : Database) (documentId : UUID) (chunks : List DocumentChunk) :
    Except RepositoryError Database :=
  if chunks.any fun c => c.documentId ≠ documentId then .error .value
  else (insertChunks (db.documentChunks.erase fun c => c.documentId == documentId) chunks).map
    fun documentChunks => { db with documentChunks }

/-- `get_upload_target_for_user`: knowledge base and membership joined. -/
def getUploadTargetForUser (db : Database) (knowledgeBaseId userId : UUID) :
    Option (KnowledgeBase × KnowledgeBaseRole) := do
  let knowledgeBase ← db.knowledgeBases.find? knowledgeBaseId
  let membership ← db.membership? knowledgeBase.id userId
  return (knowledgeBase, membership.role)

/-- `get_by_digest_for_user`, the document's job loaded with it. The unique constraint on
`(knowledge_base_id, sha256)` leaves one row at most. -/
def getByDigestForUser (db : Database) (knowledgeBaseId : UUID) (sha256 : Str) (userId : UUID) :
    Option (Document × Option IngestionJob × KnowledgeBaseRole) := do
  let document ← db.documents.rows.find? fun d =>
    d.knowledgeBaseId = knowledgeBaseId ∧ d.sha256 = sha256
  let knowledgeBase ← db.knowledgeBases.find? document.knowledgeBaseId
  let membership ← db.membership? knowledgeBase.id userId
  return (document, db.ingestionJobs.rows.find? fun j => j.documentId = document.id,
    membership.role)

/-- `add_authorized_upload`: the keys, constraints and foreign key of `documents`. -/
def addAuthorizedUpload (db : Database) (document : Document) : Except RepositoryError Database :=
  if (db.documents.rows.all fun d =>
      ¬(d.knowledgeBaseId = document.knowledgeBaseId ∧ d.sha256 = document.sha256) ∧
        d.storageKey ≠ document.storageKey) ∧
      0 < document.sizeBytes ∧ document.sha256.length = 64 ∧
      (db.knowledgeBases.find? document.knowledgeBaseId).isSome then
    match db.documents.insert? document with
    | some documents => .ok { db with documents }
    | none => .error .integrity
  else .error .integrity

/-- `add_for_authorized_upload`: the keys and the foreign key of `ingestion_jobs`. -/
def addForAuthorizedUpload (db : Database) (job : IngestionJob) : Except RepositoryError Database :=
  if (db.ingestionJobs.rows.all fun j => j.documentId ≠ job.documentId) ∧
      (db.documents.find? job.documentId).isSome then
    match db.ingestionJobs.insert? job with
    | some ingestionJobs => .ok { db with ingestionJobs }
    | none => .error .integrity
  else .error .integrity

/-- `get_retry_target_for_user`: job, document, knowledge base and membership joined. -/
def getRetryTargetForUser (db : Database) (jobId userId : UUID) :
    Option (IngestionJob × KnowledgeBaseRole) := do
  let job ← db.ingestionJobs.find? jobId
  let document ← db.documents.find? job.documentId
  let knowledgeBase ← db.knowledgeBases.find? document.knowledgeBaseId
  let membership ← db.membership? knowledgeBase.id userId
  return (job, membership.role)

section Specifications
variable {db db' : Database}

theorem eligible_iff {job : IngestionJob} {now : Time} : job.eligible now = true ↔
    job.status = .pending ∧ job.attemptCount < job.maxAttempts ∧
      ∀ t, job.nextRetryAt = some t → t ≤ now := by
  simp [IngestionJob.eligible, Option.all_eq_true]

theorem leaseExpired_iff {job : IngestionJob} {now : Time} : job.leaseExpired now = true ↔
    job.status = .processing ∧ ∃ t, job.leaseExpiresAt = some t ∧ t ≤ now := by
  simp [IngestionJob.leaseExpired, Option.any_eq_true]

/-- What a claim does when it finds a job: the guard it passed and the rows it wrote. -/
theorem claimNextInternal_some {locked : List UUID} {w : Str} {claimedAt lease : Time}
    {claimed : IngestionJob}
    (h : claimNextInternal db locked w claimedAt lease = .ok (some (claimed, db'))) :
    ∃ job, db.ingestionJobs.find? job.id = some job ∧ job.eligible claimedAt = true ∧
      claimedAt < lease ∧ claimed = job.claim w claimedAt lease ∧
      db' = (db.flushJob claimed).flushDocumentStatus job.documentId .processing := by
  unfold claimNextInternal at h
  split at h
  · cases h
  · split at h
    · cases h
    · rename_i hlease
      dsimp only at h
      split at h
      · cases h
      · rename_i job hhead
        have hmem := mem_orderBy.mp (List.mem_of_mem_head? hhead)
        obtain ⟨hrow, hel⟩ := List.mem_filter.mp hmem
        simp only [Except.ok.injEq, Option.some.injEq, Prod.mk.injEq] at h
        obtain ⟨rfl, rfl⟩ := h
        exact ⟨job, Table.find?_of_mem hrow, (Bool.and_eq_true_iff.mp hel).1, not_le.mp hlease,
          rfl, rfl⟩

theorem lockExpiredLeasesInternal_ok {locked : List UUID} {now : Time} {limit : Int}
    {jobs : List IngestionJob} (h : lockExpiredLeasesInternal db locked now limit = .ok jobs) :
    (jobs.map IngestionJob.id).Nodup ∧
      ∀ job ∈ jobs, db.ingestionJobs.find? job.id = some job ∧ job.leaseExpired now = true := by
  unfold lockExpiredLeasesInternal at h
  split at h
  · cases h
  · obtain rfl := Except.ok.inj h
    constructor
    · apply ((List.take_sublist _ _).map _).nodup
      rw [((orderBy_perm _).map _).nodup_iff]
      exact (List.filter_sublist.map _).nodup db.ingestionJobs.nodup
    · intro job hjob
      obtain ⟨hrow, hel⟩ := List.mem_filter.mp (mem_orderBy.mp (List.mem_of_mem_take hjob))
      exact ⟨Table.find?_of_mem hrow, (Bool.and_eq_true_iff.mp hel).1⟩

theorem getOwnedProcessingInternal_some {jobId : UUID} {w : Str} {now : Time} {job : IngestionJob} :
    getOwnedProcessingInternal db jobId w now = some job ↔
      db.ingestionJobs.find? jobId = some job ∧ job.status = .processing ∧
        job.claimedBy = some w ∧ ∃ lease, job.leaseExpiresAt = some lease ∧ now < lease := by
  simp [getOwnedProcessingInternal, Option.filter_eq_some_iff, IngestionJob.ownedBy,
    Option.any_eq_true]

/-- A replacement writes exactly the given rows for the document and leaves all others. -/
theorem replaceForDocumentInternal_ok {documentId : UUID} {chunks : List DocumentChunk}
    (h : replaceForDocumentInternal db documentId chunks = .ok db') :
    (∀ c ∈ chunks, c.documentId = documentId) ∧
      (chunks.map DocumentChunk.id).Nodup ∧
      (∀ c, c ∈ db'.documentChunks ↔ c ∈ chunks ∨ c ∈ db.documentChunks ∧ c.documentId ≠ documentId) ∧
      db' = { db with documentChunks := db'.documentChunks } := by
  unfold replaceForDocumentInternal at h
  split at h
  · cases h
  · rename_i hdoc
    cases hins : insertChunks (db.documentChunks.erase fun c => c.documentId == documentId) chunks with
    | error e => simp [hins, Except.map] at h
    | ok table =>
      obtain rfl : { db with documentChunks := table } = db' := by simpa [hins, Except.map] using h
      have hall : ∀ c ∈ chunks, c.documentId = documentId := by simpa using hdoc
      unfold insertChunks at hins
      split at hins
      · split at hins
        · rename_i table' htab
          obtain rfl := Except.ok.inj hins
          refine ⟨hall, Table.nodup_of_insertAll? htab, ?_, rfl⟩
          intro c
          rw [Table.mem_insertAll? htab, Table.mem_erase]
          simp
        · cases hins
      · cases hins

theorem getRetryTargetForUser_some {jobId userId : UUID} {job : IngestionJob}
    {role : KnowledgeBaseRole} (h : getRetryTargetForUser db jobId userId = some (job, role)) :
    db.ingestionJobs.find? jobId = some job := by
  simp only [getRetryTargetForUser, bind, Option.bind_eq_some_iff, pure, Option.some.injEq,
    Prod.mk.injEq] at h
  obtain ⟨job', hjob, _, _, _, _, _, _, rfl, _⟩ := h
  exact hjob

theorem addAuthorizedUpload_ok {document : Document}
    (h : addAuthorizedUpload db document = .ok db') :
    (∀ d ∈ db.documents,
      ¬(d.knowledgeBaseId = document.knowledgeBaseId ∧ d.sha256 = document.sha256) ∧
        d.storageKey ≠ document.storageKey) ∧
      db.documents.insert? document = some db'.documents ∧
      db' = { db with documents := db'.documents } := by
  unfold addAuthorizedUpload at h
  split at h
  · rename_i hc
    split at h
    · rename_i documents hins
      obtain rfl := Except.ok.inj h
      refine ⟨fun d hd => ?_, hins, rfl⟩
      exact of_decide_eq_true (List.all_eq_true.mp hc.1 d hd)
    · cases h
  · cases h

theorem addForAuthorizedUpload_ok {job : IngestionJob}
    (h : addForAuthorizedUpload db job = .ok db') :
    (∀ j ∈ db.ingestionJobs, j.documentId ≠ job.documentId) ∧
      (db.documents.find? job.documentId).isSome ∧
      db.ingestionJobs.insert? job = some db'.ingestionJobs ∧
      db' = { db with ingestionJobs := db'.ingestionJobs } := by
  unfold addForAuthorizedUpload at h
  split at h
  · rename_i hc
    split at h
    · rename_i jobs hins
      obtain rfl := Except.ok.inj h
      refine ⟨fun j hj => ?_, hc.2, hins, rfl⟩
      exact of_decide_eq_true (List.all_eq_true.mp hc.1 j hj)
    · cases h
  · cases h

end Specifications
end AgenticRag.Db

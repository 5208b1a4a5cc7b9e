import AgenticRag.Lib.Table
import AgenticRag.Python.Uuid

/-! The durable rows and their CHECK constraints. A timestamp is a count of
microseconds; a text column is a code point sequence. -/
namespace AgenticRag.Db
open Lib Python

abbrev Time := Int

inductive DocumentStatus where
  | pending | processing | completed | failed
  deriving DecidableEq

inductive IngestionJobStatus where
  | pending | processing | completed | failed
  deriving DecidableEq

inductive KnowledgeBaseRole where
  | owner | editor | viewer
  deriving DecidableEq

def DocumentStatus.value : DocumentStatus → String
  | .pending => "pending"
  | .processing => "processing"
  | .completed => "completed"
  | .failed => "failed"

def IngestionJobStatus.value : IngestionJobStatus → String
  | .pending => "pending"
  | .processing => "processing"
  | .completed => "completed"
  | .failed => "failed"

structure User where
  id : UUID
  email : Str
  passwordHash : Str
  isActive : Bool
  deriving DecidableEq

structure UserSession where
  id : UUID
  userId : UUID
  tokenSha256 : Str
  csrfTokenSha256 : Str
  expiresAt : Time
  revokedAt : Option Time
  lastSeenAt : Option Time
  deriving DecidableEq

structure KnowledgeBase where
  id : UUID
  name : Str
  description : Option Str
  createdAt : Time
  deriving DecidableEq

structure KnowledgeBaseMembership where
  knowledgeBaseId : UUID
  userId : UUID
  role : KnowledgeBaseRole
  deriving DecidableEq

def KnowledgeBaseMembership.key (m : KnowledgeBaseMembership) : UUID × UUID :=
  (m.knowledgeBaseId, m.userId)

structure Document where
  id : UUID
  knowledgeBaseId : UUID
  originalFilename : Str
  mediaType : String
  sizeBytes : Nat
  sha256 : Str
  storageKey : Str
  status : DocumentStatus
  createdAt : Time
  deriving DecidableEq

structure IngestionJob where
  id : UUID
  documentId : UUID
  status : IngestionJobStatus
  attemptCount : Nat
  maxAttempts : Nat
  progressPercent : Nat
  claimedBy : Option Str
  claimedAt : Option Time
  leaseExpiresAt : Option Time
  nextRetryAt : Option Time
  errorCode : Option String
  safeErrorMessage : Option String
  startedAt : Option Time
  finishedAt : Option Time
  createdAt : Time
  deriving DecidableEq

/-- The column default of `max_attempts`. -/
def defaultMaxAttempts : Nat := 3

/-- `IngestionJob(document=document, status="pending", attempt_count=0)`, the other
columns at their defaults. -/
def IngestionJob.new (id documentId : UUID) (createdAt : Time) : IngestionJob where
  id := id
  documentId := documentId
  status := .pending
  attemptCount := 0
  maxAttempts := defaultMaxAttempts
  progressPercent := 0
  claimedBy := none
  claimedAt := none
  leaseExpiresAt := none
  nextRetryAt := none
  errorCode := none
  safeErrorMessage := none
  startedAt := none
  finishedAt := none
  createdAt := createdAt

/-- `btrim` removes spaces only, unlike `str.strip`. -/
def btrim (s : Str) : Str := stripWhile (fun c => c == space) s

def LeaseFieldsConsistent (claimedBy : Option Str) (claimedAt leaseExpiresAt : Option Time) : Prop :=
  claimedBy = none ∧ claimedAt = none ∧ leaseExpiresAt = none ∨
    claimedBy ≠ none ∧ claimedAt ≠ none ∧ leaseExpiresAt ≠ none

/-- The CHECK constraints of `ingestion_jobs`. `nonnegative_attempt_count` and
`valid_status` hold by the types of the columns. -/
structure IngestionJob.Checks (job : IngestionJob) : Prop where
  positive_max_attempts : 0 < job.maxAttempts
  attempt_count_within_max_attempts : job.attemptCount ≤ job.maxAttempts
  progress_percent_range : job.progressPercent ≤ 100
  claimed_by_nonblank : ∀ w, job.claimedBy = some w →
    1 ≤ (btrim w).length ∧ (btrim w).length ≤ 255
  lease_fields_consistent : LeaseFieldsConsistent job.claimedBy job.claimedAt job.leaseExpiresAt
  lease_window : ∀ claimed lease, job.claimedAt = some claimed → job.leaseExpiresAt = some lease →
    claimed < lease
  safe_error_message_length : ∀ m, job.safeErrorMessage = some m → m.length ≤ 1000

structure DocumentChunk where
  id : UUID
  documentId : UUID
  chunkIndex : Nat
  normalizedText : Str
  tokenCount : Nat
  contentSha256 : Option Str
  startOffset : Option Nat
  endOffset : Option Nat
  pageStart : Option Nat
  pageEnd : Option Nat
  deriving DecidableEq

/-- `'^[0-9a-f]{64}$'`. -/
def matchesSha256 (s : Str) : Bool := s.length == 64 && s.all isLowerHex

def ValidSourceOffsets (startOffset endOffset : Option Nat) : Prop :=
  startOffset = none ∧ endOffset = none ∨
    ∃ a b, startOffset = some a ∧ endOffset = some b ∧ a < b

def ValidPageRange (pageStart pageEnd : Option Nat) : Prop :=
  pageStart = none ∧ pageEnd = none ∨
    ∃ a b, pageStart = some a ∧ pageEnd = some b ∧ 0 < a ∧ a ≤ b

/-- The CHECK constraints of `document_chunks`; the two on signs hold by type. -/
structure DocumentChunk.Checks (chunk : DocumentChunk) : Prop where
  nonempty_normalized_text : 0 < (btrim chunk.normalizedText).length
  valid_content_sha256 : ∀ h, chunk.contentSha256 = some h → matchesSha256 h = true
  valid_source_offsets : ValidSourceOffsets chunk.startOffset chunk.endOffset
  valid_page_range : ValidPageRange chunk.pageStart chunk.pageEnd

/-- One committed state. Primary keys are unique by the type of the tables. -/
structure Database where
  users : Table User User.id
  userSessions : Table UserSession UserSession.id
  knowledgeBases : Table KnowledgeBase KnowledgeBase.id
  memberships : Table KnowledgeBaseMembership KnowledgeBaseMembership.key
  documents : Table Document Document.id
  ingestionJobs : Table IngestionJob IngestionJob.id
  documentChunks : Table DocumentChunk DocumentChunk.id

namespace Database
variable (db : Database)

def membership? (knowledgeBaseId userId : UUID) : Option KnowledgeBaseMembership :=
  db.memberships.find? (knowledgeBaseId, userId)

/-- The chunk rows of one document, in table order. -/
def chunksOf (documentId : UUID) : List DocumentChunk :=
  db.documentChunks.rows.filter fun c => c.documentId == documentId

theorem mem_chunksOf {documentId : UUID} {c : DocumentChunk} :
    c ∈ db.chunksOf documentId ↔ c ∈ db.documentChunks ∧ c.documentId = documentId := by
  simp [chunksOf, Table.mem_rows]

end Database
end AgenticRag.Db

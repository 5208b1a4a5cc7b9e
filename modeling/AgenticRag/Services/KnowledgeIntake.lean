import AgenticRag.Db.Access
import AgenticRag.Services.Processing
import AgenticRag.Services.UploadMachine

/-! The knowledge API: the operations of `KnowledgeIntakeService` for one caller, each a call on
the rows and the stored files that it finds. -/
namespace AgenticRag.Services
open Lib Python Db Ingestion Security

structure KnowledgeState where
  db : Database
  files : Str → Option (List UInt8)

/-- `storage.delete`. -/
def KnowledgeState.delete (s : KnowledgeState) (key : Str) : KnowledgeState :=
  { s with files := Function.update s.files key none }

/-- What a call meets besides the rows: the identifiers of `uuid4`, the time its rows get, how the
storage fails, and which of its transactions the database fails. -/
structure CallEnvironment where
  documentId : UUID
  jobId : UUID
  createdAt : Time
  storageFailure : Option StoreError
  databaseFails : Nat → Bool

/-- The `n`-th transaction of a call. -/
def CallEnvironment.transaction {α : Type} (env : CallEnvironment) (n : Nat)
    (body : Except UploadRaised α) : Except UploadRaised α :=
  if env.databaseFails n then .error .database else body

def ofStatement {α : Type} (x : Except StatementError α) : Except UploadRaised α :=
  x.mapError fun _ => .database

def ofService {α : Type} (x : Except AppException α) : Except UploadRaised α := x.mapError .app

/-- The settings of the service. -/
structure KnowledgeIntakeService where
  sha256 : Sha256
  maxUploadSizeBytes : Nat

namespace KnowledgeIntakeService

section Reads
variable (env : CallEnvironment) (db : Database) (userId : UUID)

/-- `list_knowledge_bases`. -/
def listKnowledgeBases (limit offset : Int) : Except UploadRaised (List KnowledgeBase) := do
  let visible ← env.transaction 0
    (ofStatement (KnowledgeBaseRepository.listForUser db userId limit offset))
  visible.forM fun (_, role) => ofService (requireCapability (some role) .knowledgeBaseRead)
  return visible.map Prod.fst

/-- `get_knowledge_base`. -/
def getKnowledgeBase (knowledgeBaseId : UUID) : Except UploadRaised KnowledgeBase := do
  match ← env.transaction 0
      (ofStatement (KnowledgeBaseRepository.getForUser db userId knowledgeBaseId)) with
  | none => throw (.app (.notFound "Knowledge base was not found."))
  | some (knowledgeBase, role) => do
    ofService (requireCapability (some role) .knowledgeBaseRead)
    return knowledgeBase

/-- The transaction of `list_documents`. -/
def visibleDocuments (knowledgeBaseId : UUID) (limit offset : Int) :
    Except UploadRaised (List (Document × KnowledgeBaseRole)) := do
  match ← ofStatement (KnowledgeBaseRepository.getForUser db userId knowledgeBaseId) with
  | none => throw (.app (.notFound "Knowledge base was not found."))
  | some (_, role) => do
    ofService (requireCapability (some role) .documentRead)
    ofStatement (DocumentRepository.listForKnowledgeBaseForUser db userId knowledgeBaseId limit offset)

/-- `list_documents`. -/
def listDocuments (knowledgeBaseId : UUID) (limit offset : Int) :
    Except UploadRaised (List Document) := do
  let visible ← env.transaction 0 (visibleDocuments db userId knowledgeBaseId limit offset)
  visible.forM fun (_, role) => ofService (requireCapability (some role) .documentRead)
  return visible.map Prod.fst

/-- `get_document`: the document and its job. -/
def getDocument (documentId : UUID) : Except UploadRaised (Document × Option IngestionJob) := do
  match ← env.transaction 0 (ofStatement (DocumentRepository.getForUser db userId documentId)) with
  | none => throw (.app (.notFound "Document was not found."))
  | some (document, job, role) => do
    ofService (requireCapability (some role) .documentRead)
    return (document, job)

/-- `get_ingestion_job`: the job and its document. -/
def getIngestionJob (jobId : UUID) : Except UploadRaised (IngestionJob × Document) := do
  match ← env.transaction 0 (ofStatement (IngestionJobRepository.getForUser db userId jobId)) with
  | none => throw (.app (.notFound "Ingestion job was not found."))
  | some (job, document, role) => do
    ofService (requireCapability (some role) .ingestionJobRead)
    return (job, document)

end Reads

section Writes
variable (svc : KnowledgeIntakeService) (env : CallEnvironment) (userId : UUID)

/-- `retry_ingestion_job`. -/
def retryIngestionJob (s : KnowledgeState) (jobId : UUID) :
    Except UploadRaised IngestionJob × KnowledgeState :=
  match env.transaction 0 (ofService (Services.retryIngestionJob s.db userId jobId)) with
  | .ok (job, db) => (.ok job, { s with db })
  | .error e => (.error e, s)

/-- `_store_upload`. -/
def storeUpload (source : List (List UInt8)) (key : Str) :
    Except AppException (List UInt8 × StoredFile) :=
  match env.storageFailure with
  | some e => .error e.exception
  | none => (store svc.sha256 svc.maxUploadSizeBytes key source).mapError StoreError.exception

/-- `_persist_upload`. An `IntegrityError` is left to `_resolve_concurrent_duplicate`, every other
error of the database is one of the service. -/
def persistUpload (s : KnowledgeState) (knowledgeBaseId : UUID) (filename : Str) (mediaType : String)
    (stored : StoredFile) : Except UploadRaised UploadResult × KnowledgeState :=
  if env.databaseFails 1 then
    (.error (.app (.serviceUnavailable "Database is temporarily unavailable.")), s)
  else match findDuplicate s.db knowledgeBaseId stored.sha256 userId with
    | .error e => (.error (.app e), s)
    | .ok (some result) => (.ok result, s.delete stored.storageKey)
    | .ok none =>
      let document := uploadedDocument env.documentId knowledgeBaseId filename mediaType stored
        env.createdAt
      match insertUpload s.db document env.jobId with
      | .ok (job, db) => (.ok ⟨document, job, false⟩, { s with db })
      | .error _ =>
        (env.transaction 2
          (ofService (resolveConcurrentDuplicate s.db knowledgeBaseId stored.sha256 userId)),
          s.delete stored.storageKey)

/-- The `finally` of `upload_document`: the file of a call that raises is deleted. -/
def cleanupOwned (key : Str) : Except UploadRaised UploadResult × KnowledgeState →
    Except UploadRaised UploadResult × KnowledgeState
  | (.ok result, s) => (.ok result, s)
  | (.error e, s) => (.error e, s.delete key)

/-- `upload_document` once its storage key is generated. -/
def uploadOwned (s : KnowledgeState) (knowledgeBaseId : UUID) (filename : Str) (mediaType : String)
    (source : List (List UInt8)) (key : Str) : Except UploadRaised UploadResult × KnowledgeState :=
  match svc.storeUpload env source key with
  | .error e => (.error (.app e), s)
  | .ok (content, stored) =>
    let published : KnowledgeState := { s with files := Function.update s.files key (some content) }
    cleanupOwned key <| match validateContent mediaType stored with
      | .error e => (.error (.app e), published)
      | .ok () => persistUpload env userId published knowledgeBaseId filename mediaType stored

/-- `upload_document`. -/
def uploadDocument (s : KnowledgeState) (knowledgeBaseId : UUID) (filename : Str) (mediaType : String)
    (source : List (List UInt8)) : Except UploadRaised UploadResult × KnowledgeState :=
  match validateUploadMetadata filename mediaType with
  | .error e => (.error (.app e), s)
  | .ok extension =>
    match env.transaction 0 (ofService (authorizeUpload s.db knowledgeBaseId userId)) with
    | .error e => (.error e, s)
    | .ok () => svc.uploadOwned env userId s knowledgeBaseId filename mediaType source
        (storageKey knowledgeBaseId env.documentId extension)

end Writes
end KnowledgeIntakeService

inductive KnowledgeRequest where
  | listKnowledgeBases (limit offset : Int)
  | getKnowledgeBase (knowledgeBaseId : UUID)
  | listDocuments (knowledgeBaseId : UUID) (limit offset : Int)
  | getDocument (documentId : UUID)
  | getIngestionJob (jobId : UUID)
  | retryIngestionJob (jobId : UUID)
  | uploadDocument (knowledgeBaseId : UUID) (filename : Str) (mediaType : String)
      (source : List (List UInt8))

inductive KnowledgeResult where
  | knowledgeBases (knowledgeBases : List KnowledgeBase)
  | knowledgeBase (knowledgeBase : KnowledgeBase)
  | documents (documents : List Document)
  | document (document : Document) (job : Option IngestionJob)
  | ingestionJob (job : IngestionJob) (document : Document)
  | retried (job : IngestionJob)
  | upload (result : UploadResult)

/-- A call of the service by a user. -/
def KnowledgeIntakeService.serve (svc : KnowledgeIntakeService) (env : CallEnvironment) (userId : UUID)
    (s : KnowledgeState) : KnowledgeRequest → Except UploadRaised KnowledgeResult × KnowledgeState
  | .listKnowledgeBases limit offset =>
    ((listKnowledgeBases env s.db userId limit offset).map .knowledgeBases, s)
  | .getKnowledgeBase knowledgeBaseId =>
    ((getKnowledgeBase env s.db userId knowledgeBaseId).map .knowledgeBase, s)
  | .listDocuments knowledgeBaseId limit offset =>
    ((listDocuments env s.db userId knowledgeBaseId limit offset).map .documents, s)
  | .getDocument documentId =>
    ((getDocument env s.db userId documentId).map fun (document, job) => .document document job, s)
  | .getIngestionJob jobId =>
    ((getIngestionJob env s.db userId jobId).map fun (job, document) => .ingestionJob job document, s)
  | .retryIngestionJob jobId =>
    let (outcome, t) := retryIngestionJob env userId s jobId
    (outcome.map .retried, t)
  | .uploadDocument knowledgeBaseId filename mediaType source =>
    let (outcome, t) := svc.uploadDocument env userId s knowledgeBaseId filename mediaType source
    (outcome.map .upload, t)

end AgenticRag.Services

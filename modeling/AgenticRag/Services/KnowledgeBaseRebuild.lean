import AgenticRag.Db.Access
import AgenticRag.Services.Rebuild

/-! `rebuild_document` and `rebuild_knowledge_base` from their call to their result. Each document
is rebuilt in an environment of its own: the rows it is loaded from, and how the calls of the
embedding model and of the vector index end. -/
namespace AgenticRag.Services
open Lib Python Db Ingestion

/-- How a call of the vector index ends: it returns, or it raises after it has taken effect for
some of its records. -/
inductive StoreReply where
  | returned
  | lost (raised : Raised) (took : VectorRecord → Bool)

/-- The vector index, and the records of the `upsert` calls that have returned. -/
structure IndexService where
  records : VectorIndex
  returned : List VectorRecord

namespace IndexService

def upsert (service : IndexService) (batch : List VectorRecord) :
    StoreReply → Except Raised Unit × IndexService
  | .returned => (.ok (), ⟨service.records.upsert batch, service.returned ++ batch⟩)
  | .lost raised took =>
    (.error raised, { service with records := service.records.upsert (batch.filter took) })

def deleteByDocument (service : IndexService) (documentId : UUID) :
    StoreReply → Except Raised Unit × IndexService
  | .returned => (.ok (), { service with records := service.records.deleteByDocument documentId })
  | .lost raised took => (.error raised, { service with
      records := fun k => (service.records k).filter fun r => !(r.documentId == documentId && took r) })

end IndexService

/-- What the rebuild of one document meets: what `initialize` raises, the rows that are loaded, the
answers of the embedding model in turn, and how the deletion and each upsert end. -/
structure RebuildEnvironment where
  initialized : Option Raised
  loaded : Except Raised Database
  answers : Nat → Except Raised Object
  deleted : StoreReply
  upserted : Nat → StoreReply

/-- Whether the service has initialized the index, and the index. -/
structure RebuildWorld where
  initialized : Bool
  service : IndexService

/-- `initialize`. -/
def RebuildWorld.initializeIndex (world : RebuildWorld) (reply : Option Raised) :
    Except Raised Unit × RebuildWorld :=
  if world.initialized then (.ok (), world)
  else match reply with
    | some raised => (.error raised, world)
    | none => (.ok (), { world with initialized := true })

section Document
variable (svc : IngestionProcessingService)

/-- `_records_for_chunks`. -/
def recordsForChunks (answers : Nat → Except Raised Object) (document : Document)
    (chunks : List DocumentChunk) : Except Raised (List VectorRecord) :=
  (svc.batches chunks).zipIdx.foldlM (fun records batch => do
    let made ← answers batch.2 >>= fun vectors => recordsForBatch svc document batch.1 (.ok vectors)
    .ok (records ++ made)) []

/-- The loop over the batches of records: what it raises, and `indexed_chunks`. -/
def upsertBatches (upserted : Nat → StoreReply) :
    Nat → List (List VectorRecord) → Nat → IndexService → (Option Raised × Nat) × IndexService
  | _, [], indexedChunks, service => ((none, indexedChunks), service)
  | i, batch :: rest, indexedChunks, service =>
    match service.upsert batch (upserted i) with
    | (.error raised, service) => ((some raised, indexedChunks), service)
    | (.ok _, service) => upsertBatches upserted (i + 1) rest (indexedChunks + batch.length) service

/-- `except _EXPECTED_REBUILD_FAILURES`. -/
def rebuildFailed (documentId : UUID) (indexedChunks : Nat) (raised : Raised) :
    Except RebuildError RebuildResult :=
  match raised.rebuildFailure? with
  | some failure =>
    .ok ⟨1, 0, indexedChunks, [⟨documentId, failure.code, failure.safeMessage⟩]⟩
  | none => .error (.raised raised)

/-- `rebuild_document` once the document is loaded. -/
def replaceDocumentVectors (environment : RebuildEnvironment) (documentId : UUID) (document : Document)
    (chunks : List DocumentChunk) (service : IndexService) :
    Except RebuildError RebuildResult × IndexService :=
  match recordsForChunks svc environment.answers document chunks with
  | .error raised => (rebuildFailed documentId 0 raised, service)
  | .ok records =>
    match service.deleteByDocument documentId environment.deleted with
    | (.error raised, service) => (rebuildFailed documentId 0 raised, service)
    | (.ok _, service) =>
      match upsertBatches environment.upserted 0 (svc.batches records) 0 service with
      | ((some raised, indexedChunks), service) =>
        (rebuildFailed documentId indexedChunks raised, service)
      | ((none, _), service) => (.ok ⟨1, 1, records.length, []⟩, service)

/-- `rebuild_document` once the index is initialized. -/
def rebuildInitialized (environment : RebuildEnvironment) (documentId : UUID) (maxChunks : Int)
    (service : IndexService) : Except RebuildError RebuildResult × IndexService :=
  match environment.loaded with
  | .error raised => (.error (.raised raised), service)
  | .ok db =>
    match loadRebuildDocument db documentId maxChunks with
    | .error error => (.error error, service)
    | .ok (document, chunks) =>
      replaceDocumentVectors svc environment documentId document chunks service

/-- `rebuild_document`. -/
def rebuildDocument (environment : RebuildEnvironment) (documentId : UUID) (maxChunks : Int)
    (world : RebuildWorld) : Except RebuildError RebuildResult × RebuildWorld :=
  if maxChunks < 1 then (.error .value, world)
  else match world.initializeIndex environment.initialized with
    | (.error raised, world) => (.error (.raised raised), world)
    | (.ok _, world) =>
      let (result, service) := rebuildInitialized svc environment documentId maxChunks world.service
      (result, { world with service })

end Document

/-- `list_for_knowledge_base_internal`. -/
def listForKnowledgeBaseInternal (db : Database) (knowledgeBaseId : UUID) (limit offset : Int) :
    Except StatementError (List Document) :=
  page limit offset <| orderBy (fun document => toLex (document.createdAt, document.id)) <|
    db.documents.rows.filter fun document => document.knowledgeBaseId = knowledgeBaseId

/-- `indexed_documents`, `indexed_chunks` and `failures`. -/
structure RebuildTally where
  indexedDocuments : Nat
  indexedChunks : Nat
  failures : List RebuildFailure

def RebuildTally.add (tally added : RebuildTally) : RebuildTally :=
  ⟨tally.indexedDocuments + added.indexedDocuments, tally.indexedChunks + added.indexedChunks,
    tally.failures ++ added.failures⟩

/-- What the rebuild of a knowledge base meets before its documents. -/
structure KnowledgeBaseEnvironment where
  initialized : Option Raised
  listed : Except Raised Database
  documents : UUID → RebuildEnvironment

section KnowledgeBase
variable (svc : IngestionProcessingService) (environments : UUID → RebuildEnvironment) (maxChunks : Int)

/-- One turn of the loop over the documents: what it adds to the tally. -/
def rebuildListed (document : Document) (world : RebuildWorld) :
    Except RebuildError RebuildTally × RebuildWorld :=
  if document.status ≠ .completed then
    (.ok ⟨0, 0, [⟨document.id, "REBUILD_NOT_READY", "Only completed documents can be rebuilt."⟩]⟩, world)
  else match rebuildDocument svc (environments document.id) document.id maxChunks world with
    | (.ok result, world) =>
      (.ok ⟨result.documentsIndexed, result.chunksIndexed, result.failures⟩, world)
    | (.error (.limit message), world) =>
      (.ok ⟨0, 0, [⟨document.id, "REBUILDLIMITERROR", message⟩]⟩, world)
    | (.error (.notReady message), world) =>
      (.ok ⟨0, 0, [⟨document.id, "REBUILDNOTREADYERROR", message⟩]⟩, world)
    | (.error error, world) => (.error error, world)

/-- The loop over the documents. -/
def rebuildEach : List Document → RebuildTally → RebuildWorld →
    Except RebuildError RebuildTally × RebuildWorld
  | [], tally, world => (.ok tally, world)
  | document :: rest, tally, world =>
    match rebuildListed svc environments maxChunks document world with
    | (.error error, world) => (.error error, world)
    | (.ok added, world) => rebuildEach rest (tally.add added) world

/-- The documents to rebuild. -/
def listRebuildDocuments (db : Database) (knowledgeBaseId : UUID) (maxDocuments : Int) :
    Except RebuildError (List Document) :=
  match db.knowledgeBases.find? knowledgeBaseId with
  | none => .error (.notReady "The knowledge base does not exist.")
  | some _ =>
    match listForKnowledgeBaseInternal db knowledgeBaseId (maxDocuments + 1) 0 with
    | .error _ => .error (.raised (.expected .sqlAlchemy))
    | .ok documents =>
      if (documents.length : Int) > maxDocuments then
        .error (.limit "The knowledge-base rebuild exceeds max_documents.")
      else .ok documents

/-- `rebuild_knowledge_base`. -/
def rebuildKnowledgeBase (environment : KnowledgeBaseEnvironment) (knowledgeBaseId : UUID)
    (maxDocuments maxChunksPerDocument : Int) (world : RebuildWorld) :
    Except RebuildError RebuildResult × RebuildWorld :=
  if maxDocuments < 1 ∨ maxChunksPerDocument < 1 then (.error .value, world)
  else match world.initializeIndex environment.initialized with
    | (.error raised, world) => (.error (.raised raised), world)
    | (.ok _, world) =>
      match environment.listed with
      | .error raised => (.error (.raised raised), world)
      | .ok db =>
        match listRebuildDocuments db knowledgeBaseId maxDocuments with
        | .error error => (.error error, world)
        | .ok documents =>
          match rebuildEach svc environment.documents maxChunksPerDocument documents ⟨0, 0, []⟩ world with
          | (.error error, world) => (.error error, world)
          | (.ok tally, world) =>
            (.ok ⟨documents.length, tally.indexedDocuments, tally.indexedChunks, tally.failures⟩, world)

end KnowledgeBase
end AgenticRag.Services

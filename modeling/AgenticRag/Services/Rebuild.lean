import AgenticRag.Lib.Machine
import AgenticRag.Lib.OrderBy
import AgenticRag.Services.Pipeline

/-! Rebuilding the vectors of one document from its durable chunks. Each run of `rebuild_document`
is read call by call, so that runs of several processes can take their steps in any order. -/
namespace AgenticRag.Services
open Lib Python Db Ingestion

/-- `list_for_document_internal`. -/
def listForDocumentInternal (db : Database) (documentId : UUID) (limit : Option Int) :
    Except RepositoryError (List DocumentChunk) :=
  let rows := orderBy DocumentChunk.chunkIndex (db.chunksOf documentId)
  match limit with
  | none => .ok rows
  | some limit => if limit < 1 then .error .value else .ok (rows.take limit.toNat)

def vectorStoreRaised : VectorStoreError → Raised
  | .input => .expected .vectorStoreInput
  | .notInitialized => .expected .vectorStoreNotInitialized
  | .configuration => .expected .vectorStoreConfiguration
  | .request => .expected .vectorStoreRequest
  | .response => .expected .vectorStoreResponse

/-- The classes named in `_EXPECTED_REBUILD_FAILURES`. -/
def expectedRebuildFailure : ProcessingError → Bool
  | .embeddingInput | .embeddingRequest | .embeddingResponse | .vectorStoreInput
  | .vectorStoreConfiguration | .vectorStoreNotInitialized | .vectorStoreRequest
  | .vectorStoreResponse => true
  | _ => false

/-- The failure that a rebuild reports for an error of its `try` block. -/
def Raised.rebuildFailure? : Raised → Option Failure
  | .expected error => if expectedRebuildFailure error then some (classifyFailure error) else none
  | _ => none

structure RebuildFailure where
  documentId : UUID
  code : String
  safeMessage : String

structure RebuildResult where
  documentsSeen : Nat
  documentsIndexed : Nat
  chunksIndexed : Nat
  failures : List RebuildFailure

/-- What leaves a rebuild: `ValueError`, `RebuildNotReadyError` or `RebuildLimitError` with its
message, or what one of its calls raises. -/
inductive RebuildError where
  | value
  | notReady (message : String)
  | limit (message : String)
  | raised (raised : Raised)

/-- `_load_rebuild_document`. -/
def loadRebuildDocument (db : Database) (documentId : UUID) (maxChunks : Int) :
    Except RebuildError (Document × List DocumentChunk) :=
  match db.documents.find? documentId with
  | none => .error (.notReady "The document does not exist.")
  | some document =>
    if document.status ≠ .completed then
      .error (.notReady "Only completed documents can be rebuilt.")
    else match listForDocumentInternal db documentId (some (maxChunks + 1)) with
      | .error _ => .error .value
      | .ok chunks =>
        if (chunks.length : Int) > maxChunks then
          .error (.limit "The document rebuild exceeds max_chunks.")
        else if chunks.isEmpty then
          .error (.notReady "The completed document has no durable chunks.")
        else if chunks.any fun chunk => chunk.contentSha256.isNone then
          .error (.notReady "The document contains legacy chunks without AF-2B provenance.")
        else .ok (document, chunks)

/-- One batch of `_records_for_chunks`, with the answer of the embedding model. -/
def recordsForBatch (svc : IngestionProcessingService) (document : Document)
    (batch : List DocumentChunk) (answer : Except EmbeddingError Object) :
    Except Raised (List VectorRecord) := do
  let vectors ← answer.mapError embeddingRaised
  let validated ← (validateEmbeddingBatch (batch.map DocumentChunk.normalizedText) vectors
    svc.embeddingDimension).mapError embeddingRaised
  makeVectorRecords document.knowledgeBaseId batch validated

/-- The call that a run makes next, with what it has made so far. -/
inductive RebuildStage where
  | initializing
  | load
  | embed (document : Document) (records : List VectorRecord) (remaining : List (List DocumentChunk))
  | delete (records : List VectorRecord)
  | upsert (records : List VectorRecord) (indexedChunks : Nat) (remaining : List (List VectorRecord))
  | returned (result : RebuildResult)
  | raised (error : RebuildError)

namespace RebuildStage

/-- The loop of `_records_for_chunks`, then the deletion. -/
def embedding (document : Document) (records : List VectorRecord) :
    List (List DocumentChunk) → RebuildStage
  | [] => .delete records
  | batch :: remaining => .embed document records (batch :: remaining)

/-- The loop over the batches of records, then the result. -/
def upserting (records : List VectorRecord) (indexedChunks : Nat) :
    List (List VectorRecord) → RebuildStage
  | [] => .returned ⟨1, 1, records.length, []⟩
  | batch :: remaining => .upsert records indexedChunks (batch :: remaining)

def indexedChunks : RebuildStage → Nat
  | .upsert _ indexedChunks _ => indexedChunks
  | _ => 0

/-- An expected failure of the `try` block is returned, anything else is raised. -/
def fail (stage : RebuildStage) (documentId : UUID) (raised : Raised) : RebuildStage :=
  match raised.rebuildFailure? with
  | some failure => .returned
      ⟨1, 0, stage.indexedChunks, [⟨documentId, failure.code, failure.safeMessage⟩]⟩
  | none => .raised (.raised raised)

end RebuildStage

/-- A process with its service and the identity of its embedding model. -/
structure RebuildProcess where
  svc : IngestionProcessingService
  modelId : Str

/-- One call of `rebuild_document`. -/
structure RebuildRun where
  process : Nat
  maxChunks : Int
  stage : RebuildStage

/-- The rows, the shared store, which processes have initialized it, and the runs. -/
structure RebuildState where
  db : Database
  store : InMemoryVectorStore
  initialized : Nat → Bool
  runs : Nat → Option RebuildRun

/-- The calls of a run. It can be interrupted before each, and lose the reply of a store call. -/
inductive RebuildAction where
  | initializeCollection
  | load
  | embed (answer : Except EmbeddingError Object)
  | delete
  | upsert
  | interrupt (raised : Raised)
  | loseReply (raised : Raised)

inductive RebuildLabel where
  | change (db : Database)
  | begin (i process : Nat) (maxChunks : Int)
  | act (i : Nat) (action : RebuildAction)

def RebuildState.withStore (s : RebuildState) (store : InMemoryVectorStore) : RebuildState :=
  { s with store }

section Machine
variable (processes : Nat → RebuildProcess) (documentId : UUID)

/-- One step of a run, with the stage it comes to. -/
def rebuildAct (s : RebuildState) (run : RebuildRun) : RebuildAction → Option (RebuildState × RebuildStage)
  | .initializeCollection =>
    match run.stage with
    | .initializing =>
      if s.initialized run.process then some (s, .load)
      else match s.store.initializeCollection (processes run.process).modelId
          (processes run.process).svc.embeddingDimension with
        | .ok store => some ({ s.withStore store with
            initialized := Function.update s.initialized run.process true }, .load)
        | .error error => some (s, .raised (.raised (vectorStoreRaised error)))
    | _ => none
  | .load =>
    match run.stage with
    | .load =>
      match loadRebuildDocument s.db documentId run.maxChunks with
      | .ok (document, chunks) =>
        some (s, .embedding document [] ((processes run.process).svc.batches chunks))
      | .error error => some (s, .raised error)
    | _ => none
  | .embed answer =>
    match run.stage with
    | .embed document records (batch :: remaining) =>
      match recordsForBatch (processes run.process).svc document batch answer with
      | .ok made => some (s, .embedding document (records ++ made) remaining)
      | .error raised => some (s, run.stage.fail documentId raised)
    | _ => none
  | .delete =>
    match run.stage with
    | .delete records =>
      match s.store.deleteByDocument documentId with
      | .ok store =>
        some (s.withStore store, .upserting records 0 ((processes run.process).svc.batches records))
      | .error error => some (s, run.stage.fail documentId (vectorStoreRaised error))
    | _ => none
  | .upsert =>
    match run.stage with
    | .upsert records indexedChunks (batch :: remaining) =>
      match s.store.upsert batch with
      | .ok store =>
        some (s.withStore store, .upserting records (indexedChunks + batch.length) remaining)
      | .error error => some (s, run.stage.fail documentId (vectorStoreRaised error))
    | _ => none
  | .interrupt raised =>
    match run.stage with
    | .initializing | .load => some (s, .raised (.raised raised))
    | .embed _ _ _ | .delete _ | .upsert _ _ _ => some (s, run.stage.fail documentId raised)
    | .returned _ | .raised _ => none
  | .loseReply raised =>
    match run.stage with
    | .delete _ =>
      match s.store.deleteByDocument documentId with
      | .ok store => some (s.withStore store, run.stage.fail documentId raised)
      | .error _ => none
    | .upsert _ _ (batch :: _) =>
      match s.store.upsert batch with
      | .ok store => some (s.withStore store, run.stage.fail documentId raised)
      | .error _ => none
    | _ => none

/-- The rows may change while the document and its chunks stay. -/
def rebuildStep (s : RebuildState) : RebuildLabel → Option RebuildState
  | .change db =>
    if db.documents.find? documentId = s.db.documents.find? documentId ∧
        (db.chunksOf documentId).isPerm (s.db.chunksOf documentId) then some { s with db }
    else none
  | .begin i process maxChunks =>
    match s.runs i with
    | some _ => none
    | none =>
      let stage : RebuildStage := if maxChunks < 1 then .raised .value else .initializing
      some { s with runs := Function.update s.runs i (some ⟨process, maxChunks, stage⟩) }
  | .act i action => do
    let run ← s.runs i
    let (t, stage) ← rebuildAct processes documentId s run action
    return { t with runs := Function.update t.runs i (some { run with stage }) }

def rebuilds : Machine RebuildState RebuildLabel := ⟨rebuildStep processes documentId⟩

end Machine
end AgenticRag.Services

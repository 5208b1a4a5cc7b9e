import AgenticRag.Ingestion.VectorStore
import AgenticRag.Ingestion.OllamaEmbeddings

/-! The Chroma adapter of the vector index: every operation as the requests it posts one
after another, to an HTTP client and a server that are parameters. -/
namespace AgenticRag.Ingestion
open Lib Python

/-- The exceptions that cross the adapter. A `UnicodeEncodeError` is a `ValueError`. -/
inductive ChromaException where
  | vectorStore (error : VectorStoreError)
  | value
  | recursion
  deriving DecidableEq

inductive MetadataValue where
  | text (s : Str)
  | integer (n : Int)
  deriving DecidableEq

/-- The metadata of one stored vector. -/
structure VectorMetadata where
  knowledgeBaseId : Str
  documentId : Str
  chunkId : Str
  chunkIndex : Nat
  contentHash : Str
  deriving DecidableEq

/-- The parallel lists of an upsert. -/
structure UpsertPayload where
  ids : List Str
  embeddings : List EmbeddingVector
  documents : List Str
  metadatas : List VectorMetadata

/-- A request by its path and payload. -/
inductive ChromaRequest where
  | getOrCreate (name : Str) (metadata : List (Str × MetadataValue))
  | upsert (collectionId : Str) (payload : UpsertPayload)
  | deleteWhere (collectionId documentId : Str)
  | deleteIds (collectionId : Str) (ids : List Str)

/-- What `response.json()` raises; `malformed` is its `JSONDecodeError`. -/
inductive BodyFault where
  | malformed | value | recursion
  deriving DecidableEq

inductive ChromaAnswer where
  | timeout
  | httpError
  | response (statusCode : Nat) (body : Except BodyFault Json)

/-- The HTTP client and the server behind it: whether the client can encode a request, which
otherwise raises a `ValueError`, and what comes of posting it. `integral` is the integer
that a number with a fraction or an exponent is equal to, if any. -/
structure ChromaClient (σ : Type) where
  encodes : ChromaRequest → Bool
  integral : Numeral → Option Int
  answer : ChromaRequest → σ → ChromaAnswer × σ

structure ChromaConfig where
  collectionName : Str
  batchSize : Nat
  batchSize_pos : 0 < batchSize

/-- What the adapter remembers. -/
structure ChromaVectorStore where
  collectionId : Option Str
  modelId : Option Str
  dimension : Option Int
  closed : Bool
  deriving DecidableEq

namespace ChromaVectorStore

def created : ChromaVectorStore := ⟨none, none, none, false⟩

variable {σ : Type} (client : ChromaClient σ) (config : ChromaConfig) (store : ChromaVectorStore)

/-- `response.raise_for_status()` lets the response pass. -/
def isSuccess (statusCode : Nat) : Bool := 200 ≤ statusCode && statusCode ≤ 299

/-- `_post_json`. -/
def postJson (request : ChromaRequest) (server : σ) : Except ChromaException Json × σ :=
  if store.closed then (.error (.vectorStore .request), server)
  else if !client.encodes request then (.error .value, server)
  else match client.answer request server with
    | (.timeout, server) => (.error (.vectorStore .request), server)
    | (.httpError, server) => (.error (.vectorStore .request), server)
    | (.response statusCode body, server) =>
      if !isSuccess statusCode then (.error (.vectorStore .request), server)
      else match body with
        | .ok body => (.ok body, server)
        | .error .malformed => (.error (.vectorStore .response), server)
        | .error .value => (.error .value, server)
        | .error .recursion => (.error .recursion, server)

/-- Requests posted in a loop, their bodies not looked at. -/
def postAll : List ChromaRequest → σ → Except ChromaException Unit × σ
  | [], server => (.ok (), server)
  | request :: requests, server =>
    match postJson client store request server with
    | (.error error, server) => (.error error, server)
    | (.ok _, server) => postAll requests server

def expectedMetadata (modelId : Str) (dimension : Int) : List (Str × MetadataValue) :=
  [(str "embedding_model", .text modelId), (str "embedding_dimension", .integer dimension),
    (str "source_of_truth", .text (str "postgresql"))]

/-- `value == n`. -/
def equalsInteger (value : Json) (n : Int) : Bool :=
  match value with
  | .number lexeme =>
    if lexeme.isIntegral then intBase10 lexeme.text = some n else client.integral lexeme = some n
  | .bool b => n = if b then 1 else 0
  | _ => false

/-- `value == expected`. -/
def equalsMetadata (value : Json) : MetadataValue → Bool
  | .text expected =>
    match value with
    | .string s => s = expected
    | _ => false
  | .integer n => equalsInteger client value n

/-- `metadata.get(key) == value` for every expected entry. -/
def metadataMatches (metadata : List (Str × Json)) (expected : List (Str × MetadataValue)) : Bool :=
  expected.all fun p =>
    match lastMember? metadata p.1 with
    | some value => equalsMetadata client value p.2
    | none => false

/-- `existing_dimension is None or existing_dimension == dimension`. -/
def dimensionMatches (existing : Option Json) (dimension : Int) : Bool :=
  match existing with
  | none => true
  | some .null => true
  | some value => equalsInteger client value dimension

/-- The checks of the collection response. -/
def readCollection (modelId : Str) (dimension : Int) (body : Json) : Except ChromaException Str :=
  match body with
  | .object members =>
    match lastMember? members (str "id") with
    | some (.string collectionId) =>
      if UUID.ofText collectionId = none then .error (.vectorStore .response)
      else match lastMember? members (str "name") with
        | some (.string name) =>
          if name ≠ config.collectionName then .error (.vectorStore .response)
          else match lastMember? members (str "metadata") with
            | some (.object metadata) =>
              if !metadataMatches client metadata (expectedMetadata modelId dimension) then
                .error (.vectorStore .configuration)
              else if !dimensionMatches client (lastMember? members (str "dimension")) dimension then
                .error (.vectorStore .configuration)
              else .ok collectionId
            | _ => .error (.vectorStore .configuration)
        | _ => .error (.vectorStore .response)
    | _ => .error (.vectorStore .response)
  | _ => .error (.vectorStore .response)

/-- `initialize`. -/
def initializeCollection (modelId : Str) (dimension : Int) (server : σ) :
    Except ChromaException ChromaVectorStore × σ :=
  match validateInitialization modelId dimension with
  | .error error => (.error (.vectorStore error), server)
  | .ok _ =>
    if store.collectionId ≠ none then
      if store.modelId ≠ some modelId ∨ store.dimension ≠ some dimension then
        (.error (.vectorStore .configuration), server)
      else (.ok store, server)
    else
      match postJson client store
          (.getOrCreate config.collectionName (expectedMetadata modelId dimension)) server with
      | (.error error, server) => (.error error, server)
      | (.ok body, server) =>
        ((readCollection client config modelId dimension body).map fun collectionId =>
          { store with
            collectionId := some collectionId, modelId := some modelId, dimension := some dimension },
        server)

/-- `_required_collection`. -/
def requiredCollection : Except ChromaException (Str × Int) :=
  match store.collectionId, store.dimension with
  | some collectionId, some dimension => .ok (collectionId, dimension)
  | _, _ => .error (.vectorStore .notInitialized)

def vectorMetadata (record : VectorRecord) : VectorMetadata :=
  ⟨UUID.str record.knowledgeBaseId, UUID.str record.documentId, UUID.str record.chunkId,
    record.chunkIndex, record.contentHash⟩

def upsertPayload (batch : List VectorRecord) : UpsertPayload :=
  ⟨batch.map VectorRecord.vectorId, batch.map VectorRecord.embedding,
    batch.map VectorRecord.normalizedText, batch.map vectorMetadata⟩

/-- The requests of `upsert` once the records are validated. -/
def upsertRequests (collectionId : Str) (validated : List VectorRecord) : List ChromaRequest :=
  (slices config.batchSize validated).map fun batch => .upsert collectionId (upsertPayload batch)

def upsert (records : List VectorRecord) (server : σ) : Except ChromaException Unit × σ :=
  match store.requiredCollection with
  | .error error => (.error error, server)
  | .ok (collectionId, dimension) =>
    match validateRecords records dimension with
    | .error error => (.error (.vectorStore error), server)
    | .ok validated => postAll client store (upsertRequests config collectionId validated) server

def deleteByDocument (documentId : UUID) (server : σ) : Except ChromaException Unit × σ :=
  match store.requiredCollection with
  | .error error => (.error error, server)
  | .ok (collectionId, _) =>
    match postJson client store (.deleteWhere collectionId (UUID.str documentId)) server with
    | (.error error, server) => (.error error, server)
    | (.ok _, server) => (.ok (), server)

/-- The requests of `delete_by_chunk_ids`. -/
def deleteRequests (collectionId : Str) (chunkIds : List UUID) : List ChromaRequest :=
  (slices config.batchSize (chunkIds.map stableVectorId)).map fun batch => .deleteIds collectionId batch

def deleteByChunkIds (chunkIds : List UUID) (server : σ) : Except ChromaException Unit × σ :=
  match store.requiredCollection with
  | .error error => (.error error, server)
  | .ok (collectionId, _) => postAll client store (deleteRequests config collectionId chunkIds) server

/-- `close`. -/
def close : ChromaVectorStore := { store with closed := true }

end ChromaVectorStore

end AgenticRag.Ingestion

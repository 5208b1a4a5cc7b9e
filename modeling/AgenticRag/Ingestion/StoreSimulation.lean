import AgenticRag.Ingestion.ChromaVectorStore
import AgenticRag.Lib.Machine
import AgenticRag.Python.IntText

/-! The in-memory vector store and the Chroma adapter under the same calls, against a server
whose operations are those of a map. -/
namespace AgenticRag.Ingestion
open Lib Python

/-- What a server keeps under a vector id. -/
structure StoredVector where
  embedding : EmbeddingVector
  document : Str
  metadata : VectorMetadata
  deriving DecidableEq

abbrev Collection := Str → Option StoredVector

namespace Collection

def empty : Collection := fun _ => none

/-- An upsert pairs the four lists by position. -/
def upsert (c : Collection) (payload : UpsertPayload) : Collection :=
  (payload.ids.zip (payload.embeddings.zip (payload.documents.zip payload.metadatas))).foldl
    (fun m e => Function.update m e.1 (some ⟨e.2.1, e.2.2.1, e.2.2.2⟩)) c

def deleteWhere (c : Collection) (documentId : Str) : Collection :=
  fun k => (c k).filter fun e => e.metadata.documentId != documentId

def deleteIds (c : Collection) (ids : List Str) : Collection :=
  ids.foldl (fun m k => Function.update m k none) c

end Collection

/-- A request as a map operation. -/
def ChromaRequest.applyTo (c : Collection) : ChromaRequest → Collection
  | .getOrCreate _ _ => c
  | .upsert _ payload => c.upsert payload
  | .deleteWhere _ documentId => c.deleteWhere documentId
  | .deleteIds _ ids => c.deleteIds ids

def storedVector (r : VectorRecord) : StoredVector :=
  ⟨r.embedding, r.normalizedText, ChromaVectorStore.vectorMetadata r⟩

namespace VectorIndex
variable {index : VectorIndex}

/-- The records as a server would keep them. -/
def stored (index : VectorIndex) : Collection := fun k => (index k).map storedVector

theorem stored_update {r : VectorRecord} :
    stored (Function.update index r.vectorId (some r)) =
      Function.update index.stored r.vectorId (some (storedVector r)) := by
  funext k
  rw [stored, Function.update_apply, Function.update_apply]
  split <;> rfl

theorem stored_remove {k : Str} :
    stored (Function.update index k none) = Function.update index.stored k none := by
  funext k'
  rw [stored, Function.update_apply, Function.update_apply]
  split <;> rfl

theorem stored_upsert (batch : List VectorRecord) :
    (index.upsert batch).stored = index.stored.upsert (ChromaVectorStore.upsertPayload batch) := by
  induction batch generalizing index with
  | nil => rfl
  | cons r batch ih =>
    rw [upsert, List.foldl_cons, ← upsert, ih, stored_update]
    rfl

theorem stored_deleteByDocument (documentId : UUID) :
    (index.deleteByDocument documentId).stored = index.stored.deleteWhere (UUID.str documentId) := by
  funext k
  have hsame (r : VectorRecord) : (r.documentId != documentId) =
      (UUID.str r.documentId != UUID.str documentId) := by
    rw [Bool.eq_iff_iff, bne_iff_ne, bne_iff_ne, UUID.str_injective.ne_iff]
  simp only [stored, deleteByDocument, Collection.deleteWhere]
  cases index k with
  | none => rfl
  | some r =>
    rw [Option.map_some, Option.filter_some, Option.filter_some, hsame, apply_ite (Option.map storedVector),
      Option.map_some, Option.map_none]
    rfl

theorem stored_deleteByChunkIds (chunkIds : List UUID) :
    (index.deleteByChunkIds chunkIds).stored = index.stored.deleteIds (chunkIds.map stableVectorId) := by
  induction chunkIds generalizing index with
  | nil => rfl
  | cons c chunkIds ih =>
    rw [deleteByChunkIds, List.foldl_cons, ← deleteByChunkIds, ih, stored_remove, List.map_cons,
      Collection.deleteIds, Collection.deleteIds, List.foldl_cons]

end VectorIndex

namespace Collection
variable {c : Collection}

/-- Batches upserted one after another are one upsert. -/
theorem upsert_batches (index : VectorIndex) (batches : List (List VectorRecord)) :
    (batches.map ChromaVectorStore.upsertPayload).foldl upsert index.stored =
      (index.upsert batches.flatten).stored := by
  induction batches generalizing index with
  | nil => rfl
  | cons batch batches ih =>
    rw [List.map_cons, List.foldl_cons, ← VectorIndex.stored_upsert, ih]
    simp only [VectorIndex.upsert, List.flatten_cons, List.foldl_append]

theorem deleteIds_batches (batches : List (List Str)) :
    batches.foldl deleteIds c = c.deleteIds batches.flatten := by
  induction batches generalizing c with
  | nil => rfl
  | cons batch batches ih =>
    rw [List.foldl_cons, ih, deleteIds, deleteIds, deleteIds, List.flatten_cons, List.foldl_append]

end Collection

section Server
variable {σ : Type} (client : ChromaClient σ) (config : ChromaConfig) (collectionId : Str)

/-- Requests that are about the configured collection. -/
def ChromaRequest.Addresses : ChromaRequest → Prop
  | .getOrCreate name _ => name = config.collectionName
  | .upsert id _ => id = collectionId
  | .deleteWhere id _ => id = collectionId
  | .deleteIds id _ => id = collectionId

/-- A collection response with the name and every metadata entry of its request. -/
structure Echoes (metadata : List (Str × MetadataValue)) (members : List (Str × Json)) : Prop where
  id : lastMember? members (str "id") = some (.string collectionId)
  name : lastMember? members (str "name") = some (.string config.collectionName)
  metadata : ∃ echoed, lastMember? members (str "metadata") = some (.object echoed) ∧
    ∀ p ∈ metadata, ∃ value, lastMember? echoed p.1 = some value ∧
      ChromaVectorStore.equalsMetadata client value p.2 = true
  dimension : lastMember? members (str "dimension") = none ∨
    lastMember? members (str "dimension") = some .null

/-- The server answers every request successfully, echoes a collection that holds nothing as
the one asked for, and applies the other requests to the map that it keeps. -/
structure MapServer (stored : σ → Collection) : Prop where
  uuid : UUID.ofText collectionId ≠ none
  answers : ∀ request server, request.Addresses config collectionId → ∃ statusCode body,
    (client.answer request server).1 = .response statusCode (.ok body) ∧
      ChromaVectorStore.isSuccess statusCode = true
  applies : ∀ request server, request.Addresses config collectionId →
    stored (client.answer request server).2 = request.applyTo (stored server)
  echoes : ∀ modelId dimension server statusCode body, stored server = Collection.empty →
    (client.answer (.getOrCreate config.collectionName
      (ChromaVectorStore.expectedMetadata modelId dimension)) server).1 = .response statusCode (.ok body) →
    ∃ members, body = .object members ∧ Echoes client config collectionId
      (ChromaVectorStore.expectedMetadata modelId dimension) members

end Server

/-- The calls of a vector store before it is closed. -/
inductive StoreCall where
  | initializeCollection (modelId : Str) (dimension : Int)
  | upsert (records : List VectorRecord)
  | deleteByDocument (documentId : UUID)
  | deleteByChunkIds (chunkIds : List UUID)

namespace InMemoryVectorStore

def created : InMemoryVectorStore := ⟨none, none, .empty⟩

def attempt (store : InMemoryVectorStore) : StoreCall → Except VectorStoreError InMemoryVectorStore
  | .initializeCollection modelId dimension => store.initializeCollection modelId dimension
  | .upsert records => store.upsert records
  | .deleteByDocument documentId => store.deleteByDocument documentId
  | .deleteByChunkIds chunkIds => store.deleteByChunkIds chunkIds

/-- What a call raises, and the store after it: every check stands before the first assignment. -/
def perform (store : InMemoryVectorStore) (call : StoreCall) :
    Option VectorStoreError × InMemoryVectorStore :=
  match store.attempt call with
  | .ok store => (none, store)
  | .error error => (some error, store)

end InMemoryVectorStore

/-- The adapter and the server behind it. -/
structure ChromaState (σ : Type) where
  store : ChromaVectorStore
  server : σ

namespace ChromaState
variable {σ : Type} (client : ChromaClient σ) (config : ChromaConfig) (state : ChromaState σ)

/-- What a call raises, and the adapter and the server after it. -/
def perform : StoreCall → Option ChromaException × ChromaState σ
  | .initializeCollection modelId dimension =>
    match state.store.initializeCollection client config modelId dimension state.server with
    | (.ok store, server) => (none, ⟨store, server⟩)
    | (.error error, server) => (some error, ⟨state.store, server⟩)
  | .upsert records =>
    let (result, server) := state.store.upsert client config records state.server
    (errorOf result, ⟨state.store, server⟩)
  | .deleteByDocument documentId =>
    let (result, server) := state.store.deleteByDocument client documentId state.server
    (errorOf result, ⟨state.store, server⟩)
  | .deleteByChunkIds chunkIds =>
    let (result, server) := state.store.deleteByChunkIds client config chunkIds state.server
    (errorOf result, ⟨state.store, server⟩)

/-- The requests that a call posts when each of them succeeds. -/
def requests : StoreCall → List ChromaRequest
  | .initializeCollection modelId dimension =>
    if (validateInitialization modelId dimension).toOption = none ∨ state.store.collectionId ≠ none then []
    else [.getOrCreate config.collectionName (ChromaVectorStore.expectedMetadata modelId dimension)]
  | .upsert records =>
    match state.store.requiredCollection with
    | .error _ => []
    | .ok (collectionId, dimension) =>
      match validateRecords records dimension with
      | .error _ => []
      | .ok validated => ChromaVectorStore.upsertRequests config collectionId validated
  | .deleteByDocument documentId =>
    match state.store.requiredCollection with
    | .error _ => []
    | .ok (collectionId, _) => [.deleteWhere collectionId (UUID.str documentId)]
  | .deleteByChunkIds chunkIds =>
    match state.store.requiredCollection with
    | .error _ => []
    | .ok (collectionId, _) => ChromaVectorStore.deleteRequests config collectionId chunkIds

end ChromaState

section Posting
variable {σ : Type} {client : ChromaClient σ} {config : ChromaConfig} {collectionId : Str}
  {stored : σ → Collection} {store : ChromaVectorStore} {request : ChromaRequest}
  {requests : List ChromaRequest} {server : σ}

namespace ChromaVectorStore

theorem postJson_ok (server : σ) (h : MapServer client config collectionId stored) (hopen : store.closed = false)
    (haddress : request.Addresses config collectionId) (hencodes : client.encodes request = true) :
    ∃ statusCode body, (client.answer request server).1 = .response statusCode (.ok body) ∧
      postJson client store request server = (.ok body, (client.answer request server).2) := by
  obtain ⟨statusCode, body, hanswer, hstatus⟩ := h.answers request server haddress
  refine ⟨statusCode, body, hanswer, ?_⟩
  rw [postJson, hopen, hencodes]
  simp only [Bool.false_eq_true, if_false, Bool.not_true]
  generalize client.answer request server = reply at hanswer
  obtain ⟨answer, server'⟩ := reply
  obtain rfl : answer = .response statusCode (.ok body) := hanswer
  simp [hstatus]

theorem postJson_unencodable (hopen : store.closed = false) (hencodes : client.encodes request = false) :
    postJson client store request server = (.error .value, server) := by
  rw [postJson, hopen, hencodes]
  rfl

/-- Requests that can all be encoded are all applied, in their order. -/
theorem postAll_ok (server : σ) (h : MapServer client config collectionId stored) (hopen : store.closed = false)
    (haddress : ∀ r ∈ requests, r.Addresses config collectionId)
    (hencodes : ∀ r ∈ requests, client.encodes r = true) :
    ∃ server', postAll client store requests server = (.ok (), server') ∧
      stored server' = requests.foldl ChromaRequest.applyTo (stored server) := by
  induction requests generalizing server with
  | nil => exact ⟨server, rfl, rfl⟩
  | cons r rest ih =>
    rw [List.forall_mem_cons] at haddress hencodes
    obtain ⟨_, body, _, hpost⟩ := postJson_ok server h hopen haddress.1 hencodes.1
    obtain ⟨server', hrest, hstored⟩ :=
      ih (client.answer r server).2 haddress.2 hencodes.2
    refine ⟨server', ?_, ?_⟩
    · rw [postAll, hpost]
      exact hrest
    · rw [hstored, h.applies r server haddress.1, List.foldl_cons]

/-- The first request that cannot be encoded ends the loop. -/
theorem postAll_unencodable (h : MapServer client config collectionId stored)
    (hopen : store.closed = false) (haddress : ∀ r ∈ requests, r.Addresses config collectionId)
    (hencodes : ¬∀ r ∈ requests, client.encodes r = true) :
    (postAll client store requests server).1 = .error .value := by
  induction requests generalizing server with
  | nil => exact absurd (List.forall_mem_nil _) hencodes
  | cons r rest ih =>
    rw [List.forall_mem_cons] at haddress hencodes
    cases hr : client.encodes r with
    | false => rw [postAll, postJson_unencodable hopen hr]
    | true =>
      obtain ⟨_, body, _, hpost⟩ := postJson_ok server h hopen haddress.1 hr
      rw [postAll, hpost]
      exact ih haddress.2 fun hrest => hencodes ⟨hr, hrest⟩

/-- An echo passes every check of the response. -/
theorem readCollection_ok {modelId : Str} {dimension : Int} {members : List (Str × Json)}
    (huuid : UUID.ofText collectionId ≠ none)
    (h : Echoes client config collectionId (expectedMetadata modelId dimension) members) :
    readCollection client config modelId dimension (.object members) = .ok collectionId := by
  obtain ⟨echoed, hmetadata, hentries⟩ := h.metadata
  have hmatches : metadataMatches client echoed (expectedMetadata modelId dimension) = true := by
    rw [metadataMatches, List.all_eq_true]
    intro p hp
    obtain ⟨value, hvalue, hequal⟩ := hentries p hp
    rw [hvalue]
    exact hequal
  have hdimension : dimensionMatches client (lastMember? members (str "dimension")) dimension = true := by
    rcases h.dimension with hnone | hnull
    · rw [hnone]
      rfl
    · rw [hnull]
      rfl
  simp only [readCollection, h.id, h.name, hmetadata, hmatches, hdimension]
  simp [huuid]

end ChromaVectorStore
end Posting

section Simulation
variable {σ : Type} (client : ChromaClient σ) (config : ChromaConfig) (collectionId : Str)
  (stored : σ → Collection)

/-- The adapter remembers what the in-memory store does, and the server holds its records. -/
structure Simulates (memory : InMemoryVectorStore) (state : ChromaState σ) : Prop where
  opened : state.store.closed = false
  modelId : state.store.modelId = memory.modelId
  dimension : state.store.dimension = memory.dimension
  collectionId : state.store.collectionId = memory.modelId.map fun _ => collectionId
  paired : memory.dimension = none ↔ memory.modelId = none
  unused : memory.modelId = none → memory.records = .empty
  contents : stored state.server = memory.records.stored

/-- The two stores raise the same at a call, which then changes no record, and hold the same
map after it. -/
structure Agrees (memory : InMemoryVectorStore) (state : ChromaState σ) (call : StoreCall) : Prop where
  raises : (state.perform client config call).1 = (memory.perform call).1.map .vectorStore
  unchanged : (memory.perform call).1 ≠ none → (memory.perform call).2.records = memory.records ∧
    stored (state.perform client config call).2.server = stored state.server
  sameMap : stored (state.perform client config call).2.server = (memory.perform call).2.records.stored

variable {client config collectionId stored} {memory memory' : InMemoryVectorStore}
  {state state' : ChromaState σ} {call : StoreCall}

/-- What holds of a call that both stores answer in the same way. -/
def Matched (client : ChromaClient σ) (config : ChromaConfig) (collectionId : Str)
    (stored : σ → Collection) (memory : InMemoryVectorStore) (state : ChromaState σ)
    (call : StoreCall) : Prop :=
  Agrees client config stored memory state call ∧
    Simulates collectionId stored (memory.perform call).2 (state.perform client config call).2

theorem Simulates.raised {e : VectorStoreError} (h : Simulates collectionId stored memory state)
    (hmemory : memory.attempt call = .error e)
    (hstate : state.perform client config call = (some (.vectorStore e), state)) :
    Matched client config collectionId stored memory state call := by
  have hperform : memory.perform call = (some e, memory) := by
    rw [InMemoryVectorStore.perform, hmemory]
  refine ⟨⟨?_, fun _ => ?_, ?_⟩, ?_⟩
  · rw [hstate, hperform]
    rfl
  · rw [hstate, hperform]
    exact ⟨rfl, rfl⟩
  · rw [hstate, hperform]
    exact h.contents
  · rw [hstate, hperform]
    exact h

theorem Simulates.returned (h : Simulates collectionId stored memory' state')
    (hmemory : memory.attempt call = .ok memory')
    (hstate : state.perform client config call = (none, state')) :
    Matched client config collectionId stored memory state call := by
  have hperform : memory.perform call = (none, memory') := by
    rw [InMemoryVectorStore.perform, hmemory]
  refine ⟨⟨?_, fun hraised => ?_, ?_⟩, ?_⟩
  · rw [hstate, hperform]
    rfl
  · rw [hperform] at hraised
    exact absurd rfl hraised
  · rw [hstate, hperform]
    exact h.contents
  · rw [hstate, hperform]
    exact h

/-- Neither store is initialized, or both are, for the same dimension. -/
theorem Simulates.required (h : Simulates collectionId stored memory state) :
    memory.requiredDimension = .error .notInitialized ∧
        state.store.requiredCollection = .error (.vectorStore .notInitialized) ∨
      ∃ dimension, memory.requiredDimension = .ok dimension ∧
        state.store.requiredCollection = .ok (collectionId, dimension) := by
  cases hdimension : memory.dimension with
  | none =>
    refine .inl ⟨by rw [InMemoryVectorStore.requiredDimension, hdimension], ?_⟩
    rw [ChromaVectorStore.requiredCollection, h.collectionId, h.paired.mp hdimension]
    rfl
  | some dimension =>
    refine .inr ⟨dimension, by rw [InMemoryVectorStore.requiredDimension, hdimension], ?_⟩
    have hmodel : memory.modelId ≠ none := fun hnone => by
      cases hdimension.symm.trans (h.paired.mpr hnone)
    obtain ⟨modelId, hmodelId⟩ := Option.ne_none_iff_exists'.mp hmodel
    rw [ChromaVectorStore.requiredCollection, h.collectionId, h.dimension, hmodelId, hdimension]
    rfl

/-- After the records have changed on both sides. -/
theorem Simulates.withRecords {records : VectorIndex} {server : σ} (h : Simulates collectionId stored memory state)
    (hmodel : memory.modelId ≠ none) (hstored : stored server = records.stored) :
    Simulates collectionId stored { memory with records := records } ⟨state.store, server⟩ :=
  { h with unused := fun hnone => absurd hnone hmodel, contents := hstored }

theorem Simulates.initialized {dimension : Int} (h : Simulates collectionId stored memory state)
    (hdimension : memory.requiredDimension = .ok dimension) : memory.modelId ≠ none := by
  intro hnone
  rw [InMemoryVectorStore.requiredDimension, h.paired.mpr hnone] at hdimension
  cases hdimension

theorem addresses_upsertRequests {records : List VectorRecord} :
    ∀ r ∈ ChromaVectorStore.upsertRequests config collectionId records,
      r.Addresses config collectionId := by
  intro r hr
  obtain ⟨batch, _, rfl⟩ := List.mem_map.mp hr
  rfl

theorem addresses_deleteRequests {chunkIds : List UUID} :
    ∀ r ∈ ChromaVectorStore.deleteRequests config collectionId chunkIds,
      r.Addresses config collectionId := by
  intro r hr
  obtain ⟨batch, _, rfl⟩ := List.mem_map.mp hr
  rfl

/-- The batches of an upsert together put the records in. -/
theorem applyTo_upsertRequests (index : VectorIndex) (records : List VectorRecord) :
    (ChromaVectorStore.upsertRequests config collectionId records).foldl ChromaRequest.applyTo index.stored =
      (index.upsert records).stored := by
  rw [ChromaVectorStore.upsertRequests, List.foldl_map]
  have hbatches := Collection.upsert_batches index (slices config.batchSize records)
  rw [slices_flatten config.batchSize_pos, List.foldl_map] at hbatches
  exact hbatches

theorem applyTo_deleteRequests (index : VectorIndex) (chunkIds : List UUID) :
    (ChromaVectorStore.deleteRequests config collectionId chunkIds).foldl ChromaRequest.applyTo index.stored =
      (index.deleteByChunkIds chunkIds).stored := by
  rw [ChromaVectorStore.deleteRequests, List.foldl_map, VectorIndex.stored_deleteByChunkIds]
  have hbatches := Collection.deleteIds_batches (c := index.stored)
    (slices config.batchSize (chunkIds.map stableVectorId))
  rw [slices_flatten config.batchSize_pos] at hbatches
  exact hbatches

/-- The client can encode every request that the call posts. -/
def Encodes (client : ChromaClient σ) (config : ChromaConfig) (state : ChromaState σ)
    (call : StoreCall) : Prop := ∀ r ∈ state.requests config call, client.encodes r = true

/-- The stores agree at a call with encodable requests; otherwise the adapter raises a `ValueError`. -/
def Decided (client : ChromaClient σ) (config : ChromaConfig) (collectionId : Str)
    (stored : σ → Collection) (memory : InMemoryVectorStore) (state : ChromaState σ)
    (call : StoreCall) : Prop :=
  (Encodes client config state call → Matched client config collectionId stored memory state call) ∧
    (¬Encodes client config state call → (state.perform client config call).1 = some .value)

/-- A call that posts nothing is encodable. -/
theorem decided_of_silent (hrequests : state.requests config call = [])
    (h : Matched client config collectionId stored memory state call) :
    Decided client config collectionId stored memory state call := by
  refine ⟨fun _ => h, fun hencodes => absurd ?_ hencodes⟩
  intro r hr
  rw [hrequests] at hr
  cases hr

/-- A call of an initialized adapter that posts requests, which together do what the call does to
the records. -/
theorem Simulates.decided_posting {requests : List ChromaRequest} {records : VectorIndex}
    (hserver : MapServer client config collectionId stored)
    (h : Simulates collectionId stored memory state) (hmodel : memory.modelId ≠ none)
    (hmemory : memory.attempt call = .ok { memory with records := records })
    (hrequests : state.requests config call = requests)
    (hperform : state.perform client config call =
      ((errorOf (ChromaVectorStore.postAll client state.store requests state.server).1),
        ⟨state.store, (ChromaVectorStore.postAll client state.store requests state.server).2⟩))
    (haddresses : ∀ r ∈ requests, r.Addresses config collectionId)
    (happly : requests.foldl ChromaRequest.applyTo memory.records.stored = records.stored) :
    Decided client config collectionId stored memory state call := by
  rw [Decided, Encodes, hrequests]
  constructor
  · intro hencodes
    obtain ⟨server, hpost, hstored⟩ := ChromaVectorStore.postAll_ok state.server hserver
      h.opened haddresses hencodes
    rw [h.contents, happly] at hstored
    refine (h.withRecords hmodel hstored).returned hmemory ?_
    rw [hperform, hpost]
    rfl
  · intro hencodes
    rw [hperform]
    exact errorOf_eq_some.mpr
      (ChromaVectorStore.postAll_unencodable hserver h.opened haddresses hencodes)

theorem Simulates.decided_upsert (hserver : MapServer client config collectionId stored)
    (h : Simulates collectionId stored memory state) (records : List VectorRecord) :
    Decided client config collectionId stored memory state (.upsert records) := by
  rcases h.required with ⟨hmemory, hstore⟩ | ⟨dimension, hmemory, hstore⟩
  · refine decided_of_silent ?_ (h.raised (e := .notInitialized) ?_ ?_)
    · rw [ChromaState.requests, hstore]
    · rw [InMemoryVectorStore.attempt, InMemoryVectorStore.upsert, hmemory]
      rfl
    · rw [ChromaState.perform, ChromaVectorStore.upsert, hstore]
      rfl
  cases hvalid : validateRecords records dimension with
  | error e =>
    refine decided_of_silent ?_ (h.raised (e := e) ?_ ?_)
    · rw [ChromaState.requests, hstore]
      simp only [hvalid]
    · rw [InMemoryVectorStore.attempt, InMemoryVectorStore.upsert, hmemory]
      change (validateRecords records dimension >>= _) = _
      rw [hvalid]
      rfl
    · rw [ChromaState.perform, ChromaVectorStore.upsert, hstore]
      simp only [hvalid]
      rfl
  | ok validated =>
    have hsame : validated = records := (validateRecords_eq_ok.mp hvalid).1
    refine h.decided_posting hserver (h.initialized hmemory) ?_ ?_ ?_ addresses_upsertRequests
      (applyTo_upsertRequests memory.records records)
    · rw [InMemoryVectorStore.attempt, InMemoryVectorStore.upsert, hmemory]
      change (validateRecords records dimension >>= _) = _
      rw [hvalid, hsame]
      rfl
    · rw [ChromaState.requests, hstore]
      simp only [hvalid, hsame]
    · rw [ChromaState.perform, ChromaVectorStore.upsert, hstore]
      simp only [hvalid, hsame]

theorem Simulates.decided_deleteByChunkIds (hserver : MapServer client config collectionId stored)
    (h : Simulates collectionId stored memory state) (chunkIds : List UUID) :
    Decided client config collectionId stored memory state (.deleteByChunkIds chunkIds) := by
  rcases h.required with ⟨hmemory, hstore⟩ | ⟨dimension, hmemory, hstore⟩
  · refine decided_of_silent ?_ (h.raised (e := .notInitialized) ?_ ?_)
    · rw [ChromaState.requests, hstore]
    · rw [InMemoryVectorStore.attempt, InMemoryVectorStore.deleteByChunkIds, hmemory]
      rfl
    · rw [ChromaState.perform, ChromaVectorStore.deleteByChunkIds, hstore]
      rfl
  refine h.decided_posting hserver (h.initialized hmemory) ?_ ?_ ?_ addresses_deleteRequests
    (applyTo_deleteRequests memory.records chunkIds)
  · rw [InMemoryVectorStore.attempt, InMemoryVectorStore.deleteByChunkIds, hmemory]
    rfl
  · rw [ChromaState.requests, hstore]
  · rw [ChromaState.perform, ChromaVectorStore.deleteByChunkIds, hstore]

theorem Simulates.decided_deleteByDocument (hserver : MapServer client config collectionId stored)
    (h : Simulates collectionId stored memory state) (documentId : UUID) :
    Decided client config collectionId stored memory state (.deleteByDocument documentId) := by
  rcases h.required with ⟨hmemory, hstore⟩ | ⟨dimension, hmemory, hstore⟩
  · refine decided_of_silent ?_ (h.raised (e := .notInitialized) ?_ ?_)
    · rw [ChromaState.requests, hstore]
    · rw [InMemoryVectorStore.attempt, InMemoryVectorStore.deleteByDocument, hmemory]
      rfl
    · rw [ChromaState.perform, ChromaVectorStore.deleteByDocument, hstore]
      rfl
  have hrequests : state.requests config (.deleteByDocument documentId) =
      [.deleteWhere collectionId (UUID.str documentId)] := by
    rw [ChromaState.requests, hstore]
  rw [Decided, Encodes, hrequests, List.forall_mem_singleton]
  constructor
  · intro hencodes
    have haddress : (ChromaRequest.deleteWhere collectionId (UUID.str documentId)).Addresses config
        collectionId := rfl
    obtain ⟨_, body, _, hpost⟩ := ChromaVectorStore.postJson_ok state.server hserver
      h.opened haddress hencodes
    have hstored := hserver.applies _ state.server haddress
    rw [ChromaRequest.applyTo, h.contents, ← VectorIndex.stored_deleteByDocument] at hstored
    refine (h.withRecords (h.initialized hmemory) hstored).returned ?_ ?_
    · rw [InMemoryVectorStore.attempt, InMemoryVectorStore.deleteByDocument, hmemory]
      rfl
    · rw [ChromaState.perform, ChromaVectorStore.deleteByDocument, hstore]
      simp only [hpost]
      rfl
  · intro hencodes
    rw [ChromaState.perform, ChromaVectorStore.deleteByDocument, hstore]
    simp only [ChromaVectorStore.postJson_unencodable h.opened (Bool.not_eq_true _ ▸ hencodes)]
    rfl

/-- The first initialization posts one request, whose echo passes. -/
theorem Simulates.decided_first (hserver : MapServer client config collectionId stored)
    (h : Simulates collectionId stored memory state) (hmodel : memory.modelId = none)
    {modelId : Str} {dimension : Int} (hvalid : validateInitialization modelId dimension = .ok ()) :
    Decided client config collectionId stored memory state (.initializeCollection modelId dimension) := by
  have hcollection : ¬state.store.collectionId ≠ none := by
    rw [not_not, h.collectionId, hmodel]
    rfl
  have haddress : (ChromaRequest.getOrCreate config.collectionName
      (ChromaVectorStore.expectedMetadata modelId dimension)).Addresses config collectionId := rfl
  have hrequests : state.requests config (.initializeCollection modelId dimension) =
      [.getOrCreate config.collectionName (ChromaVectorStore.expectedMetadata modelId dimension)] := by
    rw [ChromaState.requests, if_neg]
    rw [hvalid]
    rintro (hnone | hsome)
    · cases hnone
    · exact hcollection hsome
  rw [Decided, Encodes, hrequests, List.forall_mem_singleton]
  constructor
  · intro hencodes
    obtain ⟨_, body, hanswer, hpost⟩ := ChromaVectorStore.postJson_ok state.server hserver
      h.opened haddress hencodes
    have hempty : stored state.server = Collection.empty := by
      rw [h.contents, h.unused hmodel]
      rfl
    obtain ⟨members, rfl, hechoes⟩ := hserver.echoes _ _ _ _ _ hempty hanswer
    have hread := ChromaVectorStore.readCollection_ok hserver.uuid hechoes
    have hstored := hserver.applies _ state.server haddress
    rw [ChromaRequest.applyTo, h.contents] at hstored
    have hafter : Simulates collectionId stored
        { memory with modelId := some modelId, dimension := some dimension }
        ⟨{ state.store with
            collectionId := some collectionId, modelId := some modelId, dimension := some dimension },
          (client.answer (.getOrCreate config.collectionName
            (ChromaVectorStore.expectedMetadata modelId dimension)) state.server).2⟩ :=
      { opened := h.opened, modelId := rfl, dimension := rfl, collectionId := rfl
        paired := by simp
        unused := by simp
        contents := hstored }
    refine hafter.returned ?_ ?_
    · rw [InMemoryVectorStore.attempt, InMemoryVectorStore.initializeCollection, hvalid, hmodel]
      rfl
    · rw [ChromaState.perform, ChromaVectorStore.initializeCollection, hvalid]
      simp only [if_neg hcollection, hpost, hread]
      rfl
  · intro hencodes
    rw [ChromaState.perform, ChromaVectorStore.initializeCollection, hvalid]
    simp only [if_neg hcollection,
      ChromaVectorStore.postJson_unencodable h.opened (Bool.not_eq_true _ ▸ hencodes)]

theorem Simulates.decided_initializeCollection (hserver : MapServer client config collectionId stored)
    (h : Simulates collectionId stored memory state) (modelId : Str) (dimension : Int) :
    Decided client config collectionId stored memory state (.initializeCollection modelId dimension) := by
  cases hvalid : validateInitialization modelId dimension with
  | error e =>
    refine decided_of_silent ?_ (h.raised (e := e) ?_ ?_)
    · simp [ChromaState.requests, hvalid, Except.toOption]
    · rw [InMemoryVectorStore.attempt, InMemoryVectorStore.initializeCollection, hvalid]
      rfl
    · rw [ChromaState.perform, ChromaVectorStore.initializeCollection, hvalid]
  | ok u =>
    cases hmodel : memory.modelId with
    | some initialized =>
      have hcollection : state.store.collectionId ≠ none := by
        rw [h.collectionId, hmodel]
        exact Option.some_ne_none _
      have hsilent : state.requests config (.initializeCollection modelId dimension) = [] := by
        rw [ChromaState.requests, if_pos (.inr hcollection)]
      by_cases hsame : initialized ≠ modelId ∨ memory.dimension ≠ some dimension
      · have hother : state.store.modelId ≠ some modelId ∨ state.store.dimension ≠ some dimension := by
          rw [h.modelId, h.dimension, hmodel]
          exact hsame.imp_left fun hne he => hne (Option.some.inj he)
        refine decided_of_silent hsilent (h.raised (e := .configuration) ?_ ?_)
        · rw [InMemoryVectorStore.attempt, InMemoryVectorStore.initializeCollection, hvalid, hmodel]
          simp [hsame, bind, Except.bind, throw, throwThe, MonadExceptOf.throw]
        · rw [ChromaState.perform, ChromaVectorStore.initializeCollection, hvalid]
          simp only [if_pos hcollection, if_pos hother]
      · have hother : ¬(state.store.modelId ≠ some modelId ∨ state.store.dimension ≠ some dimension) := by
          rw [h.modelId, h.dimension, hmodel]
          exact fun hor => hsame (hor.imp_left fun hne he => hne (congrArg some he))
        refine decided_of_silent hsilent (h.returned ?_ ?_)
        · rw [InMemoryVectorStore.attempt, InMemoryVectorStore.initializeCollection, hvalid, hmodel]
          simp [hsame, bind, Except.bind, pure, Except.pure]
        · rw [ChromaState.perform, ChromaVectorStore.initializeCollection, hvalid]
          simp only [if_pos hcollection, if_neg hother]
    | none => exact h.decided_first hserver hmodel hvalid

theorem Simulates.decided (hserver : MapServer client config collectionId stored)
    (h : Simulates collectionId stored memory state) (call : StoreCall) :
    Decided client config collectionId stored memory state call := by
  cases call with
  | initializeCollection modelId dimension => exact h.decided_initializeCollection hserver modelId dimension
  | upsert records => exact h.decided_upsert hserver records
  | deleteByDocument documentId => exact h.decided_deleteByDocument hserver documentId
  | deleteByChunkIds chunkIds => exact h.decided_deleteByChunkIds hserver chunkIds

/-- The in-memory store raises none but its own errors. -/
theorem Simulates.agrees_iff (hserver : MapServer client config collectionId stored)
    (h : Simulates collectionId stored memory state) (call : StoreCall) :
    Agrees client config stored memory state call ↔ Encodes client config state call := by
  constructor
  · intro hagrees
    by_contra hencodes
    have hraises := hagrees.raises
    rw [(h.decided hserver call).2 hencodes] at hraises
    obtain ⟨e, _, he⟩ := Option.map_eq_some_iff.mp hraises.symm
    cases he
  · exact fun hencodes => ((h.decided hserver call).1 hencodes).1

end Simulation

section MapClient

/-- The strings of a request body. -/
def ChromaRequest.texts : ChromaRequest → List Str
  | .getOrCreate name metadata => name :: metadata.flatMap fun p =>
      match p.2 with
      | .text s => [p.1, s]
      | .integer _ => [p.1]
  | .upsert _ payload => payload.ids ++ payload.documents ++ payload.metadatas.flatMap fun m =>
      [m.knowledgeBaseId, m.documentId, m.chunkId, m.contentHash]
  | .deleteWhere _ documentId => [documentId]
  | .deleteIds _ ids => ids

def MetadataValue.json : MetadataValue → Json
  | .text s => .string s
  | .integer n => .number (.ofInt n)

/-- A server that is one map, behind a client that encodes strings as strict UTF-8. -/
def mapClient (collectionId : Str) : ChromaClient Collection where
  encodes request := request.texts.all fun s => !s.any isSurrogate
  integral _ := none
  answer
    | .getOrCreate name metadata, c =>
      (.response 200 (.ok (.object
        [(str "id", .string collectionId), (str "name", .string name),
          (str "metadata", .object (metadata.map fun p => (p.1, p.2.json))),
          (str "dimension", .null)])), c)
    | request, c => (.response 200 (.ok (.object [])), request.applyTo c)

variable {config : ChromaConfig} {collectionId : Str}

theorem mapClient_echoes (modelId : Str) (dimension : Int) :
    Echoes (mapClient collectionId) config collectionId
      (ChromaVectorStore.expectedMetadata modelId dimension)
      [(str "id", .string collectionId), (str "name", .string config.collectionName),
        (str "metadata", .object ((ChromaVectorStore.expectedMetadata modelId dimension).map
          fun p => (p.1, p.2.json))),
        (str "dimension", .null)] where
  id := rfl
  name := rfl
  metadata := by
    refine ⟨_, rfl, ?_⟩
    simp only [ChromaVectorStore.expectedMetadata, List.forall_mem_cons]
    refine ⟨⟨.string modelId, rfl, ?_⟩, ⟨.number (.ofInt dimension), rfl, ?_⟩,
      ⟨.string (str "postgresql"), rfl, ?_⟩, List.forall_mem_nil _⟩
    · simp [ChromaVectorStore.equalsMetadata]
    · simp only [ChromaVectorStore.equalsMetadata, ChromaVectorStore.equalsInteger,
        Numeral.ofInt_isIntegral, if_true, decide_eq_true_eq]
      exact intBase10_intStr dimension
    · simp [ChromaVectorStore.equalsMetadata]
  dimension := .inr rfl

theorem mapClient_mapServer (huuid : UUID.ofText collectionId ≠ none) :
    MapServer (mapClient collectionId) config collectionId id where
  uuid := huuid
  answers request server _ := by
    cases request with
    | getOrCreate name metadata => exact ⟨200, _, rfl, rfl⟩
    | upsert id payload => exact ⟨200, _, rfl, rfl⟩
    | deleteWhere id documentId => exact ⟨200, _, rfl, rfl⟩
    | deleteIds id ids => exact ⟨200, _, rfl, rfl⟩
  applies request server _ := by
    cases request with
    | getOrCreate name metadata => rfl
    | upsert id payload => rfl
    | deleteWhere id documentId => rfl
    | deleteIds id ids => rfl
  echoes modelId dimension server statusCode body _ hanswer := by
    obtain ⟨-, hbody⟩ := ChromaAnswer.response.inj hanswer
    obtain rfl := Except.ok.inj hbody
    exact ⟨_, rfl, mapClient_echoes modelId dimension⟩

end MapClient

/-- The two stores under the same calls. -/
def bothStores {σ : Type} (client : ChromaClient σ) (config : ChromaConfig) :
    Machine (InMemoryVectorStore × ChromaState σ) StoreCall where
  step s call := some ((s.1.perform call).2, (s.2.perform client config call).2)

/-- For every sequence of calls: the stores agree at each of them exactly when the client can
encode each request that they post. -/
theorem in_memory_models_chroma {σ : Type} (client : ChromaClient σ) (config : ChromaConfig)
    (collectionId : Str) (stored : σ → Collection)
    (hserver : MapServer client config collectionId stored) (server : σ)
    (hempty : stored server = Collection.empty) (calls : List StoreCall) :
    (bothStores client config).Allowed (fun s call => Agrees client config stored s.1 s.2 call)
        (.created, ⟨.created, server⟩) calls ↔
      (bothStores client config).Allowed (fun s call => Encodes client config s.2 call)
        (.created, ⟨.created, server⟩) calls := by
  refine Machine.allowed_congr (I := fun s => Simulates collectionId stored s.1 s.2) ?_ ?_ ?_
  · exact fun s call h => h.agrees_iff hserver call
  · intro s call s' h hencodes hstep
    obtain rfl := Option.some.inj hstep
    exact ((h.decided hserver call).1 hencodes).2
  · exact { opened := rfl, modelId := rfl, dimension := rfl, collectionId := rfl
            paired := by simp [InMemoryVectorStore.created], unused := fun _ => rfl, contents := hempty }

section Example

def chunkCollection : Str := str "4f145893-c6bf-4768-9900-8cd933bcc94d"

/-- One more than `n` records make a batch. -/
def chunkConfig (n : Nat) : ChromaConfig := ⟨str "agentforge_chunks", n + 1, Nat.succ_pos n⟩

/-- A record of dimension 1. -/
def chunkRecord (chunkId documentId : UUID) (text : Str) (h : strip text ≠ []) : VectorRecord where
  vectorId := str "chunk:" ++ UUID.str chunkId
  embedding := [⟨0⟩]
  knowledgeBaseId := 7
  documentId := documentId
  chunkId := chunkId
  chunkIndex := 0
  normalizedText := text
  contentHash := List.replicate 64 (ord 'a')
  vectorId_eq := rfl
  text_nonblank := h
  contentHash_hex := by decide
  embedding_nonempty := List.cons_ne_nil _ _
  embedding_finite := by decide

def firstChunk : VectorRecord := chunkRecord 1 20 (str "first") (by decide)
def secondChunk : VectorRecord := chunkRecord 2 20 (str "second") (by decide)
def otherChunk : VectorRecord := chunkRecord 3 21 (str "other") (by decide)

/-- Its text holds an unpaired surrogate. -/
def unpairedChunk : VectorRecord := chunkRecord 4 21 [Fin.ofNat _ 0xD800] (by decide)

def chunkCalls : List StoreCall :=
  [.upsert [firstChunk], .initializeCollection (str "embed-model") 1, .upsert [firstChunk, secondChunk, otherChunk],
    .upsert [], .upsert [otherChunk, firstChunk, otherChunk], .initializeCollection (str "embed-model") 2,
    .deleteByChunkIds [2, 9, 2], .deleteByDocument 21, .initializeCollection (str " ") 1]

instance decidableEncodes {σ : Type} (client : ChromaClient σ) (config : ChromaConfig)
    (state : ChromaState σ) (call : StoreCall) : Decidable (Encodes client config state call) :=
  inferInstanceAs (Decidable (∀ r ∈ state.requests config call, client.encodes r = true))

theorem in_memory_models_chroma_example :
    (bothStores (mapClient chunkCollection) (chunkConfig 1)).Allowed
      (fun s call => Agrees (mapClient chunkCollection) (chunkConfig 1) id s.1 s.2 call)
      (.created, ⟨.created, Collection.empty⟩) chunkCalls :=
  (in_memory_models_chroma (mapClient chunkCollection) (chunkConfig 1) chunkCollection id
    (mapClient_mapServer (by decide +kernel)) Collection.empty rfl chunkCalls).mpr (by decide +kernel)

/-- A record whose text cannot be encoded is stored in memory, while the adapter raises a
`UnicodeEncodeError`. -/
theorem in_memory_models_chroma_fails :
    MapServer (mapClient chunkCollection) (chunkConfig 0) chunkCollection id ∧
      ¬(bothStores (mapClient chunkCollection) (chunkConfig 0)).Allowed
        (fun s call => Agrees (mapClient chunkCollection) (chunkConfig 0) id s.1 s.2 call)
        (.created, ⟨.created, Collection.empty⟩)
        [.initializeCollection (str "embed-model") 1, .upsert [firstChunk, unpairedChunk]] := by
  refine ⟨mapClient_mapServer (by decide +kernel), fun h => ?_⟩
  have hraises := (h.2 _ rfl).1.raises
  revert hraises
  decide +kernel

end Example

end AgenticRag.Ingestion

import AgenticRag.Lib.Results
import AgenticRag.Ingestion.Embeddings
import AgenticRag.Db.Models
import Mathlib.Logic.Function.Basic

/-! Vector records and the index they are kept in, keyed by vector id. -/
namespace AgenticRag.Ingestion
open Lib Python Db

inductive VectorStoreError where
  | input | notInitialized | configuration | request | response
  deriving DecidableEq

/-- `f"chunk:{chunk_id}"`. -/
def stableVectorId (chunkId : UUID) : Str := str "chunk:" ++ UUID.str chunkId

theorem stableVectorId_injective : Function.Injective stableVectorId := by
  intro a b h
  exact UUID.str_injective (List.append_cancel_left h)

/-- A record that passed `__post_init__`. -/
structure VectorRecord where
  vectorId : Str
  embedding : EmbeddingVector
  knowledgeBaseId : UUID
  documentId : UUID
  chunkId : UUID
  chunkIndex : Nat
  normalizedText : Str
  contentHash : Str
  vectorId_eq : vectorId = stableVectorId chunkId
  text_nonblank : strip normalizedText ≠ []
  contentHash_hex : matchesSha256 contentHash = true
  embedding_nonempty : embedding ≠ []
  embedding_finite : ∀ x ∈ embedding, x.isFinite = true

/-- `VectorRecord(...)`: its checks in order. A negative index has no natural number. -/
def VectorRecord.mk? (vectorId : Str) (embedding : EmbeddingVector)
    (knowledgeBaseId documentId chunkId : UUID) (chunkIndex : Nat)
    (normalizedText contentHash : Str) : Except VectorStoreError VectorRecord :=
  if hid : vectorId = stableVectorId chunkId then
    if htext : strip normalizedText ≠ [] then
      if hhash : matchesSha256 contentHash = true then
        if hne : embedding ≠ [] then
          if hfin : ∀ x ∈ embedding, x.isFinite = true then
            .ok ⟨vectorId, embedding, knowledgeBaseId, documentId, chunkId, chunkIndex,
              normalizedText, contentHash, hid, htext, hhash, hne, hfin⟩
          else .error .input
        else .error .input
      else .error .input
    else .error .input
  else .error .input

theorem VectorRecord.mk?_ok {embedding : EmbeddingVector} {knowledgeBaseId documentId chunkId : UUID}
    {chunkIndex : Nat} {normalizedText contentHash : Str} (htext : strip normalizedText ≠ [])
    (hhash : matchesSha256 contentHash = true) (hne : embedding ≠ [])
    (hfin : ∀ x ∈ embedding, x.isFinite = true) :
    VectorRecord.mk? (stableVectorId chunkId) embedding knowledgeBaseId documentId chunkId chunkIndex
        normalizedText contentHash =
      .ok ⟨stableVectorId chunkId, embedding, knowledgeBaseId, documentId, chunkId, chunkIndex,
        normalizedText, contentHash, rfl, htext, hhash, hne, hfin⟩ := by
  rw [VectorRecord.mk?, dif_pos rfl, dif_pos htext, dif_pos hhash, dif_pos hne, dif_pos hfin]

theorem VectorRecord.mk?_fields {vectorId : Str} {embedding : EmbeddingVector}
    {knowledgeBaseId documentId chunkId : UUID} {chunkIndex : Nat} {normalizedText contentHash : Str}
    {r : VectorRecord} (h : VectorRecord.mk? vectorId embedding knowledgeBaseId documentId chunkId
      chunkIndex normalizedText contentHash = .ok r) :
    r.vectorId = vectorId ∧ r.embedding = embedding ∧ r.knowledgeBaseId = knowledgeBaseId ∧
      r.documentId = documentId ∧ r.chunkId = chunkId ∧ r.chunkIndex = chunkIndex ∧
      r.normalizedText = normalizedText ∧ r.contentHash = contentHash := by
  unfold VectorRecord.mk? at h
  repeat' split at h
  · obtain rfl := Except.ok.inj h
    exact ⟨rfl, rfl, rfl, rfl, rfl, rfl, rfl, rfl⟩
  all_goals cases h

/-- The loop of `_validate_records`; `seen` holds the ids before the current record. -/
def validateRecordsFrom (expectedDimension : Int) (seen : List Str) :
    List VectorRecord → Except VectorStoreError Unit
  | [] => .ok ()
  | record :: rest =>
    if record.vectorId ∈ seen then .error .input
    else if record.embedding.length ≠ expectedDimension then .error .input
    else validateRecordsFrom expectedDimension (record.vectorId :: seen) rest

/-- `_validate_records`. -/
def validateRecords (records : List VectorRecord) (expectedDimension : Int) :
    Except VectorStoreError (List VectorRecord) :=
  (validateRecordsFrom expectedDimension [] records).map fun _ => records

private theorem validateRecordsFrom_ok (d : Int) (seen : List Str) (records : List VectorRecord) :
    validateRecordsFrom d seen records = .ok () ↔
      (records.map VectorRecord.vectorId).Nodup ∧ (∀ r ∈ records, r.vectorId ∉ seen) ∧
        ∀ r ∈ records, r.embedding.length = d := by
  induction records generalizing seen with
  | nil => simp [validateRecordsFrom]
  | cons r rs ih =>
    rw [validateRecordsFrom]
    by_cases hs : r.vectorId ∈ seen
    · simp [hs]
    by_cases hd : (r.embedding.length : Int) = d
    · rw [if_neg hs, if_neg (not_not.mpr hd), ih]
      simp only [List.map_cons, List.nodup_cons, List.mem_map, List.mem_cons, forall_eq_or_imp]
      constructor
      · rintro ⟨hn, hm, hl⟩
        refine ⟨⟨?_, hn⟩, ⟨hs, fun x hx => fun h => hm x hx (.inr h)⟩, hd, hl⟩
        rintro ⟨x, hx, he⟩
        exact hm x hx (.inl he)
      · rintro ⟨⟨hr, hn⟩, ⟨_, hm⟩, _, hl⟩
        refine ⟨hn, fun x hx => ?_, hl⟩
        rintro (he | h)
        · exact hr ⟨x, hx, he⟩
        · exact hm x hx h
    · simp [hs, hd]

/-- A batch is accepted exactly when its ids are distinct and its dimensions right. -/
theorem validateRecords_eq_ok {records out : List VectorRecord} {d : Int} :
    validateRecords records d = .ok out ↔
      out = records ∧ (records.map VectorRecord.vectorId).Nodup ∧
        ∀ r ∈ records, r.embedding.length = d := by
  have h := validateRecordsFrom_ok d [] records
  simp only [List.not_mem_nil, not_false_eq_true, implies_true, true_and] at h
  rw [← h, validateRecords]
  cases validateRecordsFrom d [] records with
  | error e => simp [Except.map]
  | ok u => simp [Except.map, eq_comm]

/-- The stored records: a map from vector id to record. -/
abbrev VectorIndex := Str → Option VectorRecord

namespace VectorIndex

def empty : VectorIndex := fun _ => none

def upsert (index : VectorIndex) (records : List VectorRecord) : VectorIndex :=
  records.foldl (fun m r => Function.update m r.vectorId (some r)) index

def deleteByDocument (index : VectorIndex) (documentId : UUID) : VectorIndex :=
  fun k => (index k).filter fun r => r.documentId != documentId

def deleteByChunkIds (index : VectorIndex) (chunkIds : List UUID) : VectorIndex :=
  chunkIds.foldl (fun m c => Function.update m (stableVectorId c) none) index

theorem deleteByDocument_eq_some {index : VectorIndex} {d : UUID} {k : Str} {r : VectorRecord} :
    index.deleteByDocument d k = some r ↔ index k = some r ∧ r.documentId ≠ d := by
  simp [deleteByDocument, Option.filter_eq_some_iff]

/-- Outside the ids of the batch an upsert changes nothing. -/
theorem upsert_of_not_mem {index : VectorIndex} {records : List VectorRecord} {k : Str}
    (h : ∀ r ∈ records, r.vectorId ≠ k) : index.upsert records k = index k := by
  induction records generalizing index with
  | nil => rfl
  | cons r rs ih =>
    rw [upsert, List.foldl_cons]
    refine (ih fun x hx => h x (List.mem_cons_of_mem _ hx)).trans ?_
    exact Function.update_of_ne (h r List.mem_cons_self).symm _ _

/-- With distinct ids, the batch's own record is what an id of the batch holds. -/
theorem upsert_of_mem {index : VectorIndex} {records : List VectorRecord}
    (hn : (records.map VectorRecord.vectorId).Nodup) {r : VectorRecord} (hr : r ∈ records) :
    index.upsert records r.vectorId = some r := by
  induction records generalizing index with
  | nil => cases hr
  | cons x xs ih =>
    rw [List.map_cons, List.nodup_cons] at hn
    rw [upsert, List.foldl_cons]
    rcases List.mem_cons.mp hr with rfl | hr
    · have hx : ∀ y ∈ xs, y.vectorId ≠ r.vectorId := by
        intro y hy he
        exact hn.1 (List.mem_map.mpr ⟨y, hy, he⟩)
      exact (upsert_of_not_mem hx).trans (Function.update_self _ _ _)
    · exact ih hn.2 hr

theorem upsert_eq_some {index : VectorIndex} {records : List VectorRecord}
    (hn : (records.map VectorRecord.vectorId).Nodup) {k : Str} {r : VectorRecord}
    (h : index.upsert records k = some r) : r ∈ records ∧ r.vectorId = k ∨
      (∀ x ∈ records, x.vectorId ≠ k) ∧ index k = some r := by
  by_cases hk : ∀ x ∈ records, x.vectorId ≠ k
  · exact .inr ⟨hk, by rwa [upsert_of_not_mem hk] at h⟩
  · obtain ⟨x, hx, rfl⟩ : ∃ x ∈ records, x.vectorId = k := by simpa using hk
    rw [upsert_of_mem hn hx] at h
    obtain rfl := Option.some.inj h
    exact .inl ⟨hx, rfl⟩

/-- What a key of the batch holds afterwards comes from the batch. -/
theorem upsert_congr_of_mem {records : List VectorRecord} {k : Str} (h : ∃ r ∈ records, r.vectorId = k)
    (index index' : VectorIndex) : index.upsert records k = index'.upsert records k := by
  induction records generalizing index index' with
  | nil =>
    obtain ⟨r, hr, _⟩ := h
    cases hr
  | cons r rs ih =>
    rw [upsert, upsert, List.foldl_cons, List.foldl_cons]
    by_cases hrs : ∃ r ∈ rs, r.vectorId = k
    · exact ih hrs _ _
    · have hnone : ∀ x ∈ rs, x.vectorId ≠ k := fun x hx hk => hrs ⟨x, hx, hk⟩
      obtain ⟨x, hx, rfl⟩ := h
      obtain rfl | hx := List.mem_cons.mp hx
      · refine (upsert_of_not_mem hnone).trans (Eq.trans ?_ (upsert_of_not_mem hnone).symm)
        rw [Function.update_self, Function.update_self]
      · exact absurd rfl (hnone x hx)

/-- Replacing the records of a document by the same records again changes nothing. -/
theorem replace_again (index : VectorIndex) (d : UUID) (records : List VectorRecord) :
    (((index.deleteByDocument d).upsert records).deleteByDocument d).upsert records =
      (index.deleteByDocument d).upsert records := by
  funext k
  by_cases hk : ∃ r ∈ records, r.vectorId = k
  · exact upsert_congr_of_mem hk _ _
  · have hnone : ∀ r ∈ records, r.vectorId ≠ k := fun r hr he => hk ⟨r, hr, he⟩
    rw [upsert_of_not_mem hnone, deleteByDocument, upsert_of_not_mem hnone, deleteByDocument,
      Option.filter_filter]
    simp only [Bool.and_self]

end VectorIndex

/-- `InMemoryVectorStore`: what the first `initialize` sets, and the records. -/
structure InMemoryVectorStore where
  modelId : Option Str
  dimension : Option Int
  records : VectorIndex

/-- `_validate_initialization`. -/
def validateInitialization (modelId : Str) (dimension : Int) : Except VectorStoreError Unit :=
  if strip modelId = [] then .error .input
  else if dimension ≤ 0 then .error .input
  else .ok ()

namespace InMemoryVectorStore

/-- `initialize`. -/
def initializeCollection (store : InMemoryVectorStore) (modelId : Str) (dimension : Int) :
    Except VectorStoreError InMemoryVectorStore := do
  validateInitialization modelId dimension
  match store.modelId with
  | none => return { store with modelId := some modelId, dimension := some dimension }
  | some initialized =>
    if initialized ≠ modelId ∨ store.dimension ≠ some dimension then throw .configuration
    return store

/-- `_required_dimension`. -/
def requiredDimension (store : InMemoryVectorStore) : Except VectorStoreError Int :=
  match store.dimension with
  | none => .error .notInitialized
  | some dimension => .ok dimension

def upsert (store : InMemoryVectorStore) (records : List VectorRecord) :
    Except VectorStoreError InMemoryVectorStore := do
  let validated ← validateRecords records (← store.requiredDimension)
  return { store with records := store.records.upsert validated }

def deleteByDocument (store : InMemoryVectorStore) (documentId : UUID) :
    Except VectorStoreError InMemoryVectorStore := do
  let _ ← store.requiredDimension
  return { store with records := store.records.deleteByDocument documentId }

def deleteByChunkIds (store : InMemoryVectorStore) (chunkIds : List UUID) :
    Except VectorStoreError InMemoryVectorStore := do
  let _ ← store.requiredDimension
  return { store with records := store.records.deleteByChunkIds chunkIds }

variable {store store' : InMemoryVectorStore}

theorem initializeCollection_ok {modelId : Str} {dimension : Int}
    (h : store.initializeCollection modelId dimension = .ok store') : store'.records = store.records := by
  obtain ⟨_, _, h⟩ := bind_eq_ok.mp h
  split at h
  · obtain rfl := Except.ok.inj h
    rfl
  · split at h
    · cases h
    · obtain rfl := Except.ok.inj h
      rfl

theorem upsert_ok {records : List VectorRecord} (h : store.upsert records = .ok store') :
    (records.map VectorRecord.vectorId).Nodup ∧ store'.records = store.records.upsert records := by
  obtain ⟨dimension, _, hrest⟩ := bind_eq_ok.mp h
  obtain ⟨validated, hvalidated, hstore⟩ := bind_eq_ok.mp hrest
  obtain ⟨heq, hnodup, _⟩ := validateRecords_eq_ok.mp hvalidated
  obtain rfl := Except.ok.inj hstore
  exact ⟨hnodup, by rw [heq]⟩

theorem deleteByDocument_ok {documentId : UUID} (h : store.deleteByDocument documentId = .ok store') :
    store'.records = store.records.deleteByDocument documentId := by
  obtain ⟨_, _, h⟩ := bind_eq_ok.mp h
  obtain rfl := Except.ok.inj h
  rfl

end InMemoryVectorStore

end AgenticRag.Ingestion

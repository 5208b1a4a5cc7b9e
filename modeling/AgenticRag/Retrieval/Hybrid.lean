import AgenticRag.Lib.Traced
import AgenticRag.Retrieval.DenseResult
import AgenticRag.Retrieval.Service
import Mathlib.Algebra.Order.Ring.Rat
import Mathlib.Data.Prod.Lex

/-! Hybrid retrieval over its four ports: scoped keyword candidates, the query
embedding, the dense provider, and the final loader. -/
namespace AgenticRag.Retrieval
open Lib Python Ingestion

def denseOverfetchFactor : Nat := 4
def maxDenseCandidates : Nat := 128
def maxRankedKeywordCandidates : Nat := 128
def maxUniqueCandidates : Nat := 192
def rrfK : Nat := 60

structure RetrievalAccessPort where
  verifyInitialAccess : SessionAuthenticationProof → UUID → Except RetrievalException Unit
  scopedKeywordCandidates :
    SessionAuthenticationProof → UUID → Str → Except RetrievalException (List KeywordCandidate)

/-- `embed` returns any object; only its checks make a vector of it. -/
structure EmbeddingModel where
  dimension : Nat
  embed : List Str → Except RetrievalException Object

structure DenseRetrievalPort where
  query : EmbeddingVector → UUID → Nat → Except RetrievalException DenseProviderResult

structure FinalAuthoritativeLoader where
  loadAuthoritativeRecords : SessionAuthenticationProof → UUID → List CandidateBatch →
    Except RetrievalException (List InternalAuthoritativeRetrievalRecord)

/-- The calls of one retrieval, in order. -/
inductive PortCall where
  | verifyInitialAccess
  | scopedKeywordCandidates (normalizedQuery : Str)
  | embed (text : Str)
  | denseQuery (candidateCount : Nat)
  | loadAuthoritativeRecords (candidateBatches : List CandidateBatch)
  deriving DecidableEq

structure FusedInternalAuthoritativeRetrievalRecord where
  authoritative : InternalAuthoritativeRetrievalRecord
  keywordRank : Option Nat
  denseRank : Option Nat
  fusedNumerator : Int
  fusedDenominator : Nat
  fusedRank : Nat
  deriving DecidableEq

structure HybridRetrievalResult where
  records : List FusedInternalAuthoritativeRetrievalRecord
  deriving DecidableEq

def configuredProviderCount (requestedCount : Nat) : Except RetrievalException Nat :=
  if 1 ≤ requestedCount ∧ requestedCount ≤ 50 then
    .ok (min (min maxProviderCandidates maxDenseCandidates) (requestedCount * denseOverfetchFactor))
  else .error .value

/-- One value of the query vector. -/
def queryValue : Object → Except RetrievalException Float64
  | .float x => if x.isFinite then .ok x else .error .unavailable
  | _ => .error .unavailable

/-- `_validate_query_embedding`. -/
def validateQueryEmbedding (vectors : Object) (dimension : Nat) :
    Except RetrievalException EmbeddingVector :=
  match vectors with
  | .list [vector] =>
    match vector.sequence? with
    | none => .error .unavailable
    | some values =>
      if values.length ≠ dimension then .error .unavailable else values.mapM queryValue
  | _ => .error .unavailable

abbrev Ranks := Dict UUID Nat

/-- One turn of the loop of `_keyword_rank_map`: the smaller rank stays. -/
def keywordRankStep (ranks : Ranks) (candidate : KeywordCandidate) :
    Except RetrievalException Ranks :=
  if candidate.keywordRank > maxRankedKeywordCandidates then .error .unavailable
  else .ok (ranks.setMin candidate.chunkId candidate.keywordRank)

/-- `_keyword_rank_map`. -/
def keywordRankMap (candidates : List KeywordCandidate) : Except RetrievalException Ranks :=
  if candidates.length > maxRankedKeywordCandidates then .error .unavailable
  else candidates.foldlM keywordRankStep Dict.empty

def denseRankMap (result : DenseProviderResult) (configuredCount : Nat) :
    Except RetrievalException Ranks :=
  if result.positionCount > configuredCount ∨ result.positionCount > maxProviderCandidates then
    .error .denseProvider
  else .ok ⟨result.rankedChunkIds, result.nodup⟩

/-- `_rrf_score`. -/
def rrfScore (keywordRank denseRank : Option Nat) : Except RetrievalException Rat :=
  if keywordRank = none ∧ denseRank = none then .error .value
  else
    let term (rank : Option Nat) : Rat := match rank with
      | none => 0
      | some r => 1 / ((rrfK + r : Nat) : Rat)
    .ok (term keywordRank + term denseRank)

/-- An entry of `scored`. -/
structure ScoredRecord where
  score : Rat
  best : Nat
  keywordOrder : Nat
  denseOrder : Nat
  chunkId : UUID
  record : InternalAuthoritativeRetrievalRecord
  keywordRank : Option Nat
  denseRank : Option Nat

/-- The sort key of `scored`. -/
def ScoredRecord.key (item : ScoredRecord) : Rat ×ₗ Nat ×ₗ Nat ×ₗ Nat ×ₗ UUID :=
  toLex (-item.score, toLex (item.best, toLex (item.keywordOrder, toLex (item.denseOrder,
    item.chunkId))))

def absentRank : Nat := maxProviderCandidates + 1

def scoreRecord (keywordRanks denseRanks : Ranks)
    (item : UUID × InternalAuthoritativeRetrievalRecord) : Except RetrievalException ScoredRecord := do
  let keywordRank := keywordRanks.get? item.1
  let denseRank := denseRanks.get? item.1
  let score ← rrfScore keywordRank denseRank
  let contributing := [keywordRank, denseRank].reduceOption
  return {
    score := score
    best := contributing.min?.getD absentRank
    keywordOrder := keywordRank.getD absentRank
    denseOrder := denseRank.getD absentRank
    chunkId := item.1
    record := item.2
    keywordRank := keywordRank
    denseRank := denseRank }

/-- One turn of the loop that fills `by_chunk`. -/
def byChunkStep (keywordRanks denseRanks : Ranks)
    (byChunk : Dict UUID InternalAuthoritativeRetrievalRecord)
    (record : InternalAuthoritativeRetrievalRecord) :
    Except RetrievalException (Dict UUID InternalAuthoritativeRetrievalRecord) :=
  let chunkId := record.trusted.chunkId
  if chunkId ∈ byChunk.keys ∨ chunkId ∉ keywordRanks.keys ∧ chunkId ∉ denseRanks.keys then
    .error .unavailable
  else .ok (byChunk.set chunkId record)

def fusedRecord (item : ScoredRecord × Nat) : FusedInternalAuthoritativeRetrievalRecord where
  authoritative := item.1.record
  keywordRank := item.1.keywordRank
  denseRank := item.1.denseRank
  fusedNumerator := item.1.score.num
  fusedDenominator := item.1.score.den
  fusedRank := item.2

def fuseAuthoritativeRecords (records : List InternalAuthoritativeRetrievalRecord)
    (keywordRanks denseRanks : Ranks) (requestedCount : Nat) :
    Except RetrievalException (List FusedInternalAuthoritativeRetrievalRecord) :=
  if 1 ≤ requestedCount ∧ requestedCount ≤ 50 then do
    let byChunk ← records.foldlM (byChunkStep keywordRanks denseRanks) Dict.empty
    let scored ← byChunk.items.mapM (scoreRecord keywordRanks denseRanks)
    return (((orderBy ScoredRecord.key scored).take requestedCount).zipIdx 1).map fusedRecord
  else .error .value

/-- `except (EmbeddingError, DenseProviderError)`. -/
def isProviderError : RetrievalException → Bool
  | .embedding _ => true
  | .denseProvider => true
  | _ => false

structure HybridRetrievalService where
  access : RetrievalAccessPort
  embeddingModel : EmbeddingModel
  denseRetrieval : DenseRetrievalPort
  finalLoader : FinalAuthoritativeLoader
  dimension_pos : 0 < embeddingModel.dimension
  nfc : Nfc

abbrev RetrievalRun (α : Type) := Traced RetrievalException PortCall α

namespace HybridRetrievalService
variable (service : HybridRetrievalService) (proof : SessionAuthenticationProof)
  (knowledgeBaseId : UUID)

/-- `ScopedKeywordRetrievalService.retrieve`. -/
def keywordRetrieve (payload : Payload) : RetrievalRun ScopedKeywordResult := do
  Traced.call .verifyInitialAccess (service.access.verifyInitialAccess proof knowledgeBaseId)
  let request ← Traced.lift (parseRetrievalRequest service.nfc payload)
  let candidates ← Traced.call (.scopedKeywordCandidates request.normalizedQuery)
    (service.access.scopedKeywordCandidates proof knowledgeBaseId request.normalizedQuery)
  return ⟨request, candidates⟩

/-- The `try` block of `retrieve`. -/
def denseStage (request : RetrievalRequest) : RetrievalRun Ranks := do
  let rawVectors ← Traced.call (.embed request.normalizedQuery)
    (service.embeddingModel.embed [request.normalizedQuery])
  let embedding ← Traced.lift (validateQueryEmbedding rawVectors service.embeddingModel.dimension)
  let providerCount ← Traced.lift (configuredProviderCount request.requestedCount)
  let denseResult ← Traced.call (.denseQuery providerCount)
    (service.denseRetrieval.query embedding knowledgeBaseId providerCount)
  Traced.lift (denseRankMap denseResult providerCount)

/-- `FinalCandidateValidatorLoader.validate_and_load`. -/
def validateAndLoad (candidateIds : List UUID) :
    RetrievalRun (List InternalAuthoritativeRetrievalRecord) := do
  let batches ← Traced.lift (canonicalCandidateBatches candidateIds)
  Traced.call (.loadAuthoritativeRecords batches)
    (service.finalLoader.loadAuthoritativeRecords proof knowledgeBaseId batches)

/-- `set(keyword_ranks) | set(dense_ranks)`. -/
def candidateUnion (keywordRanks denseRanks : Ranks) : List UUID :=
  (keywordRanks.keys ++ denseRanks.keys).dedup

/-- What `retrieve` does once the union is bounded. -/
def finalStage (requestedCount : Nat) (keywordRanks denseRanks : Ranks) :
    RetrievalRun HybridRetrievalResult := do
  let union := candidateUnion keywordRanks denseRanks
  let authoritative ← service.validateAndLoad proof knowledgeBaseId union
  let authoritativeIds := (authoritative.map fun record => record.trusted.chunkId).dedup
  if authoritativeIds.length ≠ authoritative.length ∨ ¬authoritativeIds ⊆ union then
    Traced.lift (.error .unavailable)
  else do
    let records ← Traced.lift
      (fuseAuthoritativeRecords authoritative keywordRanks denseRanks requestedCount)
    return ⟨records⟩

def retrieve (payload : Payload) : RetrievalRun HybridRetrievalResult := do
  let scopedResult ← service.keywordRetrieve proof knowledgeBaseId payload
  let keywordRanks ← Traced.lift (keywordRankMap scopedResult.candidates)
  let denseRanks ← Traced.rescue isProviderError .unavailable
    (service.denseStage knowledgeBaseId scopedResult.request)
  if (candidateUnion keywordRanks denseRanks).length > maxUniqueCandidates then
    Traced.lift (.error .unavailable)
  else service.finalStage proof knowledgeBaseId scopedResult.request.requestedCount keywordRanks denseRanks

theorem mem_candidateUnion {keywordRanks denseRanks : Ranks} {chunkId : UUID} :
    chunkId ∈ candidateUnion keywordRanks denseRanks ↔
      chunkId ∈ keywordRanks.keys ∨ chunkId ∈ denseRanks.keys := by
  rw [candidateUnion, List.mem_dedup, List.mem_append]

theorem candidateUnion_dedup (keywordRanks denseRanks : Ranks) :
    (candidateUnion keywordRanks denseRanks).dedup = candidateUnion keywordRanks denseRanks :=
  (List.nodup_dedup _).dedup

/-- The stages of a retrieval that returned. -/
structure Returned (payload : Payload) (result : HybridRetrievalResult) where
  scopedResult : ScopedKeywordResult
  keywordRanks : Ranks
  denseRanks : Ranks
  batches : List CandidateBatch
  authoritative : List InternalAuthoritativeRetrievalRecord
  keyword_ok : (service.keywordRetrieve proof knowledgeBaseId payload).outcome = .ok scopedResult
  keywordRanks_ok : keywordRankMap scopedResult.candidates = .ok keywordRanks
  dense_ok : (service.denseStage knowledgeBaseId scopedResult.request).outcome = .ok denseRanks
  union_le : (candidateUnion keywordRanks denseRanks).length ≤ maxUniqueCandidates
  batches_ok : canonicalCandidateBatches (candidateUnion keywordRanks denseRanks) = .ok batches
  loader_ok : service.finalLoader.loadAuthoritativeRecords proof knowledgeBaseId batches =
    .ok authoritative
  fused_ok : fuseAuthoritativeRecords authoritative keywordRanks denseRanks
    scopedResult.request.requestedCount = .ok result.records

theorem returned {payload : Payload} {result : HybridRetrievalResult}
    (h : (service.retrieve proof knowledgeBaseId payload).outcome = .ok result) :
    Nonempty (service.Returned proof knowledgeBaseId payload result) := by
  rw [retrieve, Traced.outcome_bind] at h
  obtain ⟨scopedResult, hscoped, h⟩ := bind_eq_ok.mp h
  rw [Traced.outcome_bind] at h
  obtain ⟨keywordRanks, hkeyword, h⟩ := bind_eq_ok.mp h
  rw [Traced.outcome_bind] at h
  obtain ⟨denseRanks, hdense, h⟩ := bind_eq_ok.mp h
  rw [Traced.outcome_rescue, rescue_eq_ok] at hdense
  split at h
  · cases h
  rename_i hunion
  rw [finalStage, Traced.outcome_bind] at h
  obtain ⟨authoritative, hload, h⟩ := bind_eq_ok.mp h
  rw [validateAndLoad, Traced.outcome_bind] at hload
  obtain ⟨batches, hbatches, hload⟩ := bind_eq_ok.mp hload
  dsimp only at h
  split at h
  · cases h
  rw [Traced.outcome_bind] at h
  obtain ⟨records, hfused, h⟩ := bind_eq_ok.mp h
  obtain rfl := Except.ok.inj h
  exact ⟨⟨scopedResult, keywordRanks, denseRanks, batches, authoritative, hscoped, hkeyword, hdense,
    not_lt.mp hunion, hbatches, hload, hfused⟩⟩

end HybridRetrievalService
end AgenticRag.Retrieval

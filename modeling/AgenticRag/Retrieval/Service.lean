import AgenticRag.Lib.OrderBy
import AgenticRag.Lib.Slices
import AgenticRag.Db.Models
import AgenticRag.Retrieval.Domain
import Mathlib.Data.List.Dedup

/-! The records and candidates that retrieval hands on, and the canonical batches
of the final validation. -/
namespace AgenticRag.Retrieval
open Lib Python Db

structure Principal where
  userId : UUID
  sessionId : UUID

structure SessionAuthenticationProof where
  principal : Principal
  sessionTokenSha256 : Str

def finalValidationBatchSize : Nat := 64
def maxFinalCandidates : Nat := 192
def untrustedDocumentContent : String := "untrusted_document_content"

structure TrustedAuthoritativeProvenance where
  knowledgeBaseId : UUID
  documentId : UUID
  chunkId : UUID
  contentSha256 : Str
  sourceDisplayName : Str
  pageStart : Option Nat
  pageEnd : Option Nat
  characterStart : Option Nat
  characterEnd : Option Nat
  deriving DecidableEq

structure UntrustedDocumentContent where
  text : Str
  trustClassification : String := untrustedDocumentContent
  deriving DecidableEq

structure InternalAuthoritativeRetrievalRecord where
  trusted : TrustedAuthoritativeProvenance
  documentContent : UntrustedDocumentContent
  deriving DecidableEq

abbrev CandidateBatch := List UUID

/-- `_canonical_candidate_batches`. -/
def canonicalCandidateBatches (candidateIds : List UUID) :
    Except RetrievalException (List CandidateBatch) :=
  let ordered := orderBy id candidateIds.dedup
  if ordered.length > maxFinalCandidates then .error .finalCandidateLimit
  else .ok (slices finalValidationBatchSize ordered)

/-- What the batches hold together: each candidate once, in ascending order. -/
theorem canonicalCandidateBatches_ok {candidateIds : List UUID} {batches : List CandidateBatch}
    (h : canonicalCandidateBatches candidateIds = .ok batches) :
    batches.flatten = orderBy id candidateIds.dedup ∧
      candidateIds.dedup.length ≤ maxFinalCandidates ∧
      ∀ batch ∈ batches, batch.length ≤ finalValidationBatchSize := by
  unfold canonicalCandidateBatches at h
  dsimp only at h
  split at h
  · cases h
  · rename_i hlen
    obtain rfl := Except.ok.inj h
    rw [(orderBy_perm _).length_eq] at hlen
    exact ⟨slices_flatten (by decide) _, not_lt.mp hlen, fun _ => length_le_of_mem_slices⟩

/-- The batches hold exactly the given candidates, strictly ascending. -/
theorem canonicalCandidateBatches_flatten {candidateIds : List UUID} {batches : List CandidateBatch}
    (h : canonicalCandidateBatches candidateIds = .ok batches) :
    batches.flatten.Pairwise (· < ·) ∧ ∀ a, a ∈ batches.flatten ↔ a ∈ candidateIds := by
  rw [(canonicalCandidateBatches_ok h).1]
  refine ⟨?_, fun a => by rw [mem_orderBy, List.mem_dedup]⟩
  have hnodup := ((orderBy_perm candidateIds.dedup : (orderBy id _).Perm _).nodup_iff).mpr
    candidateIds.nodup_dedup
  exact ((orderBy_pairwise _).and hnodup).imp fun h => lt_of_le_of_ne h.1 h.2

/-- Only which candidates there are counts, not their order nor how often they occur. -/
theorem canonicalCandidateBatches_congr {candidateIds other : List UUID}
    (h : ∀ a, a ∈ other ↔ a ∈ candidateIds) :
    canonicalCandidateBatches other = canonicalCandidateBatches candidateIds := by
  have hperm : other.dedup.Perm candidateIds.dedup := by
    rw [List.perm_ext_iff_of_nodup other.nodup_dedup candidateIds.nodup_dedup]
    intro a
    rw [List.mem_dedup, List.mem_dedup, h]
  have hordered : orderBy id other.dedup = orderBy id candidateIds.dedup :=
    orderBy_eq_of_perm hperm fun _ _ _ _ hab => hab
  rw [canonicalCandidateBatches, canonicalCandidateBatches, hordered]

/-- A candidate that passed `__post_init__`. -/
structure KeywordCandidate where
  chunkId : UUID
  keywordRank : Nat
  positive : 1 ≤ keywordRank

def KeywordCandidate.mk? (chunkId : UUID) (keywordRank : Nat) :
    Except RetrievalException KeywordCandidate :=
  if h : 1 ≤ keywordRank then .ok ⟨chunkId, keywordRank, h⟩ else .error .value

structure ScopedKeywordResult where
  request : RetrievalRequest
  candidates : List KeywordCandidate

end AgenticRag.Retrieval

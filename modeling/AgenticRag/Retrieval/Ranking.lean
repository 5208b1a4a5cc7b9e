import AgenticRag.Retrieval.Fusion
import Mathlib.Data.List.ReduceOption
import Mathlib.Order.Lattice.Nat
import Mathlib.Order.WithBot

/-! The ranking that hybrid retrieval is meant to compute, and that it computes it. -/
namespace AgenticRag.Retrieval
open Lib Python Ingestion

/-- An absent rank comes after every rank. -/
def absentLast : Option Nat → WithTop Nat
  | none => ⊤
  | some rank => WithTop.some rank

namespace FusedInternalAuthoritativeRetrievalRecord
variable (record : FusedInternalAuthoritativeRetrievalRecord)

def chunkId : UUID := record.authoritative.trusted.chunkId

def score : Rat := record.fusedNumerator / record.fusedDenominator

/-- Score descending, best contributing rank, keyword rank and dense rank ascending with
absence last, and the chunk id. -/
def rankingKey : Ratᵒᵈ ×ₗ WithTop Nat ×ₗ WithTop Nat ×ₗ WithTop Nat ×ₗ UUID :=
  toLex (OrderDual.toDual record.score,
    toLex (min (absentLast record.keywordRank) (absentLast record.denseRank),
      toLex (absentLast record.keywordRank, toLex (absentLast record.denseRank, record.chunkId))))

end FusedInternalAuthoritativeRetrievalRecord

/-- All records in the specified order, each with its own ranks and exact score. -/
structure SpecifiedRanking (candidates : List KeywordCandidate) (provided : List DenseCandidate)
    (loaded : List InternalAuthoritativeRetrievalRecord)
    (ranking : List FusedInternalAuthoritativeRetrievalRecord) : Prop where
  records : (ranking.map fun r => r.authoritative).Perm loaded
  keywordRank : ∀ r ∈ ranking, KeywordRankOf candidates r.chunkId r.keywordRank
  denseRank : ∀ r ∈ ranking, DenseRankOf provided r.chunkId r.denseRank
  score : ∀ r ∈ ranking, r.score = reciprocalRankSum r.keywordRank r.denseRank
  numbered : ranking.map (fun r => r.fusedRank) = List.range' 1 ranking.length
  ordered : ranking.Pairwise fun r s => r.rankingKey < s.rankingKey

section Order

private theorem absentLast_lt {r s : Option Nat} (hr : ∀ n, r = some n → n < absentRank)
    (hs : ∀ n, s = some n → n < absentRank) :
    r.getD absentRank < s.getD absentRank ↔ absentLast r < absentLast s := by
  cases r with
  | none =>
    cases s with
    | none => simp [absentLast]
    | some m => simpa [absentLast] using (hs m rfl).le
  | some n =>
    cases s with
    | none => simpa [absentLast] using hr n rfl
    | some m => simp [absentLast]

private theorem absentLast_inj {r s : Option Nat} (hr : ∀ n, r = some n → n < absentRank)
    (hs : ∀ n, s = some n → n < absentRank) :
    r.getD absentRank = s.getD absentRank ↔ absentLast r = absentLast s := by
  have h := absentLast_lt hr hs
  have h' := absentLast_lt hs hr
  rw [le_antisymm_iff, le_antisymm_iff, ← not_lt, ← not_lt, ← not_lt, ← not_lt, h, h']

/-- The best rank as an option. -/
private def bestRank (keywordRank denseRank : Option Nat) : Option Nat :=
  [keywordRank, denseRank].reduceOption.min?

private theorem absentLast_best (keywordRank denseRank : Option Nat) :
    absentLast (bestRank keywordRank denseRank) =
      min (absentLast keywordRank) (absentLast denseRank) := by
  cases keywordRank <;> cases denseRank <;> simp [bestRank, absentLast]

private theorem bestRank_mem {keywordRank denseRank : Option Nat} {n : Nat}
    (h : bestRank keywordRank denseRank = some n) : keywordRank = some n ∨ denseRank = some n := by
  have hm := List.min?_mem h
  rw [List.reduceOption_mem_iff] at hm
  simpa [eq_comm] using hm

/-- Every rank of the map is in range. -/
def InRange (ranks : Ranks) : Prop := ∀ chunkId n, ranks.get? chunkId = some n → n < absentRank

variable {keywordRanks denseRanks : Ranks}

/-- The sort key of the code orders as specified. -/
theorem rankingKey_lt (hk : InRange keywordRanks) (hd : InRange denseRanks)
    {r s : InternalAuthoritativeRetrievalRecord} {i j : Nat}
    (h : (scoredRecord keywordRanks denseRanks r).key < (scoredRecord keywordRanks denseRanks s).key) :
    (fusedRecord (scoredRecord keywordRanks denseRanks r, i)).rankingKey <
      (fusedRecord (scoredRecord keywordRanks denseRanks s, j)).rankingKey := by
  have hkr := hk r.trusted.chunkId
  have hks := hk s.trusted.chunkId
  have hdr := hd r.trusted.chunkId
  have hds := hd s.trusted.chunkId
  have hbr : ∀ n, bestRank (keywordRanks.get? r.trusted.chunkId) (denseRanks.get? r.trusted.chunkId) =
      some n → n < absentRank := fun n hn => (bestRank_mem hn).elim (hkr n) (hdr n)
  have hbs : ∀ n, bestRank (keywordRanks.get? s.trusted.chunkId) (denseRanks.get? s.trusted.chunkId) =
      some n → n < absentRank := fun n hn => (bestRank_mem hn).elim (hks n) (hds n)
  simp only [ScoredRecord.key, scoredRecord, Prod.Lex.toLex_lt_toLex, neg_lt_neg_iff, neg_inj] at h
  simp only [FusedInternalAuthoritativeRetrievalRecord.rankingKey, fusedRecord,
    FusedInternalAuthoritativeRetrievalRecord.score, FusedInternalAuthoritativeRetrievalRecord.chunkId,
    scoredRecord, Rat.num_div_den, Prod.Lex.toLex_lt_toLex, OrderDual.toDual_lt_toDual,
    OrderDual.toDual_inj, ← absentLast_best, ← absentLast_lt hkr hks, ← absentLast_inj hkr hks,
    ← absentLast_lt hdr hds, ← absentLast_inj hdr hds, ← absentLast_lt hbr hbs,
    ← absentLast_inj hbr hbs]
  exact h

theorem key_inj {a b : ScoredRecord} (h : a.key = b.key) : a.chunkId = b.chunkId := by
  simp only [ScoredRecord.key, EmbeddingLike.apply_eq_iff_eq, Prod.mk.injEq] at h
  exact h.2.2.2.2

end Order

section Runs
variable {candidates : List KeywordCandidate} {provided : List DenseCandidate}
  {keywordRanks denseRanks : Ranks} {loaded : List InternalAuthoritativeRetrievalRecord}

private theorem take_zipIdx {α : Type} (xs : List α) (n k : Nat) :
    (xs.take n).zipIdx k = (xs.zipIdx k).take n := by
  induction xs generalizing n k with
  | nil => simp
  | cons x xs ih =>
    cases n with
    | zero => rfl
    | succ n => rw [List.take_succ_cons, List.zipIdx_cons, List.zipIdx_cons, List.take_succ_cons, ih]

/-- All scored records in the code's order, numbered. -/
def fullRanking (keywordRanks denseRanks : Ranks) (loaded : List InternalAuthoritativeRetrievalRecord) :
    List FusedInternalAuthoritativeRetrievalRecord :=
  ((orderBy ScoredRecord.key (loaded.map (scoredRecord keywordRanks denseRanks))).zipIdx 1).map
    fusedRecord

private theorem mem_fullRanking {r : FusedInternalAuthoritativeRetrievalRecord}
    (h : r ∈ fullRanking keywordRanks denseRanks loaded) : ∃ record ∈ loaded, ∃ n,
      r = fusedRecord (scoredRecord keywordRanks denseRanks record, n) := by
  obtain ⟨⟨item, n⟩, hitem, rfl⟩ := List.mem_map.mp h
  obtain ⟨record, hrecord, rfl⟩ := List.mem_map.mp
    (mem_orderBy.mp (List.fst_mem_of_mem_zipIdx hitem))
  exact ⟨record, hrecord, n, rfl⟩

private theorem fullRanking_records :
    ((fullRanking keywordRanks denseRanks loaded).map fun r => r.authoritative).Perm loaded := by
  have hfst : (fullRanking keywordRanks denseRanks loaded).map (fun r => r.authoritative) =
      (orderBy ScoredRecord.key (loaded.map (scoredRecord keywordRanks denseRanks))).map
        ScoredRecord.record := by
    rw [fullRanking, List.map_map]
    change List.map (ScoredRecord.record ∘ Prod.fst) _ = _
    rw [← List.map_map, List.zipIdx_map_fst]
  rw [hfst]
  refine ((orderBy_perm _).map _).trans ?_
  rw [List.map_map]
  exact (List.map_id loaded).symm ▸ List.Perm.refl _

private theorem fullRanking_ordered (hk : InRange keywordRanks) (hd : InRange denseRanks)
    (hnodup : (loaded.map fun r => r.trusted.chunkId).Nodup) :
    (fullRanking keywordRanks denseRanks loaded).Pairwise fun r s => r.rankingKey < s.rankingKey := by
  have hids : ((orderBy ScoredRecord.key (loaded.map (scoredRecord keywordRanks denseRanks))).map
      ScoredRecord.chunkId).Nodup := by
    refine (((orderBy_perm _).map _).nodup_iff).mpr ?_
    rw [List.map_map]
    exact hnodup
  have hlt : (orderBy ScoredRecord.key (loaded.map (scoredRecord keywordRanks denseRanks))).Pairwise
      fun a b => a.key < b.key := by
    refine ((orderBy_pairwise _).and (List.pairwise_map.mp hids)).imp ?_
    rintro a b ⟨hle, hne⟩
    exact lt_of_le_of_ne hle fun he => hne (key_inj he)
  rw [fullRanking, List.pairwise_map]
  rw [← List.zipIdx_map_fst 1 (orderBy _ _), List.pairwise_map] at hlt
  refine hlt.imp_of_mem ?_
  rintro ⟨a, i⟩ ⟨b, j⟩ ha hb hab
  obtain ⟨r, _, rfl⟩ := List.mem_map.mp (mem_orderBy.mp (List.fst_mem_of_mem_zipIdx ha))
  obtain ⟨s, _, rfl⟩ := List.mem_map.mp (mem_orderBy.mp (List.fst_mem_of_mem_zipIdx hb))
  exact rankingKey_lt hk hd hab

private theorem fullRanking_specified (hk : InRange keywordRanks) (hd : InRange denseRanks)
    (hkeyword : ∀ chunkId, KeywordRankOf candidates chunkId (keywordRanks.get? chunkId))
    (hdense : ∀ chunkId, DenseRankOf provided chunkId (denseRanks.get? chunkId))
    (hnodup : (loaded.map fun r => r.trusted.chunkId).Nodup) :
    SpecifiedRanking candidates provided loaded (fullRanking keywordRanks denseRanks loaded) where
  records := fullRanking_records
  keywordRank r hr := by
    obtain ⟨record, _, n, rfl⟩ := mem_fullRanking hr
    exact hkeyword _
  denseRank r hr := by
    obtain ⟨record, _, n, rfl⟩ := mem_fullRanking hr
    exact hdense _
  score r hr := by
    obtain ⟨record, _, n, rfl⟩ := mem_fullRanking hr
    exact Rat.num_div_den _
  numbered := by
    rw [fullRanking, List.map_map, List.length_map, List.length_zipIdx]
    exact List.zipIdx_map_snd 1 _
  ordered := fullRanking_ordered hk hd hnodup

/-- The chunks that some keyword candidate or some valid provider candidate names. -/
def candidateIds (candidates : List KeywordCandidate) (provided : List DenseCandidate) : List UUID :=
  (candidates.map (fun c => c.chunkId) ++
    (provided.filterMap DenseCandidate.occurrence).map Prod.fst).dedup

/-- The collaborators of a retrieval whose steps all succeed: what each of them gives. -/
structure RankingInput (service : HybridRetrievalService) (proof : SessionAuthenticationProof)
    (knowledgeBaseId : UUID) (payload : Payload) (request : RetrievalRequest)
    (candidates : List KeywordCandidate) (provided : List DenseCandidate)
    (loaded : List InternalAuthoritativeRetrievalRecord) : Prop where
  access_ok : service.access.verifyInitialAccess proof knowledgeBaseId = .ok ()
  request_ok : parseRetrievalRequest service.nfc payload = .ok request
  candidates_ok : service.access.scopedKeywordCandidates proof knowledgeBaseId request.normalizedQuery =
    .ok candidates
  candidates_le : candidates.length ≤ 128
  keywordRank_le : ∀ c ∈ candidates, c.keywordRank ≤ 128
  provided_ok : ∃ raw embedding result,
    service.embeddingModel.embed [request.normalizedQuery] = .ok raw ∧
    validateQueryEmbedding raw service.embeddingModel.dimension = .ok embedding ∧
    service.denseRetrieval.query embedding knowledgeBaseId (min 128 (4 * request.requestedCount)) =
      .ok result ∧
    DenseProviderResult.mk? provided.length provided = .ok result
  provided_le : provided.length ≤ min 128 (4 * request.requestedCount)
  union_le : (candidateIds candidates provided).length ≤ 192
  loaded_ok : ∀ batches, canonicalCandidateBatches (candidateIds candidates provided) = .ok batches →
    service.finalLoader.loadAuthoritativeRecords proof knowledgeBaseId batches = .ok loaded
  loaded_nodup : (loaded.map fun r => r.trusted.chunkId).Nodup
  loaded_subset : ∀ r ∈ loaded, r.trusted.chunkId ∈ candidateIds candidates provided

variable {service : HybridRetrievalService} {proof : SessionAuthenticationProof}
  {knowledgeBaseId : UUID} {payload : Payload} {request : RetrievalRequest}

private theorem mem_keys_iff {ranks : Ranks} {P : UUID → Nat → Prop}
    (h : ∀ chunkId, MinimumOf (P chunkId) (ranks.get? chunkId)) (chunkId : UUID) :
    chunkId ∈ ranks.keys ↔ ∃ n, P chunkId n := by
  have hmin := h chunkId
  rw [← not_iff_not, ← Dict.get?_eq_none]
  cases hget : ranks.get? chunkId with
  | none =>
    rw [hget] at hmin
    simpa [MinimumOf] using hmin
  | some n =>
    rw [hget] at hmin
    simpa using ⟨n, hmin.1⟩

private theorem mem_candidateUnion_iff
    (hkeyword : ∀ chunkId, KeywordRankOf candidates chunkId (keywordRanks.get? chunkId))
    (hdense : ∀ chunkId, DenseRankOf provided chunkId (denseRanks.get? chunkId)) (chunkId : UUID) :
    chunkId ∈ HybridRetrievalService.candidateUnion keywordRanks denseRanks ↔
      chunkId ∈ candidateIds candidates provided := by
  rw [HybridRetrievalService.mem_candidateUnion, mem_keys_iff hkeyword, mem_keys_iff hdense,
    candidateIds, List.mem_dedup, List.mem_append, List.mem_map, List.mem_map]
  refine or_congr ?_ ?_
  · constructor
    · rintro ⟨_, c, hc, hid, _⟩
      exact ⟨c, hc, hid⟩
    · rintro ⟨c, hc, hid⟩
      exact ⟨_, c, hc, hid, rfl⟩
  · constructor
    · rintro ⟨n, c, hc, hvalid, hn⟩
      exact ⟨(chunkId, n), List.mem_filterMap.mpr ⟨c, hc, occurrence_eq_some.mpr ⟨hvalid, hn⟩⟩, rfl⟩
    · rintro ⟨⟨_, n⟩, hmem, rfl⟩
      obtain ⟨c, hc, ho⟩ := List.mem_filterMap.mp hmem
      obtain ⟨hvalid, hn⟩ := occurrence_eq_some.mp ho
      exact ⟨n, c, hc, hvalid, hn⟩

private theorem inRange_of_keywordRank (h : ∀ c ∈ candidates, c.keywordRank ≤ 128)
    (hkeyword : ∀ chunkId, KeywordRankOf candidates chunkId (keywordRanks.get? chunkId)) :
    InRange keywordRanks := by
  intro chunkId n hn
  have hmin := hkeyword chunkId
  rw [hn] at hmin
  obtain ⟨c, hc, _, rfl⟩ := hmin.1
  exact Nat.lt_succ_of_le (h c hc)

/-- The dense stage of a run in which every step succeeds. -/
private theorem denseStage_ok (h : RankingInput service proof knowledgeBaseId payload request
    candidates provided loaded) : ∃ ranks,
      (service.denseStage knowledgeBaseId request).outcome = .ok ranks ∧ InRange ranks ∧
      ∀ chunkId, DenseRankOf provided chunkId (ranks.get? chunkId) := by
  obtain ⟨raw, embedding, result, hembed, hvalid, hquery, hbuilt⟩ := h.provided_ok
  have hcount : configuredProviderCount request.requestedCount =
      .ok (min 128 (4 * request.requestedCount)) := by
    rw [configuredProviderCount, if_pos ⟨request.count_pos, request.count_le⟩, Nat.mul_comm]
    rfl
  have hposition := DenseProviderResult.mk?_positionCount hbuilt
  have hmap : denseRankMap result (min 128 (4 * request.requestedCount)) =
      .ok ⟨result.rankedChunkIds, result.nodup⟩ := by
    refine if_neg (not_or.mpr ⟨?_, ?_⟩)
    · rw [hposition]
      exact not_lt.mpr h.provided_le
    · exact not_lt.mpr result.positionCount_le
  refine ⟨⟨result.rankedChunkIds, result.nodup⟩, ?_, ?_, DenseProviderResult.mk?_ranks hbuilt⟩
  rotate_left
  · intro chunkId n hn
    have hrange := result.rank_range _ (Dict.get?_eq_some.mp hn)
    exact Nat.lt_succ_of_le (hrange.2.trans result.positionCount_le)
  unfold HybridRetrievalService.denseStage
  simp only [Traced.outcome_bind, Traced.outcome_call, Traced.outcome_lift, hembed, hcount]
  exact bind_eq_ok.mpr ⟨raw, rfl, bind_eq_ok.mpr ⟨embedding, hvalid,
    bind_eq_ok.mpr ⟨_, rfl, bind_eq_ok.mpr ⟨result, hquery, hmap⟩⟩⟩⟩

/-- The run itself, once the rank maps and the fused records are known. -/
private theorem retrieve_ok {fused : List FusedInternalAuthoritativeRetrievalRecord}
    (h : RankingInput service proof knowledgeBaseId payload request candidates provided loaded)
    (hkeyword : keywordRankMap candidates = .ok keywordRanks)
    (hdense : (service.denseStage knowledgeBaseId request).outcome = .ok denseRanks)
    (hunion : ∀ chunkId, chunkId ∈ HybridRetrievalService.candidateUnion keywordRanks denseRanks ↔
      chunkId ∈ candidateIds candidates provided)
    (hfuse : fuseAuthoritativeRecords loaded keywordRanks denseRanks request.requestedCount =
      .ok fused) :
    (service.retrieve proof knowledgeBaseId payload).outcome = .ok ⟨fused⟩ := by
  have hlength : (HybridRetrievalService.candidateUnion keywordRanks denseRanks).length =
      (candidateIds candidates provided).length :=
    ((List.perm_ext_iff_of_nodup (List.nodup_dedup _) (List.nodup_dedup _)).mpr hunion).length_eq
  have hkeywordRetrieve : (service.keywordRetrieve proof knowledgeBaseId payload).outcome =
      .ok ⟨request, candidates⟩ := by
    simp only [HybridRetrievalService.keywordRetrieve, Traced.outcome_bind, Traced.outcome_call,
      Traced.outcome_lift, h.access_ok, h.request_ok]
    exact bind_eq_ok.mpr ⟨(), rfl, bind_eq_ok.mpr ⟨request, rfl,
      bind_eq_ok.mpr ⟨candidates, h.candidates_ok, rfl⟩⟩⟩
  obtain ⟨batches, hbatches⟩ : ∃ batches,
      canonicalCandidateBatches (candidateIds candidates provided) = .ok batches := by
    have hle : ¬(orderBy id (candidateIds candidates provided).dedup).length > maxFinalCandidates := by
      have hnodup : (candidateIds candidates provided).Nodup := List.nodup_dedup _
      rw [(orderBy_perm _).length_eq, hnodup.dedup]
      exact not_lt.mpr h.union_le
    exact ⟨_, if_neg hle⟩
  have hload : (service.validateAndLoad proof knowledgeBaseId
      (HybridRetrievalService.candidateUnion keywordRanks denseRanks)).outcome = .ok loaded := by
    rw [HybridRetrievalService.validateAndLoad, Traced.outcome_bind]
    exact bind_eq_ok.mpr ⟨batches, (canonicalCandidateBatches_congr hunion).trans hbatches,
      h.loaded_ok batches hbatches⟩
  have hids : ¬((loaded.map fun r => r.trusted.chunkId).dedup.length ≠ loaded.length ∨
      ¬(loaded.map fun r => r.trusted.chunkId).dedup ⊆
        HybridRetrievalService.candidateUnion keywordRanks denseRanks) := by
    rw [h.loaded_nodup.dedup, List.length_map, not_or, not_not, not_not]
    refine ⟨rfl, fun chunkId hmem => ?_⟩
    obtain ⟨r, hr, rfl⟩ := List.mem_map.mp hmem
    exact (hunion _).mpr (h.loaded_subset r hr)
  have hfinal : (service.finalStage proof knowledgeBaseId request.requestedCount keywordRanks
      denseRanks).outcome = .ok ⟨fused⟩ := by
    rw [HybridRetrievalService.finalStage, Traced.outcome_bind]
    refine bind_eq_ok.mpr ⟨loaded, hload, ?_⟩
    dsimp only
    rw [if_neg hids, Traced.outcome_bind]
    exact bind_eq_ok.mpr ⟨fused, hfuse, rfl⟩
  simp only [HybridRetrievalService.retrieve, Traced.outcome_bind, Traced.outcome_lift,
    Traced.outcome_rescue]
  refine bind_eq_ok.mpr ⟨_, hkeywordRetrieve, bind_eq_ok.mpr ⟨_, hkeyword,
    bind_eq_ok.mpr ⟨_, rescue_eq_ok.mpr hdense, ?_⟩⟩⟩
  have hle : ¬(HybridRetrievalService.candidateUnion keywordRanks denseRanks).length >
      maxUniqueCandidates := not_lt.mpr (hlength.le.trans h.union_le)
  rw [if_neg hle]
  exact hfinal

/-- A retrieval whose steps all succeed returns the first records of the specified
ranking of everything that was loaded. -/
theorem hybrid_ranking (h : RankingInput service proof knowledgeBaseId payload request candidates
    provided loaded) : ∃ ranking result,
      SpecifiedRanking candidates provided loaded ranking ∧
      (service.retrieve proof knowledgeBaseId payload).outcome = .ok result ∧
      result.records = ranking.take request.requestedCount ∧
      result.records.length = min request.requestedCount loaded.length ∧
      result.records.map (fun r => r.fusedRank) = List.range' 1 result.records.length ∧
      (result.records.map fun r => r.chunkId).Nodup := by
  have hkeyword_ok := keywordRankMap_eq h.candidates_le h.keywordRank_le
  obtain ⟨hkeyword, -⟩ := keywordRankMap_ok hkeyword_ok
  obtain ⟨denseRanks, hdense_ok, hd, hdense⟩ := denseStage_ok h
  have hk := inRange_of_keywordRank h.keywordRank_le hkeyword
  have hunion := mem_candidateUnion_iff hkeyword hdense
  have hranked : ∀ r ∈ loaded, Ranked (candidates.map (fun c => (c.chunkId, c.keywordRank))
      |>.foldl (fun d p => d.setMin p.1 p.2) Dict.empty) denseRanks r := fun r hr =>
    HybridRetrievalService.mem_candidateUnion.mp ((hunion _).mpr (h.loaded_subset r hr))
  have hfuse := fuseAuthoritativeRecords_eq ⟨request.count_pos, request.count_le⟩ h.loaded_nodup
    hranked
  rw [take_zipIdx, List.map_take] at hfuse
  generalize (candidates.map (fun c => (c.chunkId, c.keywordRank))
      |>.foldl (fun d p => d.setMin p.1 p.2) Dict.empty) = keywordRanks at *
  have hspec := fullRanking_specified hk hd hkeyword hdense h.loaded_nodup
  have hlength : (fullRanking keywordRanks denseRanks loaded).length = loaded.length := by
    rw [← hspec.records.length_eq, List.length_map]
  refine ⟨fullRanking keywordRanks denseRanks loaded,
    ⟨(fullRanking keywordRanks denseRanks loaded).take request.requestedCount⟩, hspec, ?_, rfl, ?_, ?_,
    ?_⟩
  · exact retrieve_ok h hkeyword_ok hdense_ok hunion hfuse
  · rw [List.length_take, hlength]
  · rw [List.map_take, hspec.numbered, List.length_take]
    rcases le_total request.requestedCount (fullRanking keywordRanks denseRanks loaded).length with hle | hle
    · rw [List.take_range'_of_length_ge hle, min_eq_left hle]
    · rw [List.take_range'_of_length_le hle, min_eq_right hle]
  · have hids : ((fullRanking keywordRanks denseRanks loaded).map fun r => r.chunkId).Nodup := by
      have hperm := hspec.records.map fun r => r.trusted.chunkId
      rw [List.map_map] at hperm
      exact hperm.nodup_iff.mpr h.loaded_nodup
    exact hids.sublist ((List.take_sublist _ _).map _)

end Runs

section Example

def exampleCandidates : List KeywordCandidate := [⟨5, 1, Nat.one_pos⟩, ⟨6, 2, Nat.two_pos⟩]

/-- An identifier that is omitted, and a chunk at the second position. -/
def exampleProvided : List DenseCandidate := [⟨none, .finite, 0⟩, ⟨some (stableVectorId 6), .finite, 1⟩]

def exampleRecord (chunkId : UUID) : InternalAuthoritativeRetrievalRecord where
  trusted := ⟨3, 4, chunkId, [], [], none, none, none, none⟩
  documentContent := { text := [] }

def exampleRankedService : HybridRetrievalService where
  access := ⟨fun _ _ => .ok (), fun _ _ _ => .ok exampleCandidates⟩
  embeddingModel := ⟨1, fun _ => .ok (.list [.list [.float ⟨0⟩]])⟩
  denseRetrieval := ⟨fun _ _ _ => DenseProviderResult.mk? 2 exampleProvided⟩
  finalLoader := ⟨fun _ _ _ => .ok [exampleRecord 5, exampleRecord 6]⟩
  dimension_pos := Nat.one_pos
  nfc := exampleNfc

theorem hybrid_ranking_example : ∃ (request : RetrievalRequest) (ranking : List _) (result : _),
    SpecifiedRanking exampleCandidates exampleProvided [exampleRecord 5, exampleRecord 6] ranking ∧
    (exampleRankedService.retrieve ⟨⟨1, 2⟩, []⟩ 3 (some [(.str queryField, .str (str "a"))])).outcome =
      .ok result ∧ result.records = ranking.take request.requestedCount := by
  have hrequest : (parseRetrievalRequest exampleRankedService.nfc
      (some [(.str queryField, .str (str "a"))])).toOption.isSome := by decide +kernel
  obtain ⟨request, hparsed⟩ := Option.isSome_iff_exists.mp hrequest
  have hrequest_ok := toOption_eq_some.mp hparsed
  have hbuilt : (DenseProviderResult.mk? 2 exampleProvided).toOption.isSome := by decide +kernel
  obtain ⟨built, hresult⟩ := Option.isSome_iff_exists.mp hbuilt
  have hbuilt_ok := toOption_eq_some.mp hresult
  have hinput : RankingInput exampleRankedService ⟨⟨1, 2⟩, []⟩ 3
      (some [(.str queryField, .str (str "a"))]) request exampleCandidates exampleProvided
      [exampleRecord 5, exampleRecord 6] :=
    { access_ok := rfl
      request_ok := hrequest_ok
      candidates_ok := rfl
      candidates_le := by decide
      keywordRank_le := by decide
      provided_ok := ⟨_, [⟨0⟩], built, rfl, rfl, hbuilt_ok, hbuilt_ok⟩
      provided_le := by
        have hpos := request.count_pos
        change 2 ≤ _
        omega
      union_le := by decide +kernel
      loaded_ok := fun _ _ => rfl
      loaded_nodup := by decide
      loaded_subset := by decide +kernel }
  obtain ⟨ranking, result, hspec, hresult, htake, -⟩ := hybrid_ranking hinput
  exact ⟨request, ranking, result, hspec, hresult, htake⟩

end Example
end AgenticRag.Retrieval

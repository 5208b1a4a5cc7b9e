import AgenticRag.Retrieval.Hybrid

/-! The rank maps hold least ranks, and fusion of distinct records is a sort of
their exact scores. -/
namespace AgenticRag.Retrieval
open Lib Python

/-- The least rank of a chunk among the keyword candidates. -/
def KeywordRankOf (candidates : List KeywordCandidate) (chunkId : UUID) (rank : Option Nat) : Prop :=
  MinimumOf (fun n => ∃ candidate ∈ candidates, candidate.chunkId = chunkId ∧
    candidate.keywordRank = n) rank

/-- The chunk validly occurs in the candidate: a usable score and a canonical vector id. -/
def ValidOccurrence (candidate : DenseCandidate) (chunkId : UUID) : Prop :=
  candidate.providerScore ≠ .invalid ∧ parseCanonicalVectorId candidate.vectorId = some chunkId

/-- One plus the least provider position at which the chunk validly occurs. -/
def DenseRankOf (candidates : List DenseCandidate) (chunkId : UUID) (rank : Option Nat) : Prop :=
  MinimumOf (fun n => ∃ candidate ∈ candidates, ValidOccurrence candidate chunkId ∧
    candidate.absolutePosition + 1 = n) rank

section KeywordRanks
variable {candidates : List KeywordCandidate} {ranks : Ranks}

private theorem foldlM_keywordRankStep {ranks : Ranks}
    (h : ∀ c ∈ candidates, c.keywordRank ≤ maxRankedKeywordCandidates) :
    candidates.foldlM keywordRankStep ranks =
      .ok ((candidates.map fun c => (c.chunkId, c.keywordRank)).foldl
        (fun d p => d.setMin p.1 p.2) ranks) := by
  induction candidates generalizing ranks with
  | nil => rfl
  | cons c cs ih =>
    have hc : keywordRankStep ranks c = .ok (ranks.setMin c.chunkId c.keywordRank) :=
      if_neg (not_lt.mpr (h c List.mem_cons_self))
    rw [List.foldlM_cons, hc]
    exact ih fun c' hc' => h c' (List.mem_cons_of_mem _ hc')

theorem keywordRankMap_eq (hlen : candidates.length ≤ maxRankedKeywordCandidates)
    (h : ∀ c ∈ candidates, c.keywordRank ≤ maxRankedKeywordCandidates) :
    keywordRankMap candidates = .ok ((candidates.map fun c => (c.chunkId, c.keywordRank)).foldl
      (fun d p => d.setMin p.1 p.2) Dict.empty) := by
  rw [keywordRankMap, if_neg (not_lt.mpr hlen), foldlM_keywordRankStep h]

private theorem keywordRank_le_of_ok {ranks ranks' : Ranks}
    (h : candidates.foldlM keywordRankStep ranks = .ok ranks') :
    ∀ c ∈ candidates, c.keywordRank ≤ maxRankedKeywordCandidates := by
  induction candidates generalizing ranks with
  | nil => exact fun _ h => (List.not_mem_nil h).elim
  | cons c cs ih =>
    rw [List.foldlM_cons] at h
    obtain ⟨ranks₁, hc, h⟩ := bind_eq_ok.mp h
    unfold keywordRankStep at hc
    split at hc
    · cases hc
    · rename_i hle
      exact List.forall_mem_cons.mpr ⟨not_lt.mp hle, ih h⟩

theorem minimumOf_empty {κ : Type} [DecidableEq κ] {P : κ → Nat → Prop} (h : ∀ k n, ¬P k n) (k : κ) :
    MinimumOf (P k) ((Dict.empty : Dict κ Nat).get? k) := h k

/-- What an accepted rank map says of each chunk. -/
theorem keywordRankMap_ok (h : keywordRankMap candidates = .ok ranks) :
    (∀ chunkId, KeywordRankOf candidates chunkId (ranks.get? chunkId)) ∧
      ∀ c ∈ candidates, c.keywordRank ≤ maxRankedKeywordCandidates := by
  have hfold := h
  unfold keywordRankMap at hfold
  split at hfold
  · cases hfold
  have hle := keywordRank_le_of_ok hfold
  rw [foldlM_keywordRankStep hle] at hfold
  obtain rfl := Except.ok.inj hfold
  refine ⟨fun chunkId => ?_, hle⟩
  refine (Dict.minimumOf_congr fun n => ?_).mp
    (Dict.minimumOf_foldl_setMin (minimumOf_empty fun _ _ => id) chunkId)
  simp

end KeywordRanks

section DenseRanks
variable {positionCount : Nat} {candidates : List DenseCandidate}

/-- The chunk and the rank that a candidate contributes. -/
def DenseCandidate.occurrence (candidate : DenseCandidate) : Option (UUID × Nat) :=
  if candidate.providerScore = .invalid then none
  else (parseCanonicalVectorId candidate.vectorId).map fun chunkId =>
    (chunkId, candidate.absolutePosition + 1)

theorem occurrence_eq_some {candidate : DenseCandidate} {chunkId : UUID} {n : Nat} :
    candidate.occurrence = some (chunkId, n) ↔
      ValidOccurrence candidate chunkId ∧ candidate.absolutePosition + 1 = n := by
  unfold DenseCandidate.occurrence ValidOccurrence
  split
  · simp_all
  · rename_i h
    simp only [Option.map_eq_some_iff, Prod.mk.injEq]
    constructor
    · rintro ⟨_, hp, rfl, rfl⟩
      exact ⟨⟨h, hp⟩, rfl⟩
    · rintro ⟨⟨_, hp⟩, rfl⟩
      exact ⟨chunkId, hp, rfl, rfl⟩

theorem read_ok {g g' : Gathered positionCount} {candidate : DenseCandidate}
    (h : g.read candidate = .ok g') :
    g'.positions = candidate.absolutePosition :: g.positions ∧
      g'.ranks = (candidate.occurrence.toList).foldl (fun d p => d.setMin p.1 p.2) g.ranks := by
  unfold Gathered.read at h
  split at h
  · split at h
    · cases h
    obtain ⟨_, _, h⟩ := bind_eq_ok.mp h
    unfold DenseCandidate.occurrence
    split at h
    · rename_i hinvalid
      obtain rfl := Except.ok.inj h
      rw [if_pos hinvalid]
      exact ⟨rfl, rfl⟩
    · rename_i hvalid
      rw [if_neg hvalid]
      split at h
      · rename_i hparse
        obtain rfl := Except.ok.inj h
        rw [hparse]
        exact ⟨rfl, rfl⟩
      · rename_i chunkId hparse
        obtain rfl := Except.ok.inj h
        rw [hparse]
        exact ⟨rfl, rfl⟩
  · cases h

private theorem foldlM_read_ok {g g' : Gathered positionCount}
    (h : candidates.foldlM Gathered.read g = .ok g') :
    g'.ranks = (candidates.filterMap DenseCandidate.occurrence).foldl
      (fun d p => d.setMin p.1 p.2) g.ranks := by
  induction candidates generalizing g with
  | nil =>
    obtain rfl := Except.ok.inj h
    rfl
  | cons c cs ih =>
    rw [List.foldlM_cons] at h
    obtain ⟨g₁, hg, h⟩ := bind_eq_ok.mp h
    rw [ih h, (read_ok hg).2, List.filterMap_cons]
    cases c.occurrence <;> rfl

theorem DenseProviderResult.mk?_positionCount {n : Nat} {result : DenseProviderResult}
    (h : DenseProviderResult.mk? n candidates = .ok result) : result.positionCount = n := by
  unfold DenseProviderResult.mk? at h
  split at h
  · split at h
    · cases h
    obtain ⟨g, _, h⟩ := bind_eq_ok.mp h
    split at h
    · obtain rfl := Except.ok.inj h
      rfl
    · cases h
  · cases h

/-- The ranks of a constructed result are absolute: omitted candidates leave gaps. -/
theorem DenseProviderResult.mk?_ranks {n : Nat} {result : DenseProviderResult}
    (h : DenseProviderResult.mk? n candidates = .ok result) (chunkId : UUID) :
    DenseRankOf candidates chunkId
      ((⟨result.rankedChunkIds, result.nodup⟩ : Ranks).get? chunkId) := by
  unfold DenseProviderResult.mk? at h
  split at h
  · split at h
    · cases h
    obtain ⟨g, hg, h⟩ := bind_eq_ok.mp h
    split at h
    · obtain rfl := Except.ok.inj h
      have hget : (⟨orderBy Prod.snd g.ranks.items, ((orderBy_perm g.ranks.items).map
          Prod.fst).nodup_iff.mpr g.ranks.nodup⟩ : Ranks).get? chunkId = g.ranks.get? chunkId :=
        Dict.get?_congr (fun _ => mem_orderBy) chunkId
      rw [hget, foldlM_read_ok hg]
      refine (Dict.minimumOf_congr fun n => ?_).mp
        (Dict.minimumOf_foldl_setMin (minimumOf_empty fun _ _ => id) chunkId)
      simp only [false_or, List.mem_filterMap, occurrence_eq_some]
    · cases h
  · cases h

end DenseRanks

section Scores

/-- The exact sum of the reciprocals over the present ranks. -/
def reciprocalRankSum (keywordRank denseRank : Option Nat) : Rat :=
  (keywordRank.elim 0 fun r => 1 / ((60 + r : Nat) : Rat)) +
    denseRank.elim 0 fun r => 1 / ((60 + r : Nat) : Rat)

theorem rrfScore_eq {keywordRank denseRank : Option Nat} (h : keywordRank ≠ none ∨ denseRank ≠ none) :
    rrfScore keywordRank denseRank = .ok (reciprocalRankSum keywordRank denseRank) := by
  have hnot : ¬(keywordRank = none ∧ denseRank = none) := not_and_or.mpr h
  rw [rrfScore, if_neg hnot]
  cases keywordRank <;> cases denseRank <;> rfl

/-- The entry of `scored` for a record. -/
def scoredRecord (keywordRanks denseRanks : Ranks) (record : InternalAuthoritativeRetrievalRecord) :
    ScoredRecord :=
  let keywordRank := keywordRanks.get? record.trusted.chunkId
  let denseRank := denseRanks.get? record.trusted.chunkId
  { score := reciprocalRankSum keywordRank denseRank
    best := [keywordRank, denseRank].reduceOption.min?.getD absentRank
    keywordOrder := keywordRank.getD absentRank
    denseOrder := denseRank.getD absentRank
    chunkId := record.trusted.chunkId
    record := record
    keywordRank := keywordRank
    denseRank := denseRank }

/-- A rank that some source gives the record. -/
def Ranked (keywordRanks denseRanks : Ranks) (record : InternalAuthoritativeRetrievalRecord) : Prop :=
  record.trusted.chunkId ∈ keywordRanks.keys ∨ record.trusted.chunkId ∈ denseRanks.keys

variable {keywordRanks denseRanks : Ranks}

theorem scoreRecord_eq {record : InternalAuthoritativeRetrievalRecord}
    (h : Ranked keywordRanks denseRanks record) :
    scoreRecord keywordRanks denseRanks (record.trusted.chunkId, record) =
      .ok (scoredRecord keywordRanks denseRanks record) := by
  have hne : keywordRanks.get? record.trusted.chunkId ≠ none ∨
      denseRanks.get? record.trusted.chunkId ≠ none := by
    rw [Ne, Ne, Dict.get?_eq_none, Dict.get?_eq_none, not_not, not_not]
    exact h
  unfold scoreRecord
  dsimp only
  rw [rrfScore_eq hne]
  rfl

private def keyed (record : InternalAuthoritativeRetrievalRecord) :
    UUID × InternalAuthoritativeRetrievalRecord := (record.trusted.chunkId, record)

private theorem byChunkStep_eq {byChunk : Dict UUID InternalAuthoritativeRetrievalRecord}
    {record : InternalAuthoritativeRetrievalRecord} (hnew : record.trusted.chunkId ∉ byChunk.keys)
    (h : Ranked keywordRanks denseRanks record) :
    byChunkStep keywordRanks denseRanks byChunk record =
      .ok (byChunk.set record.trusted.chunkId record) := by
  unfold byChunkStep Ranked at *
  dsimp only
  rw [if_neg]
  tauto

private theorem byChunk_total {byChunk : Dict UUID InternalAuthoritativeRetrievalRecord}
    {records : List InternalAuthoritativeRetrievalRecord}
    (hnodup : (records.map fun r => r.trusted.chunkId).Nodup)
    (hnew : ∀ r ∈ records, r.trusted.chunkId ∉ byChunk.keys)
    (hranked : ∀ r ∈ records, Ranked keywordRanks denseRanks r) :
    ∃ d, records.foldlM (byChunkStep keywordRanks denseRanks) byChunk = .ok d ∧
      d.items = byChunk.items ++ records.map keyed := by
  induction records generalizing byChunk with
  | nil => exact ⟨byChunk, rfl, (List.append_nil _).symm⟩
  | cons record records ih =>
    rw [List.map_cons, List.nodup_cons] at hnodup
    rw [List.forall_mem_cons] at hnew hranked
    have hnew' : ∀ r ∈ records,
        r.trusted.chunkId ∉ (byChunk.set record.trusted.chunkId record).keys := by
      intro r hr hmem
      rcases Dict.mem_keys_set.mp hmem with he | hmem
      · exact hnodup.1 (List.mem_map.mpr ⟨r, hr, he⟩)
      · exact hnew.2 r hr hmem
    obtain ⟨d, hd, hitems⟩ := ih hnodup.2 hnew' hranked.2
    refine ⟨d, ?_, ?_⟩
    · rw [List.foldlM_cons, byChunkStep_eq hnew.1 hranked.1]
      exact hd
    · rw [hitems, Dict.set_items_of_not_mem hnew.1, List.append_assoc, List.map_cons]
      rfl

/-- Fusion of distinct ranked records: sort by the key, cut, and number. -/
theorem fuseAuthoritativeRecords_eq {records : List InternalAuthoritativeRetrievalRecord}
    {requestedCount : Nat} (hcount : 1 ≤ requestedCount ∧ requestedCount ≤ 50)
    (hnodup : (records.map fun r => r.trusted.chunkId).Nodup)
    (hranked : ∀ r ∈ records, Ranked keywordRanks denseRanks r) :
    fuseAuthoritativeRecords records keywordRanks denseRanks requestedCount =
      .ok ((((orderBy ScoredRecord.key (records.map (scoredRecord keywordRanks denseRanks))).take
        requestedCount).zipIdx 1).map fusedRecord) := by
  have hnew : ∀ r ∈ records, r.trusted.chunkId ∉
      (Dict.empty : Dict UUID InternalAuthoritativeRetrievalRecord).keys := fun _ _ => List.not_mem_nil
  obtain ⟨d, hd, hitems⟩ := byChunk_total hnodup hnew hranked
  have hscored : d.items.mapM (scoreRecord keywordRanks denseRanks) =
      .ok (records.map (scoredRecord keywordRanks denseRanks)) := by
    rw [hitems, mapM_eq_ok]
    refine List.forall₂_map_left_iff.mpr (List.forall₂_map_right_iff.mpr (List.forall₂_same.mpr ?_))
    exact fun r hr => scoreRecord_eq (hranked r hr)
  rw [fuseAuthoritativeRecords, if_pos hcount]
  exact bind_eq_ok.mpr ⟨d, hd, bind_eq_ok.mpr ⟨_, hscored, rfl⟩⟩

end Scores
end AgenticRag.Retrieval

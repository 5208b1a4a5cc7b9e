import AgenticRag.Retrieval.Fusion

/-! Hybrid retrieval raises retrieval errors only, and it reaches the final loader
only when every earlier step has succeeded. -/
namespace AgenticRag.Retrieval
open Lib Python Ingestion

/-- The four errors that a caller of `retrieve` handles. -/
def IsRetrievalError (e : RetrievalException) : Prop :=
  e = .authentication ∨ e = .targetNotFound ∨ e = .requestValidation ∨ e = .unavailable

/-- The collaborators raise their documented errors, and return anything otherwise. -/
structure DocumentedErrors (service : HybridRetrievalService) : Prop where
  verifyInitialAccess : ∀ proof knowledgeBaseId,
    Raises IsRetrievalError (service.access.verifyInitialAccess proof knowledgeBaseId)
  scopedKeywordCandidates : ∀ proof knowledgeBaseId normalizedQuery, Raises IsRetrievalError
    (service.access.scopedKeywordCandidates proof knowledgeBaseId normalizedQuery)
  embed : ∀ texts, Raises (fun e => ∃ cause, e = .embedding cause) (service.embeddingModel.embed texts)
  query : ∀ embedding knowledgeBaseId candidateCount, Raises (· = .denseProvider)
    (service.denseRetrieval.query embedding knowledgeBaseId candidateCount)
  loadAuthoritativeRecords : ∀ proof knowledgeBaseId batches, Raises IsRetrievalError
    (service.finalLoader.loadAuthoritativeRecords proof knowledgeBaseId batches)

private theorem unavailable : IsRetrievalError .unavailable := .inr (.inr (.inr rfl))

section Steps
variable {service : HybridRetrievalService} {proof : SessionAuthenticationProof}
  {knowledgeBaseId : UUID} {payload : Payload}

theorem raises_keywordRetrieve (h : DocumentedErrors service) :
    Raises IsRetrievalError (service.keywordRetrieve proof knowledgeBaseId payload).outcome := by
  rw [HybridRetrievalService.keywordRetrieve, Traced.outcome_bind]
  refine raises_bind (h.verifyInitialAccess proof knowledgeBaseId) fun _ _ => ?_
  rw [Traced.outcome_bind]
  refine raises_bind ?_ fun request _ => ?_
  · exact (raises_parseRetrievalRequest service.nfc payload).mono fun e he => .inr (.inr (.inl he))
  · rw [Traced.outcome_bind]
    exact raises_bind (h.scopedKeywordCandidates _ _ _) fun _ _ => raises_ok _

theorem raises_keywordRankMap (candidates : List KeywordCandidate) :
    Raises IsRetrievalError (keywordRankMap candidates) := by
  unfold keywordRankMap
  split
  · exact raises_error unavailable
  · refine raises_foldlM (fun ranks candidate => ?_) _ _
    unfold keywordRankStep
    split
    · exact raises_error unavailable
    · exact raises_ok _

theorem raises_validateQueryEmbedding (vectors : Object) (dimension : Nat) :
    Raises (· = .unavailable) (validateQueryEmbedding vectors dimension) := by
  unfold validateQueryEmbedding
  split
  · split
    · exact raises_error rfl
    · split
      · exact raises_error rfl
      · refine raises_mapM fun value _ => ?_
        unfold queryValue
        split
        · split
          · exact raises_ok _
          · exact raises_error rfl
        · exact raises_error rfl
  · exact raises_error rfl

/-- The count of a validated request is in the domain of `configured_provider_count`. -/
theorem configuredProviderCount_eq (request : RetrievalRequest) :
    configuredProviderCount request.requestedCount = .ok (min 128 (request.requestedCount * 4)) :=
  if_pos ⟨request.count_pos, request.count_le⟩

/-- The exceptions inside the `try` block of `retrieve`. -/
private def IsDenseStageError (e : RetrievalException) : Prop :=
  (∃ cause, e = .embedding cause) ∨ e = .denseProvider ∨ e = .unavailable

theorem raises_denseStage (h : DocumentedErrors service) (request : RetrievalRequest) :
    Raises IsRetrievalError (Traced.rescue isProviderError .unavailable
      (service.denseStage knowledgeBaseId request)).outcome := by
  have hstage : Raises IsDenseStageError (service.denseStage knowledgeBaseId request).outcome := by
    rw [HybridRetrievalService.denseStage, Traced.outcome_bind]
    refine raises_bind ((h.embed _).mono fun _ he => .inl he) fun raw _ => ?_
    rw [Traced.outcome_bind]
    refine raises_bind ((raises_validateQueryEmbedding _ _).mono fun _ he => .inr (.inr he))
      fun embedding _ => ?_
    rw [Traced.outcome_bind, Traced.outcome_lift, configuredProviderCount_eq]
    refine raises_bind (raises_ok _) fun providerCount _ => ?_
    rw [Traced.outcome_bind]
    refine raises_bind ((h.query _ _ _).mono fun _ he => .inr (.inl he)) fun result _ => ?_
    rw [Traced.outcome_lift]
    unfold denseRankMap
    split
    · exact raises_error (.inr (.inl rfl))
    · exact raises_ok _
  rw [Traced.outcome_rescue]
  refine raises_rescue hstage ?_ unavailable
  rintro e (⟨_, rfl⟩ | rfl | rfl) hcaught
  · cases hcaught
  · cases hcaught
  · exact unavailable

variable {keywordRanks denseRanks : Ranks}

private theorem byChunk_ranked {records : List InternalAuthoritativeRetrievalRecord}
    {byChunk : Dict UUID InternalAuthoritativeRetrievalRecord}
    (h : records.foldlM (byChunkStep keywordRanks denseRanks) Dict.empty = .ok byChunk) :
    ∀ p ∈ byChunk.items, p.1 = p.2.trusted.chunkId ∧ Ranked keywordRanks denseRanks p.2 := by
  refine foldlM_invariant (I := fun d : Dict UUID InternalAuthoritativeRetrievalRecord =>
    ∀ p ∈ d.items, p.1 = p.2.trusted.chunkId ∧ Ranked keywordRanks denseRanks p.2) ?_
    (fun _ h => (List.not_mem_nil h).elim) h
  intro d record d' _ hI hstep
  unfold byChunkStep at hstep
  dsimp only at hstep
  split at hstep
  · cases hstep
  · rename_i hnot
    obtain rfl := Except.ok.inj hstep
    rintro ⟨k, v⟩ hp
    rcases Dict.mem_set.mp hp with ⟨rfl, rfl⟩ | ⟨_, hp⟩
    · refine ⟨rfl, ?_⟩
      unfold Ranked
      tauto
    · exact hI _ hp

/-- A record that is kept has a rank, so its score exists. -/
theorem raises_fuse {requestedCount : Nat} (hcount : 1 ≤ requestedCount ∧ requestedCount ≤ 50)
    (records : List InternalAuthoritativeRetrievalRecord) : Raises IsRetrievalError
      (fuseAuthoritativeRecords records keywordRanks denseRanks requestedCount) := by
  rw [fuseAuthoritativeRecords, if_pos hcount]
  refine raises_bind ?_ fun byChunk hbyChunk => raises_bind ?_ fun _ _ => raises_ok _
  · refine raises_foldlM (fun d record => ?_) _ _
    unfold byChunkStep
    dsimp only
    split
    · exact raises_error unavailable
    · exact raises_ok _
  · refine raises_mapM fun p hp => ?_
    obtain ⟨hid, hranked⟩ := byChunk_ranked hbyChunk p hp
    obtain ⟨chunkId, record⟩ := p
    obtain rfl : chunkId = record.trusted.chunkId := hid
    rw [scoreRecord_eq hranked]
    exact raises_ok _

/-- The bound on the union keeps the final candidate limit out of reach. -/
theorem raises_finalStage (h : DocumentedErrors service) {requestedCount : Nat}
    (hcount : 1 ≤ requestedCount ∧ requestedCount ≤ 50)
    (hunion : (HybridRetrievalService.candidateUnion keywordRanks denseRanks).length ≤
      maxUniqueCandidates) : Raises IsRetrievalError
      (service.finalStage proof knowledgeBaseId requestedCount keywordRanks denseRanks).outcome := by
  rw [HybridRetrievalService.finalStage, Traced.outcome_bind]
  refine raises_bind ?_ fun authoritative _ => ?_
  · rw [HybridRetrievalService.validateAndLoad, Traced.outcome_bind]
    refine raises_bind ?_ fun batches _ => h.loadAuthoritativeRecords _ _ _
    have hle : ¬(orderBy id (HybridRetrievalService.candidateUnion keywordRanks
        denseRanks).dedup).length > maxFinalCandidates := by
      rw [(orderBy_perm _).length_eq, HybridRetrievalService.candidateUnion_dedup]
      exact not_lt.mpr hunion
    rw [Traced.outcome_lift, canonicalCandidateBatches, if_neg hle]
    exact raises_ok _
  · dsimp only
    split
    · exact raises_error unavailable
    · rw [Traced.outcome_bind]
      exact raises_bind (raises_fuse hcount authoritative) fun _ _ => raises_ok _

theorem raises_retrieve (h : DocumentedErrors service) :
    Raises IsRetrievalError (service.retrieve proof knowledgeBaseId payload).outcome := by
  rw [HybridRetrievalService.retrieve, Traced.outcome_bind]
  refine raises_bind (raises_keywordRetrieve h) fun scopedResult _ => ?_
  rw [Traced.outcome_bind]
  refine raises_bind (raises_keywordRankMap _) fun keywordRanks _ => ?_
  rw [Traced.outcome_bind]
  refine raises_bind (raises_denseStage h _) fun denseRanks _ => ?_
  split
  · exact raises_error unavailable
  · rename_i hunion
    exact raises_finalStage h ⟨scopedResult.request.count_pos, scopedResult.request.count_le⟩
      (not_lt.mp hunion)

/-- A step before the final one fails: the keyword retrieval, its rank map, the
embedding or the dense query with its checks, or the bound on the union. -/
inductive StepFails (service : HybridRetrievalService) (proof : SessionAuthenticationProof)
    (knowledgeBaseId : UUID) (payload : Payload) : Prop where
  | keyword (e : RetrievalException)
    (h : (service.keywordRetrieve proof knowledgeBaseId payload).outcome = .error e)
  | keywordRanks (scopedResult : ScopedKeywordResult) (e : RetrievalException)
    (hk : (service.keywordRetrieve proof knowledgeBaseId payload).outcome = .ok scopedResult)
    (h : keywordRankMap scopedResult.candidates = .error e)
  | dense (scopedResult : ScopedKeywordResult) (e : RetrievalException)
    (hk : (service.keywordRetrieve proof knowledgeBaseId payload).outcome = .ok scopedResult)
    (h : (service.denseStage knowledgeBaseId scopedResult.request).outcome = .error e)
  | union (scopedResult : ScopedKeywordResult) (keywordRanks denseRanks : Ranks)
    (hk : (service.keywordRetrieve proof knowledgeBaseId payload).outcome = .ok scopedResult)
    (hranks : keywordRankMap scopedResult.candidates = .ok keywordRanks)
    (hd : (service.denseStage knowledgeBaseId scopedResult.request).outcome = .ok denseRanks)
    (h : 192 < (HybridRetrievalService.candidateUnion keywordRanks denseRanks).length)

private theorem load_not_mem_keyword (batches : List CandidateBatch) :
    .loadAuthoritativeRecords batches ∉
      (service.keywordRetrieve proof knowledgeBaseId payload).calls := by
  simp [HybridRetrievalService.keywordRetrieve, Traced.mem_calls_bind]

private theorem load_not_mem_dense (request : RetrievalRequest) (batches : List CandidateBatch) :
    .loadAuthoritativeRecords batches ∉ (service.denseStage knowledgeBaseId request).calls := by
  simp [HybridRetrievalService.denseStage, Traced.mem_calls_bind]

/-- The final loader is invoked only after every earlier step has succeeded. -/
theorem stages_of_load {batches : List CandidateBatch}
    (h : .loadAuthoritativeRecords batches ∈
      (service.retrieve proof knowledgeBaseId payload).calls) :
    ∃ scopedResult keywordRanks denseRanks,
      (service.keywordRetrieve proof knowledgeBaseId payload).outcome = .ok scopedResult ∧
      keywordRankMap scopedResult.candidates = .ok keywordRanks ∧
      (service.denseStage knowledgeBaseId scopedResult.request).outcome = .ok denseRanks ∧
      (HybridRetrievalService.candidateUnion keywordRanks denseRanks).length ≤ maxUniqueCandidates := by
  rw [HybridRetrievalService.retrieve, Traced.mem_calls_bind] at h
  obtain ⟨scopedResult, hscoped, h⟩ := h.resolve_left (load_not_mem_keyword batches)
  rw [Traced.mem_calls_bind] at h
  obtain ⟨keywordRanks, hkeyword, h⟩ := h.resolve_left List.not_mem_nil
  rw [Traced.mem_calls_bind] at h
  obtain ⟨denseRanks, hdense, h⟩ := h.resolve_left (load_not_mem_dense _ batches)
  rw [Traced.outcome_rescue, rescue_eq_ok] at hdense
  split at h
  · exact (List.not_mem_nil h).elim
  · rename_i hunion
    exact ⟨scopedResult, keywordRanks, denseRanks, hscoped, hkeyword, hdense, not_lt.mp hunion⟩

private theorem not_stages_of_fails (h : StepFails service proof knowledgeBaseId payload)
    {scopedResult : ScopedKeywordResult} {keywordRanks denseRanks : Ranks}
    (hscoped : (service.keywordRetrieve proof knowledgeBaseId payload).outcome = .ok scopedResult)
    (hkeyword : keywordRankMap scopedResult.candidates = .ok keywordRanks)
    (hdense : (service.denseStage knowledgeBaseId scopedResult.request).outcome = .ok denseRanks) :
    192 < (HybridRetrievalService.candidateUnion keywordRanks denseRanks).length := by
  cases h with
  | keyword e he => cases he.symm.trans hscoped
  | keywordRanks s e hk he =>
    obtain rfl := Except.ok.inj (hk.symm.trans hscoped)
    cases he.symm.trans hkeyword
  | dense s e hk he =>
    obtain rfl := Except.ok.inj (hk.symm.trans hscoped)
    cases he.symm.trans hdense
  | union s kr dr hk hr hd hlt =>
    obtain rfl := Except.ok.inj (hk.symm.trans hscoped)
    obtain rfl := Except.ok.inj (hr.symm.trans hkeyword)
    obtain rfl := Except.ok.inj (hd.symm.trans hdense)
    exact hlt

/-- A failed step leaves the final loader uncalled and yields no result. -/
theorem fails_of_step (h : StepFails service proof knowledgeBaseId payload) :
    (∀ batches, .loadAuthoritativeRecords batches ∉
      (service.retrieve proof knowledgeBaseId payload).calls) ∧
    ∀ result, (service.retrieve proof knowledgeBaseId payload).outcome ≠ .ok result := by
  constructor
  · intro batches hmem
    obtain ⟨_, _, _, hscoped, hkeyword, hdense, hunion⟩ := stages_of_load hmem
    exact absurd hunion (not_le.mpr (not_stages_of_fails h hscoped hkeyword hdense))
  · intro result hresult
    obtain ⟨r⟩ := HybridRetrievalService.returned _ _ _ hresult
    exact absurd r.union_le
      (not_le.mpr (not_stages_of_fails h r.keyword_ok r.keywordRanks_ok r.dense_ok))

private theorem keywordRetrieve_calls {scopedResult : ScopedKeywordResult}
    (h : (service.keywordRetrieve proof knowledgeBaseId payload).outcome = .ok scopedResult) :
    (service.keywordRetrieve proof knowledgeBaseId payload).calls =
      [.verifyInitialAccess, .scopedKeywordCandidates scopedResult.request.normalizedQuery] := by
  rw [HybridRetrievalService.keywordRetrieve, Traced.outcome_bind] at h
  obtain ⟨_, haccess, h⟩ := bind_eq_ok.mp h
  rw [Traced.outcome_bind] at h
  obtain ⟨request, hrequest, h⟩ := bind_eq_ok.mp h
  rw [Traced.outcome_bind] at h
  obtain ⟨candidates, hcandidates, h⟩ := bind_eq_ok.mp h
  obtain rfl := Except.ok.inj h
  rw [HybridRetrievalService.keywordRetrieve, Traced.calls_bind_ok haccess,
    Traced.calls_bind_ok hrequest, Traced.calls_bind_ok hcandidates]
  rfl

private theorem denseStage_calls {request : RetrievalRequest}
    (h : (service.denseStage knowledgeBaseId request).outcome = .ok denseRanks) :
    ∃ candidateCount, (service.denseStage knowledgeBaseId request).calls =
      [.embed request.normalizedQuery, .denseQuery candidateCount] := by
  rw [HybridRetrievalService.denseStage, Traced.outcome_bind] at h
  obtain ⟨raw, hraw, h⟩ := bind_eq_ok.mp h
  rw [Traced.outcome_bind] at h
  obtain ⟨embedding, hembedding, h⟩ := bind_eq_ok.mp h
  rw [Traced.outcome_bind] at h
  obtain ⟨candidateCount, hcount, h⟩ := bind_eq_ok.mp h
  rw [Traced.outcome_bind] at h
  obtain ⟨result, hresult, h⟩ := bind_eq_ok.mp h
  refine ⟨candidateCount, ?_⟩
  rw [HybridRetrievalService.denseStage, Traced.calls_bind_ok hraw, Traced.calls_bind_ok hembedding,
    Traced.calls_bind_ok hcount, Traced.calls_bind_ok hresult]
  rfl

private theorem finalStage_calls {requestedCount : Nat} {result : HybridRetrievalResult}
    (h : (service.finalStage proof knowledgeBaseId requestedCount keywordRanks denseRanks).outcome =
      .ok result) : ∃ batches,
      canonicalCandidateBatches (HybridRetrievalService.candidateUnion keywordRanks denseRanks) =
        .ok batches ∧
      (service.finalStage proof knowledgeBaseId requestedCount keywordRanks denseRanks).calls =
        [.loadAuthoritativeRecords batches] := by
  rw [HybridRetrievalService.finalStage, Traced.outcome_bind] at h
  obtain ⟨authoritative, hload, h⟩ := bind_eq_ok.mp h
  have hbatches := hload
  rw [HybridRetrievalService.validateAndLoad, Traced.outcome_bind] at hbatches
  obtain ⟨batches, hbatches, hloader⟩ := bind_eq_ok.mp hbatches
  refine ⟨batches, hbatches, ?_⟩
  rw [HybridRetrievalService.finalStage, Traced.calls_bind_ok hload,
    HybridRetrievalService.validateAndLoad, Traced.calls_bind_ok hbatches]
  dsimp only at h ⊢
  split at h
  · cases h
  · rename_i hids
    rw [Traced.outcome_bind] at h
    obtain ⟨records, hfused, _⟩ := bind_eq_ok.mp h
    rw [if_neg hids, Traced.calls_bind_ok hfused]
    rfl

/-- The calls of a retrieval that returned: the final loader once, after the dense
query, with the canonical batches of the candidate union. -/
structure LoadedOnce (service : HybridRetrievalService) (proof : SessionAuthenticationProof)
    (knowledgeBaseId : UUID) (payload : Payload) (scopedResult : ScopedKeywordResult)
    (keywordRanks denseRanks : Ranks) (batches : List CandidateBatch) (candidateCount : Nat) : Prop where
  keyword_ok : (service.keywordRetrieve proof knowledgeBaseId payload).outcome = .ok scopedResult
  keywordRanks_ok : keywordRankMap scopedResult.candidates = .ok keywordRanks
  dense_ok : (service.denseStage knowledgeBaseId scopedResult.request).outcome = .ok denseRanks
  canonical : canonicalCandidateBatches
    (HybridRetrievalService.candidateUnion keywordRanks denseRanks) = .ok batches
  ascending : batches.flatten.Pairwise (· < ·)
  union : ∀ chunkId, chunkId ∈ batches.flatten ↔ chunkId ∈ keywordRanks.keys ∨ chunkId ∈ denseRanks.keys
  calls : (service.retrieve proof knowledgeBaseId payload).calls =
    [.verifyInitialAccess, .scopedKeywordCandidates scopedResult.request.normalizedQuery,
      .embed scopedResult.request.normalizedQuery, .denseQuery candidateCount,
      .loadAuthoritativeRecords batches]

theorem loadedOnce {result : HybridRetrievalResult}
    (h : (service.retrieve proof knowledgeBaseId payload).outcome = .ok result) :
    ∃ scopedResult keywordRanks denseRanks batches candidateCount, LoadedOnce service proof
      knowledgeBaseId payload scopedResult keywordRanks denseRanks batches candidateCount := by
  have hrun := h
  rw [HybridRetrievalService.retrieve, Traced.outcome_bind] at h
  obtain ⟨scopedResult, hscoped, h⟩ := bind_eq_ok.mp h
  rw [Traced.outcome_bind] at h
  obtain ⟨keywordRanks, hkeyword, h⟩ := bind_eq_ok.mp h
  rw [Traced.outcome_bind] at h
  obtain ⟨denseRanks, hrescued, h⟩ := bind_eq_ok.mp h
  have hdense := hrescued
  rw [Traced.outcome_rescue, rescue_eq_ok] at hdense
  split at h
  · cases h
  rename_i hunion
  obtain ⟨batches, hbatches, hfinal⟩ := finalStage_calls h
  obtain ⟨candidateCount, hcalls⟩ := denseStage_calls hdense
  obtain ⟨hascending, hmem⟩ := canonicalCandidateBatches_flatten hbatches
  refine ⟨scopedResult, keywordRanks, denseRanks, batches, candidateCount, hscoped, hkeyword, hdense,
    hbatches, hascending, ?_, ?_⟩
  · exact fun chunkId => (hmem chunkId).trans HybridRetrievalService.mem_candidateUnion
  · rw [HybridRetrievalService.retrieve, Traced.calls_bind_ok hscoped, Traced.calls_bind_ok hkeyword,
      Traced.calls_bind_ok hrescued, if_neg hunion, hfinal, Traced.calls_rescue, hcalls,
      keywordRetrieve_calls hscoped]
    rfl

end Steps

/-- Whatever the collaborators return, a retrieval returns or raises a retrieval error;
a failed step leaves the final loader uncalled; and a result has called it once. -/
theorem retrieval_fails_closed {service : HybridRetrievalService} (h : DocumentedErrors service)
    (proof : SessionAuthenticationProof) (knowledgeBaseId : UUID) (payload : Payload) :
    Raises IsRetrievalError (service.retrieve proof knowledgeBaseId payload).outcome ∧
    (StepFails service proof knowledgeBaseId payload →
      (∀ batches, .loadAuthoritativeRecords batches ∉
        (service.retrieve proof knowledgeBaseId payload).calls) ∧
      ∀ result, (service.retrieve proof knowledgeBaseId payload).outcome ≠ .ok result) ∧
    ∀ result, (service.retrieve proof knowledgeBaseId payload).outcome = .ok result →
      ∃ scopedResult keywordRanks denseRanks batches candidateCount, LoadedOnce service proof
        knowledgeBaseId payload scopedResult keywordRanks denseRanks batches candidateCount :=
  ⟨raises_retrieve h, fails_of_step, fun _ => loadedOnce⟩

section Example

/-- A provider that is down. -/
def exampleFailingService : HybridRetrievalService where
  access := ⟨fun _ _ => .ok (), fun _ _ _ => .ok [⟨5, 1, Nat.one_pos⟩]⟩
  embeddingModel := ⟨1, fun _ => .ok (.list [.list [.float ⟨0⟩]])⟩
  denseRetrieval := ⟨fun _ _ _ => .error .denseProvider⟩
  finalLoader := ⟨fun _ _ _ => .ok []⟩
  dimension_pos := Nat.one_pos
  nfc := exampleNfc

theorem retrieval_fails_closed_example :
    Raises IsRetrievalError (exampleFailingService.retrieve ⟨⟨1, 2⟩, []⟩ 3
      (some [(.str queryField, .str (str "a"))])).outcome := by
  have hdocumented : DocumentedErrors exampleFailingService :=
    { verifyInitialAccess := fun _ _ => raises_ok ()
      scopedKeywordCandidates := fun _ _ _ => raises_ok _
      embed := fun _ => raises_ok _
      query := fun _ _ _ => raises_error rfl
      loadAuthoritativeRecords := fun _ _ _ => raises_ok _ }
  exact (retrieval_fails_closed hdocumented ⟨⟨1, 2⟩, []⟩ 3
    (some [(.str queryField, .str (str "a"))])).1

end Example
end AgenticRag.Retrieval

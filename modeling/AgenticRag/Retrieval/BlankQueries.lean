import AgenticRag.Retrieval.FailClosed

/-! Which accepted queries the embedding boundary takes for blank: the request and the
boundary disagree on what whitespace is. -/
namespace AgenticRag.Retrieval
open Lib Python Ingestion

section Whitespace

theorem isSpace_of_isAdr008Whitespace {c : CodePoint} (h : isAdr008Whitespace c = true) :
    isSpace c = true := by
  simp only [isAdr008Whitespace, isSpace, Bool.or_eq_true, Bool.and_eq_true, decide_eq_true_eq,
    beq_iff_eq] at h ⊢
  omega

/-- Only whitespace is dropped. -/
theorem mem_normalizeAdr008From_of_mem {started pending : Bool} {s : Str} {c : CodePoint} (hc : c ∈ s)
    (hblank : isAdr008Whitespace c = false) : c ∈ normalizeAdr008From started pending s := by
  induction s generalizing started pending with
  | nil => cases hc
  | cons d rest ih =>
    rw [normalizeAdr008From]
    rcases List.mem_cons.mp hc with rfl | hc
    · rw [hblank, if_neg Bool.false_ne_true]
      split
      · exact List.mem_cons_of_mem _ List.mem_cons_self
      · exact List.mem_cons_self
    · split
      · exact ih hc
      split
      · exact List.mem_cons_of_mem _ (List.mem_cons_of_mem _ (ih hc))
      · exact List.mem_cons_of_mem _ (ih hc)

/-- A normalized text is blank when the text is. -/
theorem strip_normalizeAdr008_eq_nil {s : Str} :
    strip (normalizeAdr008Whitespace s) = [] ↔ ∀ c ∈ s, isSpace c = true := by
  rw [strip_eq_nil]
  constructor
  · intro h c hc
    cases hblank : isAdr008Whitespace c with
    | true => exact isSpace_of_isAdr008Whitespace hblank
    | false => exact h c (mem_normalizeAdr008From_of_mem hc hblank)
  · intro h c hc
    rcases mem_normalizeAdr008From hc with rfl | hc
    · rfl
    · exact h c hc

theorem validateTexts_singleton {text : Str} : validateTexts [text] = .ok [text] ↔ strip text ≠ [] := by
  by_cases h : strip text = []
  · simp [validateTexts, h]
  · simp [validateTexts, h]

end Whitespace

section Requests
variable {nfc : Nfc} {payload : Payload} {request : RetrievalRequest}

/-- `payload["query"]`, when it is a string. -/
def payloadQuery (payload : Payload) : Option Str :=
  match (payload.bind stringItems).bind fun items => lookup items queryField with
  | some (.str query) => some query
  | _ => none

theorem parseFields_ok {query : Str} {requestedCount : Int}
    (h : parseFields nfc query requestedCount = .ok request) :
    request.normalizedQuery = normalizeAdr008Whitespace (nfc.normalize query) := by
  unfold parseFields at h
  split at h
  · split at h
    · cases h
    split at h
    · cases h
    dsimp only at h
    split at h
    · split at h
      · cases h
      split at h
      · obtain rfl := Except.ok.inj h
        rfl
      · cases h
    · cases h
  · cases h

theorem parseRetrievalRequest_ok (h : parseRetrievalRequest nfc payload = .ok request) :
    ∃ query, payloadQuery payload = some query ∧
      request.normalizedQuery = normalizeAdr008Whitespace (nfc.normalize query) := by
  unfold parseRetrievalRequest at h
  split at h
  · cases h
  rename_i items
  split at h
  · cases h
  rename_i fields hfields
  dsimp only at h
  split at h
  · cases h
  split at h
  · rename_i query requestedCount hquery _
    refine ⟨query, ?_, parseFields_ok h⟩
    simp only [payloadQuery, Option.bind_some, hfields, hquery]
  · cases h

/-- The service whose embedding adapter checks its texts before it asks the provider. -/
def HybridRetrievalService.checked (service : HybridRetrievalService) : HybridRetrievalService :=
  { service with
    embeddingModel := ⟨service.embeddingModel.dimension, fun texts =>
      match validateTexts texts with
      | .error error => .error (.embedding error)
      | .ok texts => service.embeddingModel.embed texts⟩
    dimension_pos := service.dimension_pos }

theorem keywordRetrieve_ok {service : HybridRetrievalService} {proof : SessionAuthenticationProof}
    {knowledgeBaseId : UUID} {scopedResult : ScopedKeywordResult}
    (h : (service.keywordRetrieve proof knowledgeBaseId payload).outcome = .ok scopedResult) :
    parseRetrievalRequest service.nfc payload = .ok scopedResult.request := by
  rw [HybridRetrievalService.keywordRetrieve, Traced.outcome_bind] at h
  obtain ⟨_, _, h⟩ := bind_eq_ok.mp h
  rw [Traced.outcome_bind] at h
  obtain ⟨request, hrequest, h⟩ := bind_eq_ok.mp h
  rw [Traced.outcome_bind] at h
  obtain ⟨candidates, _, h⟩ := bind_eq_ok.mp h
  obtain rfl := Except.ok.inj h
  exact hrequest

/-- The check changes nothing for a request whose query passes it. -/
theorem retrieve_checked {service : HybridRetrievalService} (proof : SessionAuthenticationProof)
    (knowledgeBaseId : UUID) (hrequest : parseRetrievalRequest service.nfc payload = .ok request)
    (hpasses : validateTexts [request.normalizedQuery] = .ok [request.normalizedQuery]) :
    service.checked.retrieve proof knowledgeBaseId payload =
      service.retrieve proof knowledgeBaseId payload := by
  refine Traced.bind_congr fun scopedResult hscoped => Traced.bind_congr fun keywordRanks _ => ?_
  have hparsed : parseRetrievalRequest service.nfc payload = .ok scopedResult.request :=
    keywordRetrieve_ok hscoped
  have hsame : scopedResult.request = request := Except.ok.inj (hparsed.symm.trans hrequest)
  have hembed : service.checked.embeddingModel.embed [request.normalizedQuery] =
      service.embeddingModel.embed [request.normalizedQuery] := by
    simp only [HybridRetrievalService.checked, hpasses]
  have hdense : service.checked.denseStage knowledgeBaseId request =
      service.denseStage knowledgeBaseId request := by
    rw [HybridRetrievalService.denseStage, HybridRetrievalService.denseStage, hembed]
    rfl
  rw [hsame, hdense]
  rfl

/-- An accepted query passes the embedding boundary, and the check there changes no
retrieval, exactly when its normal form holds a character that `str.strip` keeps. -/
theorem accepted_query_not_blank (nfc : Nfc) {payload : Payload} {request : RetrievalRequest}
    (h : parseRetrievalRequest nfc payload = .ok request) :
    (validateTexts [request.normalizedQuery] = .ok [request.normalizedQuery] ∧
      ∀ (service : HybridRetrievalService) (proof : SessionAuthenticationProof) (knowledgeBaseId : UUID),
        service.nfc = nfc → service.checked.retrieve proof knowledgeBaseId payload =
          service.retrieve proof knowledgeBaseId payload) ↔
      ∃ query, payloadQuery payload = some query ∧ ∃ c ∈ nfc.normalize query, isSpace c = false := by
  obtain ⟨query, hquery, hnormalized⟩ := parseRetrievalRequest_ok h
  have hblank : validateTexts [request.normalizedQuery] = .ok [request.normalizedQuery] ↔
      ∃ c ∈ nfc.normalize query, isSpace c = false := by
    rw [validateTexts_singleton, hnormalized, Ne, strip_normalizeAdr008_eq_nil]
    push Not
    simp only [ne_eq, Bool.not_eq_true]
  constructor
  · rintro ⟨hpasses, _⟩
    exact ⟨query, hquery, hblank.mp hpasses⟩
  · rintro ⟨query', hquery', hkept⟩
    obtain rfl := Option.some.inj (hquery.symm.trans hquery')
    have hpasses := hblank.mpr hkept
    refine ⟨hpasses, fun service proof knowledgeBaseId hnfc => ?_⟩
    exact retrieve_checked proof knowledgeBaseId (hnfc ▸ h) hpasses

/-- A query of one information separator. -/
private def separatorPayload : Payload := some [(.str queryField, .str [⟨0x1C, by decide⟩])]

private def noCandidates : DenseProviderResult where
  positionCount := 0
  rankedChunkIds := []
  positionCount_le := Nat.zero_le _
  nodup := List.nodup_nil
  rank_range := List.forall_mem_nil _

private def separatorService : HybridRetrievalService :=
  { exampleFailingService with denseRetrieval := ⟨fun _ _ _ => .ok noCandidates⟩ }

/-- The request is accepted; its retrieval succeeds without the check, and is answered as
unavailable with it. -/
theorem accepted_query_not_blank_fails :
    (∃ request, parseRetrievalRequest exampleNfc separatorPayload = .ok request ∧
      validateTexts [request.normalizedQuery] = .error .input) ∧
    (∃ result, (separatorService.retrieve ⟨⟨1, 2⟩, []⟩ 3 separatorPayload).outcome = .ok result) ∧
    (separatorService.checked.retrieve ⟨⟨1, 2⟩, []⟩ 3 separatorPayload).outcome = .error .unavailable := by
  refine ⟨⟨_, rfl, rfl⟩, ?_, errorOf_eq_some.mp (by decide +kernel)⟩
  have hsome : (separatorService.retrieve ⟨⟨1, 2⟩, []⟩ 3 separatorPayload).outcome.toOption.isSome := by
    decide +kernel
  obtain ⟨result, hresult⟩ := Option.isSome_iff_exists.mp hsome
  exact ⟨result, toOption_eq_some.mp hresult⟩

theorem accepted_query_not_blank_example :
    ∃ request, parseRetrievalRequest exampleNfc separatorPayload = .ok request ∧
      ¬∃ query, payloadQuery separatorPayload = some query ∧
        ∃ c ∈ exampleNfc.normalize query, isSpace c = false := by
  obtain ⟨request, hrequest, hblank⟩ : ∃ request,
      parseRetrievalRequest exampleNfc separatorPayload = .ok request ∧
      validateTexts [request.normalizedQuery] = .error .input := ⟨_, rfl, rfl⟩
  refine ⟨request, hrequest, fun hkept => ?_⟩
  have hpasses := ((accepted_query_not_blank exampleNfc hrequest).mpr hkept).1
  cases hblank.symm.trans hpasses

end Requests
end AgenticRag.Retrieval

import AgenticRag.Ingestion.OllamaEmbeddings

/-! Embedding models whose vectors depend on their texts only. However such a model batches its
requests, a call that returns holds the vectors of its texts, one by one. -/
namespace AgenticRag.Ingestion
open Lib Python

/-- Vectors as they cross the embedding boundary. -/
def vectorsObject (vectors : List EmbeddingVector) : Object :=
  .list (vectors.map fun vector => .tuple (vector.map .float))

/-- A call of an embedding model: of the Ollama adapter, with what comes of its requests, or of
another implementation of the protocol. -/
inductive EmbeddingCall (σ : Type) where
  | ollama (runtime : EmbeddingRuntime σ) (model : OllamaEmbeddingModel)
      (exchanges : Nat → EmbeddingExchange)
  | other (embed : List Str → Except OllamaException (List EmbeddingVector))

namespace EmbeddingCall
variable {σ : Type}

/-- What the call returns or raises. -/
def result (texts : List Str) : EmbeddingCall σ → Except OllamaException (List EmbeddingVector)
  | .ollama runtime model exchanges => embed runtime model texts exchanges
  | .other embed => embed texts

/-- The provider is pointwise: a request that succeeds gives each of its texts its own vector. -/
def Pointwise (vectorOf : Str → EmbeddingVector) (texts : List Str) : EmbeddingCall σ → Prop
  | .ollama runtime model exchanges => ∀ batch ∈ (slices model.batchSize texts).zipIdx, ∀ vectors,
      embedBatch runtime model batch.1 (exchanges batch.2) = .ok vectors → vectors = batch.1.map vectorOf
  | .other embed => ∀ vectors, embed texts = .ok vectors → vectors = texts.map vectorOf

/-- The caller gets the vectors of the call, or an exception where the call raises. -/
def Answers {ε : Type} (call : EmbeddingCall σ) (texts : List Str) (answer : Except ε Object) : Prop :=
  answer.toOption = (call.result texts).toOption.map vectorsObject

end EmbeddingCall

section Batches
variable {σ : Type} {vectorOf : Str → EmbeddingVector} {texts : List Str}
  {vectors : List EmbeddingVector}

theorem validateTexts_ok {validated : List Str} (h : validateTexts texts = .ok validated) :
    validated = texts := by
  rw [validateTexts] at h
  split at h
  · cases h
  · exact (Except.ok.inj h).symm

/-- The loop of `embed` puts the vectors of its batches together. -/
theorem embed_ok {runtime : EmbeddingRuntime σ} {model : OllamaEmbeddingModel}
    {exchanges : Nat → EmbeddingExchange} (h : embed runtime model texts exchanges = .ok vectors) :
    ∃ mades, List.Forall₂ (fun batch made => embedBatch runtime model batch.1 (exchanges batch.2) = .ok made)
      (slices model.batchSize texts).zipIdx mades ∧ vectors = mades.flatten := by
  rw [embed] at h
  split at h
  · cases h
  obtain ⟨validated, hvalidated, hloop⟩ := bind_eq_ok.mp h
  obtain rfl := validateTexts_ok (mapError_eq_ok.mp hvalidated)
  rw [foldlM_append] at hloop
  obtain ⟨mades, hmades, hvectors⟩ := bind_eq_ok.mp hloop
  exact ⟨mades, mapM_eq_ok.mp hmades, (Except.ok.inj hvectors).symm⟩

/-- A pointwise provider behind any batch size is a pointwise model. -/
theorem EmbeddingCall.Pointwise.result {call : EmbeddingCall σ} (h : call.Pointwise vectorOf texts)
    (hok : call.result texts = .ok vectors) : vectors = texts.map vectorOf := by
  cases call with
  | other embed => exact h vectors hok
  | ollama runtime model exchanges =>
    obtain ⟨mades, hmades, rfl⟩ := embed_ok hok
    have heach : List.Forall₂ (fun batch made =>
        List.Forall₂ (fun text vector => vectorOf text = vector) batch.1 made)
        (slices model.batchSize texts).zipIdx mades := by
      refine List.forall₂_iff_get.mpr ⟨hmades.length_eq, fun i hi hi' => ?_⟩
      have hmade := h _ (List.get_mem _ ⟨i, hi⟩) _ ((List.forall₂_iff_get.mp hmades).2 i hi hi')
      rw [hmade, List.forall₂_map_right_iff, List.forall₂_same]
      exact fun _ _ => rfl
    have hall := forall₂_flatten heach
    rw [slices_flatten model.batchSize_pos, ← List.forall₂_map_left_iff, List.forall₂_eq_eq_eq] at hall
    exact hall.symm

end Batches

section Validation
variable {texts : List Str} {dimension : Int} {vectors : List EmbeddingVector}

private theorem mapM_validateValue {vector : EmbeddingVector} (h : ∀ x ∈ vector, x.isFinite = true) :
    (vector.map Object.float).mapM validateValue = .ok vector := by
  rw [mapM_eq_ok, List.forall₂_map_left_iff, List.forall₂_same]
  intro x hx
  rw [validateValue, if_pos (h x hx)]

/-- The boundary lets a vector of the dimension through as it is. -/
theorem validateVector_tuple {vector : EmbeddingVector} (hlength : vector.length = dimension)
    (h : ∀ x ∈ vector, x.isFinite = true) :
    validateVector dimension (.tuple (vector.map .float)) = .ok vector := by
  simp only [validateVector, Object.sequence?]
  rw [List.length_map, if_neg (not_not.mpr hlength), mapM_validateValue h]

theorem validateVector_tuple_eq {vector validated : EmbeddingVector}
    (h : validateVector dimension (.tuple (vector.map .float)) = .ok validated) : validated = vector := by
  simp only [validateVector, Object.sequence?] at h
  split at h
  · cases h
  · rw [mapM_eq_ok, List.forall₂_map_left_iff] at h
    have heq : List.Forall₂ Eq vector validated := by
      refine h.imp fun x y hxy => ?_
      rw [validateValue] at hxy
      split at hxy
      · exact Except.ok.inj hxy
      · cases hxy
    rw [List.forall₂_eq_eq_eq] at heq
    exact heq.symm

theorem validateEmbeddingBatch_vectors (hdimension : 0 < dimension) (hlength : vectors.length = texts.length)
    (h : ∀ vector ∈ vectors, vector.length = dimension ∧ ∀ x ∈ vector, x.isFinite = true) :
    validateEmbeddingBatch texts (vectorsObject vectors) dimension = .ok vectors := by
  simp only [validateEmbeddingBatch, vectorsObject, Object.sequence?]
  rw [if_neg (not_le.mpr hdimension), List.length_map, if_neg (not_not.mpr hlength), mapM_eq_ok,
    List.forall₂_map_left_iff, List.forall₂_same]
  exact fun vector hvector => validateVector_tuple (h vector hvector).1 (h vector hvector).2

/-- What the boundary accepts it does not change. -/
theorem validateEmbeddingBatch_eq {validated : List EmbeddingVector}
    (h : validateEmbeddingBatch texts (vectorsObject vectors) dimension = .ok validated) :
    validated = vectors := by
  simp only [validateEmbeddingBatch, vectorsObject, Object.sequence?] at h
  split at h
  · cases h
  split at h
  · cases h
  rw [mapM_eq_ok, List.forall₂_map_left_iff] at h
  have heq : List.Forall₂ Eq vectors validated := h.imp fun _ _ hxy => (validateVector_tuple_eq hxy).symm
  rw [List.forall₂_eq_eq_eq] at heq
  exact heq.symm

variable {σ : Type} {vectorOf : Str → EmbeddingVector}

/-- The validated answer of a pointwise model. -/
theorem EmbeddingCall.Answers.validated {ε : Type} {call : EmbeddingCall σ} {answer : Except ε Object}
    {object : Object} {validated : List EmbeddingVector} (hanswers : call.Answers texts answer)
    (hpointwise : call.Pointwise vectorOf texts) (hanswer : answer = .ok object)
    (h : validateEmbeddingBatch texts object dimension = .ok validated) :
    validated = texts.map vectorOf := by
  rw [EmbeddingCall.Answers, toOption_eq_some.mpr hanswer, eq_comm, Option.map_eq_some_iff] at hanswers
  obtain ⟨vectors, hvectors, rfl⟩ := hanswers
  rw [validateEmbeddingBatch_eq h]
  exact hpointwise.result (toOption_eq_some.mp hvectors)

end Validation
end AgenticRag.Ingestion

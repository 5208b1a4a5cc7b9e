import AgenticRag.Lib.Results
import AgenticRag.Python.Objects

/-! The checks at the embedding boundary. -/
namespace AgenticRag.Ingestion
open Lib Python

inductive EmbeddingError where
  | input | request | response
  deriving DecidableEq

abbrev EmbeddingVector := List Float64

/-- `_validate_texts`. -/
def validateTexts (texts : List Str) : Except EmbeddingError (List Str) :=
  if texts.any fun text => strip text = [] then .error .input else .ok texts

def validateValue : Object → Except EmbeddingError Float64
  | .float x => if x.isFinite then .ok x else .error .response
  | _ => .error .response

/-- One entry of a provider response: a list or tuple of exactly `dimension` finite floats. -/
def validateVector (dimension : Int) (rawVector : Object) : Except EmbeddingError EmbeddingVector :=
  match rawVector.sequence? with
  | none => .error .response
  | some values => if values.length ≠ dimension then .error .response else values.mapM validateValue

/-- `validate_embedding_batch`. -/
def validateEmbeddingBatch (texts : List Str) (vectors : Object) (dimension : Int) :
    Except EmbeddingError (List EmbeddingVector) :=
  if dimension ≤ 0 then .error .input
  else match vectors.sequence? with
    | none => .error .response
    | some rawVectors =>
      if rawVectors.length ≠ texts.length then .error .response
      else rawVectors.mapM (validateVector dimension)

theorem validateValue_ok {v : Object} {x : Float64} (h : validateValue v = .ok x) :
    x.isFinite = true := by
  unfold validateValue at h
  split at h
  · split at h
    · obtain rfl := Except.ok.inj h
      assumption
    · cases h
  · cases h

theorem validateVector_ok {dimension : Int} {v : Object} {e : EmbeddingVector}
    (h : validateVector dimension v = .ok e) : e.length = dimension ∧ ∀ x ∈ e, x.isFinite = true := by
  unfold validateVector at h
  split at h
  · cases h
  · split at h
    · cases h
    · rename_i values _ hlen
      have hall := mapM_eq_ok.mp h
      refine ⟨by rw [← hall.length_eq]; exact not_not.mp hlen, ?_⟩
      intro x hx
      obtain ⟨v, _, hv⟩ := exists_of_forall₂ hall hx
      exact validateValue_ok hv

/-- What an accepted batch is: as many vectors as texts, each of the dimension and finite. -/
theorem validateEmbeddingBatch_ok {texts : List Str} {vectors : Object} {dimension : Int}
    {es : List EmbeddingVector} (h : validateEmbeddingBatch texts vectors dimension = .ok es) :
    0 < dimension ∧ es.length = texts.length ∧
      ∀ e ∈ es, e.length = dimension ∧ ∀ x ∈ e, x.isFinite = true := by
  unfold validateEmbeddingBatch at h
  split at h
  · cases h
  · rename_i hd
    split at h
    · cases h
    · split at h
      · cases h
      · rename_i raw _ hlen
        have hall := mapM_eq_ok.mp h
        refine ⟨not_le.mp hd, by rw [← hall.length_eq]; exact not_not.mp hlen, ?_⟩
        intro e he
        obtain ⟨v, _, hv⟩ := exists_of_forall₂ hall he
        exact validateVector_ok hv

end AgenticRag.Ingestion

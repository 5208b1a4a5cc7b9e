import AgenticRag.Retrieval.Hybrid

/-! The product evidence of a retrieval: what a final record shows to a caller. -/
namespace AgenticRag.Retrieval
open Lib Python Db

structure RetrievedEvidence where
  citationId : UUID
  documentId : UUID
  sourceDisplayName : Str
  content : Str
  contentSha256 : Str
  pageStart : Option Nat
  pageEnd : Option Nat
  characterStart : Option Nat
  characterEnd : Option Nat
  trustClassification : String
  fusedRank : Nat
  keywordRank : Option Nat
  denseRank : Option Nat
  deriving DecidableEq

/-- One turn of the loop of `project_retrieved_evidence`. -/
def retrievedEvidence (record : FusedInternalAuthoritativeRetrievalRecord) :
    Except RetrievalException RetrievedEvidence :=
  let trusted := record.authoritative.trusted
  let documentContent := record.authoritative.documentContent
  if documentContent.trustClassification ≠ untrustedDocumentContent then .error .unavailable
  else .ok
    { citationId := trusted.chunkId
      documentId := trusted.documentId
      sourceDisplayName := trusted.sourceDisplayName
      content := documentContent.text
      contentSha256 := trusted.contentSha256
      pageStart := trusted.pageStart
      pageEnd := trusted.pageEnd
      characterStart := trusted.characterStart
      characterEnd := trusted.characterEnd
      trustClassification := "untrusted_document_content"
      fusedRank := record.fusedRank
      keywordRank := record.keywordRank
      denseRank := record.denseRank }

/-- `project_retrieved_evidence`. -/
def projectRetrievedEvidence (result : HybridRetrievalResult) :
    Except RetrievalException (List RetrievedEvidence) := result.records.mapM retrievedEvidence

end AgenticRag.Retrieval

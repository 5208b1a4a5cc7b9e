import AgenticRag.Retrieval.Hybrid
import AgenticRag.Retrieval.Postgres

/-! The retrieval service over its two PostgreSQL adapters. -/
namespace AgenticRag.Retrieval
open Lib Python Db

/-- The three transactions of one retrieval and the clock reading of each. -/
structure Transactions where
  accessClock : ClockReading
  keywordClock : ClockReading
  finalClock : ClockReading
  access : Transaction
  keyword : Transaction
  final : FinalTransaction

/-- What a service is composed of besides its database adapters. -/
structure Collaborators (ρ : Type) where
  search : TextSearch ρ
  embeddingModel : EmbeddingModel
  denseRetrieval : DenseRetrievalPort
  dimension_pos : 0 < embeddingModel.dimension
  nfc : Nfc

def postgresAccess {ρ : Type} [LinearOrder ρ] (search : TextSearch ρ) (txns : Transactions) :
    RetrievalAccessPort where
  verifyInitialAccess := verifyInitialAccess txns.accessClock txns.access
  scopedKeywordCandidates := scopedKeywordCandidates search txns.keywordClock txns.keyword

def postgresLoader (txns : Transactions) : FinalAuthoritativeLoader where
  loadAuthoritativeRecords := loadAuthoritativeRecords txns.finalClock txns.final

def postgresService {ρ : Type} [LinearOrder ρ] (collaborators : Collaborators ρ)
    (txns : Transactions) : HybridRetrievalService where
  access := postgresAccess collaborators.search txns
  embeddingModel := collaborators.embeddingModel
  denseRetrieval := collaborators.denseRetrieval
  finalLoader := postgresLoader txns
  dimension_pos := collaborators.dimension_pos
  nfc := collaborators.nfc

/-- `HybridRetrievalService.retrieve` over PostgreSQL. -/
def postgresRetrieve {ρ : Type} [LinearOrder ρ] (collaborators : Collaborators ρ)
    (txns : Transactions) (proof : SessionAuthenticationProof) (knowledgeBaseId : UUID)
    (payload : Payload) : Except RetrievalException HybridRetrievalResult :=
  ((postgresService collaborators txns).retrieve proof knowledgeBaseId payload).outcome

/-- A committed transaction on one state. -/
def Transaction.reading (db : Database) : Transaction := ⟨fun _ => some db, true⟩

/-- A final transaction whose settings took effect. -/
def FinalTransaction.reading (db : Database) : FinalTransaction where
  toTransaction := Transaction.reading db
  isolation := "repeatable read"
  readOnly := "on"
  repeatable := by
    rintro _ _ _ _ _ ⟨⟩ ⟨⟩
    rfl

/-- Every transaction reads the same state. -/
def Transactions.reading (accessClock keywordClock finalClock : ClockReading) (db : Database) :
    Transactions where
  accessClock := accessClock
  keywordClock := keywordClock
  finalClock := finalClock
  access := Transaction.reading db
  keyword := Transaction.reading db
  final := FinalTransaction.reading db

section Example

def exampleDigest : Str := List.replicate 64 (ord 'a')

def exampleProof : SessionAuthenticationProof := ⟨⟨1, 2⟩, exampleDigest⟩

/-- A viewer's session, and one completed document with one chunk. -/
def readerDatabase : Database where
  users := ⟨[⟨1, str "reader", [], true⟩], by decide⟩
  userSessions := ⟨[⟨2, 1, exampleDigest, [], 100, none, none⟩], by decide⟩
  knowledgeBases := ⟨[⟨3, str "handbook", none, 0⟩], by decide⟩
  memberships := ⟨[⟨3, 1, .viewer⟩], by decide⟩
  documents := ⟨[⟨4, 3, str "a.txt", "text/plain", 1, exampleDigest, str "k", .completed, 0⟩],
    by decide⟩
  ingestionJobs := Table.empty
  documentChunks := ⟨[⟨5, 4, 0, str "a", 1, some exampleDigest, some 0, some 1, none, none⟩],
    by decide⟩

def exampleClock : ClockReading := ⟨10, some 0⟩

/-- Search by equality, a one-dimensional embedding, and a provider without candidates. -/
def exampleCollaborators : Collaborators Nat where
  search := ⟨fun text query => text == query, fun _ _ => 0⟩
  embeddingModel := ⟨1, fun _ => .ok (.list [.list [.float ⟨0⟩]])⟩
  denseRetrieval := ⟨fun _ _ _ => DenseProviderResult.mk? 0 []⟩
  dimension_pos := Nat.one_pos
  nfc := exampleNfc

def examplePayload : Payload := some [(.str queryField, .str (str " a"))]

end Example
end AgenticRag.Retrieval

import AgenticRag.Lib.Query
import AgenticRag.Python.Dict
import AgenticRag.Retrieval.Service
import Mathlib.Data.Prod.Lex

/-! The statements of retrieval on PostgreSQL, and the transactions that run
them. What each statement of a transaction sees is chosen from outside. -/
namespace AgenticRag.Retrieval
open Lib Python Db

def maxKeywordCandidates : Nat := 128

/-- `_READ_ROLE_VALUES`. -/
def readRoles : List KnowledgeBaseRole := [.owner, .editor, .viewer]

/-- A clock reading; `utcOffset` is `none` for a naive timestamp. -/
structure ClockReading where
  instant : Time
  utcOffset : Option Int

/-- `PostgresRetrievalAccess._now`. -/
def ClockReading.now (reading : ClockReading) : Except RetrievalException Time :=
  if reading.utcOffset.isNone then .error .runtime else .ok reading.instant

/-- `PostgresFinalAuthoritativeLoader._final_now`. -/
def ClockReading.finalNow (reading : ClockReading) : Except RetrievalException Time :=
  if reading.utcOffset ≠ some 0 then .error .runtime else .ok reading.instant

/-- The text search functions of one row's text and the query, at the configuration
`simple`: `to_tsvector(text) @@ plainto_tsquery(query)` and `ts_rank_cd`. -/
structure TextSearch (ρ : Type) where
  isMatch : Str → Str → Bool
  rankCd : Str → Str → ρ

section Statements
variable (proof : SessionAuthenticationProof) (knowledgeBaseId : UUID) (now : Time) (db : Database)

/-- Sessions joined to their users, under the conditions on the proof. -/
def authenticationRows : List (UserSession × User) :=
  (join db.userSessions.rows db.users.rows fun session user => user.id == session.userId).filter
    fun (session, user) =>
      session.id == proof.principal.sessionId && session.userId == proof.principal.userId &&
      session.tokenSha256 == proof.sessionTokenSha256 && session.revokedAt.isNone &&
      decide (now < session.expiresAt) && user.isActive

/-- The target joined to its memberships, under the conditions on the reader. -/
def targetRows (userId : UUID) : List (KnowledgeBase × KnowledgeBaseMembership) :=
  (join db.knowledgeBases.rows db.memberships.rows fun knowledgeBase membership =>
      membership.knowledgeBaseId == knowledgeBase.id).filter
    fun (knowledgeBase, membership) =>
      knowledgeBase.id == knowledgeBaseId && membership.userId == userId &&
      decide (membership.role ∈ readRoles)

/-- `_initial_authentication_statement`, read by `session.scalar`. -/
def initialAuthenticationStatement : Option Bool :=
  (authenticationRows proof now db).head?.map fun _ => true

/-- `_initial_target_statement`, read by `session.scalar`. -/
def initialTargetStatement (userId : UUID) : Option Bool :=
  (targetRows knowledgeBaseId db userId).head?.map fun _ => true

/-- The joins of `_scoped_keyword_statement`, from chunks to the session. -/
def keywordJoin :
    List (((((DocumentChunk × Document) × KnowledgeBase) × KnowledgeBaseMembership) × User) ×
      UserSession) :=
  let documents := join db.documentChunks.rows db.documents.rows fun chunk document =>
    document.id == chunk.documentId
  let knowledgeBases := join documents db.knowledgeBases.rows fun (_, document) knowledgeBase =>
    knowledgeBase.id == document.knowledgeBaseId
  let memberships := join knowledgeBases db.memberships.rows fun (_, knowledgeBase) membership =>
    membership.knowledgeBaseId == knowledgeBase.id && membership.userId == proof.principal.userId
  let users := join memberships db.users.rows fun (_, membership) user =>
    user.id == membership.userId
  join users db.userSessions.rows fun (_, user) session =>
    session.userId == user.id && session.id == proof.principal.sessionId

variable {ρ : Type} (search : TextSearch ρ) (normalizedQuery : Str)

/-- The conditions of `_scoped_keyword_statement`. -/
def keywordCondition (chunk : DocumentChunk) (document : Document) (knowledgeBase : KnowledgeBase)
    (membership : KnowledgeBaseMembership) (user : User) (session : UserSession) : Bool :=
  knowledgeBase.id == knowledgeBaseId && decide (membership.role ∈ readRoles) &&
  user.id == proof.principal.userId && user.isActive &&
  session.tokenSha256 == proof.sessionTokenSha256 && session.revokedAt.isNone &&
  decide (now < session.expiresAt) && decide (document.status = .completed) &&
  chunk.contentSha256.any matchesSha256 && search.isMatch chunk.normalizedText normalizedQuery

/-- `eligible_keyword_candidates`. -/
def eligibleKeywordCandidates : List (UUID × ρ) :=
  ((keywordJoin proof db).filter fun (((((chunk, document), knowledgeBase), membership), user), session) =>
    keywordCondition proof knowledgeBaseId now search normalizedQuery chunk document knowledgeBase
      membership user session).map
    fun row => (row.1.1.1.1.1.id, search.rankCd row.1.1.1.1.1.normalizedText normalizedQuery)

/-- `ORDER BY keyword_score DESC, chunk_id ASC`. -/
def keywordKey (row : UUID × ρ) : ρᵒᵈ ×ₗ UUID := toLex (OrderDual.toDual row.2, row.1)

/-- `_scoped_keyword_statement`: the rank is taken over the eligible rows only. -/
def scopedKeywordStatement [LinearOrder ρ] : List (UUID × Nat) :=
  let ranked := ((orderBy keywordKey
    (eligibleKeywordCandidates proof knowledgeBaseId now db search normalizedQuery)).map
      Prod.fst).zipIdx 1
  (orderBy Prod.snd ranked).take maxKeywordCandidates

/-- The row of `_final_authorization_statement`. -/
structure FinalAuthorization where
  authenticationValid : Bool
  targetAccessible : Bool
  transactionIsolation : String
  transactionReadOnly : String

def finalAuthorizationStatement (isolation readOnly : String) : FinalAuthorization where
  authenticationValid := !(authenticationRows proof now db).isEmpty
  targetAccessible := !(targetRows knowledgeBaseId db proof.principal.userId).isEmpty
  transactionIsolation := isolation
  transactionReadOnly := readOnly

/-- A row of `_final_candidate_statement`. -/
structure FinalCandidateRow where
  knowledgeBaseId : UUID
  documentId : UUID
  chunkId : UUID
  normalizedText : Str
  contentSha256 : Str
  sourceDisplayName : Str
  pageStart : Option Nat
  pageEnd : Option Nat
  characterStart : Option Nat
  characterEnd : Option Nat

/-- The selected columns, for a chunk whose digest is not null and well formed. -/
def finalCandidateRow (chunk : DocumentChunk) (document : Document) (knowledgeBase : KnowledgeBase) :
    Option FinalCandidateRow :=
  match chunk.contentSha256 with
  | none => none
  | some contentSha256 =>
    if matchesSha256 contentSha256 then
      some {
        knowledgeBaseId := knowledgeBase.id
        documentId := document.id
        chunkId := chunk.id
        normalizedText := chunk.normalizedText
        contentSha256 := contentSha256
        sourceDisplayName := document.originalFilename
        pageStart := chunk.pageStart
        pageEnd := chunk.pageEnd
        characterStart := chunk.startOffset
        characterEnd := chunk.endOffset }
    else none

/-- The joins of `_final_candidate_statement`. -/
def candidateJoin : List ((DocumentChunk × Document) × KnowledgeBase) :=
  let documents := join db.documentChunks.rows db.documents.rows fun chunk document =>
    document.id == chunk.documentId
  join documents db.knowledgeBases.rows fun (_, document) knowledgeBase =>
    knowledgeBase.id == document.knowledgeBaseId

def finalCandidateStatement (candidateIds : CandidateBatch) : List FinalCandidateRow :=
  ((candidateJoin db).filter fun ((chunk, document), knowledgeBase) =>
    knowledgeBase.id == knowledgeBaseId && decide (chunk.id ∈ candidateIds) &&
    decide (document.status = .completed)).filterMap
    fun ((chunk, document), knowledgeBase) => finalCandidateRow chunk document knowledgeBase

end Statements

/-- `_record_from_row`. -/
def recordFromRow (row : FinalCandidateRow) : InternalAuthoritativeRetrievalRecord where
  trusted :=
    { knowledgeBaseId := row.knowledgeBaseId
      documentId := row.documentId
      chunkId := row.chunkId
      contentSha256 := row.contentSha256
      sourceDisplayName := row.sourceDisplayName
      pageStart := row.pageStart
      pageEnd := row.pageEnd
      characterStart := row.characterStart
      characterEnd := row.characterEnd }
  documentContent := { text := row.normalizedText }

/-- One transaction: the committed state that each of its statements sees, `none`
where the statement or the connection fails, and whether the commit succeeds. -/
structure Transaction where
  sees : Nat → Option Database
  commits : Bool

def Transaction.execute (txn : Transaction) (statement : Nat) : Except RetrievalException Database :=
  match txn.sees statement with
  | none => .error .sqlAlchemy
  | some db => .ok db

def Transaction.commit (txn : Transaction) : Except RetrievalException Unit :=
  if txn.commits then .ok () else .error .sqlAlchemy

/-- The final transaction with its settings. At the level `repeatable read` all of
its statements see one state. -/
structure FinalTransaction extends Transaction where
  isolation : String
  readOnly : String
  repeatable : isolation = "repeatable read" →
    ∀ m n d d', sees m = some d → sees n = some d' → d = d'

def isSqlAlchemyError (e : RetrievalException) : Bool := e = .sqlAlchemy

/-- `PostgresRetrievalAccess.verify_initial_access`. -/
def verifyInitialAccess (clock : ClockReading) (txn : Transaction)
    (proof : SessionAuthenticationProof) (knowledgeBaseId : UUID) :
    Except RetrievalException Unit := do
  let now ← clock.now
  rescue isSqlAlchemyError .unavailable do
    let db ← txn.execute 0
    if initialAuthenticationStatement proof now db = none then .error .authentication
    else do
      let db ← txn.execute 1
      if initialTargetStatement knowledgeBaseId db proof.principal.userId = none then
        .error .targetNotFound
      else txn.commit

/-- `PostgresRetrievalAccess.scoped_keyword_candidates`. -/
def scopedKeywordCandidates {ρ : Type} [LinearOrder ρ] (search : TextSearch ρ) (clock : ClockReading)
    (txn : Transaction) (proof : SessionAuthenticationProof) (knowledgeBaseId : UUID)
    (normalizedQuery : Str) : Except RetrievalException (List KeywordCandidate) := do
  let now ← clock.now
  let rows ← rescue isSqlAlchemyError .unavailable do
    let db ← txn.execute 0
    txn.commit
    return scopedKeywordStatement proof knowledgeBaseId now db search normalizedQuery
  rows.mapM fun row => KeywordCandidate.mk? row.1 row.2

/-- `_assert_canonical_batches`. -/
def assertCanonicalBatches (candidateBatches : List CandidateBatch) : Except RetrievalException Unit := do
  let batches ← canonicalCandidateBatches candidateBatches.flatten
  if batches ≠ candidateBatches then .error .value else .ok ()

abbrev LoadedRecords := Dict UUID InternalAuthoritativeRetrievalRecord

/-- One turn of the loop over the rows of a batch. -/
def storeRow (loaded : LoadedRecords) (row : FinalCandidateRow) : LoadedRecords :=
  loaded.set row.chunkId (recordFromRow row)

/-- One turn of the loop over the batches; statement 2 is the first batch's. -/
def loadBatch (txn : Transaction) (knowledgeBaseId : UUID) (loaded : LoadedRecords)
    (batch : CandidateBatch × Nat) : Except RetrievalException LoadedRecords := do
  let db ← txn.execute batch.2
  return (finalCandidateStatement knowledgeBaseId db batch.1).foldl storeRow loaded

/-- The body of the final transaction. -/
def loadInTransaction (clock : ClockReading) (txn : FinalTransaction)
    (proof : SessionAuthenticationProof) (knowledgeBaseId : UUID)
    (candidateBatches : List CandidateBatch) : Except RetrievalException LoadedRecords := do
  let _ ← txn.execute 0
  let finalNow ← clock.finalNow
  let db ← txn.execute 1
  let authorization := finalAuthorizationStatement proof knowledgeBaseId finalNow db txn.isolation
    txn.readOnly
  if authorization.transactionIsolation ≠ "repeatable read" then .error .unavailable
  else if authorization.transactionReadOnly ≠ "on" then .error .unavailable
  else if !authorization.authenticationValid then .error .authentication
  else if !authorization.targetAccessible then .error .targetNotFound
  else do
    let loaded ← (candidateBatches.zipIdx 2).foldlM (loadBatch txn.toTransaction knowledgeBaseId)
      Dict.empty
    txn.commit
    return loaded

/-- `PostgresFinalAuthoritativeLoader.load_authoritative_records`. -/
def loadAuthoritativeRecords (clock : ClockReading) (txn : FinalTransaction)
    (proof : SessionAuthenticationProof) (knowledgeBaseId : UUID)
    (candidateBatches : List CandidateBatch) :
    Except RetrievalException (List InternalAuthoritativeRetrievalRecord) := do
  assertCanonicalBatches candidateBatches
  let loaded ← rescue isSqlAlchemyError .unavailable
    (loadInTransaction clock txn proof knowledgeBaseId candidateBatches)
  return candidateBatches.flatten.filterMap loaded.get?

end AgenticRag.Retrieval

import AgenticRag.Api.Dependencies
import AgenticRag.Db.KnowledgeBases
import AgenticRag.Lib.Pool
import AgenticRag.Retrieval.Evidence
import AgenticRag.Security.LoginOrder

/-! The HTTP endpoints as programs: what a request with validated parameters does, action by
action, and what it answers. -/
namespace AgenticRag.Api
open Lib Python Db Ingestion Security Retrieval Services

section Payloads

/-- `KnowledgeBaseCreate`, as its validators leave it. -/
structure KnowledgeBaseCreate where
  name : Str
  description : Option Str
  name_stripped : strip name = name
  name_length : 1 ≤ name.length ∧ name.length ≤ 200
  description_length : ∀ d, description = some d → d.length ≤ 2000

/-- `RetrievalQueryRequest`. -/
structure RetrievalQueryRequest where
  query : Str
  requestedCount : Int
  count_bounds : 1 ≤ requestedCount ∧ requestedCount ≤ 50

/-- `payload.model_dump()`. -/
def RetrievalQueryRequest.modelDump (payload : RetrievalQueryRequest) : Payload :=
  some [(.str queryField, .str payload.query), (.str requestedCountField, .int payload.requestedCount)]

/-- `UploadFile`, with what its reads return. -/
structure UploadFile where
  filename : Option Str
  contentType : Option String
  source : List (List UInt8)

end Payloads

/-- The endpoints with their parameters. -/
inductive ApiOperation where
  | login (email password : Str)
  | logout
  | me
  | health
  | createKnowledgeBase (payload : KnowledgeBaseCreate)
  | listKnowledgeBases (limit offset : Int)
  | getKnowledgeBase (knowledgeBaseId : UUID)
  | uploadDocument (knowledgeBaseId : UUID) (file : UploadFile)
  | listDocuments (knowledgeBaseId : UUID) (limit offset : Int)
  | getDocument (documentId : UUID)
  | getIngestionJob (jobId : UUID)
  | retryIngestionJob (jobId : UUID)
  | retrieveAuthoritativeEvidence (knowledgeBaseId : UUID) (payload : RetrievalQueryRequest)

structure ApiRequest extends Credentials where
  operation : ApiOperation

section Responses

/-- `DocumentResponse`: the storage key is left out. -/
structure DocumentResponse where
  id : UUID
  knowledgeBaseId : UUID
  originalFilename : Str
  mediaType : String
  sizeBytes : Nat
  sha256 : Str
  status : String
  createdAt : Time
  deriving DecidableEq

def DocumentResponse.of (document : Document) : DocumentResponse where
  id := document.id
  knowledgeBaseId := document.knowledgeBaseId
  originalFilename := document.originalFilename
  mediaType := document.mediaType
  sizeBytes := document.sizeBytes
  sha256 := document.sha256
  status := document.status.value
  createdAt := document.createdAt

structure IngestionJobResponse where
  id : UUID
  documentId : UUID
  status : String
  attemptCount : Nat
  errorCode : Option String
  safeErrorMessage : Option String
  createdAt : Time
  startedAt : Option Time
  finishedAt : Option Time
  deriving DecidableEq

def IngestionJobResponse.of (job : IngestionJob) : IngestionJobResponse where
  id := job.id
  documentId := job.documentId
  status := job.status.value
  attemptCount := job.attemptCount
  errorCode := job.errorCode
  safeErrorMessage := job.safeErrorMessage
  createdAt := job.createdAt
  startedAt := job.startedAt
  finishedAt := job.finishedAt

inductive ApiBody where
  | none
  | healthy
  | authenticatedUser (id : UUID)
  | knowledgeBase (knowledgeBase : KnowledgeBase)
  | knowledgeBases (items : List KnowledgeBase) (limit offset : Int)
  | document (document : DocumentResponse)
  | documents (items : List DocumentResponse) (limit offset : Int)
  | ingestionJob (job : IngestionJobResponse)
  | documentUpload (document : DocumentResponse) (job : IngestionJobResponse) (duplicate : Bool)
  | evidence (items : List RetrievedEvidence)

/-- A `Set-Cookie` header. -/
structure SetCookie where
  key : Str
  value : Str
  maxAge : Int
  path : String
  secure : Bool
  httponly : Bool
  samesite : String

structure ApiResponse where
  statusCode : Nat
  body : ApiBody
  cookies : List SetCookie := []

end Responses

section Knowledge
variable (svc : KnowledgeIntakeService) (userId : UUID)

/-- `KnowledgeIntakeService.create_knowledge_base`. -/
def createKnowledgeBase (payload : KnowledgeBaseCreate) : ApiTask KnowledgeBase := do
  lift (ofApp (requireCapability none .knowledgeBaseCreate))
  transaction fun i s =>
    let knowledgeBase : KnowledgeBase := ⟨i.id, payload.name, payload.description, i.createdAt⟩
    match addWithOwner s.db knowledgeBase userId with
    | some db => (.ok knowledgeBase, { s with db })
    | none => (.error .database, s)

/-- A read of the knowledge service, in one transaction. -/
def readKnowledge {α : Type} (read : CallEnvironment → Database → Except UploadRaised α) : ApiTask α :=
  statement fun i db => (read i.call db).mapError ofUpload

/-- `retry_ingestion_job`. -/
def retryIngestionJob (jobId : UUID) : ApiTask IngestionJob :=
  transaction fun i s =>
    let (outcome, t) := KnowledgeIntakeService.retryIngestionJob i.call userId s jobId
    (outcome.mapError ofUpload, t)

/-- `storage.delete`. -/
def deleteFile (key : Str) : ApiTask Unit :=
  thread fun i s => if i.storageFailure.isSome then (.error .unexpected, s) else (.ok (), s.delete key)

/-- The handler of `_persist_upload` for the errors that are no `IntegrityError`. -/
def databaseUnavailable {α : Type} (task : ApiTask α) : ApiTask α :=
  tryCatch task fun
    | .database => throw (.app (.serviceUnavailable "Database is temporarily unavailable."))
    | e => throw e

/-- How the transaction of `_persist_upload` ends, short of an error. -/
inductive Persisted where
  | inserted (result : UploadResult)
  | duplicate (result : UploadResult)
  | conflict

/-- The rows of an upload, as it finds and adds them. The caller's membership is locked until the
commit; another transaction can still win the digest, which is an `IntegrityError`. -/
def persistRows (knowledgeBaseId documentId : UUID) (filename : Str) (mediaType : String)
    (stored : Services.StoredFile) : ApiTask Persisted :=
  transaction fun i s => match findDuplicate s.db knowledgeBaseId stored.sha256 userId with
    | .error e => (.error (.app e), s)
    | .ok (some result) => (.ok (.duplicate result), s)
    | .ok none =>
      let document := uploadedDocument documentId knowledgeBaseId filename mediaType stored i.createdAt
      match insertUpload s.db document i.jobId, i.conflict with
      | .ok (job, db), false => (.ok (.inserted ⟨document, job, false⟩), { s with db })
      | _, _ => (.ok .conflict, s)

/-- `_persist_upload`. -/
def persistUpload (knowledgeBaseId documentId : UUID) (filename : Str) (mediaType : String)
    (stored : Services.StoredFile) : ApiTask UploadResult := do
  match ← databaseUnavailable
      (persistRows userId knowledgeBaseId documentId filename mediaType stored) with
  | .inserted result => return result
  | .duplicate result =>
    deleteFile stored.storageKey
    databaseUnavailable commit
    return result
  | .conflict =>
    deleteFile stored.storageKey
    statement fun _ db => ofApp (resolveConcurrentDuplicate db knowledgeBaseId stored.sha256 userId)

/-- `uuid4()` and `_store_upload`: the document's id and what the storage reports. -/
def storeUpload (knowledgeBaseId : UUID) (extension : Str) (source : List (List UInt8)) :
    ApiTask (UUID × Services.StoredFile) :=
  thread fun i s =>
    let key := storageKey knowledgeBaseId i.id extension
    match svc.storeUpload i.call source key with
    | .error e => (.error (.app e), s)
    | .ok (content, stored) =>
      (.ok (i.id, stored), { s with files := Function.update s.files key (some content) })

/-- `KnowledgeIntakeService.upload_document`. -/
def uploadDocument (knowledgeBaseId : UUID) (filename : Str) (mediaType : String)
    (source : List (List UInt8)) : ApiTask UploadResult := do
  let extension ← lift (ofApp (validateUploadMetadata filename mediaType))
  statement fun _ db => ofApp (authorizeUpload db knowledgeBaseId userId)
  let (documentId, stored) ← storeUpload svc knowledgeBaseId extension source
  Program.onError (do
    lift (ofApp (validateContent mediaType stored))
    persistUpload userId knowledgeBaseId documentId filename mediaType stored)
    (deleteFile (storageKey knowledgeBaseId documentId extension))

end Knowledge

section Endpoints
variable {ρ : Type} [LinearOrder ρ] (settings : ApiSettings ρ)

/-- The cookies of `login`. -/
def loginCookies (credentials : SessionCredentials) : List SetCookie :=
  let cookie key value path httponly := SetCookie.mk key value settings.sessionTtlSeconds path
    settings.sessionCookieSecure httponly settings.sessionCookieSamesite
  [cookie settings.sessionCookieName credentials.sessionToken "/api/v1" true,
    cookie settings.csrfCookieName credentials.csrfToken "/" false]

/-- `delete_cookie` sets an empty value that expires at once. -/
def logoutCookies : List SetCookie :=
  let cookie key path httponly := SetCookie.mk key [] 0 path settings.sessionCookieSecure httponly
    settings.sessionCookieSamesite
  [cookie settings.sessionCookieName "/api/v1" true, cookie settings.csrfCookieName "/" false]

/-- The handlers of the retrieval endpoint. -/
def retrievalRaised : RetrievalException → ApiRaised
  | .requestValidation => .retrievalInvalidRequest
  | .authentication => .authentication .authentication
  | .targetNotFound => notFoundError
  | .unavailable => .retrievalUnavailable
  | e => .retrieval e

/-- One statement of a retrieval transaction: the state it sees, unless the database fails it. -/
def observe : ApiTask (ApiInput × Option Database) :=
  Program.attempt fun i s => match i.fault with
    | some (.cancelled _) => (.error .cancelled, s)
    | some (.database _) => (.ok (i, none), s)
    | none => (.ok (i, some s.db), s)

/-- The transactions of a retrieval, from what its statements saw. -/
def observedTransactions (session target keyword final : ApiInput × Option Database) : Transactions where
  accessClock := session.1.clock
  keywordClock := keyword.1.clock
  finalClock := final.1.clock
  access := ⟨fun n => if n = 0 then session.2 else target.2, true⟩
  keyword := ⟨fun _ => keyword.2, true⟩
  final := FinalTransaction.onSnapshot final.2 true

/-- `retrieve_authoritative_evidence` once its dependencies are there. -/
def retrieveEvidence (proof : SessionAuthenticationProof) (knowledgeBaseId : UUID)
    (payload : RetrievalQueryRequest) : ApiTask (List RetrievedEvidence) := do
  let session ← observe
  let target ← observe
  let keyword ← observe
  let final ← observe
  let collaborators : Collaborators ρ :=
    { search := settings.search
      embeddingModel := ⟨settings.embeddingDimension, keyword.1.embed⟩
      denseRetrieval := keyword.1.denseRetrieval
      dimension_pos := settings.embeddingDimension_pos
      nfc := settings.nfc }
  lift <| Except.mapError retrievalRaised do
    let result ← postgresRetrieve collaborators (observedTransactions session target keyword final)
      proof knowledgeBaseId payload.modelDump
    projectRetrievedEvidence result

/-- `health_check`: a timeout is one of its database errors. -/
def healthCheck : ApiTask Unit :=
  Program.attempt fun i s => match i.fault with
    | none => (.ok (), s)
    | some (.database _) => (.error .databaseUnavailable, s)
    | some (.cancelled _) => (.error .cancelled, s)

def uploadResponse (result : UploadResult) : ApiResponse where
  statusCode := if result.duplicate then 200 else 201
  body := .documentUpload (.of result.document) (.of result.job) result.duplicate

/-- The handler of a request, with its dependencies. -/
def serve (request : ApiRequest) : ApiTask ApiResponse :=
  let credentials := request.toCredentials
  match request.operation with
  | .login email password => do
    let issued ← login settings.authentication email password
    return ⟨200, .authenticatedUser issued.principal.userId, loginCookies settings issued⟩
  | .logout => do
    let _ ← getCsrfProtectedPrincipal settings credentials
    revokeSession settings.authentication (credentials.sessionToken settings)
    return ⟨204, .none, logoutCookies settings⟩
  | .me => do
    let principal ← getCurrentPrincipal settings credentials
    return ⟨200, .authenticatedUser principal.userId, []⟩
  | .health => do
    healthCheck
    return ⟨200, .healthy, []⟩
  | .createKnowledgeBase payload => do
    let principal ← getCsrfProtectedPrincipal settings credentials
    let knowledgeBase ← createKnowledgeBase principal.userId payload
    return ⟨201, .knowledgeBase knowledgeBase, []⟩
  | .listKnowledgeBases limit offset => do
    let principal ← getCurrentPrincipal settings credentials
    let items ← readKnowledge fun env db =>
      KnowledgeIntakeService.listKnowledgeBases env db principal.userId limit offset
    return ⟨200, .knowledgeBases items limit offset, []⟩
  | .getKnowledgeBase knowledgeBaseId => do
    let principal ← getCurrentPrincipal settings credentials
    let knowledgeBase ← readKnowledge fun env db =>
      KnowledgeIntakeService.getKnowledgeBase env db principal.userId knowledgeBaseId
    return ⟨200, .knowledgeBase knowledgeBase, []⟩
  | .uploadDocument knowledgeBaseId file => do
    let principal ← getCsrfProtectedPrincipal settings credentials
    match file.contentType with
    | none => throw (.app .unsupportedMediaType)
    | some mediaType =>
      let result ← uploadDocument settings.intake principal.userId knowledgeBaseId
        (file.filename.getD []) mediaType file.source
      return uploadResponse result
  | .listDocuments knowledgeBaseId limit offset => do
    let principal ← getCurrentPrincipal settings credentials
    let items ← readKnowledge fun env db =>
      KnowledgeIntakeService.listDocuments env db principal.userId knowledgeBaseId limit offset
    return ⟨200, .documents (items.map .of) limit offset, []⟩
  | .getDocument documentId => do
    let principal ← getCurrentPrincipal settings credentials
    let (document, _) ← readKnowledge fun env db =>
      KnowledgeIntakeService.getDocument env db principal.userId documentId
    return ⟨200, .document (.of document), []⟩
  | .getIngestionJob jobId => do
    let principal ← getCurrentPrincipal settings credentials
    let (job, _) ← readKnowledge fun env db =>
      KnowledgeIntakeService.getIngestionJob env db principal.userId jobId
    return ⟨200, .ingestionJob (.of job), []⟩
  | .retryIngestionJob jobId => do
    let principal ← getCsrfProtectedPrincipal settings credentials
    let job ← retryIngestionJob principal.userId jobId
    return ⟨200, .ingestionJob (.of job), []⟩
  | .retrieveAuthoritativeEvidence knowledgeBaseId payload => do
    let proof ← getCsrfProtectedAuthenticationProof settings credentials
    if settings.chromaCollectionUuid.isNone then throw .retrievalUnavailable
    let items ← retrieveEvidence settings proof knowledgeBaseId payload
    return ⟨200, .evidence items, []⟩

/-- What runs beside the API leaves the session rows alone. -/
def KeepsSessions (s t : KnowledgeState) : Prop := t.db.userSessions.rows = s.db.userSessions.rows

instance : DecidableRel KeepsSessions := fun s t =>
  decEq t.db.userSessions.rows s.db.userSessions.rows

abbrev ApiPool := Pool ApiRequest KnowledgeState ApiInput (Except ApiRaised ApiResponse)
abbrev ApiAction := PoolAction ApiRequest KnowledgeState ApiInput

/-- Any number of requests beside the worker and the operator's commands. -/
def api : Machine ApiPool ApiAction := Pool.machine (fun request => (serve settings request).run) KeepsSessions

end Endpoints
end AgenticRag.Api

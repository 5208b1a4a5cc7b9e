import AgenticRag.Api.Errors
import AgenticRag.Lib.Programs
import AgenticRag.Retrieval.Composition
import AgenticRag.Services.KnowledgeIntake

/-! The request-scoped services as programs on the shared rows and files: the statements and
commits of the authentication service, and the dependencies that guard the endpoints. Each
transaction loads its rows afresh, and any other request can act between two statements. -/
namespace AgenticRag.Api
open Lib Python Db Ingestion Security Retrieval Services

/-- An action that the database fails or the task's cancellation interrupts, before its effect
or after it, when a commit is not acknowledged. -/
inductive Fault where
  | database (effective : Bool)
  | cancelled (effective : Bool)
  deriving DecidableEq

def Fault.raised : Fault → ApiRaised
  | .database _ => .database
  | .cancelled _ => .cancelled

def Fault.effective : Fault → Bool
  | .database effective | .cancelled effective => effective

/-- What an action finds besides the state: its fault, the clock, the salts, tokens and identifiers
that it generates, the time its rows get, how the storage fails, whether another transaction wins
a unique key, and what the retrieval providers answer. -/
structure ApiInput where
  fault : Option Fault
  clock : ClockReading
  salt : Nat
  sessionToken : Str
  csrfToken : Str
  id : UUID
  jobId : UUID
  createdAt : Time
  storageFailure : Option StoreError
  conflict : Bool
  embed : List Str → Except RetrievalException Object
  denseRetrieval : DenseRetrievalPort

/-- The environment of a knowledge call, the faults of its transactions apart. -/
def ApiInput.call (i : ApiInput) : CallEnvironment where
  documentId := i.id
  jobId := i.jobId
  createdAt := i.createdAt
  storageFailure := i.storageFailure
  databaseFails := fun _ => false

abbrev ApiTask (α : Type) := Program.Task KnowledgeState ApiInput ApiRaised α

section Actions
variable {α : Type}

/-- One statement with the commit that follows it, if any. -/
def transaction (body : ApiInput → KnowledgeState → Except ApiRaised α × KnowledgeState) : ApiTask α :=
  Program.attempt fun i s => match i.fault with
    | none => body i s
    | some fault => (.error fault.raised, if fault.effective then (body i s).2 else s)

def statement (read : ApiInput → Database → Except ApiRaised α) : ApiTask α :=
  transaction fun i s => (read i s.db, s)

/-- A COMMIT without writes. -/
def commit : ApiTask Unit := statement fun _ _ => .ok ()

/-- Work in a thread, which goes on when the task is cancelled. -/
def thread (work : ApiInput → KnowledgeState → Except ApiRaised α × KnowledgeState) : ApiTask α :=
  Program.attempt fun i s => match i.fault with
    | some (.cancelled effective) => (.error .cancelled, if effective then (work i s).2 else s)
    | _ => work i s

/-- What the environment generates or reads, without an await. -/
def generate (read : ApiInput → Except ApiRaised α) : ApiTask α :=
  Program.attempt fun i s => (read i, s)

def lift (x : Except ApiRaised α) : ApiTask α := Program.liftTask x

def ofAuthentication (x : Except AuthenticationException α) : Except ApiRaised α :=
  x.mapError .authentication

def ofApp (x : Except AppException α) : Except ApiRaised α := x.mapError .app

/-- A write of the authentication service. -/
def writeSessions (write : ApiInput → Database → Except AuthenticationException (Database × α)) :
    ApiTask α :=
  transaction fun i s => match write i s.db with
    | .ok (db, a) => (.ok a, { s with db })
    | .error e => (.error (.authentication e), s)

end Actions

section Authentication
variable (cfg : AuthenticationConfig)

/-- `AuthenticationService._now`. -/
def readNow : ApiTask Time := generate fun i => ofAuthentication (authenticationNow i.clock)

/-- `_active_session`: the session row, and the user that is loaded after it. -/
def activeSession (tokenDigest : Str) (now : Time) : ApiTask (UserSession × User) := do
  match ← statement fun _ db => .ok (getActiveForAuthentication db tokenDigest now) with
  | none => throw (.authentication .authentication)
  | some session =>
    let user ← statement fun _ db => ofAuthentication
      (checkActiveSession tokenDigest now session (db.users.find? session.userId))
    return (session, user)

/-- `authenticate_session_with_proof`. -/
def authenticateSessionWithProof (sessionToken : Option Str) : ApiTask SessionAuthenticationProof := do
  let tokenDigest ← lift (ofAuthentication (sessionDigestOrError cfg.sha256 sessionToken))
  let now ← readNow
  let (session, user) ← activeSession tokenDigest now
  writeSessions fun _ db => do
    let db ← touchForAuthentication db session now
    .ok (db, ⟨principalOf session user, tokenDigest⟩)

/-- `authenticate_session`. -/
def authenticateSession (sessionToken : Option Str) : ApiTask Principal := do
  let proof ← authenticateSessionWithProof cfg sessionToken
  return proof.principal

/-- `validate_csrf`. -/
def validateCsrf (sessionToken csrfToken : Option Str) : ApiTask Unit := do
  let tokenDigest ← lift (ofAuthentication (sessionDigestOrError cfg.sha256 sessionToken))
  let csrfDigest ← lift (ofAuthentication (csrfDigestOrError cfg.sha256 csrfToken))
  let now ← readNow
  let (session, _) ← activeSession tokenDigest now
  if session.csrfTokenSha256 ≠ csrfDigest then throw (.authentication .csrf)
  commit

/-- `revoke_session`. -/
def revokeSession (sessionToken : Option Str) : ApiTask Unit := do
  let tokenDigest ← lift (ofAuthentication (sessionDigestOrError cfg.sha256 sessionToken))
  let now ← readNow
  let (session, _) ← activeSession tokenDigest now
  writeSessions fun _ db => do
    let db ← revokeForAuthentication db session now
    .ok (db, ())

/-- `AuthenticationService.login`. -/
def login (email password : Str) : ApiTask SessionCredentials := do
  let normalizedEmail ← lift (ofAuthentication (prepareLogin cfg email password))
  let now ← readNow
  let snapshot ← statement fun _ db => .ok (getForAuthenticationByEmail db normalizedEmail)
  let (observed, replacementHash) ← thread fun i s =>
    (ofAuthentication (verifyLogin cfg password i.salt snapshot), s)
  let (sessionToken, csrfToken) ← generate fun i => ofAuthentication do
    checkTokenPair i.sessionToken i.csrfToken
    return (i.sessionToken, i.csrfToken)
  writeSessions fun i db =>
    commitLogin cfg db now observed replacementHash sessionToken csrfToken i.id

end Authentication

/-- The settings that the endpoints and their dependencies read. -/
structure ApiSettings (ρ : Type) where
  authentication : AuthenticationConfig
  intake : KnowledgeIntakeService
  sessionCookieName : Str
  csrfCookieName : Str
  sessionTtlSeconds : Int
  sessionCookieSecure : Bool
  sessionCookieSamesite : String
  chromaCollectionUuid : Option UUID
  embeddingDimension : Nat
  embeddingDimension_pos : 0 < embeddingDimension
  search : TextSearch ρ
  nfc : Nfc

/-- The cookies of a request and its `X-CSRF-Token` header. -/
structure Credentials where
  cookies : Str → Option Str
  csrfHeader : Option Str

section Dependencies
variable {ρ : Type} (settings : ApiSettings ρ) (credentials : Credentials)

def Credentials.sessionToken : Option Str := credentials.cookies settings.sessionCookieName

/-- `get_current_principal`. -/
def getCurrentPrincipal : ApiTask Principal :=
  authenticateSession settings.authentication (credentials.sessionToken settings)

/-- The double-submit comparison: the cookie and the header agree as UTF-8 bytes. -/
def compareCsrf (csrfCookie csrfHeader : Option Str) : Except AuthenticationException Unit :=
  match csrfCookie, csrfHeader with
  | some cookie, some header =>
    match encodeUtf8 cookie, encodeUtf8 header with
    | some a, some b => if a = b then .ok () else .error .csrf
    | _, _ => .error .value
  | _, _ => .error .csrf

/-- `get_csrf_protected_authentication_proof`. -/
def getCsrfProtectedAuthenticationProof : ApiTask SessionAuthenticationProof := do
  let sessionToken := credentials.sessionToken settings
  let proof ← authenticateSessionWithProof settings.authentication sessionToken
  lift (ofAuthentication
    (compareCsrf (credentials.cookies settings.csrfCookieName) credentials.csrfHeader))
  validateCsrf settings.authentication sessionToken credentials.csrfHeader
  return proof

/-- `get_csrf_protected_principal`, whose principal `get_current_principal` gives. -/
def getCsrfProtectedPrincipal : ApiTask Principal := do
  let principal ← getCurrentPrincipal settings credentials
  lift (ofAuthentication
    (compareCsrf (credentials.cookies settings.csrfCookieName) credentials.csrfHeader))
  validateCsrf settings.authentication (credentials.sessionToken settings) credentials.csrfHeader
  return principal

end Dependencies
end AgenticRag.Api

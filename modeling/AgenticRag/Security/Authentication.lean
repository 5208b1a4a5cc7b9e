import AgenticRag.Ingestion.Chunking
import AgenticRag.Retrieval.Postgres

/-! Opaque server-side sessions: the statements, checks and writes of the
authentication service. Password hashing is a parameter. -/
namespace AgenticRag.Security
open Lib Python Db Ingestion Retrieval

inductive AuthenticationException where
  | authentication
  | csrf
  | runtime
  | value
  | attribute
  | staleData
  | integrity
  deriving DecidableEq

def maxEmailLength : Nat := 320
def minPasswordLength : Nat := 1
def maxPasswordLength : Nat := 1024

/-- `PasswordHasher`; a hash depends on its salt. -/
structure PasswordHasher where
  hashPassword : Str → Nat → Str
  verifyPassword : Str → Option Str → Bool
  needsRehash : Str → Bool

/-- What an `AuthenticationService` is made with; `lower` is `str.lower`. -/
structure AuthenticationConfig where
  sha256 : Sha256
  lower : Str → Str
  passwordHasher : PasswordHasher
  sessionTtl : Time
  sessionTtl_pos : 0 < sessionTtl

/-- `normalize_email`. -/
def normalizeEmail (lower : Str → Str) (email : Str) : Except AuthenticationException Str :=
  let normalized := lower (strip email)
  if normalized = [] then .error .value
  else if normalized.length > maxEmailLength then .error .value
  else .ok normalized

def validatePasswordLength (password : Str) : Except AuthenticationException Unit :=
  if password.length < minPasswordLength then .error .value
  else if password.length > maxPasswordLength then .error .value
  else .ok ()

def isTokenCharacter (c : CodePoint) : Bool :=
  (ord 'A' ≤ c && c ≤ ord 'Z') || (ord 'a' ≤ c && c ≤ ord 'z') || (ord '0' ≤ c && c ≤ ord '9') ||
    c == ord '_' || c == ord '-'

/-- `_TOKEN_PATTERN.fullmatch(token)`. -/
def matchesToken (token : Str) : Bool :=
  decide (32 ≤ token.length) && decide (token.length ≤ 512) && token.all isTokenCharacter

def hashToken (sha256 : Sha256) (token : Str) : Except AuthenticationException Str :=
  match encodeUtf8 token with
  | none => .error .value
  | some encoded => .ok (hexdigest sha256 encoded)

/-- `_session_digest_or_error`. -/
def sessionDigestOrError (sha256 : Sha256) : Option Str → Except AuthenticationException Str
  | none => .error .authentication
  | some sessionToken =>
    if matchesToken sessionToken then hashToken sha256 sessionToken else .error .authentication

/-- The digest of the token that `validate_csrf` is given. -/
def csrfDigestOrError (sha256 : Sha256) : Option Str → Except AuthenticationException Str
  | none => .error .csrf
  | some csrfToken => if matchesToken csrfToken then hashToken sha256 csrfToken else .error .csrf

/-- `AuthenticationService._now`. -/
def authenticationNow (reading : ClockReading) : Except AuthenticationException Time :=
  if reading.utcOffset.isNone then .error .runtime else .ok reading.instant

section Sessions

/-- `get_active_for_authentication_by_token_sha256`, up to the user. -/
def getActiveForAuthentication (db : Database) (tokenSha256 : Str) (now : Time) : Option UserSession :=
  db.userSessions.rows.find? fun session =>
    session.tokenSha256 == tokenSha256 && session.revokedAt.isNone && decide (now < session.expiresAt)

/-- The checks of `_active_session` on a loaded row and its user. -/
def checkActiveSession (tokenDigest : Str) (now : Time) (session : UserSession) (user : Option User) :
    Except AuthenticationException User :=
  if session.tokenSha256 ≠ tokenDigest then .error .authentication
  else if session.revokedAt.isSome ∨ session.expiresAt ≤ now then .error .authentication
  else match user with
    | none => .error .attribute
    | some user => if user.isActive then .ok user else .error .authentication

/-- A flush of one row: `update` sets the changed columns of what the row is by now. -/
def flushSession (db : Database) (sessionId : UUID) (update : UserSession → UserSession) :
    Except AuthenticationException (Table UserSession UserSession.id) :=
  match db.userSessions.find? sessionId with
  | none => .error .staleData
  | some row => .ok (db.userSessions.replace (update row))

/-- `touch_for_authentication`; a column that keeps its loaded value is not written. -/
def touchForAuthentication (db : Database) (session : UserSession) (seenAt : Time) :
    Except AuthenticationException Database := do
  if session.lastSeenAt = some seenAt then .ok db
  else
    let userSessions ← flushSession db session.id fun row => { row with lastSeenAt := some seenAt }
    .ok { db with userSessions }

/-- `revoke_for_authentication` of a row that was loaded unrevoked. -/
def revokeForAuthentication (db : Database) (session : UserSession) (revokedAt : Time) :
    Except AuthenticationException Database := do
  let userSessions ← flushSession db session.id fun row => { row with revokedAt := some revokedAt }
  .ok { db with userSessions }

/-- `add_for_authentication`; the token digest is unique. -/
def addForAuthentication (db : Database) (session : UserSession) :
    Except AuthenticationException Database :=
  if db.userSessions.rows.any fun row => row.tokenSha256 == session.tokenSha256 then .error .integrity
  else match db.userSessions.insert? session with
    | none => .error .integrity
    | some userSessions => .ok { db with userSessions }

/-- `_principal`. -/
def principalOf (session : UserSession) (user : User) : Principal := ⟨user.id, session.id⟩

end Sessions

section Login

structure AuthenticationUserSnapshot where
  userId : UUID
  email : Str
  isActive : Bool
  passwordHash : Str

/-- `get_for_authentication_by_email`. -/
def getForAuthenticationByEmail (db : Database) (email : Str) : Option AuthenticationUserSnapshot :=
  (db.users.rows.find? fun user => user.email == email).map fun user =>
    ⟨user.id, user.email, user.isActive, user.passwordHash⟩

structure SessionCredentials where
  principal : Principal
  sessionToken : Str
  csrfToken : Str
  expiresAt : Time

variable (cfg : AuthenticationConfig)

/-- What `login` checks before its first transaction. -/
def prepareLogin (email password : Str) : Except AuthenticationException Str :=
  match normalizeEmail cfg.lower email, validatePasswordLength password with
  | .ok normalizedEmail, .ok () => .ok normalizedEmail
  | _, _ => .error .authentication

/-- What `login` does between its transactions: the verified snapshot and the hash that
replaces its own. -/
def verifyLogin (password : Str) (salt : Nat) (observed : Option AuthenticationUserSnapshot) :
    Except AuthenticationException (AuthenticationUserSnapshot × Option Str) :=
  let passwordValid := cfg.passwordHasher.verifyPassword password
    (observed.map AuthenticationUserSnapshot.passwordHash)
  match observed with
  | none => .error .authentication
  | some observed =>
    if !passwordValid || !observed.isActive then .error .authentication
    else if cfg.passwordHasher.needsRehash observed.passwordHash then
      .ok (observed, some (cfg.passwordHasher.hashPassword password salt))
    else .ok (observed, none)

/-- The checks of `_new_token_pair`. -/
def checkTokenPair (sessionToken csrfToken : Str) : Except AuthenticationException Unit :=
  if !matchesToken sessionToken || !matchesToken csrfToken || sessionToken == csrfToken then
    .error .runtime
  else .ok ()

/-- `update_password_hash_for_authentication`. -/
def updatePasswordHash (db : Database) (user : User) : Option Str → Database
  | none => db
  | some passwordHash => { db with users := db.users.replace { user with passwordHash } }

/-- The second transaction of `login`. -/
def commitLogin (db : Database) (now : Time) (observed : AuthenticationUserSnapshot)
    (replacementHash : Option Str) (sessionToken csrfToken : Str) (sessionId : UUID) :
    Except AuthenticationException (Database × SessionCredentials) :=
  match db.users.find? observed.userId with
  | none => .error .authentication
  | some user =>
    if !user.isActive || user.passwordHash != observed.passwordHash then .error .authentication
    else do
      let db := updatePasswordHash db user replacementHash
      let tokenSha256 ← hashToken cfg.sha256 sessionToken
      let csrfTokenSha256 ← hashToken cfg.sha256 csrfToken
      let expiresAt := now + cfg.sessionTtl
      let db ← addForAuthentication db
        { id := sessionId
          userId := user.id
          tokenSha256 := tokenSha256
          csrfTokenSha256 := csrfTokenSha256
          expiresAt := expiresAt
          revokedAt := none
          lastSeenAt := none }
      .ok (db, ⟨⟨user.id, sessionId⟩, sessionToken, csrfToken, expiresAt⟩)

end Login
end AgenticRag.Security

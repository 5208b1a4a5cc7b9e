import AgenticRag.Lib.Machine
import AgenticRag.Lib.Slots
import AgenticRag.Retrieval.Composition
import AgenticRag.Security.Authentication

/-! Calls of the authentication service and of the retrieval access checks by any
number of clients, statement by statement. What a transaction wrote becomes visible when it
commits, and other tables change at any time. -/
namespace AgenticRag.Security
open Lib Python Db Retrieval

inductive SessionOperation where
  | login (email password : Str)
  | authenticateSession (sessionToken : Option Str)
  | validateCsrf (sessionToken csrfToken : Option Str)
  | revokeSession (sessionToken : Option Str)
  | verifyInitialAccess (proof : SessionAuthenticationProof) (knowledgeBaseId : UUID)
  | loadAuthoritativeRecords (proof : SessionAuthenticationProof) (knowledgeBaseId : UUID)
    (candidateBatches : List CandidateBatch)

/-- What an operation does with an active session. -/
inductive SessionWork where
  | touch
  | compareCsrf (csrfDigest : Str)
  | revoke

/-- What comes next in a call. -/
inductive SessionStage where
  | observe (normalizedEmail : Str)
  | verify (observed : Option AuthenticationUserSnapshot)
  | insert (observed : AuthenticationUserSnapshot) (replacementHash : Option Str)
    (sessionToken csrfToken : Str)
  | select (work : SessionWork) (tokenDigest : Str)
  | selectUser (work : SessionWork) (tokenDigest : Str) (session : UserSession)
  | commit (work : SessionWork) (tokenDigest : Str) (session : UserSession) (user : User)
  | check (seen : List Database)

inductive SessionReturn where
  | none
  | credentials (credentials : SessionCredentials)
  | proof (proof : SessionAuthenticationProof)
  | records (records : List InternalAuthoritativeRetrievalRecord)

/-- An exception of the service, one of a retrieval check, or an interruption from outside. -/
inductive SessionRaised where
  | service (error : AuthenticationException)
  | retrieval (error : RetrievalException)
  | interrupted

abbrev SessionOutcome := Except SessionRaised SessionReturn

structure SessionCall where
  operation : SessionOperation
  clock : ClockReading
  stage : SessionStage

/-- A call that has ended. -/
structure EndedCall where
  id : Nat
  operation : SessionOperation
  clock : ClockReading
  outcome : SessionOutcome

structure SessionState where
  db : Database
  calls : Nat → Option SessionCall
  issued : Nat
  ended : List EndedCall

def SessionState.init (db : Database) : SessionState := ⟨db, fun _ => none, 0, []⟩

inductive CallStep where
  | observe
  | verify (salt : Nat) (sessionToken csrfToken : Str)
  | insert (sessionId : UUID) (acknowledged : Bool)
  | select
  | selectUser
  | commit (acknowledged : Bool)
  | read
  | finish (commits : Bool)
  | interrupt

inductive SessionAction where
  | start (operation : SessionOperation) (clock : ClockReading)
  | step (id : Nat) (step : CallStep)
  | elsewhere (db : Database)

section Machine
variable (cfg : AuthenticationConfig)

/-- An operation up to its first statement. -/
def beginCall (clock : ClockReading) : SessionOperation → Except AuthenticationException SessionStage
  | .login email password => do
    let normalizedEmail ← prepareLogin cfg email password
    let _ ← authenticationNow clock
    .ok (.observe normalizedEmail)
  | .authenticateSession sessionToken => do
    let tokenDigest ← sessionDigestOrError cfg.sha256 sessionToken
    let _ ← authenticationNow clock
    .ok (.select .touch tokenDigest)
  | .validateCsrf sessionToken csrfToken => do
    let tokenDigest ← sessionDigestOrError cfg.sha256 sessionToken
    let csrfDigest ← csrfDigestOrError cfg.sha256 csrfToken
    let _ ← authenticationNow clock
    .ok (.select (.compareCsrf csrfDigest) tokenDigest)
  | .revokeSession sessionToken => do
    let tokenDigest ← sessionDigestOrError cfg.sha256 sessionToken
    let _ ← authenticationNow clock
    .ok (.select .revoke tokenDigest)
  | .verifyInitialAccess _ _ => .ok (.check [])
  | .loadAuthoritativeRecords _ _ _ => .ok (.check [])

/-- The last checks before an operation writes. -/
def checkWork (session : UserSession) : SessionWork → Except AuthenticationException Unit
  | .compareCsrf csrfDigest => if session.csrfTokenSha256 ≠ csrfDigest then .error .csrf else .ok ()
  | .touch | .revoke => .ok ()

/-- The flush and the commit of an operation on an active session. -/
def writeWork (db : Database) (now : Time) (tokenDigest : Str) (session : UserSession) (user : User) :
    SessionWork → Except AuthenticationException (Database × SessionReturn)
  | .touch => do
    let db ← touchForAuthentication db session now
    .ok (db, .proof ⟨principalOf session user, tokenDigest⟩)
  | .compareCsrf _ => .ok (db, .none)
  | .revoke => do
    let db ← revokeForAuthentication db session now
    .ok (db, .none)

/-- The final transaction on the snapshot that its first statement took. -/
def FinalTransaction.onSnapshot (snapshot : Option Database) (commits : Bool) : FinalTransaction where
  sees := fun _ => snapshot
  commits := commits
  isolation := "repeatable read"
  readOnly := "on"
  repeatable := fun _ _ _ _ _ h h' => Option.some.inj (h.symm.trans h')

/-- The result of an access check on what its statements saw. -/
def checkOutcome (clock : ClockReading) (seen : List Database) (commits : Bool) :
    SessionOperation → Except RetrievalException SessionReturn
  | .verifyInitialAccess proof knowledgeBaseId => do
    verifyInitialAccess clock ⟨fun n => seen[n]?, commits⟩ proof knowledgeBaseId
    .ok .none
  | .loadAuthoritativeRecords proof knowledgeBaseId candidateBatches => do
    let records ← loadAuthoritativeRecords clock (FinalTransaction.onSnapshot seen.head? commits)
      proof knowledgeBaseId candidateBatches
    .ok (.records records)
  | _ => .ok .none

inductive Progress where
  | goOn (db : Database) (stage : SessionStage)
  | stop (db : Database) (outcome : SessionOutcome)

def Progress.db : Progress → Database
  | .goOn db _ => db
  | .stop db _ => db

/-- A step that raises leaves the database as it is. -/
def orStop {α : Type} (db : Database) (next : α → Progress) : Except AuthenticationException α → Progress
  | .ok a => next a
  | .error e => .stop db (.error (.service e))

/-- The end of a call whose transaction committed, and that may be told so. -/
def committed (db : Database) (acknowledged : Bool) (result : SessionReturn) : Progress :=
  .stop db (if acknowledged then .ok result else .error .interrupted)

/-- One step of a call. -/
def callStep (db : Database) (call : SessionCall) : CallStep → Option Progress
  | .observe => match call.stage with
    | .observe normalizedEmail =>
      some (.goOn db (.verify (getForAuthenticationByEmail db normalizedEmail)))
    | _ => none
  | .verify salt sessionToken csrfToken => match call.operation, call.stage with
    | .login _ password, .verify observed =>
      some (orStop db (fun verified => orStop db
        (fun _ => .goOn db (.insert verified.1 verified.2 sessionToken csrfToken))
        (checkTokenPair sessionToken csrfToken)) (verifyLogin cfg password salt observed))
    | _, _ => none
  | .insert sessionId acknowledged => match call.stage with
    | .insert observed replacementHash sessionToken csrfToken =>
      some (orStop db (fun r => committed r.1 acknowledged (.credentials r.2))
        (commitLogin cfg db call.clock.instant observed replacementHash sessionToken csrfToken sessionId))
    | _ => none
  | .select => match call.stage with
    | .select work tokenDigest =>
      match getActiveForAuthentication db tokenDigest call.clock.instant with
      | none => some (.stop db (.error (.service .authentication)))
      | some session => some (.goOn db (.selectUser work tokenDigest session))
    | _ => none
  | .selectUser => match call.stage with
    | .selectUser work tokenDigest session =>
      some (orStop db (fun user => orStop db (fun _ => .goOn db (.commit work tokenDigest session user))
        (checkWork session work))
        (checkActiveSession tokenDigest call.clock.instant session (db.users.find? session.userId)))
    | _ => none
  | .commit acknowledged => match call.stage with
    | .commit work tokenDigest session user =>
      some (orStop db (fun r => committed r.1 acknowledged r.2)
        (writeWork db call.clock.instant tokenDigest session user work))
    | _ => none
  | .read => match call.stage with
    | .check seen => some (.goOn db (.check (seen ++ [db])))
    | _ => none
  | .finish commits => match call.stage with
    | .check seen =>
      some (.stop db ((checkOutcome call.clock seen commits call.operation).mapError .retrieval))
    | _ => none
  | .interrupt => some (.stop db (.error .interrupted))

def SessionState.goOn (s : SessionState) (id : Nat) (call : SessionCall) (db : Database) : SessionState :=
  { s with db, calls := Function.update s.calls id (some call) }

def SessionState.stop (s : SessionState) (id : Nat) (call : SessionCall) (db : Database)
    (outcome : SessionOutcome) : SessionState :=
  { s with
    db
    calls := Function.update s.calls id none
    ended := ⟨id, call.operation, call.clock, outcome⟩ :: s.ended }

/-- The state after a call's step. -/
def SessionState.after (s : SessionState) (id : Nat) (call : SessionCall) : Progress → SessionState
  | .goOn db stage => s.goOn id { call with stage } db
  | .stop db outcome => s.stop id call db outcome

def sessionStep (s : SessionState) : SessionAction → Option SessionState
  | .start operation clock =>
    let s' := { s with issued := s.issued + 1 }
    match beginCall cfg clock operation with
    | .error e => some { s' with
        ended := ⟨s.issued, operation, clock, .error (.service e)⟩ :: s.ended }
    | .ok stage => some (s'.goOn s.issued ⟨operation, clock, stage⟩ s.db)
  | .step id step =>
    match s.calls id with
    | none => none
    | some call => (callStep cfg s.db call step).map (s.after id call)
  | .elsewhere db => if db.userSessions.rows = s.db.userSessions.rows then some { s with db } else none

def sessions : Machine SessionState SessionAction := ⟨sessionStep cfg⟩

end Machine

section Moves
variable {cfg : AuthenticationConfig} {db : Database} {call : SessionCall} {step : CallStep}
  {progress : Progress} {s t : SessionState} {action : SessionAction}

/-- All that a step of a call can do; one that raises leaves the database as it is. -/
inductive CallMove (cfg : AuthenticationConfig) (db : Database) (call : SessionCall) :
    CallStep → Progress → Prop
  | observe {normalizedEmail} (hstage : call.stage = .observe normalizedEmail) :
    CallMove cfg db call .observe (.goOn db (.verify (getForAuthenticationByEmail db normalizedEmail)))
  | verify {salt sessionToken csrfToken email password observed verified}
    (hlogin : call.operation = .login email password) (hstage : call.stage = .verify observed)
    (hverify : verifyLogin cfg password salt observed = .ok verified)
    (htokens : checkTokenPair sessionToken csrfToken = .ok ()) :
    CallMove cfg db call (.verify salt sessionToken csrfToken)
      (.goOn db (.insert verified.1 verified.2 sessionToken csrfToken))
  | insert {sessionId acknowledged observed replacementHash sessionToken csrfToken written credentials}
    (hstage : call.stage = .insert observed replacementHash sessionToken csrfToken)
    (hcommit : commitLogin cfg db call.clock.instant observed replacementHash sessionToken csrfToken
      sessionId = .ok (written, credentials)) :
    CallMove cfg db call (.insert sessionId acknowledged)
      (committed written acknowledged (.credentials credentials))
  | select {work tokenDigest session} (hstage : call.stage = .select work tokenDigest)
    (hactive : getActiveForAuthentication db tokenDigest call.clock.instant = some session) :
    CallMove cfg db call .select (.goOn db (.selectUser work tokenDigest session))
  | selectUser {work tokenDigest session user} (hstage : call.stage = .selectUser work tokenDigest session)
    (hactive : checkActiveSession tokenDigest call.clock.instant session (db.users.find? session.userId) =
      .ok user)
    (hwork : checkWork session work = .ok ()) :
    CallMove cfg db call .selectUser (.goOn db (.commit work tokenDigest session user))
  | commit {acknowledged work tokenDigest session user written result}
    (hstage : call.stage = .commit work tokenDigest session user)
    (hwrite : writeWork db call.clock.instant tokenDigest session user work = .ok (written, result)) :
    CallMove cfg db call (.commit acknowledged) (committed written acknowledged result)
  | read {seen} (hstage : call.stage = .check seen) :
    CallMove cfg db call .read (.goOn db (.check (seen ++ [db])))
  | finish {seen commits} (hstage : call.stage = .check seen) :
    CallMove cfg db call (.finish commits)
      (.stop db ((checkOutcome call.clock seen commits call.operation).mapError .retrieval))
  | refused {step : CallStep} {e : AuthenticationException} : CallMove cfg db call step (.stop db (.error (.service e)))
  | interrupt : CallMove cfg db call .interrupt (.stop db (.error .interrupted))

theorem callStep_move (h : callStep cfg db call step = some progress) :
    CallMove cfg db call step progress := by
  cases step with
  | observe =>
    simp only [callStep] at h
    split at h
    · obtain rfl := Option.some.inj h
      exact .observe ‹_›
    · cases h
  | verify salt sessionToken csrfToken =>
    simp only [callStep] at h
    split at h
    · rename_i email password observed hlogin hstage
      obtain rfl := Option.some.inj h
      cases hverify : verifyLogin cfg password salt observed with
      | error e => exact .refused
      | ok verified =>
        cases htokens : checkTokenPair sessionToken csrfToken with
        | error e =>
          rw [orStop]
          exact .refused
        | ok _ => exact .verify hlogin hstage hverify htokens
    · cases h
  | insert sessionId acknowledged =>
    simp only [callStep] at h
    split at h
    · rename_i observed replacementHash sessionToken csrfToken hstage
      obtain rfl := Option.some.inj h
      cases hcommit : commitLogin cfg db call.clock.instant observed replacementHash sessionToken
          csrfToken sessionId with
      | error e => exact .refused
      | ok r => exact .insert hstage hcommit
    · cases h
  | select =>
    simp only [callStep] at h
    split at h
    · rename_i hstage
      split at h
      · obtain rfl := Option.some.inj h
        exact .refused
      · obtain rfl := Option.some.inj h
        exact .select hstage ‹_›
    · cases h
  | selectUser =>
    simp only [callStep] at h
    split at h
    · rename_i work tokenDigest session hstage
      obtain rfl := Option.some.inj h
      cases hactive : checkActiveSession tokenDigest call.clock.instant session
          (db.users.find? session.userId) with
      | error e => exact .refused
      | ok user =>
        cases hwork : checkWork session work with
        | error e =>
          rw [orStop]
          exact .refused
        | ok _ => exact .selectUser hstage hactive hwork
    · cases h
  | commit acknowledged =>
    simp only [callStep] at h
    split at h
    · rename_i work tokenDigest session user hstage
      obtain rfl := Option.some.inj h
      cases hwrite : writeWork db call.clock.instant tokenDigest session user work with
      | error e => exact .refused
      | ok r => exact .commit hstage hwrite
    · cases h
  | read =>
    simp only [callStep] at h
    split at h
    · obtain rfl := Option.some.inj h
      exact .read ‹_›
    · cases h
  | finish commits =>
    simp only [callStep] at h
    split at h
    · obtain rfl := Option.some.inj h
      exact .finish ‹_›
    · cases h
  | interrupt =>
    obtain rfl := Option.some.inj h
    exact .interrupt

/-- All that a step of the clients and their calls can do. -/
inductive SessionMove (cfg : AuthenticationConfig) (s : SessionState) : SessionAction → SessionState → Prop
  | refused {operation clock e} (hbegin : beginCall cfg clock operation = .error e) :
    SessionMove cfg s (.start operation clock) { s with
      issued := s.issued + 1
      ended := ⟨s.issued, operation, clock, .error (.service e)⟩ :: s.ended }
  | started {operation clock stage} (hbegin : beginCall cfg clock operation = .ok stage) :
    SessionMove cfg s (.start operation clock)
      ({ s with issued := s.issued + 1 }.goOn s.issued ⟨operation, clock, stage⟩ s.db)
  | step {id : Nat} {step : CallStep} {call : SessionCall} {progress : Progress} (hcall : s.calls id = some call)
    (hstep : callStep cfg s.db call step = some progress) :
    SessionMove cfg s (.step id step) (s.after id call progress)
  | elsewhere {db : Database} (hrows : db.userSessions.rows = s.db.userSessions.rows) :
    SessionMove cfg s (.elsewhere db) { s with db }

theorem sessionStep_step {id : Nat} {step : CallStep} (h : sessionStep cfg s (.step id step) = some t) :
    ∃ call progress, s.calls id = some call ∧ callStep cfg s.db call step = some progress ∧
      t = s.after id call progress := by
  simp only [sessionStep] at h
  split at h
  · cases h
  · rename_i call hcall
    obtain ⟨progress, hstep, rfl⟩ := Option.map_eq_some_iff.mp h
    exact ⟨call, progress, hcall, hstep, rfl⟩

theorem sessionStep_move (h : (sessions cfg).step s action = some t) : SessionMove cfg s action t := by
  cases action with
  | start operation clock =>
    simp only [sessions, sessionStep] at h
    split at h
    · obtain rfl := Option.some.inj h
      exact .refused ‹_›
    · obtain rfl := Option.some.inj h
      exact .started ‹_›
  | step id step =>
    obtain ⟨call, progress, hcall, hstep, rfl⟩ := sessionStep_step h
    exact .step hcall hstep
  | elsewhere db =>
    simp only [sessions, sessionStep] at h
    split at h
    · obtain rfl := Option.some.inj h
      exact .elsewhere ‹_›
    · cases h

end Moves
end AgenticRag.Security

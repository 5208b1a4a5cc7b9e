import AgenticRag.Api.Refusals
import AgenticRag.Services.MembershipWrites

/-! Complete mediation: in every run of the API from a database without sessions, what a request
writes or reads of the knowledge tables goes back to a login of the same user. -/
namespace AgenticRag.Api
open Lib Python Db Ingestion Security Retrieval Services Program

section Sessions
variable {ρ : Type} {settings : ApiSettings ρ} {request : ApiRequest} {h : ApiHistory} {i : ApiInput}
  {s t : KnowledgeState} {userId : UUID}

/-- Session rows are neither added nor lost, and each is one that it can become. -/
structure SessionsKept (db db' : Database) : Prop where
  grows : Grows db db'
  distinct : DistinctDigests db → DistinctDigests db'
  back : ∀ k, db.userSessions.find? k = none → db'.userSessions.find? k = none

theorem SessionsKept.of_eq {db db' : Database} (heq : db'.userSessions.rows = db.userSessions.rows) :
    SessionsKept db db' where
  grows := .of_eq heq
  distinct hd k k' row row' hk hk' := by
    apply hd k k' row row'
    · rwa [Table.find?, ← heq]
    · rwa [Table.find?, ← heq]
  back k hk := by rwa [Table.find?, heq]

/-- A row that is there now was there before. -/
theorem SessionsKept.find? {db db' : Database} (hkept : SessionsKept db db') {k : UUID}
    {row' : UserSession} (hrow : db'.userSessions.find? k = some row') :
    ∃ row, db.userSessions.find? k = some row ∧ Evolves row row' := by
  cases hfind : db.userSessions.find? k with
  | none => cases (hkept.back k hfind).symm.trans hrow
  | some row =>
    obtain ⟨found, hfound, hevolves⟩ := hkept.grows k row hfind
    obtain rfl := Option.some.inj (hfound.symm.trans hrow)
    exact ⟨row, rfl, hevolves⟩

private theorem writeWork_sessionsKept {db db' : Database} {now : Time} {tokenDigest : Str}
    {session : UserSession} {user : User} {work : SessionWork} {result : SessionReturn}
    (hwork : writeWork db now tokenDigest session user work = .ok (db', result)) :
    SessionsKept db db' := by
  have hrow := writeWork_ok hwork
  exact ⟨hrow.grows, hrow.distinct, (writeWork_spares hwork).2⟩

theorem KnowledgeWrite.userSessions {operation : ApiOperation}
    (hwrite : KnowledgeWrite settings userId h i s operation t) :
    t.db.userSessions = s.db.userSessions ∧ t.db.users = s.db.users := by
  cases hwrite with
  | created hadd =>
    obtain ⟨_, _, _, heq⟩ := addWithOwner_some hadd
    rw [heq]
    exact ⟨rfl, rfl⟩
  | retried hretry =>
    have houtside := retryIngestionJob_outside hretry
    exact ⟨houtside.userSessions, houtside.users⟩
  | stored _ _ => exact ⟨rfl, rfl⟩
  | inserted _ _ _ _ _ hinsert =>
    obtain ⟨_, _, _, _, _, heq⟩ := insertUpload_ok hinsert
    rw [heq]
    exact ⟨rfl, rfl⟩
  | deleted _ _ => exact ⟨rfl, rfl⟩

/-- What an action does to the session rows: it keeps them, or it is a login's last. -/
inductive SessionEffect (settings : ApiSettings ρ) (request : ApiRequest) (h : ApiHistory)
    (i : ApiInput) (s t : KnowledgeState) : Prop
  | kept (hkept : SessionsKept s.db t.db)
  | loggedIn {email password : Str} {now : Time} {observed : AuthenticationUserSnapshot}
      {replacementHash : Option Str} {sessionToken csrfToken : Str} {credentials : SessionCredentials}
      (hlogin : request.operation = .login email password)
      (hverified : LoginVerified settings email password h now observed replacementHash sessionToken
        csrfToken)
      (hcommit : commitLogin settings.authentication s.db now observed replacementHash sessionToken
        csrfToken i.id = .ok (t.db, credentials))

theorem Effect.sessions (heffect : Effect settings request h i s t) :
    SessionEffect settings request h i s t := by
  cases heffect with
  | none => exact .kept (.of_eq rfl)
  | @touched tokenDigest now session user db _ htouch =>
    have hwork : writeWork s.db now tokenDigest session user .touch =
        .ok (db, .proof ⟨principalOf session user, tokenDigest⟩) := bind_eq_ok.mpr ⟨db, htouch, rfl⟩
    exact .kept (writeWork_sessionsKept hwork)
  | @revoked tokenDigest now session user db _ _ _ hrevoke =>
    have hwork : writeWork s.db now tokenDigest session user .revoke = .ok (db, .none) :=
      bind_eq_ok.mpr ⟨db, hrevoke, rfl⟩
    exact .kept (writeWork_sessionsKept hwork)
  | loggedIn hlogin hverified hcommit => exact .loggedIn hlogin hverified hcommit
  | knowledge _ _ hwrite => exact .kept (.of_eq (by rw [hwrite.userSessions.1]))

theorem SessionEffect.grows (heffect : SessionEffect settings request h i s t) : Grows s.db t.db := by
  cases heffect with
  | kept hkept => exact hkept.grows
  | loggedIn _ _ hcommit => exact (commitLogin_ok hcommit).grows

theorem SessionEffect.distinct (heffect : SessionEffect settings request h i s t)
    (hd : DistinctDigests s.db) : DistinctDigests t.db := by
  cases heffect with
  | kept hkept => exact hkept.distinct hd
  | loggedIn _ _ hcommit => exact (commitLogin_ok hcommit).distinct hd

end Sessions

section Runs
variable {ρ : Type} [LinearOrder ρ] {settings : ApiSettings ρ} {s₀ : KnowledgeState}
  {as : List ApiAction} {a : ApiAction} {p q : ApiPool} {row : UserSession}

/-- A session row comes from a login of the run: the transaction that inserted it found the active
user with the hash against which the login's password was verified, and stored the digests of
the two tokens that it answers. -/
def IssuedByLogin (settings : ApiSettings ρ) (s₀ : KnowledgeState) (as : List ApiAction)
    (row : UserSession) : Prop :=
  ∃ id request history input state email password now observed replacementHash sessionToken csrfToken
    user,
    Pool.Took (fun request => (serve settings request).run) KeepsSessions s₀ as id request history input
      state ∧
    request.operation = .login email password ∧
    LoginVerified settings email password history now observed replacementHash sessionToken csrfToken ∧
    observed.userId = row.userId ∧ state.db.users.find? row.userId = some user ∧ user.isActive = true ∧
    settings.authentication.passwordHasher.verifyPassword password (some user.passwordHash) = true ∧
    hashToken settings.authentication.sha256 sessionToken = .ok row.tokenSha256 ∧
    hashToken settings.authentication.sha256 csrfToken = .ok row.csrfTokenSha256 ∧
    row.expiresAt = now + settings.authentication.sessionTtl

theorem IssuedByLogin.append {bs : List ApiAction} (hissued : IssuedByLogin settings s₀ as row) :
    IssuedByLogin settings s₀ (as ++ bs) row := by
  obtain ⟨id, request, history, input, state, email, password, now, observed, replacementHash,
    sessionToken, csrfToken, user, htook, hrest⟩ := hissued
  exact ⟨id, request, history, input, state, email, password, now, observed, replacementHash,
    sessionToken, csrfToken, user, htook.append, hrest⟩

theorem IssuedByLogin.evolves {row' : UserSession} (hissued : IssuedByLogin settings s₀ as row)
    (hevolves : Evolves row row') : IssuedByLogin settings s₀ as row' := by
  unfold IssuedByLogin
  rw [hevolves.userId, hevolves.tokenSha256, hevolves.csrfTokenSha256, hevolves.expiresAt]
  exact hissued

/-- The invariant: digests are distinct, and every session row comes from a login. -/
structure SessionsIssued (settings : ApiSettings ρ) (s₀ : KnowledgeState) (as : List ApiAction)
    (p : ApiPool) : Prop where
  distinct : DistinctDigests p.state.db
  issued : ∀ k row, p.state.db.userSessions.find? k = some row → IssuedByLogin settings s₀ as row

private theorem SessionsIssued.keep (hissued : SessionsIssued settings s₀ as p)
    (hkept : SessionsKept p.state.db q.state.db) : SessionsIssued settings s₀ (as ++ [a]) q where
  distinct := hkept.distinct hissued.distinct
  issued k row hrow := by
    obtain ⟨old, hold, hevolves⟩ := hkept.find? hrow
    exact ((hissued.issued k old hold).evolves hevolves).append

/-- The effect of a step of a client, with the client that takes it. -/
theorem step_effect {id : Nat} {input : ApiInput} (hrun : (api settings).run (.init s₀) as = some p)
    (hstep : (api settings).step p (.step id input) = some q) :
    ∃ client, p.clients id = some client ∧
      Pool.Recorded (fun request => (serve settings request).run) KeepsSessions s₀ as id client.request
        client.history ∧
      Effect settings client.request client.history input p.state q.state :=
  Pool.step_guaranteed (meets_serve settings) hrun hstep

private theorem SessionsIssued.step (hrun : (api settings).run (.init s₀) as = some p)
    (hissued : SessionsIssued settings s₀ as p) (hstep : (api settings).step p a = some q) :
    SessionsIssued settings s₀ (as ++ [a]) q := by
  cases a with
  | start request =>
    obtain rfl := Option.some.inj hstep
    apply hissued.keep
    rw [Pool.settle_state]
    exact .of_eq rfl
  | step id input =>
    obtain ⟨client, hclient, hrecorded, heffect⟩ := step_effect hrun hstep
    cases heffect.sessions with
    | kept hkept => exact hissued.keep hkept
    | @loggedIn email password now observed replacementHash sessionToken csrfToken credentials hlogin
        hverified hcommit =>
      obtain ⟨user, inserted, hid, hcommitted⟩ := commitLogin_committed hcommit
      refine ⟨heffect.sessions.distinct hissued.distinct, fun k row hrow => ?_⟩
      rw [hcommitted.sessions] at hrow
      split at hrow
      · obtain rfl := Option.some.inj hrow
        have huser : observed.userId = inserted.userId :=
          (Table.find?_key hcommitted.found).symm.trans hcommitted.userId.symm
        refine ⟨id, client.request, client.history, input, p.state, email, password, now, observed,
          replacementHash, sessionToken, csrfToken, user, ?_, hlogin, hverified, huser, ?_,
          hcommitted.active, ?_, hcommitted.token, hcommitted.csrf, hcommitted.expires⟩
        · exact ⟨as, [], p, client, rfl, hrun, rfl, hclient, rfl, rfl⟩
        · rw [← huser]
          exact hcommitted.found
        · rw [hcommitted.unchanged]
          exact hverified.verified.valid
      · exact (hissued.issued k row hrow).append
  | kill id =>
    obtain ⟨_, _, rfl⟩ := Option.map_eq_some_iff.mp hstep
    exact hissued.keep (.of_eq rfl)
  | elsewhere state =>
    simp only [api, Pool.machine, Pool.step] at hstep
    split at hstep
    · rename_i hrows
      obtain rfl := Option.some.inj hstep
      exact hissued.keep (.of_eq hrows)
    · cases hstep

/-- In every run from a database without sessions, every session comes from a login. -/
theorem sessionsIssued (hs₀ : s₀.db.userSessions.rows = [])
    (hrun : (api settings).run (.init s₀) as = some p) : SessionsIssued settings s₀ as p := by
  apply Machine.run_history (C := fun _ _ => True) _ _ Machine.allowed_true hrun
  · exact fun as r a q hr hI _ hstep => hI.step hr hstep
  · have hnone (k : UUID) (row : UserSession) (hrow : s₀.db.userSessions.find? k = some row) : False := by
      rw [Table.find?, hs₀] at hrow
      cases hrow
    exact ⟨fun k _ row _ hrow => (hnone k row hrow).elim, fun k row hrow => (hnone k row hrow).elim⟩

private theorem step_grows (hrun : (api settings).run (.init s₀) as = some p)
    (hstep : (api settings).step p a = some q) : Grows p.state.db q.state.db := by
  cases a with
  | start request =>
    obtain rfl := Option.some.inj hstep
    rw [Pool.settle_state]
    exact .refl _
  | step id input =>
    obtain ⟨client, _, _, heffect⟩ := step_effect hrun hstep
    exact heffect.sessions.grows
  | kill id =>
    obtain ⟨_, _, rfl⟩ := Option.map_eq_some_iff.mp hstep
    exact .refl _
  | elsewhere state =>
    simp only [api, Pool.machine, Pool.step] at hstep
    split at hstep
    · rename_i hrows
      obtain rfl := Option.some.inj hstep
      exact .of_eq hrows
    · cases hstep

private theorem run_grows {bs : List ApiAction} (hrun : (api settings).run (.init s₀) as = some p)
    (hrest : (api settings).run p bs = some q) : Grows p.state.db q.state.db := by
  induction bs using List.reverseRecOn generalizing q with
  | nil =>
    obtain rfl := Option.some.inj hrest
    exact .refl _
  | append_singleton bs b ih =>
    rw [Machine.run_append] at hrest
    obtain ⟨r, hr, hlast⟩ := Option.bind_eq_some_iff.mp hrest
    obtain ⟨_, hstep, hnil⟩ := Machine.run_cons_eq_some.mp hlast
    obtain rfl := Option.some.inj hnil
    have hreach : (api settings).run (.init s₀) (as ++ bs) = some r := by
      rw [Machine.run_append, hrun]
      exact hr
    exact (ih hr).trans (step_grows hreach hstep)

/-- A state in which a client acted is an earlier one of the run. -/
private theorem recorded_grows {id : Nat} {request : ApiRequest} {h : ApiHistory}
    (hrun : (api settings).run (.init s₀) as = some p)
    (hrecorded : Pool.Recorded (fun request => (serve settings request).run) KeepsSessions s₀ as id
      request h) {x : ApiInput × KnowledgeState} (hx : x ∈ h) : Grows x.2.db p.state.db := by
  obtain ⟨before, after, r, rfl, hr, hstate⟩ := hrecorded.of_mem hx
  rw [← hstate]
  apply run_grows hr
  rw [Machine.run_append] at hrun
  obtain ⟨r', hr', hrest⟩ := Option.bind_eq_some_iff.mp hrun
  obtain rfl := Option.some.inj (hr.symm.trans hr')
  exact hrest

/-- A session row of a principal in the database now, with what the request found of it, and the
login that it comes from. -/
structure LoggedIn (settings : ApiSettings ρ) (s₀ : KnowledgeState) (as : List ApiAction)
    (credentials : Credentials) (h : ApiHistory) (db : Database) (principal : Principal)
    (row : UserSession) : Prop where
  found : db.userSessions.find? principal.sessionId = some row
  userId : row.userId = principal.userId
  digest : sessionDigestOrError settings.authentication.sha256 (credentials.sessionToken settings) =
    .ok row.tokenSha256
  live : ∃ x ∈ h, ∃ now, authenticationNow x.1.clock = .ok now ∧ now < row.expiresAt
  active : ∃ x ∈ h, ∃ user, x.2.db.users.find? principal.userId = some user ∧ user.isActive = true
  issued : IssuedByLogin settings s₀ as row

section Requests
variable {id : Nat} {request : ApiRequest} {h : ApiHistory} {principal : Principal}
  {tokenDigest : Str} {now : Time} {session : UserSession} {user : User}

private theorem checkActiveSession_ok {found : Option User}
    (heq : checkActiveSession tokenDigest now session found = .ok user) :
    found = some user ∧ user.isActive = true := by
  unfold checkActiveSession at heq
  split at heq
  · cases heq
  split at heq
  · cases heq
  split at heq
  · cases heq
  · split at heq
    · obtain rfl := Except.ok.inj heq
      exact ⟨rfl, ‹_›⟩
    · cases heq

/-- The session that a request found is still there, as a row it can become. -/
theorem ActiveSession.remains (hrun : (api settings).run (.init s₀) as = some p)
    (hrecorded : Pool.Recorded (fun request => (serve settings request).run) KeepsSessions s₀ as id
      request h)
    (hactive : ActiveSession settings request.toCredentials h tokenDigest now session user) :
    ∃ row, p.state.db.userSessions.find? session.id = some row ∧ Evolves session row ∧
      row.tokenSha256 = tokenDigest ∧ now < row.expiresAt := by
  obtain ⟨x, hx, hfound⟩ := hactive.sessionFound
  obtain ⟨hfind, htoken, hlive⟩ := getActiveForAuthentication_some hfound
  obtain ⟨row, hrow, hevolves⟩ := recorded_grows hrun hrecorded hx _ _ hfind
  refine ⟨row, hrow, hevolves, hevolves.tokenSha256.trans htoken, ?_⟩
  rw [hevolves.expiresAt]
  exact hlive.2

theorem Authenticated.loggedIn (hs₀ : s₀.db.userSessions.rows = [])
    (hrun : (api settings).run (.init s₀) as = some p)
    (hrecorded : Pool.Recorded (fun request => (serve settings request).run) KeepsSessions s₀ as id
      request h)
    (hprincipal : Authenticated settings request.toCredentials h principal) :
    ∃ row, LoggedIn settings s₀ as request.toCredentials h p.state.db principal row := by
  obtain ⟨tokenDigest, now, session, user, hactive, rfl⟩ := hprincipal
  obtain ⟨row, hrow, hevolves, htoken, hlive⟩ := hactive.remains hrun hrecorded
  obtain ⟨x, hx, hclock⟩ := hactive.clock
  obtain ⟨y, hy, huser⟩ := hactive.userFound
  obtain ⟨hfind, hisActive⟩ := checkActiveSession_ok huser
  have hid : user.id = session.userId := Table.find?_key hfind
  refine ⟨row, hrow, hevolves.userId.trans hid.symm, ?_, ⟨x, hx, now, hclock, hlive⟩, ⟨y, hy, user, ?_⟩,
    (sessionsIssued hs₀ hrun).issued _ _ hrow⟩
  · rw [htoken]
    exact hactive.digest
  · refine ⟨?_, hisActive⟩
    rw [← hid] at hfind
    exact hfind

/-- The token of the header is the one of the principal's session. -/
theorem CsrfProven.ofSession (hs₀ : s₀.db.userSessions.rows = [])
    (hrun : (api settings).run (.init s₀) as = some p)
    (hrecorded : Pool.Recorded (fun request => (serve settings request).run) KeepsSessions s₀ as id
      request h)
    (hcsrf : CsrfProven settings request.toCredentials h) {row : UserSession}
    (hrow : LoggedIn settings s₀ as request.toCredentials h p.state.db principal row) :
    ∃ token, request.cookies settings.csrfCookieName = some token ∧ request.csrfHeader = some token ∧
      hashToken settings.authentication.sha256 token = .ok row.csrfTokenSha256 := by
  obtain ⟨tokenDigest, now, session, user, token, hactive, hcookie, hheader, hhash⟩ := hcsrf
  obtain ⟨row', hrow', hevolves, htoken, _⟩ := hactive.remains hrun hrecorded
  have hdigest := Except.ok.inj (hrow.digest.symm.trans hactive.digest)
  have hsame := (sessionsIssued hs₀ hrun).distinct _ _ _ _ hrow' hrow.found (htoken.trans hdigest.symm)
  rw [hsame] at hrow'
  obtain rfl := Option.some.inj (hrow'.symm.trans hrow.found)
  exact ⟨token, hcookie, hheader, hevolves.csrfTokenSha256.symm ▸ hhash⟩

end Requests
end Runs

section Example

def exampleSettings : ApiSettings Nat where
  authentication := upgradeConfig
  intake := ⟨fun _ => List.Vector.replicate 32 0, 100⟩
  sessionCookieName := str "session"
  csrfCookieName := str "csrf"
  sessionTtlSeconds := 90
  sessionCookieSecure := true
  sessionCookieSamesite := "lax"
  chromaCollectionUuid := some 9
  embeddingDimension := 1
  embeddingDimension_pos := by decide
  search := exampleCollaborators.search
  nfc := exampleNfc

def exampleInput : ApiInput where
  fault := none
  clock := exampleClock
  salt := 1
  sessionToken := List.replicate 32 (ord 'a')
  csrfToken := List.replicate 32 (ord 'b')
  id := 7
  jobId := 8
  createdAt := 10
  storageFailure := none
  conflict := false
  embed := exampleCollaborators.embeddingModel.embed
  denseRetrieval := exampleCollaborators.denseRetrieval

def exampleCookies (name : Str) : Option Str :=
  if name = str "session" then some (List.replicate 32 (ord 'a'))
  else if name = str "csrf" then some (List.replicate 32 (ord 'b'))
  else none

/-- One user with an outdated hash, and no session. -/
def exampleState : KnowledgeState := ⟨outdatedDatabase, fun _ => none⟩

def exampleSteps (id n : Nat) : List ApiAction := List.replicate n (.step id exampleInput)

/-- A login up to its last transaction. -/
def loginActions : List ApiAction :=
  .start ⟨⟨fun _ => none, none⟩, .login (str "a@b") (str "pass")⟩ :: exampleSteps 0 4

/-- A login, and a request with its cookies and a header up to some of its actions. -/
def requestActions (csrfHeader : Option Str) (operation : ApiOperation) (n : Nat) : List ApiAction :=
  loginActions ++ .step 0 exampleInput :: .start ⟨⟨exampleCookies, csrfHeader⟩, operation⟩ ::
    exampleSteps 1 n

def examplePayload : KnowledgeBaseCreate := ⟨str "kb", none, by decide, by decide, nofun⟩

end Example
end AgenticRag.Api

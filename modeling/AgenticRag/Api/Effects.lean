import AgenticRag.Api.Endpoints
import AgenticRag.Python.Utf8Codec

/-! Everything that an action of a request can do, with what the request established before it:
the session that its cookie names, the double-submitted token, and the caller's role. -/
namespace AgenticRag.Api
open Lib Python Db Ingestion Security Retrieval Services Program

abbrev ApiHistory := History KnowledgeState ApiInput

section Evidence
variable {ρ : Type} (settings : ApiSettings ρ)

/-- Earlier statements of the request found the active session of its cookie, and its active user. -/
structure ActiveSession (credentials : Credentials) (h : ApiHistory) (tokenDigest : Str) (now : Time)
    (session : UserSession) (user : User) : Prop where
  digest : sessionDigestOrError settings.authentication.sha256 (credentials.sessionToken settings) =
    .ok tokenDigest
  clock : ∃ x ∈ h, authenticationNow x.1.clock = .ok now
  sessionFound : ∃ x ∈ h, getActiveForAuthentication x.2.db tokenDigest now = some session
  userFound : ∃ x ∈ h,
    checkActiveSession tokenDigest now session (x.2.db.users.find? session.userId) = .ok user

/-- The request acts for a principal. -/
def Authenticated (credentials : Credentials) (h : ApiHistory) (principal : Principal) : Prop :=
  ∃ tokenDigest now session user, ActiveSession settings credentials h tokenDigest now session user ∧
    principal = principalOf session user

/-- The request's cookie and header carry one token, whose digest is the session's. -/
def CsrfProven (credentials : Credentials) (h : ApiHistory) : Prop :=
  ∃ tokenDigest now session user token,
    ActiveSession settings credentials h tokenDigest now session user ∧
    credentials.cookies settings.csrfCookieName = some token ∧ credentials.csrfHeader = some token ∧
    hashToken settings.authentication.sha256 token = .ok session.csrfTokenSha256

/-- An upload was authorized. -/
def UploadAuthorized (h : ApiHistory) (knowledgeBaseId userId : UUID) : Prop :=
  ∃ x ∈ h, authorizeUpload x.2.db knowledgeBaseId userId = .ok ()

/-- An upload published its file. -/
def Published (h : ApiHistory) (knowledgeBaseId : UUID) (extension : Str) (source : List (List UInt8))
    (documentId : UUID) (stored : Services.StoredFile) : Prop :=
  ∃ x ∈ h, ∃ content, x.1.id = documentId ∧ settings.intake.storeUpload x.1.call source
    (storageKey knowledgeBaseId documentId extension) = .ok (content, stored)

/-- What a login observed, verified and generated before its last transaction. -/
structure LoginVerified (email password : Str) (h : ApiHistory) (now : Time)
    (observed : AuthenticationUserSnapshot) (replacementHash : Option Str)
    (sessionToken csrfToken : Str) : Prop where
  clock : ∃ x ∈ h, authenticationNow x.1.clock = .ok now
  observedFound : ∃ normalizedEmail,
    prepareLogin settings.authentication email password = .ok normalizedEmail ∧
      ∃ x ∈ h, getForAuthenticationByEmail x.2.db normalizedEmail = some observed
  verified : Verified settings.authentication password observed replacementHash sessionToken csrfToken

/-- What a knowledge request of a user can write, at an input and a state. -/
inductive KnowledgeWrite (userId : UUID) (h : ApiHistory) (i : ApiInput) (s : KnowledgeState) :
    ApiOperation → KnowledgeState → Prop
  | created {payload : KnowledgeBaseCreate} {db : Database}
      (hadd : addWithOwner s.db ⟨i.id, payload.name, payload.description, i.createdAt⟩ userId = some db) :
      KnowledgeWrite userId h i s (.createKnowledgeBase payload) { s with db }
  | retried {jobId : UUID} {job : IngestionJob} {db : Database}
      (hretry : Services.retryIngestionJob s.db userId jobId = .ok (job, db)) :
      KnowledgeWrite userId h i s (.retryIngestionJob jobId) { s with db }
  | stored {knowledgeBaseId : UUID} {file : UploadFile} {extension : Str} {content : List UInt8}
      {stored : Services.StoredFile} (hauthorized : UploadAuthorized h knowledgeBaseId userId)
      (hstore : settings.intake.storeUpload i.call file.source
        (storageKey knowledgeBaseId i.id extension) = .ok (content, stored)) :
      KnowledgeWrite userId h i s (.uploadDocument knowledgeBaseId file)
        { s with files := Function.update s.files (storageKey knowledgeBaseId i.id extension) (some content) }
  | inserted {knowledgeBaseId documentId : UUID} {file : UploadFile} {mediaType : String}
      {extension : Str} {stored : Services.StoredFile} {job : IngestionJob} {db : Database}
      (hmedia : file.contentType = some mediaType)
      (hmetadata : validateUploadMetadata (file.filename.getD []) mediaType = .ok extension)
      (hpublished : Published settings h knowledgeBaseId extension file.source documentId stored)
      (hcontent : validateContent mediaType stored = .ok ())
      (hfind : findDuplicate s.db knowledgeBaseId stored.sha256 userId = .ok none)
      (hinsert : insertUpload s.db (uploadedDocument documentId knowledgeBaseId
        (file.filename.getD []) mediaType stored i.createdAt) i.jobId = .ok (job, db)) :
      KnowledgeWrite userId h i s (.uploadDocument knowledgeBaseId file) { s with db }
  | deleted {knowledgeBaseId documentId : UUID} {file : UploadFile} {extension : Str} {stored : Services.StoredFile}
      (hauthorized : UploadAuthorized h knowledgeBaseId userId)
      (hpublished : Published settings h knowledgeBaseId extension file.source documentId stored) :
      KnowledgeWrite userId h i s (.uploadDocument knowledgeBaseId file)
        (s.delete (storageKey knowledgeBaseId documentId extension))

/-- All that an action of a request does. -/
inductive Effect (request : ApiRequest) (h : ApiHistory) (i : ApiInput) (s : KnowledgeState) :
    KnowledgeState → Prop
  | none : Effect request h i s s
  | touched {tokenDigest : Str} {now : Time} {session : UserSession} {user : User} {db : Database}
      (hactive : ActiveSession settings request.toCredentials h tokenDigest now session user)
      (htouch : touchForAuthentication s.db session now = .ok db) : Effect request h i s { s with db }
  | revoked {tokenDigest : Str} {now : Time} {session : UserSession} {user : User} {db : Database}
      (hlogout : request.operation = .logout)
      (hcsrf : CsrfProven settings request.toCredentials h)
      (hactive : ActiveSession settings request.toCredentials h tokenDigest now session user)
      (hrevoke : revokeForAuthentication s.db session now = .ok db) : Effect request h i s { s with db }
  | loggedIn {email password : Str} {now : Time} {observed : AuthenticationUserSnapshot}
      {replacementHash : Option Str} {sessionToken csrfToken : Str} {db : Database}
      {credentials : SessionCredentials} (hlogin : request.operation = .login email password)
      (hverified : LoginVerified settings email password h now observed replacementHash sessionToken
        csrfToken)
      (hcommit : commitLogin settings.authentication s.db now observed replacementHash sessionToken
        csrfToken i.id = .ok (db, credentials)) : Effect request h i s { s with db }
  | knowledge {principal : Principal} {t : KnowledgeState}
      (hprincipal : Authenticated settings request.toCredentials h principal)
      (hcsrf : CsrfProven settings request.toCredentials h)
      (hwrite : KnowledgeWrite settings principal.userId h i s request.operation t) :
      Effect request h i s t

end Evidence

section Growth
variable {ρ : Type} {settings : ApiSettings ρ} {credentials : Credentials} {h k : ApiHistory}

theorem exists_mem_prefix (hk : h <+: k) {P : ApiInput × KnowledgeState → Prop}
    (hx : ∃ x ∈ h, P x) : ∃ x ∈ k, P x := by
  obtain ⟨x, hmem, hP⟩ := hx
  exact ⟨x, hk.subset hmem, hP⟩

theorem exists_mem_last {i : ApiInput} {s : KnowledgeState}
    {P : ApiInput × KnowledgeState → Prop} (hP : P (i, s)) : ∃ x ∈ h ++ [(i, s)], P x :=
  ⟨(i, s), by simp, hP⟩

theorem ActiveSession.grow {tokenDigest : Str} {now : Time} {session : UserSession} {user : User}
    (hactive : ActiveSession settings credentials h tokenDigest now session user) (hk : h <+: k) :
    ActiveSession settings credentials k tokenDigest now session user where
  digest := hactive.digest
  clock := exists_mem_prefix hk hactive.clock
  sessionFound := exists_mem_prefix hk hactive.sessionFound
  userFound := exists_mem_prefix hk hactive.userFound

theorem Authenticated.grow {principal : Principal}
    (hprincipal : Authenticated settings credentials h principal) (hk : h <+: k) :
    Authenticated settings credentials k principal := by
  obtain ⟨tokenDigest, now, session, user, hactive, heq⟩ := hprincipal
  exact ⟨tokenDigest, now, session, user, hactive.grow hk, heq⟩

theorem CsrfProven.grow (hcsrf : CsrfProven settings credentials h) (hk : h <+: k) :
    CsrfProven settings credentials k := by
  obtain ⟨tokenDigest, now, session, user, token, hactive, hrest⟩ := hcsrf
  exact ⟨tokenDigest, now, session, user, token, hactive.grow hk, hrest⟩

theorem UploadAuthorized.grow {knowledgeBaseId userId : UUID}
    (hauthorized : UploadAuthorized h knowledgeBaseId userId) (hk : h <+: k) :
    UploadAuthorized k knowledgeBaseId userId := exists_mem_prefix hk hauthorized

theorem Published.grow {knowledgeBaseId : UUID} {extension : Str} {source : List (List UInt8)}
    {documentId : UUID} {stored : Services.StoredFile}
    (hpublished : Published settings h knowledgeBaseId extension source documentId stored)
    (hk : h <+: k) : Published settings k knowledgeBaseId extension source documentId stored :=
  exists_mem_prefix hk hpublished

end Growth

section Actions
variable {ρ : Type} {settings : ApiSettings ρ} {request : ApiRequest} {h : ApiHistory} {α : Type}
  {P : ApiHistory → α → Prop}

theorem does_transaction {body : ApiInput → KnowledgeState → Except ApiRaised α × KnowledgeState}
    (hbody : ∀ i s, Effect settings request h i s (body i s).2)
    (hP : ∀ i s a, (body i s).1 = .ok a → P (h ++ [(i, s)]) a) :
    Does (Effect settings request) (transaction body) h (Gives P) := by
  apply does_attempt_gives
  · intro i s
    split
    · exact hbody i s
    · dsimp only
      split
      · exact hbody i s
      · exact .none
  · intro i s a ha
    split at ha
    · exact hP i s a ha
    · cases ha

theorem does_statement {read : ApiInput → Database → Except ApiRaised α}
    (hP : ∀ i s a, read i s.db = .ok a → P (h ++ [(i, s)]) a) :
    Does (Effect settings request) (statement read) h (Gives P) :=
  does_transaction (fun _ _ => .none) hP

theorem does_commit : Does (Effect settings request) commit h (Gives fun _ _ => True) :=
  does_statement fun _ _ _ _ => trivial

theorem does_thread {work : ApiInput → KnowledgeState → Except ApiRaised α × KnowledgeState}
    (hwork : ∀ i s, Effect settings request h i s (work i s).2)
    (hP : ∀ i s a, (work i s).1 = .ok a → P (h ++ [(i, s)]) a) :
    Does (Effect settings request) (thread work) h (Gives P) := by
  apply does_attempt_gives
  · intro i s
    split
    · dsimp only
      split
      · exact hwork i s
      · exact .none
    · exact hwork i s
  · intro i s a ha
    split at ha
    · cases ha
    · exact hP i s a ha

theorem does_generate {read : ApiInput → Except ApiRaised α}
    (hP : ∀ i s a, read i = .ok a → P (h ++ [(i, s)]) a) :
    Does (Effect settings request) (generate read) h (Gives P) :=
  does_attempt_gives (fun _ _ => .none) hP

theorem does_writeSessions {write : ApiInput → Database → Except AuthenticationException (Database × α)}
    (hwrite : ∀ i s db a, write i s.db = .ok (db, a) → Effect settings request h i s { s with db })
    (hP : ∀ i s db a, write i s.db = .ok (db, a) → P (h ++ [(i, s)]) a) :
    Does (Effect settings request) (writeSessions write) h (Gives P) := by
  apply does_transaction
  · intro i s
    split
    · exact hwrite i s _ _ ‹_›
    · exact .none
  · intro i s a ha
    split at ha
    · obtain rfl := Except.ok.inj ha
      exact hP i s _ _ ‹_›
    · cases ha

private theorem ofAuthentication_ok {x : Except AuthenticationException α} {a : α}
    (hx : ofAuthentication x = .ok a) : x = .ok a := mapError_eq_ok.mp hx

theorem does_readNow : Does (Effect settings request) readNow h
    (Gives fun k now => ∃ x ∈ k, authenticationNow x.1.clock = .ok now) :=
  does_generate fun _ _ _ hnow => exists_mem_last (ofAuthentication_ok hnow)

end Actions

section Authentication
variable {ρ : Type} {settings : ApiSettings ρ} {request : ApiRequest} {h : ApiHistory}

private theorem does_activeSession {tokenDigest : Str} {now : Time}
    (hdigest : sessionDigestOrError settings.authentication.sha256
      (request.toCredentials.sessionToken settings) = .ok tokenDigest)
    (hclock : ∃ x ∈ h, authenticationNow x.1.clock = .ok now) :
    Does (Effect settings request) (activeSession tokenDigest now) h (Gives fun k found =>
      ActiveSession settings request.toCredentials k tokenDigest now found.1 found.2) := by
  apply Does.andThen (P := fun k found => ∀ session, found = some session →
    ∃ x ∈ k, getActiveForAuthentication x.2.db tokenDigest now = some session)
  · apply does_statement
    rintro i s found hfound session rfl
    exact exists_mem_last (Except.ok.inj hfound)
  intro k found hk hfound
  cases found with
  | none => exact does_throw_gives
  | some session =>
    apply Does.andThen (P := fun k user => ∃ x ∈ k, checkActiveSession tokenDigest now session
      (x.2.db.users.find? session.userId) = .ok user)
    · exact does_statement fun i s user huser => exists_mem_last (ofAuthentication_ok huser)
    intro k' user hk' huser
    apply does_pure_gives
    exact ⟨hdigest, exists_mem_prefix (hk.trans hk') hclock,
      exists_mem_prefix hk' (hfound session rfl), huser⟩

/-- The opening of every transaction on the caller's session. -/
private theorem does_open {α : Type} {P : ApiHistory → α → Prop}
    {body : Str → Time → UserSession × User → ApiTask α}
    (hbody : ∀ k tokenDigest now session user, h <+: k →
      ActiveSession settings request.toCredentials k tokenDigest now session user →
        Does (Effect settings request) (body tokenDigest now (session, user)) k (Gives P)) :
    Does (Effect settings request) (do
      let tokenDigest ← lift (ofAuthentication (sessionDigestOrError settings.authentication.sha256
        (request.toCredentials.sessionToken settings)))
      let now ← readNow
      let found ← activeSession tokenDigest now
      body tokenDigest now found) h (Gives P) := by
  apply Does.andThen (P := fun _ tokenDigest => sessionDigestOrError settings.authentication.sha256
    (request.toCredentials.sessionToken settings) = .ok tokenDigest)
  · exact does_lift_gives fun _ hdigest => ofAuthentication_ok hdigest
  intro k tokenDigest hk hdigest
  apply does_readNow.andThen
  intro k' now hk' hclock
  apply (does_activeSession hdigest hclock).andThen
  intro k'' found hk'' hactive
  exact hbody k'' tokenDigest now found.1 found.2 (hk.trans (hk'.trans hk'')) hactive

theorem does_authenticate : Does (Effect settings request)
    (authenticateSessionWithProof settings.authentication (request.toCredentials.sessionToken settings))
    h (Gives fun k proof => Authenticated settings request.toCredentials k proof.principal) := by
  apply does_open
  intro k tokenDigest now session user _ hactive
  apply does_writeSessions
  · intro i s db proof hwrite
    obtain ⟨written, htouch, heq⟩ := bind_eq_ok.mp hwrite
    obtain ⟨rfl, -⟩ := Prod.mk.inj (Except.ok.inj heq)
    exact .touched hactive htouch
  · intro i s db proof hwrite
    obtain ⟨written, htouch, heq⟩ := bind_eq_ok.mp hwrite
    obtain ⟨-, rfl⟩ := Prod.mk.inj (Except.ok.inj heq)
    exact ⟨tokenDigest, now, session, user, hactive.grow (List.prefix_append _ _), rfl⟩

theorem does_validateCsrf {token : Str}
    (hcookie : request.cookies settings.csrfCookieName = some token)
    (hheader : request.csrfHeader = some token) : Does (Effect settings request)
    (validateCsrf settings.authentication (request.toCredentials.sessionToken settings)
      request.csrfHeader) h (Gives fun k _ => CsrfProven settings request.toCredentials k) := by
  apply Does.andThen (P := fun _ tokenDigest => sessionDigestOrError settings.authentication.sha256
    (request.toCredentials.sessionToken settings) = .ok tokenDigest)
  · exact does_lift_gives fun _ hdigest => ofAuthentication_ok hdigest
  intro k tokenDigest hk hdigest
  apply Does.andThen (P := fun _ csrfDigest =>
    hashToken settings.authentication.sha256 token = .ok csrfDigest)
  · apply does_lift_gives
    intro csrfDigest hcsrf
    have hcsrf := ofAuthentication_ok hcsrf
    rw [hheader, csrfDigestOrError] at hcsrf
    split at hcsrf
    · exact hcsrf
    · cases hcsrf
  intro k csrfDigest hk hcsrf
  apply does_readNow.andThen
  intro k now hk hclock
  apply (does_activeSession hdigest hclock).andThen
  rintro k ⟨session, user⟩ hk hactive
  dsimp only
  split
  · exact Does.andThen (P := fun _ _ => False) does_throw_gives fun _ _ _ hfalse => hfalse.elim
  · rename_i hdigests
    rw [not_not] at hdigests
    apply does_commit.weaken
    intro k' _ hk' _
    exact ⟨tokenDigest, now, session, user, token, hactive.grow hk', hcookie, hheader,
      hdigests ▸ hcsrf⟩

private theorem compareCsrf_ok {csrfCookie csrfHeader : Option Str}
    (heq : compareCsrf csrfCookie csrfHeader = .ok ()) :
    ∃ token, csrfCookie = some token ∧ csrfHeader = some token := by
  unfold compareCsrf at heq
  split at heq
  · rename_i cookie header
    split at heq
    · rename_i a b ha hb
      split at heq
      · rename_i hab
        have hcookie := decodeUtf8_eq_some.mpr ha
        rw [hab, decodeUtf8_eq_some.mpr hb] at hcookie
        exact ⟨cookie, rfl, congrArg some (Option.some.inj hcookie)⟩
      · cases heq
    · cases heq
  · cases heq

/-- The double-submit comparison and `validate_csrf`, after which a result is returned. -/
private theorem does_csrf {α : Type} {P : ApiHistory → α → Prop} {a : α}
    (hP : ∀ k, h <+: k → CsrfProven settings request.toCredentials k → P k a) :
    Does (Effect settings request) (do
      lift (ofAuthentication (compareCsrf (request.cookies settings.csrfCookieName) request.csrfHeader))
      validateCsrf settings.authentication (request.toCredentials.sessionToken settings)
        request.csrfHeader
      return a) h (Gives P) := by
  apply Does.andThen (P := fun _ _ => ∃ token,
    request.cookies settings.csrfCookieName = some token ∧ request.csrfHeader = some token)
  · exact does_lift_gives fun _ heq => compareCsrf_ok (ofAuthentication_ok heq)
  rintro k _ hk ⟨token, hcookie, hheader⟩
  apply (does_validateCsrf hcookie hheader).andThen
  exact fun k' _ hk' hcsrf => does_pure_gives (hP k' (hk.trans hk') hcsrf)

theorem does_getCurrentPrincipal : Does (Effect settings request)
    (getCurrentPrincipal settings request.toCredentials) h
    (Gives fun k principal => Authenticated settings request.toCredentials k principal) :=
  does_authenticate.andThen fun _ _ _ hprincipal => does_pure_gives hprincipal

theorem does_getCsrfProtectedPrincipal : Does (Effect settings request)
    (getCsrfProtectedPrincipal settings request.toCredentials) h
    (Gives fun k principal => Authenticated settings request.toCredentials k principal ∧
      CsrfProven settings request.toCredentials k) := by
  apply does_getCurrentPrincipal.andThen
  intro k principal _ hprincipal
  exact does_csrf fun k' hk' hcsrf => ⟨hprincipal.grow hk', hcsrf⟩

theorem does_getCsrfProtectedAuthenticationProof : Does (Effect settings request)
    (getCsrfProtectedAuthenticationProof settings request.toCredentials) h
    (Gives fun k proof => Authenticated settings request.toCredentials k proof.principal ∧
      CsrfProven settings request.toCredentials k) := by
  apply does_authenticate.andThen
  intro k proof _ hprincipal
  exact does_csrf fun k' hk' hcsrf => ⟨hprincipal.grow hk', hcsrf⟩

theorem does_revokeSession (hlogout : request.operation = .logout)
    (hcsrf : CsrfProven settings request.toCredentials h) : Does (Effect settings request)
    (revokeSession settings.authentication (request.toCredentials.sessionToken settings)) h
    (Gives fun _ _ => True) := by
  apply does_open
  intro k tokenDigest now session user hk hactive
  apply does_writeSessions _ fun _ _ _ _ _ => trivial
  intro i s db _ hwrite
  obtain ⟨written, hrevoke, heq⟩ := bind_eq_ok.mp hwrite
  obtain ⟨rfl, -⟩ := Prod.mk.inj (Except.ok.inj heq)
  exact .revoked hlogout (hcsrf.grow hk) hactive hrevoke

theorem does_login {email password : Str} (hlogin : request.operation = .login email password) :
    Does (Effect settings request) (login settings.authentication email password) h
      (Gives fun _ _ => True) := by
  apply Does.andThen (P := fun _ normalizedEmail =>
    prepareLogin settings.authentication email password = .ok normalizedEmail)
  · exact does_lift_gives fun _ hprepare => ofAuthentication_ok hprepare
  intro k normalizedEmail _ hprepare
  apply does_readNow.andThen
  intro k₁ now _ hclock
  apply Does.andThen (P := fun k snapshot => ∃ x ∈ k,
    getForAuthenticationByEmail x.2.db normalizedEmail = snapshot)
  · exact does_statement fun i s snapshot hread => exists_mem_last (Except.ok.inj hread)
  intro k₂ snapshot hk₂ hsnapshot
  apply Does.andThen (P := fun _ verified => ∃ salt,
    verifyLogin settings.authentication password salt snapshot = .ok verified)
  · exact does_thread (fun _ _ => .none) fun i s verified hverify =>
      ⟨i.salt, ofAuthentication_ok hverify⟩
  rintro k₃ ⟨observed, replacementHash⟩ hk₃ ⟨salt, hverify⟩
  apply Does.andThen (P := fun _ tokens => checkTokenPair tokens.1 tokens.2 = .ok ())
  · apply does_generate
    intro i s tokens htokens
    obtain ⟨_, hcheck, heq⟩ := bind_eq_ok.mp (ofAuthentication_ok htokens)
    obtain rfl := Except.ok.inj heq
    exact hcheck
  rintro k₄ ⟨sessionToken, csrfToken⟩ hk₄ htokens
  obtain ⟨rfl, hverified⟩ := verifyLogin_ok hverify htokens
  apply does_writeSessions _ fun _ _ _ _ _ => trivial
  intro i s db credentials hcommit
  refine .loggedIn hlogin ⟨?_, ⟨normalizedEmail, hprepare, ?_⟩, hverified⟩ hcommit
  · exact exists_mem_prefix (hk₂.trans (hk₃.trans hk₄)) hclock
  · exact exists_mem_prefix (hk₃.trans hk₄) hsnapshot

end Authentication
end AgenticRag.Api

import AgenticRag.Api.Requests

/-! What a request raises before its caller is known: an error of the guards, of the database or of
the cancellation. Whatever else it raises comes after the session and the token. -/
namespace AgenticRag.Api
open Lib Python Db Ingestion Security Retrieval Services Program

/-- What `get_current_principal` raises. -/
def ApiRaised.BeforeSession : ApiRaised → Prop
  | .authentication e => e ≠ .csrf
  | .database | .cancelled => True
  | _ => False

/-- What the double-submit comparison and `validate_csrf` raise. -/
def ApiRaised.BeforeProof : ApiRaised → Prop
  | .authentication _ | .database | .cancelled => True
  | _ => False

theorem ApiRaised.BeforeSession.beforeProof {e : ApiRaised} (he : e.BeforeSession) : e.BeforeProof := by
  cases e with
  | authentication _ => trivial
  | database => trivial
  | cancelled => trivial
  | _ => exact he.elim

/-- A task raises errors of a kind, whatever it does. -/
def RaisesOnly {α : Type} (E : ApiRaised → Prop) (task : ApiTask α) : Prop :=
  ∀ h, Does (fun _ _ _ _ => True) task h (Fails fun _ => E)

section Guards
variable {α β : Type} {E : ApiRaised → Prop}

private theorem RaisesOnly.andThen {p : ApiTask α} {f : α → ApiTask β} (hp : RaisesOnly E p)
    (hf : ∀ a, RaisesOnly E (f a)) : RaisesOnly E (p >>= f) := fun h => (hp h).fails fun k a => hf a k

private theorem raisesOnly_lift {x : Except ApiRaised α} (hx : ∀ e, x = .error e → E e) :
    RaisesOnly E (lift x) := fun _ => hx

private theorem raisesOnly_pure {a : α} : RaisesOnly E (pure a : ApiTask α) := fun _ => does_pure_fails

private theorem raisesOnly_throw {e : ApiRaised} (he : E e) : RaisesOnly E (throw e : ApiTask α) :=
  fun _ => does_throw_fails he

private theorem raisesOnly_transaction (hdatabase : E .database) (hcancelled : E .cancelled)
    {body : ApiInput → KnowledgeState → Except ApiRaised α × KnowledgeState}
    (hbody : ∀ i s e, (body i s).1 = .error e → E e) : RaisesOnly E (transaction body) := by
  intro h
  apply does_attempt_fails
  intro i s e he
  split at he
  · exact hbody i s e he
  · rename_i fault _
    obtain rfl := Except.error.inj he
    cases fault with
    | database _ => exact hdatabase
    | cancelled _ => exact hcancelled

private theorem beforeSession_ofAuthentication {x : Except AuthenticationException α}
    (hx : ∀ e, x = .error e → e ≠ .csrf) (e : ApiRaised) (he : ofAuthentication x = .error e) :
    e.BeforeSession := by
  cases x with
  | ok a => cases he
  | error e' =>
    obtain rfl := Except.error.inj he
    exact hx e' rfl

private theorem beforeProof_ofAuthentication {x : Except AuthenticationException α} (e : ApiRaised)
    (he : ofAuthentication x = .error e) : e.BeforeProof := by
  cases x with
  | ok a => cases he
  | error e' =>
    obtain rfl := Except.error.inj he
    trivial

private theorem hashToken_error {sha256 : Sha256} {token : Str} {e : AuthenticationException}
    (he : hashToken sha256 token = .error e) : e ≠ .csrf := by
  unfold hashToken at he
  split at he <;> cases he
  exact AuthenticationException.noConfusion

private theorem sessionDigestOrError_error {sha256 : Sha256} {sessionToken : Option Str}
    {e : AuthenticationException} (he : sessionDigestOrError sha256 sessionToken = .error e) :
    e ≠ .csrf := by
  unfold sessionDigestOrError at he
  split at he
  · cases he
    exact AuthenticationException.noConfusion
  split at he
  · exact hashToken_error he
  · cases he
    exact AuthenticationException.noConfusion

private theorem checkActiveSession_error {tokenDigest : Str} {now : Time} {session : UserSession}
    {user : Option User} {e : AuthenticationException}
    (he : checkActiveSession tokenDigest now session user = .error e) : e ≠ .csrf := by
  unfold checkActiveSession at he
  repeat' split at he
  all_goals cases he
  all_goals exact AuthenticationException.noConfusion

private theorem raisesOnly_readNow : RaisesOnly ApiRaised.BeforeSession readNow := by
  intro h
  apply does_attempt_fails
  intro i _ e he
  apply beforeSession_ofAuthentication _ e he
  intro e he
  unfold authenticationNow at he
  split at he <;> cases he
  exact AuthenticationException.noConfusion

private theorem raisesOnly_activeSession {tokenDigest : Str} {now : Time} :
    RaisesOnly ApiRaised.BeforeSession (activeSession tokenDigest now) := by
  apply RaisesOnly.andThen
  · apply raisesOnly_transaction trivial trivial
    intro _ _ _ he
    cases he
  intro found
  cases found with
  | none => exact raisesOnly_throw AuthenticationException.noConfusion
  | some session =>
    apply RaisesOnly.andThen _ fun _ => raisesOnly_pure
    apply raisesOnly_transaction trivial trivial
    exact fun _ _ e he => beforeSession_ofAuthentication (fun _ => checkActiveSession_error) e he

private theorem raisesOnly_authenticate {cfg : AuthenticationConfig} {sessionToken : Option Str} :
    RaisesOnly ApiRaised.BeforeSession (authenticateSessionWithProof cfg sessionToken) := by
  apply RaisesOnly.andThen
  · exact raisesOnly_lift (beforeSession_ofAuthentication fun _ => sessionDigestOrError_error)
  intro tokenDigest
  apply raisesOnly_readNow.andThen
  intro now
  apply raisesOnly_activeSession.andThen
  rintro ⟨session, user⟩
  apply raisesOnly_transaction trivial trivial
  intro i s e he
  dsimp only at he
  split at he
  · cases he
  · rename_i e' hwrite
    obtain rfl := Except.error.inj he
    rcases bind_eq_error.mp hwrite with htouch | ⟨_, _, hok⟩
    · unfold touchForAuthentication flushSession at htouch
      repeat' split at htouch
      all_goals cases htouch
      all_goals exact AuthenticationException.noConfusion
    · cases hok

private theorem raisesOnly_validateCsrf {cfg : AuthenticationConfig} {sessionToken csrfToken : Option Str} :
    RaisesOnly ApiRaised.BeforeProof (validateCsrf cfg sessionToken csrfToken) := by
  have hweaker {α : Type} {task : ApiTask α} (htask : RaisesOnly ApiRaised.BeforeSession task) :
      RaisesOnly ApiRaised.BeforeProof task :=
    fun h => (htask h).imp fun _ _ _ hx e he => (hx e he).beforeProof
  apply RaisesOnly.andThen (raisesOnly_lift beforeProof_ofAuthentication)
  intro tokenDigest
  apply RaisesOnly.andThen (raisesOnly_lift beforeProof_ofAuthentication)
  intro csrfDigest
  apply (hweaker raisesOnly_readNow).andThen
  intro now
  apply (hweaker raisesOnly_activeSession).andThen
  rintro ⟨session, user⟩
  have hcommit : RaisesOnly ApiRaised.BeforeProof commit := by
    apply raisesOnly_transaction trivial trivial
    intro _ _ _ he
    cases he
  dsimp only
  split
  · exact (raisesOnly_throw trivial).andThen fun _ => hcommit
  · exact hcommit

end Guards

section Serve
variable {ρ : Type} {settings : ApiSettings ρ} {request : ApiRequest} {h : ApiHistory} {e : ApiRaised}
  {α : Type}

/-- What a request established before it raised an error. -/
structure Refused (settings : ApiSettings ρ) (request : ApiRequest) (h : ApiHistory) (e : ApiRaised) :
    Prop where
  session : request.operation.needsSession = true →
    e.BeforeSession ∨ ∃ principal, Authenticated settings request.toCredentials h principal
  csrf : request.operation.needsCsrf = true →
    e.BeforeProof ∨ CsrfProven settings request.toCredentials h

private theorem refused_of_beforeSession (he : e.BeforeSession) : Refused settings request h e :=
  ⟨fun _ => .inl he, fun _ => .inl he.beforeProof⟩

private theorem Guarded.refused {userId : UUID} (hguarded : Guarded settings request h userId) :
    Refused settings request h e := by
  obtain ⟨⟨principal, _, hprincipal⟩, hcsrf⟩ := hguarded
  exact ⟨fun _ => .inr ⟨principal, hprincipal⟩, fun _ => .inr hcsrf⟩

/-- What comes after the guards can raise anything. -/
private theorem refuses_of_grow {task : ApiTask α}
    (hrefused : ∀ k e, h <+: k → Refused settings request k e) :
    Does (fun _ _ _ _ => True) task h (Fails (Refused settings request)) :=
  (meets_true task.run h).imp fun k _ hk _ e _ => hrefused k e hk

private theorem refuses_authenticate : Does (fun _ _ _ _ => True)
    (authenticateSessionWithProof settings.authentication (request.toCredentials.sessionToken settings))
    h (Fails (Refused settings request)) := by
  apply (raisesOnly_authenticate h).imp
  exact fun _ _ _ hx e he => refused_of_beforeSession (hx e he)

private theorem refuses_getCurrentPrincipal : Does (fun _ _ _ _ => True)
    (getCurrentPrincipal settings request.toCredentials) h (Fails (Refused settings request)) :=
  does_authenticate.failsAfter refuses_authenticate fun _ _ _ _ => does_pure_fails

/-- The double-submit comparison and `validate_csrf`, after which a result is returned. -/
private theorem refuses_csrf {principal : Principal} {a : α}
    (hprincipal : Authenticated settings request.toCredentials h principal) :
    Does (fun _ _ _ _ => True) (do
      lift (ofAuthentication (compareCsrf (request.cookies settings.csrfCookieName) request.csrfHeader))
      validateCsrf settings.authentication (request.toCredentials.sessionToken settings)
        request.csrfHeader
      return a) h (Fails (Refused settings request)) := by
  have hraises : RaisesOnly ApiRaised.BeforeProof (do
      lift (ofAuthentication (compareCsrf (request.cookies settings.csrfCookieName) request.csrfHeader))
      validateCsrf settings.authentication (request.toCredentials.sessionToken settings)
        request.csrfHeader
      return a : ApiTask α) := by
    apply RaisesOnly.andThen (raisesOnly_lift beforeProof_ofAuthentication)
    exact fun _ => raisesOnly_validateCsrf.andThen fun _ => raisesOnly_pure
  apply (hraises h).imp
  exact fun k _ hk hx e he => ⟨fun _ => .inr ⟨principal, hprincipal.grow hk⟩, fun _ => .inl (hx e he)⟩

private theorem refuses_getCsrfProtectedPrincipal : Does (fun _ _ _ _ => True)
    (getCsrfProtectedPrincipal settings request.toCredentials) h (Fails (Refused settings request)) :=
  does_getCurrentPrincipal.failsAfter refuses_getCurrentPrincipal fun _ _ _ hprincipal =>
    refuses_csrf hprincipal

private theorem refuses_getCsrfProtectedAuthenticationProof : Does (fun _ _ _ _ => True)
    (getCsrfProtectedAuthenticationProof settings request.toCredentials) h
    (Fails (Refused settings request)) :=
  does_authenticate.failsAfter refuses_authenticate fun _ _ _ hprincipal => refuses_csrf hprincipal

/-- A handler behind `get_current_principal`. -/
private theorem refuses_read {body : Principal → ApiTask α} (hcsrf : request.operation.needsCsrf = false) :
    Does (fun _ _ _ _ => True) (do
      let principal ← getCurrentPrincipal settings request.toCredentials
      body principal) h (Fails (Refused settings request)) := by
  apply does_getCurrentPrincipal.failsAfter refuses_getCurrentPrincipal
  intro k principal _ hprincipal
  apply refuses_of_grow
  exact fun k' e hk' => ⟨fun _ => .inr ⟨principal, hprincipal.grow hk'⟩,
    fun hneeds => absurd (hcsrf.symm.trans hneeds) Bool.false_ne_true⟩

/-- A handler behind `get_csrf_protected_principal`. -/
private theorem refuses_guarded {body : Principal → ApiTask α} : Does (fun _ _ _ _ => True) (do
      let principal ← getCsrfProtectedPrincipal settings request.toCredentials
      body principal) h (Fails (Refused settings request)) := by
  apply does_getCsrfProtectedPrincipal.failsAfter refuses_getCsrfProtectedPrincipal
  rintro k principal _ ⟨hprincipal, hcsrf⟩
  apply refuses_of_grow
  exact fun k' e hk' =>
    ⟨fun _ => .inr ⟨principal, hprincipal.grow hk'⟩, fun _ => .inr (hcsrf.grow hk')⟩

private theorem refuses_public {task : ApiTask α} (hsession : request.operation.needsSession = false)
    (hcsrf : request.operation.needsCsrf = false) :
    Does (fun _ _ _ _ => True) task h (Fails (Refused settings request)) := by
  apply refuses_of_grow
  exact fun _ _ _ => ⟨fun hneeds => absurd (hsession.symm.trans hneeds) Bool.false_ne_true,
    fun hneeds => absurd (hcsrf.symm.trans hneeds) Bool.false_ne_true⟩

/-- Every request is refused before it shows anything of what it guards. -/
theorem refuses_serve [LinearOrder ρ] (settings : ApiSettings ρ) (request : ApiRequest) :
    Does (fun _ _ _ _ => True) (serve settings request) [] (Fails (Refused settings request)) := by
  obtain ⟨credentials, operation⟩ := request
  cases operation with
  | login email password => exact refuses_public rfl rfl
  | health => exact refuses_public rfl rfl
  | logout => exact refuses_guarded
  | me => exact refuses_read rfl
  | createKnowledgeBase payload => exact refuses_guarded
  | listKnowledgeBases limit offset => exact refuses_read rfl
  | getKnowledgeBase knowledgeBaseId => exact refuses_read rfl
  | uploadDocument knowledgeBaseId file => exact refuses_guarded
  | listDocuments knowledgeBaseId limit offset => exact refuses_read rfl
  | getDocument documentId => exact refuses_read rfl
  | getIngestionJob jobId => exact refuses_read rfl
  | retryIngestionJob jobId => exact refuses_guarded
  | retrieveAuthoritativeEvidence knowledgeBaseId payload =>
    apply does_getCsrfProtectedAuthenticationProof.failsAfter
      refuses_getCsrfProtectedAuthenticationProof
    rintro k proof _ ⟨hprincipal, hcsrf⟩
    apply refuses_of_grow
    exact fun k' e hk' =>
      ⟨fun _ => .inr ⟨proof.principal, hprincipal.grow hk'⟩, fun _ => .inr (hcsrf.grow hk')⟩

/-- What a request established, when it answered and when it raised. -/
structure Ended (settings : ApiSettings ρ) (request : ApiRequest) (h : ApiHistory)
    (result : Except ApiRaised ApiResponse) : Prop where
  answered : ∀ response, result = .ok response → Answered settings request h response
  refused : ∀ e, result = .error e → Refused settings request h e

theorem meets_serve [LinearOrder ρ] (settings : ApiSettings ρ) (request : ApiRequest) :
    (serve settings request).run.Meets (Effect settings request) [] (Ended settings request) := by
  apply (Meets.and (does_serve settings request) (refuses_serve settings request)).mono
  · exact fun _ _ _ _ _ heffect => heffect.1
  · exact fun _ _ _ hx => ⟨hx.1, hx.2⟩

end Serve
end AgenticRag.Api

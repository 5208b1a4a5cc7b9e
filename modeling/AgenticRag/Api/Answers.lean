import AgenticRag.Api.Mediation

/-! What the answers of the API go back to, over whole runs: a login, the token of its session, and
the rows of the caller's knowledge bases. -/
namespace AgenticRag.Api
open Lib Python Db Ingestion Security Retrieval Services Program

section Runs
variable {ρ : Type} [LinearOrder ρ] {settings : ApiSettings ρ} {s₀ : KnowledgeState}
  {as : List ApiAction} {p : ApiPool} {served : Served ApiRequest KnowledgeState ApiInput
    (Except ApiRaised ApiResponse)}

/-- A result that the client sees as one of these errors, or not at all. -/
def SeenOnlyAs (codes : List String) (result : Except ApiRaised ApiResponse) : Prop :=
  ∃ e, result = .error e ∧ ∀ info, exceptionHandler e = some info → info.code ∈ codes

private theorem ApiRaised.BeforeSession.seen {e : ApiRaised} (he : e.BeforeSession) :
    ∀ info, exceptionHandler e = some info →
      info.code ∈ ["AUTHENTICATION_REQUIRED", "INTERNAL_SERVER_ERROR"] := by
  intro info hinfo
  cases e with
  | authentication e =>
    cases e with
    | csrf => exact absurd rfl he
    | _ => cases hinfo; decide
  | database => cases hinfo; decide
  | cancelled => cases hinfo
  | _ => exact he.elim

private theorem ApiRaised.BeforeProof.seen {e : ApiRaised} (he : e.BeforeProof) :
    ∀ info, exceptionHandler e = some info →
      info.code ∈ ["AUTHENTICATION_REQUIRED", "CSRF_VALIDATION_FAILED", "INTERNAL_SERVER_ERROR"] := by
  intro info hinfo
  cases e with
  | authentication e => cases e <;> cases hinfo <;> decide
  | database => cases hinfo; decide
  | cancelled => cases hinfo
  | _ => exact he.elim

/-- Whatever a request that needs a session is answered, other than that it must authenticate or that
something failed, goes back to a login of a user; and other than that its token is wrong, to the
token of that session. -/
theorem answers_follow_login (hs₀ : s₀.db.userSessions.rows = [])
    (hrun : (api settings).run (.init s₀) as = some p) (hserved : served ∈ p.served)
    (hneeds : served.request.operation.needsSession = true) :
    SeenOnlyAs ["AUTHENTICATION_REQUIRED", "INTERNAL_SERVER_ERROR"] served.result ∨
      ∃ principal row, LoggedIn settings s₀ as served.request.toCredentials served.history p.state.db
          principal row ∧
        (served.request.operation.needsCsrf = true →
          SeenOnlyAs ["AUTHENTICATION_REQUIRED", "CSRF_VALIDATION_FAILED", "INTERNAL_SERVER_ERROR"]
              served.result ∨
            ∃ token, served.request.cookies settings.csrfCookieName = some token ∧
              served.request.csrfHeader = some token ∧
              hashToken settings.authentication.sha256 token = .ok row.csrfTokenSha256) := by
  obtain ⟨hrecorded, hended⟩ := (Pool.run_kept (meets_serve settings) hrun).served served hserved
  cases hresult : served.result with
  | ok response =>
    obtain ⟨principal, hprincipal, _⟩ := (hended.answered response hresult).session hneeds
    obtain ⟨row, hrow⟩ := hprincipal.loggedIn hs₀ hrun hrecorded
    refine .inr ⟨principal, row, hrow, fun hcsrf => .inr ?_⟩
    exact ((hended.answered response hresult).csrf hcsrf).ofSession hs₀ hrun hrecorded hrow
  | error e =>
    have hrefused := hended.refused e hresult
    rcases hrefused.session hneeds with hbefore | ⟨principal, hprincipal⟩
    · exact .inl ⟨e, rfl, hbefore.seen⟩
    · obtain ⟨row, hrow⟩ := hprincipal.loggedIn hs₀ hrun hrecorded
      refine .inr ⟨principal, row, hrow, fun hcsrf => ?_⟩
      rcases hrefused.csrf hcsrf with hbefore | hproven
      · exact .inl ⟨e, rfl, hbefore.seen⟩
      · exact .inr (hproven.ofSession hs₀ hrun hrecorded hrow)

theorem answers_follow_login_create : ∃ p served principal row,
    (api exampleSettings).run (.init exampleState) (requestActions (some (List.replicate 32 (ord 'b')))
      (.createKnowledgeBase examplePayload) 9) = some p ∧ served ∈ p.served ∧
    LoggedIn exampleSettings exampleState (requestActions (some (List.replicate 32 (ord 'b')))
      (.createKnowledgeBase examplePayload) 9) served.request.toCredentials served.history p.state.db
      principal row := by
  have hany : ((api exampleSettings).run (.init exampleState)
      (requestActions (some (List.replicate 32 (ord 'b'))) (.createKnowledgeBase examplePayload) 9)).any
        (fun p => p.served.any fun served =>
          served.request.operation.needsSession && served.result.toOption.isSome) = true := by
    decide +kernel
  obtain ⟨p, hp, hany⟩ := (Option.any_eq_true _ _).mp hany
  obtain ⟨served, hserved, hboth⟩ := List.any_eq_true.mp hany
  obtain ⟨hneeds, hok⟩ := Bool.and_eq_true_iff.mp hboth
  rcases answers_follow_login rfl hp hserved hneeds with ⟨e, he, _⟩ | ⟨principal, row, hrow, _⟩
  · rw [he] at hok
    cases hok
  · exact ⟨p, served, principal, row, hp, hserved, hrow⟩

/-- What an answer shows are rows that were, when the request read or wrote them, rows of knowledge
bases in which its logged-in user is a member. -/
theorem answers_show_memberships {response : ApiResponse} (hs₀ : s₀.db.userSessions.rows = [])
    (hrun : (api settings).run (.init s₀) as = some p) (hserved : served ∈ p.served)
    (hneeds : served.request.operation.needsSession = true) (hok : served.result = .ok response) :
    ∃ principal row before input after r, LoggedIn settings s₀ as served.request.toCredentials
        served.history p.state.db principal row ∧
      as = before ++ .step served.id input :: after ∧ (api settings).run (.init s₀) before = some r ∧
      Shown principal.userId r.state.db response.body := by
  obtain ⟨hrecorded, hended⟩ := (Pool.run_kept (meets_serve settings) hrun).served served hserved
  obtain ⟨principal, hprincipal, x, hx, hshown⟩ := (hended.answered response hok).session hneeds
  obtain ⟨row, hrow⟩ := hprincipal.loggedIn hs₀ hrun hrecorded
  obtain ⟨before, after, r, hsplit, hr, hstate⟩ := hrecorded.of_mem hx
  exact ⟨principal, row, before, x.1, after, r, hrow, hsplit, hr, hstate ▸ hshown⟩

theorem answers_show_memberships_read : ∃ (p r : ApiPool) (principal : Principal) (served : _)
      (response : ApiResponse),
    (api exampleSettings).run (.init exampleState)
      (requestActions none (.getKnowledgeBase 3) 5) = some p ∧ served ∈ p.served ∧
    served.result = .ok response ∧ response.statusCode = 200 ∧
    Shown principal.userId r.state.db response.body := by
  have hany : ((api exampleSettings).run (.init exampleState)
      (requestActions none (.getKnowledgeBase 3) 5)).any (fun p => p.served.any fun served =>
        served.request.operation.needsSession &&
          served.result.toOption.any fun response => response.statusCode == 200) = true := by
    decide +kernel
  obtain ⟨p, hp, hany⟩ := (Option.any_eq_true _ _).mp hany
  obtain ⟨served, hserved, hboth⟩ := List.any_eq_true.mp hany
  obtain ⟨hneeds, hok⟩ := Bool.and_eq_true_iff.mp hboth
  obtain ⟨response, hresponse, hstatus⟩ := (Option.any_eq_true _ _).mp hok
  have hok : served.result = .ok response := by
    cases hresult : served.result with
    | ok a =>
      rw [hresult] at hresponse
      rw [Option.some.inj hresponse]
    | error e =>
      rw [hresult] at hresponse
      cases hresponse
  obtain ⟨principal, _, _, _, _, r, _, _, _, hshown⟩ :=
    answers_show_memberships rfl hp hserved hneeds hok
  exact ⟨p, r, principal, served, response, hp, hserved, hok, beq_iff_eq.mp hstatus, hshown⟩

end Runs
end AgenticRag.Api

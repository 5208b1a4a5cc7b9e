import AgenticRag.Api.Accounts
import AgenticRag.Security.ConcurrentLogins

/-! Confidentiality over whole runs of the backend: what the answers show of a knowledge base goes to
its owner, logged in with the owner's password. -/
namespace AgenticRag.Api
open Lib Python Db Ingestion Security Retrieval Services Program

/-- The answer shows something of the knowledge base: the row, a document of it, or a job or evidence
of a document that is in it in this database. -/
inductive ShowsOf (db : Database) (knowledgeBaseId : UUID) : ApiBody → Prop
  | knowledgeBase {k : KnowledgeBase} (hid : k.id = knowledgeBaseId) :
      ShowsOf db knowledgeBaseId (.knowledgeBase k)
  | knowledgeBases {k : KnowledgeBase} {items : List KnowledgeBase} {limit offset : Int} (hk : k ∈ items)
      (hid : k.id = knowledgeBaseId) : ShowsOf db knowledgeBaseId (.knowledgeBases items limit offset)
  | document {d : DocumentResponse} (hid : d.knowledgeBaseId = knowledgeBaseId) :
      ShowsOf db knowledgeBaseId (.document d)
  | documents {d : DocumentResponse} {items : List DocumentResponse} {limit offset : Int} (hd : d ∈ items)
      (hid : d.knowledgeBaseId = knowledgeBaseId) :
      ShowsOf db knowledgeBaseId (.documents items limit offset)
  | ingestionJob {j : IngestionJobResponse} {d : Document} (hd : db.documents.find? j.documentId = some d)
      (hid : d.knowledgeBaseId = knowledgeBaseId) : ShowsOf db knowledgeBaseId (.ingestionJob j)
  | documentUpload {d : DocumentResponse} {j : IngestionJobResponse} {duplicate : Bool}
      (hid : d.knowledgeBaseId = knowledgeBaseId) :
      ShowsOf db knowledgeBaseId (.documentUpload d j duplicate)
  | evidence {item : RetrievedEvidence} {items : List RetrievedEvidence} {d : Document}
      (hitem : item ∈ items) (hd : db.documents.find? item.documentId = some d)
      (hid : d.knowledgeBaseId = knowledgeBaseId) : ShowsOf db knowledgeBaseId (.evidence items)

section Members
variable {db db' : Database} {userId knowledgeBaseId : UUID}

private theorem retriedJob_owned {jobId : UUID} {job : IngestionJob}
    (h : Services.retryIngestionJob db userId jobId = .ok (job, db')) : db.Owns userId job.documentId := by
  obtain ⟨old, _, htarget, _, ⟨_, rfl, _⟩ | ⟨_, rfl, _⟩⟩ := Services.retryIngestionJob_target h
  · exact (owns_of_retryTarget htarget).2
  · exact (owns_of_retryTarget htarget).2

/-- A user's document stays in its knowledge base. -/
theorem isMember_of_owns {documentId : UUID} {d : Document} (hdocuments : DocumentsKept db db')
    (howned : db.Owns userId documentId) (hd : db'.documents.find? documentId = some d)
    (hid : d.knowledgeBaseId = knowledgeBaseId) : db.IsMember userId knowledgeBaseId := by
  obtain ⟨old, hold, rfl, hmember⟩ := howned
  obtain ⟨status, hkept⟩ := hdocuments _ _ (Table.find?_of_mem hold)
  obtain rfl := Option.some.inj (hkept.symm.trans hd)
  exact hid ▸ hmember

/-- What an answer shows of a knowledge base it shows to a member, or it is the row. -/
theorem isMember_of_shown {body : ApiBody} (hshown : Shown userId db body) (hdocuments : DocumentsKept db db')
    (hof : ShowsOf db' knowledgeBaseId body) :
    db.IsMember userId knowledgeBaseId ∨ ∃ k, body = .knowledgeBase k ∧ k.id = knowledgeBaseId := by
  cases hshown with
  | none => cases hof
  | authenticatedUser => cases hof
  | knowledgeBase _ hmember =>
    cases hof with
    | knowledgeBase hid => exact .inl (hid ▸ hmember)
  | created hadd =>
    cases hof with
    | knowledgeBase hid => exact .inr ⟨_, rfl, hid⟩
  | knowledgeBases hitems =>
    cases hof with
    | knowledgeBases hk hid => exact .inl (hid ▸ (hitems _ hk).2)
  | document _ hmember =>
    cases hof with
    | document hid => exact .inl (hid ▸ hmember)
  | documents hitems =>
    cases hof with
    | documents hd hid =>
      obtain ⟨d, hmem, rfl⟩ := List.mem_map.mp hd
      exact .inl (hid ▸ (hitems d hmem).2)
  | ingestionJob _ howned =>
    cases hof with
    | ingestionJob hd hid => exact .inl (isMember_of_owns hdocuments howned hd hid)
  | retried hretry =>
    cases hof with
    | ingestionJob hd hid => exact .inl (isMember_of_owns hdocuments (retriedJob_owned hretry) hd hid)
  | uploaded hmember =>
    cases hof with
    | documentUpload hid => exact .inl (hid ▸ hmember)
  | duplicate _ hmember =>
    cases hof with
    | documentUpload hid => exact .inl (hid ▸ hmember)
  | evidence hitems =>
    cases hof with
    | evidence hitem hd hid =>
      obtain ⟨_, _, d, hmem, hevidence, hmember⟩ := hitems _ hitem
      exact .inl (isMember_of_owns hdocuments ⟨d, hmem, hevidence.documentId.symm, hmember⟩ hd hid)

theorem OwnedBy.eq_owner {owner : UUID} (howned : OwnedBy db knowledgeBaseId owner)
    (hmember : db.IsMember userId knowledgeBaseId) : userId = owner := by
  obtain ⟨m, hm, hid, rfl⟩ := hmember
  rw [howned.only m hm hid]
  rfl

/-- A member stays a member. -/
theorem Later.isMember {hasher : PasswordHasher} (h : Later hasher db db')
    (hmember : db.IsMember userId knowledgeBaseId) : db'.IsMember userId knowledgeBaseId := by
  obtain ⟨m, hm, hid, hu⟩ := hmember
  exact ⟨m, Table.mem_of_find? (h.listing.memberships _ m (Table.find?_of_mem hm)), hid, hu⟩

end Members

section Answers
variable {ρ : Type} {settings : ApiSettings ρ} {request : ApiRequest} {h : ApiHistory}

/-- Who is answered with a knowledge base is a member of it: in a state that the request saw, or in
the one that its last action left. -/
def AnsweredToMember (settings : ApiSettings ρ) (request : ApiRequest) (h : ApiHistory) (t : KnowledgeState)
    (result : Except ApiRaised ApiResponse) : Prop :=
  ∀ response k, result = .ok response → response.body = .knowledgeBase k → ∃ principal,
    Authenticated settings request.toCredentials h principal ∧
      ((∃ x ∈ h, x.2.db.IsMember principal.userId k.id) ∨ t.db.IsMember principal.userId k.id)

private theorem answeredToMember_error (h : ApiHistory) (t : KnowledgeState) (e : ApiRaised) :
    AnsweredToMember settings request h t (.error e) := by
  rintro response k ⟨⟩

/-- The creator of a knowledge base is a member of it as soon as it is there. -/
private theorem leaves_createKnowledgeBase {payload : KnowledgeBaseCreate} {principal : Principal}
    (hprincipal : Authenticated settings request.toCredentials h principal) :
    Leaves (AnsweredToMember settings request) (do
      let knowledgeBase ← createKnowledgeBase principal.userId payload
      return (⟨201, .knowledgeBase knowledgeBase, []⟩ : ApiResponse) : ApiTask ApiResponse).run h := by
  refine leaves_andThen (does_true _) ?_ answeredToMember_error fun _ _ _ _ => leaves_lift
  apply leaves_andThen (does_true _) leaves_lift
  · rintro k t e a y ⟨⟩
  rintro k _ hk -
  apply leaves_attempt
  rintro i s knowledgeBase result hok hresult response answered rfl hbody
  obtain rfl := Except.ok.inj (Program.done.inj hresult)
  obtain rfl := ApiBody.knowledgeBase.inj hbody
  refine ⟨principal, hprincipal.grow (hk.trans (List.prefix_append k _)), .inr ?_⟩
  split at hok
  · dsimp only at hok
    split at hok
    · rename_i db hadd
      obtain rfl := Except.ok.inj hok
      obtain ⟨_, _, hmemberships, _⟩ := addWithOwner_some hadd
      dsimp only
      rw [hadd]
      exact ⟨_, (Table.mem_insert? hmemberships).mpr (.inl rfl), rfl, rfl⟩
    · cases hok
  · cases hok

/-- A knowledge base is read by its members. -/
private theorem does_getKnowledgeBase {knowledgeBaseId : UUID} :
    Does (Effect settings request) (do
      let principal ← getCurrentPrincipal settings request.toCredentials
      let knowledgeBase ← readKnowledge fun env db =>
        KnowledgeIntakeService.getKnowledgeBase env db principal.userId knowledgeBaseId
      return (⟨200, .knowledgeBase knowledgeBase, []⟩ : ApiResponse)) h
      (Gives fun k response => ∀ t, AnsweredToMember settings request k t (.ok response)) := by
  apply does_getCurrentPrincipal.andThen
  intro k principal _ hprincipal
  apply Does.andThen (P := fun k' knowledgeBase =>
    ∃ x ∈ k', x.2.db.IsMember principal.userId knowledgeBase.id)
  · exact does_statement fun _ _ _ hread => exists_mem_last (getKnowledgeBase_ok (mapError_eq_ok.mp hread)).2
  intro k' knowledgeBase hk' hmember
  apply does_pure_gives
  rintro t response answered hok hbody
  obtain rfl := Except.ok.inj hok
  obtain rfl := ApiBody.knowledgeBase.inj hbody
  exact ⟨principal, hprincipal.grow hk', .inl hmember⟩

/-- No other answer is a knowledge base. -/
private theorem leaves_other {p : ApiTask ApiResponse}
    (hp : Does (fun _ _ _ _ => True) p h (Gives fun _ response => ∀ k, response.body ≠ .knowledgeBase k)) :
    Leaves (AnsweredToMember settings request) p.run h := by
  apply Meets.leaves hp
  intro k t result hresult response answered hok hbody
  exact absurd hbody (hresult response hok answered)

private theorem does_then {α : Type} (p : ApiTask α) {f : α → ApiTask ApiResponse}
    {P : ApiHistory → ApiResponse → Prop} (hf : ∀ k a, Does (fun _ _ _ _ => True) (f a) k (Gives P)) :
    Does (fun _ _ _ _ => True) (p >>= f) h (Gives P) := (does_true p).andThen fun k a _ _ => hf k a

theorem leaves_serve [LinearOrder ρ] (settings : ApiSettings ρ) (request : ApiRequest) :
    Leaves (AnsweredToMember settings request) (serve settings request).run [] := by
  obtain ⟨credentials, operation⟩ := request
  cases operation with
  | createKnowledgeBase payload =>
    refine leaves_andThen does_getCsrfProtectedPrincipal ?_ answeredToMember_error
      fun k principal _ hprincipal => leaves_createKnowledgeBase hprincipal.1
    -- the transaction of the creation is still ahead
    apply Meets.leaves (meets_true _ _)
    rintro k t x - principal y - hy
    cases hy
  | getKnowledgeBase knowledgeBaseId =>
    exact Meets.leaves does_getKnowledgeBase fun k t result hresult => by
      cases result with
      | ok response => exact hresult response rfl t
      | error e => exact answeredToMember_error k t e
  | uploadDocument knowledgeBaseId file =>
    apply leaves_other
    apply does_then
    intro k principal
    cases hmedia : file.contentType with
    | none => exact does_throw_gives
    | some mediaType => exact does_then _ fun _ _ => does_pure_gives nofun
  | retrieveAuthoritativeEvidence knowledgeBaseId payload =>
    apply leaves_other
    apply does_then
    intro k proof
    dsimp only
    split
    · exact does_then _ fun _ _ => does_then _ fun _ _ => does_pure_gives nofun
    · exact does_then _ fun _ _ => does_pure_gives nofun
  | login | me | health => exact leaves_other (does_then _ fun _ _ => does_pure_gives nofun)
  | _ => exact leaves_other (does_then _ fun _ _ => does_then _ fun _ _ => does_pure_gives nofun)

end Answers

section Runs
variable {ρ : Type} [LinearOrder ρ] {settings : ApiSettings ρ} {uuid5 : UUID → Str → UUID}
  {s₀ : KnowledgeState} {as : List BackendAction} {b : Backend}

/-- The login that this session was issued to sent this password. -/
def LoginSent (settings : ApiSettings ρ) (s₀ : KnowledgeState) (as : List ApiAction) (row : UserSession)
    (password : Str) : Prop :=
  ∃ id request history input state email now observed replacementHash sessionToken csrfToken,
    Pool.Took (fun request => (serve settings request).run) KeepsSessions s₀ as id request history input
      state ∧
    request.operation = .login email password ∧
    LoginVerified settings email password history now observed replacementHash sessionToken csrfToken ∧
    observed.userId = row.userId ∧
    hashToken settings.authentication.sha256 sessionToken = .ok row.tokenSha256

/-- A session of a user was issued to a login with the user's password. -/
theorem IssuedByLogin.sent {row : UserSession} {password : Str}
    (hissued : IssuedByLogin settings s₀ (apiActions settings uuid5 s₀ as) row)
    (hrun : (backend settings uuid5).run (.init s₀) as = some b)
    (hfixed : FixedPassword settings uuid5 s₀ as row.userId password) :
    LoginSent settings s₀ (apiActions settings uuid5 s₀ as) row password := by
  obtain ⟨id, request, history, input, state, email, sent, now, observed, replacementHash, sessionToken,
    csrfToken, user, htook, hoperation, hverified, hobserved, huser, _, hvalid, htoken, _⟩ := hissued
  have hsent : sent = password := by
    obtain ⟨before, after, p, client, hsplit, hp, rfl, _⟩ := htook.split
    obtain ⟨as₁, as₂, mid, rfl, hmid, _, _, rfl⟩ := backend_run_before hrun hsplit hp
    exact (hfixed as₁ as₂ mid user rfl hmid huser sent).mp hvalid
  subst hsent
  exact ⟨id, request, history, input, state, email, now, observed, replacementHash, sessionToken, csrfToken,
    htook, hoperation, hverified, hobserved, htoken⟩

/-- The answer was given to a user through a session that was issued to a login with this password. -/
def GivenTo (settings : ApiSettings ρ) (s₀ : KnowledgeState) (as : List ApiAction) (db : Database)
    (userId : UUID) (password : Str)
    (served : Served ApiRequest KnowledgeState ApiInput (Except ApiRaised ApiResponse)) : Prop :=
  ∃ principal row, LoggedIn settings s₀ as served.request.toCredentials served.history db principal row ∧
    principal.userId = userId ∧ LoginSent settings s₀ as row password

/-- Whom an answer shows something of a knowledge base, is a member of it in the end. -/
theorem shown_isMember (hhasher : Hashes settings.authentication.passwordHasher)
    (hcommanded : (backend settings uuid5).Allowed (Commanded settings) (.init s₀) as)
    (hrun : (backend settings uuid5).run (.init s₀) as = some b) {knowledgeBaseId : UUID}
    {served : Served ApiRequest KnowledgeState ApiInput (Except ApiRaised ApiResponse)}
    (hserved : served ∈ b.pool.served) (hneeds : served.request.operation.needsSession = true)
    {response : ApiResponse} (hok : served.result = .ok response)
    (hof : ShowsOf b.pool.state.db knowledgeBaseId response.body) :
    ∃ principal, Authenticated settings served.request.toCredentials served.history principal ∧
      b.pool.state.db.IsMember principal.userId knowledgeBaseId := by
  have hapi := backend_run_api hrun
  have hlater {before after : List ApiAction} {r : ApiPool}
      (hsplit : apiActions settings uuid5 s₀ as = before ++ after)
      (hr : (api settings).run (.init s₀) before = some r) :
      Later settings.authentication.passwordHasher r.state.db b.pool.state.db := by
    obtain ⟨as₁, as₂, mid, rfl, hmid, hrest, _, rfl⟩ := backend_run_before hrun hsplit hr
    exact backend_run_later hhasher hcommanded hmid hrest
  obtain ⟨hrecorded, hended⟩ := (Pool.run_kept (meets_serve settings) hapi).served served hserved
  have hseen {x : ApiInput × KnowledgeState} (hx : x ∈ served.history) :
      Later settings.authentication.passwordHasher x.2.db b.pool.state.db := by
    obtain ⟨before, after, r, hsplit, hr, hstate⟩ := hrecorded.of_mem hx
    exact hstate ▸ hlater hsplit hr
  obtain ⟨principal, hprincipal, x, hx, hshown⟩ := (hended.answered response hok).session hneeds
  rcases isMember_of_shown hshown (hseen hx).listing.documents hof with hmember | ⟨k, hbody, hid⟩
  · exact ⟨principal, hprincipal, (hseen hx).isMember hmember⟩
  · rcases (Pool.run_left (leaves_serve settings) hapi).served served hserved with
      hnone | ⟨before, after, q, hsplit, hq, hleft⟩
    · rw [hnone] at hx
      cases hx
    · obtain ⟨caller, hcaller, hmember⟩ := hleft response k hok hbody
      refine ⟨caller, hcaller, ?_⟩
      rw [← hid]
      rcases hmember with ⟨y, hy, hmember⟩ | hmember
      · exact (hseen hy).isMember hmember
      · exact (hlater hsplit hq).isMember hmember

/-- A knowledge base that the run brought has one member, its owner, who has one password throughout,
and whatever the answers show of it, they show to sessions of that user and that password. -/
theorem knowledge_base_confidential (hhasher : Hashes settings.authentication.passwordHasher)
    (hs₀ : s₀.db.userSessions.rows = [])
    (hpasswords : SinglePasswords settings.authentication.passwordHasher s₀.db) (hrefers : Refers s₀.db)
    (hcommanded : (backend settings uuid5).Allowed (Commanded settings) (.init s₀) as)
    (hrun : (backend settings uuid5).run (.init s₀) as = some b) {knowledgeBaseId : UUID}
    {knowledgeBase : KnowledgeBase} (hnew : s₀.db.knowledgeBases.find? knowledgeBaseId = none)
    (hk : b.pool.state.db.knowledgeBases.find? knowledgeBaseId = some knowledgeBase) :
    ∃ owner password, OwnedBy b.pool.state.db knowledgeBaseId owner ∧
      FixedPassword settings uuid5 s₀ as owner password ∧
      ∀ served ∈ b.pool.served, served.request.operation.needsSession = true →
        ∀ response, served.result = .ok response →
          ShowsOf b.pool.state.db knowledgeBaseId response.body →
          GivenTo settings s₀ (apiActions settings uuid5 s₀ as) b.pool.state.db owner password served := by
  obtain ⟨owner, howner⟩ := exists_ownedBy hhasher hrefers hcommanded hrun hnew hk
  obtain ⟨password, hfixed⟩ := exists_fixedPassword hhasher hpasswords hcommanded hrun owner
  refine ⟨owner, password, howner, hfixed, ?_⟩
  intro served hserved hneeds response hok hof
  obtain ⟨principal, hprincipal, hmember⟩ := shown_isMember hhasher hcommanded hrun hserved hneeds hok hof
  obtain ⟨hrecorded, _⟩ := (Pool.run_kept (meets_serve settings) (backend_run_api hrun)).served served hserved
  obtain ⟨row, hrow⟩ := hprincipal.loggedIn hs₀ (backend_run_api hrun) hrecorded
  have howns : principal.userId = owner := howner.eq_owner hmember
  refine ⟨principal, row, hrow, howns, hrow.issued.sent hrun ?_⟩
  rwa [hrow.userId, howns]

end Runs

section Example

theorem hashes_of_correct {hasher : PasswordHasher} (h : ∀ password, hasher.Correct password) :
    Hashes hasher := by
  intro password salt _ candidate
  constructor
  · intro hverified
    exact (h password).only candidate _ ((h password).verifies salt) hverified
  · rintro rfl
    exact (h candidate).verifies salt

private theorem onlyPassword_outdated : OnlyPassword upgradeHasher (str "opass") (str "pass") := by
  intro candidate
  have htail : ((str "opass").dropWhile (· == ord '$')).tail = str "pass" := by decide
  simp only [upgradeHasher, Option.any_some, htail, beq_iff_eq]
  exact eq_comm

private theorem backendState_user (user : User) (huser : user ∈ backendState.db.users) :
    user = ⟨1, str "a@b", str "opass", true⟩ := List.mem_singleton.mp huser

theorem backendState_uniqueEmails : UniqueEmails backendState.db := fun user huser other hother _ =>
  (backendState_user user huser).trans (backendState_user other hother).symm

theorem backendState_singlePasswords : SinglePasswords upgradeHasher backendState.db := by
  intro user huser
  rw [backendState_user user huser]
  exact ⟨str "pass", onlyPassword_outdated⟩

theorem backendState_refers : Refers backendState.db := by
  intro m hm
  have hm : m = ⟨3, 1, .owner⟩ := List.mem_singleton.mp hm
  rw [hm]
  exact ⟨⟨3, str "kb", none, 0⟩, List.mem_singleton.mpr rfl, rfl⟩

/-- A login creates a knowledge base, and its session reads it. -/
def confidentialActions : List BackendAction :=
  (requestActions (some (List.replicate 32 (ord 'b'))) (.createKnowledgeBase examplePayload) 9 ++
    .start ⟨⟨exampleCookies, none⟩, .getKnowledgeBase 7⟩ :: exampleSteps 2 5).map .api

/-- The knowledge base that a request read. -/
def readKnowledgeBase (served : Served ApiRequest KnowledgeState ApiInput (Except ApiRaised ApiResponse)) :
    Option KnowledgeBase :=
  match served.request.operation, served.result with
  | .getKnowledgeBase _, .ok ⟨_, .knowledgeBase k, _⟩ => some k
  | _, _ => none

theorem knowledge_base_confidential_read : ∃ (b : Backend) (served : _) (owner : UUID) (password : Str),
    (backend backendSettings exampleUuid5).run (.init backendState) confidentialActions = some b ∧
    served ∈ b.pool.served ∧ (readKnowledgeBase served).isSome = true ∧ OwnedBy b.pool.state.db 7 owner ∧
    FixedPassword backendSettings exampleUuid5 backendState confidentialActions owner password ∧
    GivenTo backendSettings backendState
      (apiActions backendSettings exampleUuid5 backendState confidentialActions) b.pool.state.db owner
      password served := by
  have hany : ((backend backendSettings exampleUuid5).run (.init backendState) confidentialActions).any
      (fun b => (b.pool.state.db.knowledgeBases.find? 7).isSome && b.pool.served.any fun served =>
        (readKnowledgeBase served).any fun k => k.id == 7) = true := by
    decide +kernel
  have hcommanded : (backend backendSettings exampleUuid5).Allowed (Commanded backendSettings)
      (.init backendState) confidentialActions := by
    refine Machine.allowed_of_forall fun a ha b => ?_
    obtain ⟨_, _, rfl⟩ := List.mem_map.mp ha
    trivial
  obtain ⟨b, hrun, hany⟩ := (Option.any_eq_true _ _).mp hany
  obtain ⟨hexists, hany⟩ := Bool.and_eq_true_iff.mp hany
  obtain ⟨knowledgeBase, hk⟩ := Option.isSome_iff_exists.mp hexists
  obtain ⟨served, hserved, hany⟩ := List.any_eq_true.mp hany
  obtain ⟨k, hread, hid⟩ := (Option.any_eq_true _ _).mp hany
  obtain ⟨owner, password, howner, hfixed, hreads⟩ := knowledge_base_confidential
    (hashes_of_correct upgradeHasher_correct) rfl backendState_singlePasswords backendState_refers
    hcommanded hrun (by decide) hk
  refine ⟨b, served, owner, password, hrun, hserved, by rw [hread]; rfl, howner, hfixed, ?_⟩
  unfold readKnowledgeBase at hread
  split at hread
  · rename_i hoperation hok
    obtain rfl := Option.some.inj hread
    exact hreads served hserved (by rw [hoperation]; rfl) _ hok (.knowledgeBase (beq_iff_eq.mp hid))
  · cases hread

end Example
end AgenticRag.Api

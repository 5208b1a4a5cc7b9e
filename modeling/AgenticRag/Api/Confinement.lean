import AgenticRag.Api.Mediation

/-! What a knowledge request writes stays in the knowledge bases that its user may edit, and a
request that needs no token writes only when its session was last seen. -/
namespace AgenticRag.Api
open Lib Python Db Ingestion Security Retrieval Services Program

section Roles
variable {db db' : Database} {userId knowledgeBaseId : UUID}

/-- The user owns or edits the knowledge base. -/
def MayEdit (db : Database) (userId knowledgeBaseId : UUID) : Prop :=
  ∃ m ∈ db.memberships, m.knowledgeBaseId = knowledgeBaseId ∧ m.userId = userId ∧
    (m.role = .owner ∨ m.role = .editor)

theorem authorizeUpload_mayEdit (hauthorized : authorizeUpload db knowledgeBaseId userId = .ok ()) :
    MayEdit db userId knowledgeBaseId := by
  unfold authorizeUpload at hauthorized
  split at hauthorized
  · cases hauthorized
  · rename_i k role htarget
    obtain ⟨m, hrow, rfl⟩ := getUploadTargetForUser_eq_some.mp htarget
    obtain ⟨_, hm, hmk, hid, hu⟩ := mem_knowledgeBaseRows.mp hrow
    exact ⟨m, hm, hmk.trans (beq_iff_eq.mp hid), hu, upload_roles.mp (requireCapability_ok.mp hauthorized)⟩

private theorem retry_roles {role : KnowledgeBaseRole} :
    Capability.ingestionJobRetry ∈ capabilitiesFor (some role) ↔ role = .owner ∨ role = .editor := by
  cases role <;> decide

/-- A retry writes one job, of a document that its user may edit, or nothing. -/
theorem retryIngestionJob_mayEdit {jobId : UUID} {job : IngestionJob}
    (hretry : Services.retryIngestionJob db userId jobId = .ok (job, db')) :
    db' = db ∨ ∃ old d, old ∈ db.ingestionJobs ∧ d ∈ db.documents ∧ d.id = old.documentId ∧
      MayEdit db userId d.knowledgeBaseId ∧ db' = flushRetry db (retriedJob old) .pending := by
  obtain ⟨old, _, htarget, hcapability, ⟨_, _, rfl⟩ | ⟨_, _, rfl⟩⟩ := Services.retryIngestionJob_target hretry
  · exact .inl rfl
  · obtain ⟨d, k, m, hrow, rfl⟩ := getRetryTargetForUser_eq_some.mp htarget
    obtain ⟨hj, hd, hdj, _, hkd, hm, hmk, _, hu⟩ := mem_jobRows.mp hrow
    have hroles := retry_roles.mp (requireCapability_ok.mp hcapability)
    exact .inr ⟨old, d, hj, hd, hdj, ⟨m, hm, hmk.trans hkd, hu, hroles⟩, rfl⟩

/-- Every row that changes is of a knowledge base that the user owns or edits, or is a new one
with its owner. -/
structure EditsOnly (userId : UUID) (db db' : Database) : Prop where
  users : db'.users = db.users
  userSessions : db'.userSessions = db.userSessions
  documentChunks : db'.documentChunks = db.documentChunks
  knowledgeBases : ∀ k ∈ db.knowledgeBases, k ∈ db'.knowledgeBases
  knowledgeBases_new : ∀ k ∈ db'.knowledgeBases, k ∈ db.knowledgeBases ∨
    ⟨k.id, userId, .owner⟩ ∈ db'.memberships
  memberships : ∀ m ∈ db.memberships, m ∈ db'.memberships
  memberships_new : ∀ m ∈ db'.memberships, m ∈ db.memberships ∨
    m.userId = userId ∧ db.knowledgeBases.find? m.knowledgeBaseId = none
  documents : ∀ d : Document, ¬MayEdit db userId d.knowledgeBaseId →
    (d ∈ db.documents ↔ d ∈ db'.documents)
  jobs : ∀ j ∈ db.ingestionJobs, j ∉ db'.ingestionJobs →
    ∃ d ∈ db.documents, d.id = j.documentId ∧ MayEdit db userId d.knowledgeBaseId
  jobs_new : ∀ j ∈ db'.ingestionJobs, j ∉ db.ingestionJobs →
    ∃ d ∈ db'.documents, d.id = j.documentId ∧ MayEdit db userId d.knowledgeBaseId

theorem EditsOnly.refl (userId : UUID) (db : Database) : EditsOnly userId db db where
  users := rfl
  userSessions := rfl
  documentChunks := rfl
  knowledgeBases _ hk := hk
  knowledgeBases_new _ hk := .inl hk
  memberships _ hm := hm
  memberships_new _ hm := .inl hm
  documents _ _ := Iff.rfl
  jobs _ hj hnot := absurd hj hnot
  jobs_new _ hj hnot := absurd hj hnot

private theorem addWithOwner_editsOnly {knowledgeBase : KnowledgeBase}
    (hadd : addWithOwner db knowledgeBase userId = some db') : EditsOnly userId db db' := by
  obtain ⟨_, hknowledgeBases, hmemberships, heq⟩ := addWithOwner_some hadd
  have hfresh := (Table.insert?_eq_some hknowledgeBases).1
  constructor
  · rw [heq]
  · rw [heq]
  · rw [heq]
  · exact fun k hk => (Table.mem_insert? hknowledgeBases).mpr (.inr hk)
  · intro k hk
    rcases (Table.mem_insert? hknowledgeBases).mp hk with rfl | hk
    · exact .inr ((Table.mem_insert? hmemberships).mpr (.inl rfl))
    · exact .inl hk
  · exact fun m hm => (Table.mem_insert? hmemberships).mpr (.inr hm)
  · intro m hm
    rcases (Table.mem_insert? hmemberships).mp hm with rfl | hm
    · exact .inr ⟨rfl, hfresh⟩
    · exact .inl hm
  · rw [heq]
    exact fun _ _ => Iff.rfl
  · rw [heq]
    exact fun j hj hnot => absurd hj hnot
  · rw [heq]
    exact fun j hj hnot => absurd hj hnot

private theorem flushRetry_editsOnly {old : IngestionJob} {d : Document} (hold : old ∈ db.ingestionJobs)
    (hd : d ∈ db.documents) (hid : d.id = old.documentId) (hedit : MayEdit db userId d.knowledgeBaseId) :
    EditsOnly userId db (flushRetry db (retriedJob old) .pending) where
  users := by rw [flushRetry_eq]
  userSessions := by rw [flushRetry_eq]
  documentChunks := flushRetry_documentChunks
  knowledgeBases _ hk := flushRetry_knowledgeBases.symm ▸ hk
  knowledgeBases_new _ hk := .inl (flushRetry_knowledgeBases ▸ hk)
  memberships _ hm := flushRetry_memberships.symm ▸ hm
  memberships_new _ hm := .inl (flushRetry_memberships ▸ hm)
  documents := by
    intro e he
    have hother (f : Document) (hf : f ∈ db.documents) (hkb : f.knowledgeBaseId = e.knowledgeBaseId) :
        f.id ≠ (retriedJob old).documentId := by
      intro heq
      obtain rfl := Table.eq_of_key_eq hf hd (heq.trans hid.symm)
      exact he (hkb ▸ hedit)
    constructor
    · exact fun hmem => mem_flushRetry.mpr ⟨e, hmem, (if_neg (hother e hmem rfl)).symm⟩
    · intro hmem
      obtain ⟨f, hf, _, hkb, heq⟩ := exists_mem_flushRetry hmem
      rw [if_neg (hother f hf hkb)] at heq
      exact heq ▸ hf
  jobs := by
    intro j hj hnot
    rw [flushRetry_ingestionJobs] at hnot
    have hself : j.id = old.id := by
      by_contra hne
      exact hnot (Table.mem_replace.mpr (.inr ⟨hj, hne⟩))
    obtain rfl := Table.eq_of_key_eq hj hold hself
    exact ⟨d, hd, hid, hedit⟩
  jobs_new := by
    intro j hj hnot
    rw [flushRetry_ingestionJobs] at hj
    rcases Table.mem_replace.mp hj with ⟨rfl, _⟩ | ⟨hj, _⟩
    · refine ⟨_, mem_flushRetry.mpr ⟨d, hd, rfl⟩, ?_, ?_⟩
      · split <;> exact hid
      · split <;> exact hedit
    · exact absurd hj hnot

private theorem insertUpload_editsOnly {document : Document} {jobId : UUID} {job : IngestionJob}
    (hedit : MayEdit db userId document.knowledgeBaseId)
    (hinsert : insertUpload db document jobId = .ok (job, db')) : EditsOnly userId db db' := by
  obtain ⟨_, _, _, _, _, heq⟩ := insertUpload_ok hinsert
  constructor
  · rw [heq]
  · rw [heq]
  · rw [heq]
  · rw [heq]
    exact fun _ hk => hk
  · rw [heq]
    exact fun _ hk => .inl hk
  · rw [heq]
    exact fun _ hm => hm
  · rw [heq]
    exact fun _ hm => .inl hm
  · intro d hd
    rw [mem_documents_of_insert hinsert]
    constructor
    · exact .inr
    · rintro (rfl | hmem)
      · exact absurd hedit hd
      · exact hmem
  · exact fun j hj hnot => absurd ((mem_jobs_of_insert hinsert).mpr (.inr hj)) hnot
  · intro j hj hnot
    rcases (mem_jobs_of_insert hinsert).mp hj with rfl | hj
    · exact ⟨document, (mem_documents_of_insert hinsert).mpr (.inl rfl), rfl, hedit⟩
    · exact absurd hj hnot

end Roles

section Writes
variable {ρ : Type} {settings : ApiSettings ρ} {operation : ApiOperation} {h : ApiHistory} {i : ApiInput}
  {s t : KnowledgeState} {userId : UUID}

/-- A file changes under a key of a knowledge base that an earlier statement of the request found
its user to own or edit. -/
def FilesConfined (userId : UUID) (h : ApiHistory) (s t : KnowledgeState) : Prop :=
  t.files = s.files ∨ ∃ knowledgeBaseId documentId extension content,
    (∃ x ∈ h, MayEdit x.2.db userId knowledgeBaseId) ∧
      t.files = Function.update s.files (storageKey knowledgeBaseId documentId extension) content

private theorem UploadAuthorized.mayEdit {knowledgeBaseId : UUID}
    (hauthorized : UploadAuthorized h knowledgeBaseId userId) :
    ∃ x ∈ h, MayEdit x.2.db userId knowledgeBaseId := by
  obtain ⟨x, hx, hok⟩ := hauthorized
  exact ⟨x, hx, authorizeUpload_mayEdit hok⟩

theorem KnowledgeWrite.editsOnly (hwrite : KnowledgeWrite settings userId h i s operation t) :
    EditsOnly userId s.db t.db := by
  cases hwrite with
  | created hadd => exact addWithOwner_editsOnly hadd
  | retried hretry =>
    rcases retryIngestionJob_mayEdit hretry with heq | ⟨old, d, hold, hd, hid, hedit, heq⟩
    · exact heq ▸ .refl userId s.db
    · rw [heq]
      exact flushRetry_editsOnly hold hd hid hedit
  | stored _ _ => exact .refl userId s.db
  | inserted _ _ _ _ hfind hinsert =>
    obtain ⟨_, hauthorized, _⟩ := bind_eq_ok.mp hfind
    exact insertUpload_editsOnly (authorizeUpload_mayEdit hauthorized) hinsert
  | deleted _ _ => exact .refl userId s.db

theorem KnowledgeWrite.filesConfined (hwrite : KnowledgeWrite settings userId h i s operation t) :
    FilesConfined userId h s t := by
  cases hwrite with
  | created _ => exact .inl rfl
  | retried _ => exact .inl rfl
  | @stored knowledgeBaseId _ extension content _ hauthorized _ =>
    exact .inr ⟨knowledgeBaseId, i.id, extension, some content, hauthorized.mayEdit, rfl⟩
  | inserted _ _ _ _ _ _ => exact .inl rfl
  | @deleted knowledgeBaseId documentId _ extension _ hauthorized _ =>
    exact .inr ⟨knowledgeBaseId, documentId, extension, none, hauthorized.mayEdit, rfl⟩

/-- The knowledge tables and the files are as they were. -/
structure KnowledgeKept (s t : KnowledgeState) : Prop where
  knowledgeBases : t.db.knowledgeBases = s.db.knowledgeBases
  memberships : t.db.memberships = s.db.memberships
  documents : t.db.documents = s.db.documents
  ingestionJobs : t.db.ingestionJobs = s.db.ingestionJobs
  documentChunks : t.db.documentChunks = s.db.documentChunks
  files : t.files = s.files

theorem KnowledgeKept.refl (s : KnowledgeState) : KnowledgeKept s s := ⟨rfl, rfl, rfl, rfl, rfl, rfl⟩

private theorem flushSession_eq_ok {db : Database} {sessionId : UUID}
    {update : UserSession → UserSession} {userSessions : Table UserSession UserSession.id}
    (hflush : flushSession db sessionId update = .ok userSessions) :
    ∃ row, db.userSessions.find? sessionId = some row ∧
      userSessions = db.userSessions.replace (update row) := by
  unfold flushSession at hflush
  split at hflush
  · cases hflush
  · exact ⟨_, ‹_›, (Except.ok.inj hflush).symm⟩

/-- A touch writes the time of one row, or nothing. -/
theorem touchForAuthentication_row {db db' : Database} {session : UserSession} {seenAt : Time}
    (htouch : touchForAuthentication db session seenAt = .ok db') :
    db' = db ∨ ∃ row, db.userSessions.find? session.id = some row ∧
      db' = { db with userSessions := db.userSessions.replace { row with lastSeenAt := some seenAt } } := by
  unfold touchForAuthentication at htouch
  split at htouch
  · exact .inl (Except.ok.inj htouch).symm
  · obtain ⟨userSessions, hflush, heq⟩ := bind_eq_ok.mp htouch
    obtain ⟨row, hrow, rfl⟩ := flushSession_eq_ok hflush
    exact .inr ⟨row, hrow, (Except.ok.inj heq).symm⟩

theorem revokeForAuthentication_row {db db' : Database} {session : UserSession} {revokedAt : Time}
    (hrevoke : revokeForAuthentication db session revokedAt = .ok db') :
    ∃ row, db.userSessions.find? session.id = some row ∧
      db' = { db with userSessions := db.userSessions.replace { row with revokedAt := some revokedAt } } := by
  obtain ⟨userSessions, hflush, heq⟩ := bind_eq_ok.mp hrevoke
  obtain ⟨row, hrow, rfl⟩ := flushSession_eq_ok hflush
  exact ⟨row, hrow, (Except.ok.inj heq).symm⟩

theorem commitLogin_frame {cfg : AuthenticationConfig} {db db' : Database} {now : Time}
    {observed : AuthenticationUserSnapshot} {replacementHash : Option Str} {sessionToken csrfToken : Str}
    {sessionId : UUID} {credentials : SessionCredentials}
    (hcommit : commitLogin cfg db now observed replacementHash sessionToken csrfToken sessionId =
      .ok (db', credentials)) :
    db' = { db with users := db'.users, userSessions := db'.userSessions } := by
  unfold commitLogin at hcommit
  split at hcommit
  · cases hcommit
  split at hcommit
  · cases hcommit
  rename_i user _ _
  obtain ⟨_, _, hcommit⟩ := bind_eq_ok.mp hcommit
  obtain ⟨_, _, hcommit⟩ := bind_eq_ok.mp hcommit
  obtain ⟨added, hadd, hcommit⟩ := bind_eq_ok.mp hcommit
  obtain ⟨rfl, -⟩ := Prod.mk.inj (Except.ok.inj hcommit)
  unfold addForAuthentication at hadd
  split at hadd
  · cases hadd
  split at hadd
  · cases hadd
  · obtain rfl := Except.ok.inj hadd
    cases replacementHash <;> rfl

/-- Only the knowledge requests write the knowledge tables and the files. -/
theorem Effect.knowledgeKept {request : ApiRequest} (heffect : Effect settings request h i s t) :
    KnowledgeKept s t ∨ ∃ principal, Authenticated settings request.toCredentials h principal ∧
      CsrfProven settings request.toCredentials h ∧
        KnowledgeWrite settings principal.userId h i s request.operation t := by
  cases heffect with
  | none => exact .inl (.refl s)
  | touched _ htouch =>
    left
    rcases touchForAuthentication_row htouch with rfl | ⟨row, _, rfl⟩
    · exact .refl s
    · exact ⟨rfl, rfl, rfl, rfl, rfl, rfl⟩
  | revoked _ _ _ hrevoke =>
    left
    obtain ⟨row, _, rfl⟩ := revokeForAuthentication_row hrevoke
    exact ⟨rfl, rfl, rfl, rfl, rfl, rfl⟩
  | loggedIn _ _ hcommit =>
    left
    rw [commitLogin_frame hcommit]
    exact ⟨rfl, rfl, rfl, rfl, rfl, rfl⟩
  | knowledge hprincipal hcsrf hwrite => exact .inr ⟨_, hprincipal, hcsrf, hwrite⟩

private theorem find?_replaced {userSessions : Table UserSession UserSession.id} {sessionId : UUID}
    {row : UserSession} (row' : UserSession) (hrow : userSessions.find? sessionId = some row)
    (hid : row'.id = row.id) (k : UUID) : (userSessions.replace row').find? k =
      if k = sessionId then some row' else userSessions.find? k := by
  rw [Table.find?_replace, hid, Table.find?_key hrow]
  split
  · rename_i hk
    rw [hk, hrow]
    rfl
  · rfl

/-- What an action of a request makes of a session row. -/
inductive RowEffect (settings : ApiSettings ρ) (request : ApiRequest) (h : ApiHistory) (row : UserSession) :
    UserSession → Prop
  | kept : RowEffect settings request h row row
  | seen {tokenDigest : Str} {now : Time} {session : UserSession} {user : User} (seenAt : Time)
      (hactive : ActiveSession settings request.toCredentials h tokenDigest now session user)
      (hid : session.id = row.id) : RowEffect settings request h row { row with lastSeenAt := some seenAt }
  | revoked {tokenDigest : Str} {now : Time} {session : UserSession} {user : User} (revokedAt : Time)
      (hlogout : request.operation = .logout) (hcsrf : CsrfProven settings request.toCredentials h)
      (hactive : ActiveSession settings request.toCredentials h tokenDigest now session user)
      (hid : session.id = row.id) : RowEffect settings request h row { row with revokedAt := some revokedAt }

theorem Effect.sessionRow {request : ApiRequest} (heffect : Effect settings request h i s t) {k : UUID}
    {row : UserSession} (hrow : s.db.userSessions.find? k = some row) :
    ∃ row', t.db.userSessions.find? k = some row' ∧ RowEffect settings request h row row' := by
  cases heffect with
  | none => exact ⟨row, hrow, .kept⟩
  | @touched _ now _ _ _ hactive htouch =>
    rcases touchForAuthentication_row htouch with rfl | ⟨old, hold, rfl⟩
    · exact ⟨row, hrow, .kept⟩
    · have hfind := find?_replaced { old with lastSeenAt := some now } hold rfl k
      split at hfind
      · rename_i hk
        obtain rfl := Option.some.inj (hrow.symm.trans (hk ▸ hold))
        exact ⟨_, hfind, .seen now hactive (Table.find?_key hold).symm⟩
      · exact ⟨row, hfind.trans hrow, .kept⟩
  | @revoked _ now _ _ _ hlogout hcsrf hactive hrevoke =>
    obtain ⟨old, hold, rfl⟩ := revokeForAuthentication_row hrevoke
    have hfind := find?_replaced { old with revokedAt := some now } hold rfl k
    split at hfind
    · rename_i hk
      obtain rfl := Option.some.inj (hrow.symm.trans (hk ▸ hold))
      exact ⟨_, hfind, .revoked now hlogout hcsrf hactive (Table.find?_key hold).symm⟩
    · exact ⟨row, hfind.trans hrow, .kept⟩
  | loggedIn _ _ hcommit => exact ⟨row, (commitLogin_ok hcommit).kept k row hrow, .kept⟩
  | knowledge _ _ hwrite =>
    rw [hwrite.userSessions.1]
    exact ⟨row, hrow, .kept⟩

theorem KnowledgeWrite.needsCsrf (hwrite : KnowledgeWrite settings userId h i s operation t) :
    operation.needsCsrf = true := by
  cases hwrite <;> rfl

end Writes

section Runs
variable {ρ : Type} [LinearOrder ρ] {settings : ApiSettings ρ} {s₀ : KnowledgeState}
  {as : List ApiAction} {a : ApiAction} {p q : ApiPool}

abbrev ApiClient := Client ApiRequest KnowledgeState ApiInput (Except ApiRaised ApiResponse)

/-- A write of a client in a run: the client is logged in, it sent the token of its session twice,
and it writes no more than its user may. -/
structure Mediated (settings : ApiSettings ρ) (s₀ : KnowledgeState) (as : List ApiAction) (id : Nat)
    (client : ApiClient) (principal : Principal) (row : UserSession) (token : Str)
    (s t : KnowledgeState) : Prop where
  recorded : Pool.Recorded (fun request => (serve settings request).run) KeepsSessions s₀ as id
    client.request client.history
  operation : client.request.operation.needsCsrf = true
  loggedIn : LoggedIn settings s₀ as client.request.toCredentials client.history s.db principal row
  cookie : client.request.cookies settings.csrfCookieName = some token
  header : client.request.csrfHeader = some token
  token : hashToken settings.authentication.sha256 token = .ok row.csrfTokenSha256
  rows : EditsOnly principal.userId s.db t.db
  files : FilesConfined principal.userId client.history s t

/-- In every run of the API from a database without sessions, whatever other requests, the worker
and the operator do in between, an action of the API changes the knowledge tables or the files only
for a client that is logged in as a user who may write what changes. -/
theorem knowledge_writes_mediated (hs₀ : s₀.db.userSessions.rows = [])
    (hrun : (api settings).run (.init s₀) as = some p) (hstep : (api settings).step p a = some q)
    (hapi : ∀ state, a ≠ .elsewhere state) :
    KnowledgeKept p.state q.state ∨ ∃ id input client principal row token, a = .step id input ∧
      p.clients id = some client ∧
        Mediated settings s₀ as id client principal row token p.state q.state := by
  cases a with
  | start request =>
    obtain rfl := Option.some.inj hstep
    rw [Pool.settle_state]
    exact .inl (.refl p.state)
  | step id input =>
    obtain ⟨client, hclient, hrecorded, heffect⟩ := step_effect hrun hstep
    rcases heffect.knowledgeKept with hkept | ⟨principal, hprincipal, hcsrf, hwrite⟩
    · exact .inl hkept
    · obtain ⟨row, hrow⟩ := hprincipal.loggedIn hs₀ hrun hrecorded
      obtain ⟨token, hcookie, hheader, htoken⟩ := hcsrf.ofSession hs₀ hrun hrecorded hrow
      exact .inr ⟨id, input, client, principal, row, token, rfl, hclient, hrecorded, hwrite.needsCsrf,
        hrow, hcookie, hheader, htoken, hwrite.editsOnly, hwrite.filesConfined⟩
  | kill id =>
    obtain ⟨_, _, rfl⟩ := Option.map_eq_some_iff.mp hstep
    exact .inl (.refl p.state)
  | elsewhere state => exact absurd rfl (hapi state)

/-- The owner of a new knowledge base is logged in. -/
theorem knowledge_writes_mediated_create : ∃ p q id client principal row token,
    (api exampleSettings).run (.init exampleState) (requestActions (some (List.replicate 32 (ord 'b')))
      (.createKnowledgeBase examplePayload) 8) = some p ∧
    (api exampleSettings).step p (.step 1 exampleInput) = some q ∧ p.clients id = some client ∧
    Mediated exampleSettings exampleState (requestActions (some (List.replicate 32 (ord 'b')))
      (.createKnowledgeBase examplePayload) 8) id client principal row token p.state q.state := by
  have hany : ((api exampleSettings).run (.init exampleState)
      (requestActions (some (List.replicate 32 (ord 'b'))) (.createKnowledgeBase examplePayload) 8)).any
        (fun p => ((api exampleSettings).step p (.step 1 exampleInput)).any fun q =>
          q.state.db.knowledgeBases.rows.length != p.state.db.knowledgeBases.rows.length) = true := by
    decide +kernel
  obtain ⟨p, hp, hany⟩ := (Option.any_eq_true _ _).mp hany
  obtain ⟨q, hq, hlength⟩ := (Option.any_eq_true _ _).mp hany
  rcases knowledge_writes_mediated rfl hp hq nofun with hkept | hmediated
  · rw [hkept.knowledgeBases, bne_self_eq_false] at hlength
    cases hlength
  · obtain ⟨id, _, client, principal, row, token, _, hclient, hmediated⟩ := hmediated
    exact ⟨p, q, id, client, principal, row, token, hp, hq, hclient, hmediated⟩

/-- At most the time at which a session was last seen changes: that of the request's cookie. -/
structure OnlyTouches (settings : ApiSettings ρ) (credentials : Credentials) (s t : KnowledgeState) :
    Prop where
  files : t.files = s.files
  rows : t.db = { s.db with userSessions := t.db.userSessions }
  sessions : ∀ k, t.db.userSessions.find? k = s.db.userSessions.find? k ∨
    ∃ row seenAt, s.db.userSessions.find? k = some row ∧
      sessionDigestOrError settings.authentication.sha256 (credentials.sessionToken settings) =
        .ok row.tokenSha256 ∧
      t.db.userSessions.find? k = some { row with lastSeenAt := some seenAt }

/-- A request without a double-submitted token writes at most the time of its own session, unless it
is a login: a safe request, and one that another site forged. -/
theorem forged_requests_only_touch {id : Nat} {input : ApiInput} {client : ApiClient}
    (hrun : (api settings).run (.init s₀) as = some p)
    (hstep : (api settings).step p (.step id input) = some q) (hclient : p.clients id = some client)
    (hlogin : ∀ email password, client.request.operation ≠ .login email password)
    (hforged : client.request.operation.needsCsrf = true → ∀ token,
      client.request.cookies settings.csrfCookieName = some token →
        client.request.csrfHeader ≠ some token) :
    OnlyTouches settings client.request.toCredentials p.state q.state := by
  obtain ⟨found, hfound, hrecorded, heffect⟩ := step_effect hrun hstep
  obtain rfl := Option.some.inj (hclient.symm.trans hfound)
  have hunproven (hneeds : client.request.operation.needsCsrf = true) :
      ¬CsrfProven settings client.request.toCredentials client.history := by
    rintro ⟨_, _, _, _, token, _, hcookie, hheader, _⟩
    exact hforged hneeds token hcookie hheader
  have hsessions (k : UUID) : q.state.db.userSessions.find? k = p.state.db.userSessions.find? k ∨
      ∃ row seenAt, p.state.db.userSessions.find? k = some row ∧
        sessionDigestOrError settings.authentication.sha256
          (client.request.toCredentials.sessionToken settings) = .ok row.tokenSha256 ∧
        q.state.db.userSessions.find? k = some { row with lastSeenAt := some seenAt } := by
    cases hrow : p.state.db.userSessions.find? k with
    | none =>
      left
      cases heffect.sessions with
      | kept hkept => exact hkept.back k hrow
      | loggedIn heq _ _ => exact absurd heq (hlogin _ _)
    | some row =>
      obtain ⟨row', hrow', hchange⟩ := heffect.sessionRow hrow
      cases hchange with
      | kept => exact .inl hrow'
      | seen seenAt hactive hid =>
        obtain ⟨found, hfind, _, htoken, _⟩ := hactive.remains hrun hrecorded
        rw [hid, Table.find?_key hrow] at hfind
        obtain rfl := Option.some.inj (hrow.symm.trans hfind)
        exact .inr ⟨row, seenAt, rfl, htoken ▸ hactive.digest, hrow'⟩
      | revoked _ hlogout hcsrf _ _ => exact absurd hcsrf (hunproven (by rw [hlogout]; rfl))
  generalize q.state = t at heffect hsessions
  cases heffect with
  | none => exact ⟨rfl, rfl, hsessions⟩
  | touched _ htouch =>
    rcases touchForAuthentication_row htouch with rfl | ⟨_, _, rfl⟩
    · exact ⟨rfl, rfl, hsessions⟩
    · exact ⟨rfl, rfl, hsessions⟩
  | revoked hlogout hcsrf _ _ => exact absurd hcsrf (hunproven (by rw [hlogout]; rfl))
  | loggedIn heq _ _ => exact absurd heq (hlogin _ _)
  | knowledge _ hcsrf hwrite => exact absurd hcsrf (hunproven hwrite.needsCsrf)

/-- A request with the cookies alone touches their session and is refused. -/
theorem forged_requests_only_touch_create : ∃ p q client,
    (api exampleSettings).run (.init exampleState)
      (requestActions none (.createKnowledgeBase examplePayload) 3) = some p ∧
    (api exampleSettings).step p (.step 1 exampleInput) = some q ∧ p.clients 1 = some client ∧
    q.state.db ≠ p.state.db ∧
    OnlyTouches exampleSettings client.request.toCredentials p.state q.state := by
  have hany : ((api exampleSettings).run (.init exampleState)
      (requestActions none (.createKnowledgeBase examplePayload) 3)).any (fun p =>
        ((api exampleSettings).step p (.step 1 exampleInput)).any fun q =>
          (p.clients 1).any (fun client => decide (client.request.csrfHeader = none) &&
              client.request.operation.needsCsrf) &&
            decide (q.state.db.userSessions.rows ≠ p.state.db.userSessions.rows)) = true := by
    decide +kernel
  obtain ⟨p, hp, hany⟩ := (Option.any_eq_true _ _).mp hany
  obtain ⟨q, hq, hany⟩ := (Option.any_eq_true _ _).mp hany
  obtain ⟨hclient, hrows⟩ := Bool.and_eq_true_iff.mp hany
  obtain ⟨client, hclient, hrequest⟩ := (Option.any_eq_true _ _).mp hclient
  obtain ⟨hheader, hneeds⟩ := Bool.and_eq_true_iff.mp hrequest
  have hheader := of_decide_eq_true hheader
  refine ⟨p, q, client, hp, hq, hclient, ?_, ?_⟩
  · exact fun heq => of_decide_eq_true hrows (by rw [heq])
  · apply forged_requests_only_touch hp hq hclient
    · intro email password heq
      rw [heq] at hneeds
      cases hneeds
    · intro _ token _ heq
      cases hheader.symm.trans heq

/-- A session ends before its time only by a logout that has its cookie and its token. -/
theorem sessions_revoked_by_holder {k : UUID} {row row' : UserSession}
    (hs₀ : s₀.db.userSessions.rows = []) (hrun : (api settings).run (.init s₀) as = some p)
    (hstep : (api settings).step p a = some q) (hrow : p.state.db.userSessions.find? k = some row)
    (hlive : row.revokedAt = none) (hrow' : q.state.db.userSessions.find? k = some row')
    (hrevoked : row'.revokedAt ≠ none) :
    ∃ id input client token, a = .step id input ∧ p.clients id = some client ∧
      client.request.operation = .logout ∧
      sessionDigestOrError settings.authentication.sha256
        (client.request.toCredentials.sessionToken settings) = .ok row.tokenSha256 ∧
      client.request.cookies settings.csrfCookieName = some token ∧
      client.request.csrfHeader = some token ∧
      hashToken settings.authentication.sha256 token = .ok row.csrfTokenSha256 ∧
      row' = { row with revokedAt := row'.revokedAt } := by
  have hsame (heq : q.state.db.userSessions.rows = p.state.db.userSessions.rows) : False := by
    rw [Table.find?, heq] at hrow'
    obtain rfl := Option.some.inj (hrow.symm.trans hrow')
    exact hrevoked hlive
  cases a with
  | start request =>
    obtain rfl := Option.some.inj hstep
    rw [Pool.settle_state] at hsame
    exact (hsame rfl).elim
  | step id input =>
    obtain ⟨client, hclient, hrecorded, heffect⟩ := step_effect hrun hstep
    obtain ⟨found, hfound, hchange⟩ := heffect.sessionRow hrow
    obtain rfl := Option.some.inj (hfound.symm.trans hrow')
    cases hchange with
    | kept => exact absurd hlive hrevoked
    | seen _ _ _ => exact absurd hlive hrevoked
    | revoked _ hlogout hcsrf hactive hid =>
      obtain ⟨held, hheld⟩ := Authenticated.loggedIn hs₀ hrun hrecorded ⟨_, _, _, _, hactive, rfl⟩
      have hfind := hheld.found
      rw [principalOf, hid, Table.find?_key hrow] at hfind
      obtain rfl := Option.some.inj (hrow.symm.trans hfind)
      obtain ⟨token, hcookie, hheader, htoken⟩ := hcsrf.ofSession hs₀ hrun hrecorded hheld
      exact ⟨id, input, client, token, rfl, hclient, hlogout, hheld.digest, hcookie, hheader, htoken, rfl⟩
  | kill id =>
    obtain ⟨_, _, rfl⟩ := Option.map_eq_some_iff.mp hstep
    exact (hsame rfl).elim
  | elsewhere state =>
    simp only [api, Pool.machine, Pool.step] at hstep
    split at hstep
    · rename_i hrows
      obtain rfl := Option.some.inj hstep
      exact (hsame hrows).elim
    · cases hstep

theorem sessions_revoked_by_holder_logout : ∃ p q row row' id input client token,
    (api exampleSettings).run (.init exampleState)
      (requestActions (some (List.replicate 32 (ord 'b'))) .logout 11) = some p ∧
    (api exampleSettings).step p (.step 1 exampleInput) = some q ∧
    p.state.db.userSessions.find? 7 = some row ∧ row.revokedAt = none ∧
    q.state.db.userSessions.find? 7 = some row' ∧ row'.revokedAt ≠ none ∧
    (.step 1 exampleInput : ApiAction) = .step id input ∧ p.clients id = some client ∧
    client.request.operation = .logout ∧ client.request.csrfHeader = some token ∧
    hashToken exampleSettings.authentication.sha256 token = .ok row.csrfTokenSha256 := by
  have hany : ((api exampleSettings).run (.init exampleState)
      (requestActions (some (List.replicate 32 (ord 'b'))) .logout 11)).any (fun p =>
        ((api exampleSettings).step p (.step 1 exampleInput)).any fun q =>
          (p.state.db.userSessions.find? 7).any fun row => (q.state.db.userSessions.find? 7).any fun row' =>
            row.revokedAt.isNone && row'.revokedAt.isSome) = true := by
    decide +kernel
  obtain ⟨p, hp, hany⟩ := (Option.any_eq_true _ _).mp hany
  obtain ⟨q, hq, hany⟩ := (Option.any_eq_true _ _).mp hany
  obtain ⟨row, hrow, hany⟩ := (Option.any_eq_true _ _).mp hany
  obtain ⟨row', hrow', hboth⟩ := (Option.any_eq_true _ _).mp hany
  obtain ⟨hlive, hrevoked⟩ := Bool.and_eq_true_iff.mp hboth
  have hlive := Option.isNone_iff_eq_none.mp hlive
  have hrevoked := Option.isSome_iff_ne_none.mp hrevoked
  obtain ⟨id, input, client, token, ha, hclient, hlogout, _, _, hheader, htoken, _⟩ :=
    sessions_revoked_by_holder rfl hp hq hrow hlive hrow' hrevoked
  exact ⟨p, q, row, row', id, input, client, token, hp, hq, hrow, hlive, hrow', hrevoked, ha, hclient,
    hlogout, hheader, htoken⟩

/-- The API changes a user row only in a login that found it active and verified the password against
its outdated hash, and only by a new hash of the same password. -/
theorem passwords_rehashed_by_login (hrun : (api settings).run (.init s₀) as = some p)
    (hstep : (api settings).step p a = some q) (hapi : ∀ state, a ≠ .elsewhere state) :
    q.state.db.users = p.state.db.users ∨ ∃ id input client email password user salt, a = .step id input ∧
      p.clients id = some client ∧ client.request.operation = .login email password ∧
      p.state.db.users.find? user.id = some user ∧ user.isActive = true ∧
      settings.authentication.passwordHasher.verifyPassword password (some user.passwordHash) = true ∧
      settings.authentication.passwordHasher.needsRehash user.passwordHash = true ∧
      ∀ u, q.state.db.users.find? u = if u = user.id then
          some { user with passwordHash := settings.authentication.passwordHasher.hashPassword password salt }
        else p.state.db.users.find? u := by
  cases a with
  | start request =>
    obtain rfl := Option.some.inj hstep
    rw [Pool.settle_state]
    exact .inl rfl
  | step id input =>
    obtain ⟨client, hclient, hrecorded, heffect⟩ := step_effect hrun hstep
    generalize hq : q.state = t at heffect
    cases heffect with
    | none => exact .inl rfl
    | touched _ htouch =>
      left
      rcases touchForAuthentication_row htouch with rfl | ⟨_, _, rfl⟩ <;> rfl
    | revoked _ _ _ hrevoke =>
      left
      obtain ⟨_, _, rfl⟩ := revokeForAuthentication_row hrevoke
      rfl
    | knowledge _ _ hwrite => exact .inl hwrite.userSessions.2
    | @loggedIn email password _ observed replacementHash _ _ db _ heq hverified hcommit =>
      obtain ⟨user, row, _, hcommitted⟩ := commitLogin_committed hcommit
      have hverify := hverified.verified
      cases replacementHash with
      | none => exact .inl hcommitted.users
      | some hash =>
        right
        obtain ⟨salt, rfl⟩ := hverify.replacement hash rfl
        have hid : user.id = observed.userId := Table.find?_key hcommitted.found
        refine ⟨id, input, client, email, password, user, salt, rfl, hclient, heq, hid ▸ hcommitted.found,
          hcommitted.active, ?_, ?_, hcommitted.find?_users⟩
        · rw [hcommitted.unchanged]
          exact hverify.valid
        · rw [hcommitted.unchanged, ← hverify.rehash]
          rfl
  | kill id =>
    obtain ⟨_, _, rfl⟩ := Option.map_eq_some_iff.mp hstep
    exact .inl rfl
  | elsewhere state => exact absurd rfl (hapi state)

theorem passwords_rehashed_by_login_outdated : ∃ p q user salt,
    (api exampleSettings).run (.init exampleState) loginActions = some p ∧
    (api exampleSettings).step p (.step 0 exampleInput) = some q ∧
    p.state.db.users.find? user.id = some user ∧
    q.state.db.users.find? user.id = some { user with passwordHash :=
      exampleSettings.authentication.passwordHasher.hashPassword (str "pass") salt } := by
  have hany : ((api exampleSettings).run (.init exampleState) loginActions).any (fun p =>
      ((api exampleSettings).step p (.step 0 exampleInput)).any fun q =>
        (p.clients 0).any (fun client => match client.request.operation with
          | .login _ password => decide (password = str "pass")
          | _ => false) && decide (q.state.db.users.rows ≠ p.state.db.users.rows)) = true := by
    decide +kernel
  obtain ⟨p, hp, hany⟩ := (Option.any_eq_true _ _).mp hany
  obtain ⟨q, hq, hany⟩ := (Option.any_eq_true _ _).mp hany
  obtain ⟨hclient, hrows⟩ := Bool.and_eq_true_iff.mp hany
  obtain ⟨found, hfound, hpassword⟩ := (Option.any_eq_true _ _).mp hclient
  rcases passwords_rehashed_by_login hp hq nofun with heq | hrehashed
  · exact absurd (by rw [heq]) (of_decide_eq_true hrows)
  · obtain ⟨id, _, client, _, password, user, salt, ha, hclient, hlogin, huser, _, _, _, hafter⟩ := hrehashed
    obtain ⟨rfl, -⟩ := PoolAction.step.inj ha
    obtain rfl := Option.some.inj (hfound.symm.trans hclient)
    rw [hlogin] at hpassword
    obtain rfl := of_decide_eq_true hpassword
    refine ⟨p, q, user, salt, hp, hq, huser, ?_⟩
    rw [hafter, if_pos rfl]

end Runs
end AgenticRag.Api

import AgenticRag.Api.Confinement
import AgenticRag.Lib.Simulation
import AgenticRag.Services.ContentProvenance

/-! The backend as it is deployed: the requests of the API and the calls of the workers on one
database. A run is one of the API, to which the workers are others that write, and it keeps what the
workers keep, to which the API is where uploads and retries come from. -/
namespace AgenticRag.Api
open Lib Python Db Ingestion Security Retrieval Services Program

/-- The requests with the rows and the files, and what the workers have besides the rows. -/
structure Backend where
  pool : ApiPool
  workers : WorkerState

/-- The workers on the rows of the requests. -/
def Backend.ingestion (b : Backend) : WorkerState := b.workers.withDb b.pool.state.db

def Backend.withDb (b : Backend) (db : Database) : Backend :=
  { b with pool := { b.pool with state := { b.pool.state with db } } }

def Backend.init (s : KnowledgeState) : Backend := ⟨.init s, .init s.db⟩

/-- The operator's commands write accounts and knowledge bases. -/
def OperatorWrite (db db' : Database) : Prop :=
  db'.userSessions.rows = db.userSessions.rows ∧ db'.documents.rows = db.documents.rows ∧
    db'.ingestionJobs.rows = db.ingestionJobs.rows ∧ db'.documentChunks.rows = db.documentChunks.rows

instance : DecidableRel OperatorWrite := fun _ _ => inferInstanceAs (Decidable (_ ∧ _))

inductive BackendAction where
  | api (action : ApiAction)
  | worker (action : WorkerAction)
  | operator (db : Database)

/-- The actions that clients cause. -/
def ofClient : ApiAction → Bool
  | .elsewhere _ => false
  | _ => true

/-- The actions that workers cause; uploads and retries are the API's. -/
def ofWorker : WorkerAction → Bool
  | .upload _ _ | .retryIngestionJob _ _ => false
  | _ => true

section Machine
variable {ρ : Type} [LinearOrder ρ] (settings : ApiSettings ρ) (uuid5 : UUID → Str → UUID)

def backendStep (b : Backend) : BackendAction → Option Backend
  | .api action =>
    if ofClient action then ((api settings).step b.pool action).map fun pool => { b with pool } else none
  | .worker action =>
    if ofWorker action then
      ((workers settings.intake.sha256 uuid5).step b.ingestion action).map fun workers =>
        { b.withDb workers.db with workers }
    else none
  | .operator db => if OperatorWrite b.pool.state.db db then some (b.withDb db) else none

def backend : Machine Backend BackendAction := ⟨backendStep settings uuid5⟩

end Machine

/-- What the API sees of an action that leads to `b`. -/
def seenByApi : BackendAction → Backend → ApiAction
  | .api action, _ => action
  | .worker _, b | .operator _, b => .elsewhere b.pool.state

/-- The actions of a run, as the API sees them. -/
def apiActions {ρ : Type} [LinearOrder ρ] (settings : ApiSettings ρ) (uuid5 : UUID → Str → UUID)
    (s₀ : KnowledgeState) (as : List BackendAction) : List ApiAction :=
  (backend settings uuid5).labels seenByApi (.init s₀) as

section Frame
variable {db db' : Database}

/-- A transaction that leaves the accounts and the knowledge bases alone. -/
structure AccountsKept (db db' : Database) : Prop where
  users : db'.users = db.users
  userSessions : db'.userSessions = db.userSessions
  knowledgeBases : db'.knowledgeBases = db.knowledgeBases
  memberships : db'.memberships = db.memberships

theorem AccountsKept.refl (db : Database) : AccountsKept db db := ⟨rfl, rfl, rfl, rfl⟩

theorem AccountsKept.trans {db'' : Database} (h : AccountsKept db db') (h' : AccountsKept db' db'') :
    AccountsKept db db'' :=
  ⟨h'.users.trans h.users, h'.userSessions.trans h.userSessions,
    h'.knowledgeBases.trans h.knowledgeBases, h'.memberships.trans h.memberships⟩

theorem accountsKept_flush (job : IngestionJob) (documentId : UUID) (status : DocumentStatus) :
    AccountsKept db ((db.flushJob job).flushDocumentStatus documentId status) := by
  unfold Database.flushDocumentStatus
  split <;> exact ⟨rfl, rfl, rfl, rfl⟩

private theorem recoverExpiredLeases_accounts {svc : IngestionProcessingService} {locked : List UUID}
    {limit : Int} {now : Time} {n : Nat}
    (hok : svc.recoverExpiredLeases db locked limit now = .ok (n, db')) : AccountsKept db db' := by
  obtain ⟨jobs, hlocked, heq⟩ := map_eq_ok.mp hok
  obtain ⟨-, rfl⟩ := Prod.mk.inj heq
  clear hok heq hlocked
  induction jobs generalizing db with
  | nil => exact .refl db
  | cons job jobs ih => exact (accountsKept_flush _ _ _).trans ih

private theorem replaceChunks_accounts {svc : IngestionProcessingService} {claimed : ClaimedDocument}
    {chunks : List DocumentChunk} {now : Time} (hok : svc.replaceChunks db claimed chunks now = .ok db') :
    AccountsKept db db' := by
  obtain ⟨_, _, _, hreplace, rfl⟩ := replaceChunks_ok hok
  obtain ⟨_, _, _, hmid⟩ := replaceForDocumentInternal_ok hreplace
  rw [hmid]
  exact ⟨rfl, rfl, rfl, rfl⟩

private theorem completeFailure_accounts (svc : IngestionProcessingService) (jobId : UUID)
    (failure : Failure) (now : Time) : AccountsKept db (svc.completeFailure db jobId failure now) := by
  unfold IngestionProcessingService.completeFailure
  split
  · exact .refl db
  · exact accountsKept_flush _ _ _

theorem callStep_accounts {uuid5 : UUID → Str → UUID} {s t : WorkerState} {w : Str} {call : Call}
    {action : CallAction} {next : Option Call} (hstep : CallStep uuid5 s w call action t next) :
    AccountsKept s.db t.db := by
  cases hstep with
  | recovered hok => exact recoverExpiredLeases_accounts hok
  | claimed _ _ hok _ =>
    obtain ⟨_, _, _, _, _, rfl⟩ := claimNextInternal_some hok
    exact accountsKept_flush _ _ _
  | replaced _ _ hok => exact replaceChunks_accounts hok
  | succeeded _ hok =>
    obtain ⟨_, _, rfl⟩ := Option.map_eq_some_iff.mp hok
    exact accountsKept_flush _ _ _
  | failed => exact completeFailure_accounts _ _ _ _
  | renewed _ _ hok =>
    obtain ⟨_, _, rfl⟩ := Option.map_eq_some_iff.mp hok
    exact ⟨rfl, rfl, rfl, rfl⟩
  | _ => exact ⟨rfl, rfl, rfl, rfl⟩

/-- One job row and the status of its document are written. -/
def WritesJob (db db' : Database) : Prop := ∃ job job' f, Writes db db' job job' f

theorem recoverExpiredLeases_writesJobs {svc : IngestionProcessingService} {locked : List UUID}
    {limit : Int} {now : Time} {n : Nat}
    (hok : svc.recoverExpiredLeases db locked limit now = .ok (n, db')) :
    Relation.ReflTransGen WritesJob db db' :=
  recoverExpiredLeases_induction hok (fun _ _ _ hP _ hw _ => hP.tail ⟨_, _, _, hw⟩) .refl

theorem callStep_writesJobs {uuid5 : UUID → Str → UUID} {s t : WorkerState} {w : Str} {call : Call}
    {action : CallAction} {next : Option Call} (hstep : CallStep uuid5 s w call action t next) :
    Relation.ReflTransGen WritesJob s.db t.db := by
  cases hstep with
  | recovered hok => exact recoverExpiredLeases_writesJobs hok
  | claimed _ _ hok _ =>
    obtain ⟨_, _, _, hw, _⟩ := claimNext_writes hok
    exact .single ⟨_, _, _, hw⟩
  | replaced _ _ hok =>
    obtain ⟨_, _, hw, _⟩ := replaceChunks_writes hok
    exact .single ⟨_, _, _, hw⟩
  | succeeded _ hok =>
    obtain ⟨_, _, hw, _⟩ := completeSuccess_writes hok
    exact .single ⟨_, _, _, hw⟩
  | @failed claim _ failure now =>
    rcases completeFailure_writes call.svc s.db claim.claimed.jobId failure now with heq | ⟨_, _, hw, _⟩
    · change Relation.ReflTransGen WritesJob s.db (call.svc.completeFailure s.db _ failure now)
      rw [heq]
    · exact .single ⟨_, _, _, hw⟩
  | renewed _ _ hok =>
    obtain ⟨_, _, hw, _⟩ := renewLease_writes hok
    exact .single ⟨_, _, _, hw⟩
  | _ => exact .refl

/-- Besides chunks, the workers write jobs and the status of their documents. -/
theorem workerStep_writesJobs {sha256 : Sha256} {uuid5 : UUID → Str → UUID} {s t : WorkerState}
    {action : WorkerAction} (hworker : ofWorker action = true)
    (hstep : (workers sha256 uuid5).step s action = some t) : Relation.ReflTransGen WritesJob s.db t.db := by
  cases workerStep_move hstep with
  | start => exact .refl
  | call _ hcall =>
    have hwrites := callStep_writesJobs hcall
    exact hwrites
  | recovered hok => exact recoverExpiredLeases_writesJobs hok
  | retried => cases hworker
  | uploaded => cases hworker

/-- The workers never write an account, a session, a knowledge base or a membership. -/
theorem workerStep_accounts {sha256 : Sha256} {uuid5 : UUID → Str → UUID} {s t : WorkerState}
    {action : WorkerAction} (hworker : ofWorker action = true)
    (hstep : (workers sha256 uuid5).step s action = some t) : AccountsKept s.db t.db := by
  cases workerStep_move hstep with
  | start => exact .refl s.db
  | call _ hcall =>
    have hkept := callStep_accounts hcall
    exact hkept
  | recovered hok => exact recoverExpiredLeases_accounts hok
  | retried => cases hworker
  | uploaded => cases hworker

end Frame

section Simulation
variable {ρ : Type} [LinearOrder ρ] {settings : ApiSettings ρ} {uuid5 : UUID → Str → UUID}
  {s₀ : KnowledgeState} {as : List BackendAction} {a : BackendAction} {b c : Backend}

/-- The steps of the backend by their outcome. -/
inductive BackendStep (settings : ApiSettings ρ) (uuid5 : UUID → Str → UUID) (b : Backend) :
    BackendAction → Backend → Prop
  | api {action : ApiAction} {pool : ApiPool} (hclient : ofClient action = true)
      (hstep : (api settings).step b.pool action = some pool) :
      BackendStep settings uuid5 b (.api action) { b with pool }
  | worker {action : WorkerAction} {workers : WorkerState} (hworker : ofWorker action = true)
      (hstep : (Services.workers settings.intake.sha256 uuid5).step b.ingestion action = some workers) :
      BackendStep settings uuid5 b (.worker action) { b.withDb workers.db with workers }
  | operator {db : Database} (hwrite : OperatorWrite b.pool.state.db db) :
      BackendStep settings uuid5 b (.operator db) (b.withDb db)

theorem backend_step (hstep : (backend settings uuid5).step b a = some c) :
    BackendStep settings uuid5 b a c := by
  cases a with
  | api action =>
    simp only [backend, backendStep] at hstep
    split at hstep
    · obtain ⟨pool, hpool, rfl⟩ := Option.map_eq_some_iff.mp hstep
      exact .api ‹_› hpool
    · cases hstep
  | worker action =>
    simp only [backend, backendStep] at hstep
    split at hstep
    · obtain ⟨workers, hworkers, rfl⟩ := Option.map_eq_some_iff.mp hstep
      exact .worker ‹_› hworkers
    · cases hstep
  | operator db =>
    simp only [backend, backendStep] at hstep
    split at hstep
    · obtain rfl := Option.some.inj hstep
      exact .operator ‹_›
    · cases hstep

private theorem api_step_elsewhere {p : ApiPool} {state : KnowledgeState}
    (hkeeps : KeepsSessions p.state state) :
    (api settings).step p (.elsewhere state) = some { p with state } := if_pos hkeeps

/-- To the API, workers and operators are others that leave its sessions alone. -/
theorem backend_simulates_api :
    (backend settings uuid5).Simulates (api settings) Backend.pool seenByApi := by
  intro b a c hstep
  cases backend_step hstep with
  | api _ hpool => exact hpool
  | worker hworker hworkers =>
    apply api_step_elsewhere
    exact congrArg Table.rows (workerStep_accounts hworker hworkers).userSessions
  | operator hwrite => exact api_step_elsewhere hwrite.1

/-- A run of the backend is one of the API. -/
theorem backend_run_api (hrun : (backend settings uuid5).run (.init s₀) as = some b) :
    (api settings).run (.init s₀) (apiActions settings uuid5 s₀ as) = some b.pool :=
  backend_simulates_api.run hrun

/-- Each state of the API's run is one of the backend's run. -/
theorem backend_run_before {before after : List ApiAction} {r : ApiPool}
    (hrun : (backend settings uuid5).run (.init s₀) as = some b)
    (hsplit : apiActions settings uuid5 s₀ as = before ++ after)
    (hr : (api settings).run (.init s₀) before = some r) : ∃ as₁ as₂ mid, as = as₁ ++ as₂ ∧
      (backend settings uuid5).run (.init s₀) as₁ = some mid ∧
      (backend settings uuid5).run mid as₂ = some b ∧ apiActions settings uuid5 s₀ as₁ = before ∧
      mid.pool = r := by
  obtain ⟨as₁, as₂, mid, has, hmid, hrest, hbefore⟩ := Machine.of_labels_eq_append hrun hsplit
  have hpool : (api settings).run (.init s₀) before = some mid.pool := hbefore ▸ backend_run_api hmid
  exact ⟨as₁, as₂, mid, has, hmid, hrest, hbefore, Option.some.inj (hpool.symm.trans hr)⟩

end Simulation

section Kept
variable {db db' : Database} {s : WorkerState}

/-- The tables of the ingestion are as they were. -/
structure IngestionKept (db db' : Database) : Prop where
  documents : db'.documents = db.documents
  ingestionJobs : db'.ingestionJobs = db.ingestionJobs
  documentChunks : db'.documentChunks = db.documentChunks

private theorem table_eq {R K : Type} {key : R → K} {t t' : Table R key} (h : t'.rows = t.rows) :
    t' = t := by
  cases t
  cases t'
  obtain rfl := h
  rfl

theorem OperatorWrite.ingestionKept (h : OperatorWrite db db') : IngestionKept db db' :=
  ⟨table_eq h.2.1, table_eq h.2.2.1, table_eq h.2.2.2⟩

theorem KnowledgeKept.ingestionKept {s t : KnowledgeState} (h : KnowledgeKept s t) :
    IngestionKept s.db t.db := ⟨h.documents, h.ingestionJobs, h.documentChunks⟩

theorem Consistent.kept {s : LifecycleState} (h : Consistent s) (hkept : IngestionKept s.db db) :
    Consistent { s with db } := by
  obtain ⟨hbounded, hjobs, hone, hclock, hknown, hhas⟩ := h
  constructor
  · simpa only [hkept.ingestionJobs] using hbounded
  · simpa only [hkept.ingestionJobs, hkept.documents] using hjobs
  · simpa only [hkept.ingestionJobs] using hone
  · simpa only [hkept.ingestionJobs] using hclock
  · simpa only [hkept.ingestionJobs] using hknown
  · simpa only [hkept.ingestionJobs, hkept.documents] using hhas

theorem IngestionKept.advances (hkept : IngestionKept db db') : Advances none (fun _ => False) db db' := by
  obtain ⟨hpersists, hheld, hcompleted, hcompletes⟩ := Advances.refl none (fun _ => False) db
  have hsame (d : UUID) : SameChunks db db' d := sameChunks_of_eq hkept.documentChunks d
  constructor
  · simpa only [hkept.ingestionJobs] using hpersists
  · intro k job w hk hp hby hne
    rw [hkept.ingestionJobs] at hk
    exact ⟨job, hk, rfl, hp, hby, rfl, hsame _⟩
  · intro k job hk _
    rw [hkept.ingestionJobs, hkept.documents]
    exact ⟨hk, rfl, hsame _⟩
  · simpa only [hkept.ingestionJobs] using hcompletes

theorem IngestionKept.documentsKept (hkept : IngestionKept db db') : DocumentsKept db db' := by
  unfold DocumentsKept
  rw [hkept.documents]
  exact DocumentsKept.refl db

theorem Fenced.kept (h : Fenced s) (hkept : IngestionKept s.db db) : Fenced (s.withDb db) :=
  h.elsewhere (Consistent.kept h.consistent hkept) hkept.advances

theorem Traced.kept {sha256 : Sha256} {uuid5 : UUID → Str → UUID}
    {parse : DocumentArtifact → Except ParseError ParsedDocument} (h : Traced sha256 uuid5 parse s)
    (hkept : IngestionKept s.db db) : Traced sha256 uuid5 parse (s.withDb db) :=
  h.elsewhere hkept.documentsKept hkept.documentChunks

end Kept

section Ingestion
variable {ρ : Type} [LinearOrder ρ] {settings : ApiSettings ρ} {uuid5 : UUID → Str → UUID}
  {s₀ : KnowledgeState} {as : List BackendAction} {a : BackendAction} {b c : Backend}

/-- An action of the backend, as the workers see it. -/
inductive Ingests : BackendAction → WorkerAction → Prop
  | worker {action : WorkerAction} : Ingests (.worker action) action
  | upload {action : ApiAction} {document : Document} {jobId : UUID} :
      Ingests (.api action) (.upload document jobId)
  | retry {action : ApiAction} {userId jobId : UUID} :
      Ingests (.api action) (.retryIngestionJob userId jobId)

omit [LinearOrder ρ] in
/-- What a knowledge request writes is an upload, a retry, or nothing to the workers. -/
theorem KnowledgeWrite.ingests {userId : UUID} {h : ApiHistory} {i : ApiInput} {operation : ApiOperation}
    {s t : KnowledgeState} {action : ApiAction} {workers : WorkerState}
    (hwrite : KnowledgeWrite settings userId h i s operation t) :
    IngestionKept s.db t.db ∨ ∃ w, Ingests (.api action) w ∧
      (Services.workers settings.intake.sha256 uuid5).step (workers.withDb s.db) w =
        some (workers.withDb t.db) := by
  cases hwrite with
  | created hadd =>
    left
    obtain ⟨_, _, _, heq⟩ := addWithOwner_some hadd
    rw [heq]
    exact ⟨rfl, rfl, rfl⟩
  | @retried jobId job db hretry =>
    refine .inr ⟨.retryIngestionJob userId jobId, .retry, ?_⟩
    have hrows : (workers.withDb s.db).db = s.db := rfl
    simp only [Services.workers, workerStep, hrows, hretry]
    rfl
  | stored => exact .inl ⟨rfl, rfl, rfl⟩
  | @inserted knowledgeBaseId documentId file mediaType extension stored job db _ _ _ _ _ hinsert =>
    refine .inr ⟨.upload (uploadedDocument documentId knowledgeBaseId (file.filename.getD []) mediaType
      stored i.createdAt) i.jobId, .upload, ?_⟩
    have hpending : insertUpload (workers.withDb s.db).db { uploadedDocument documentId knowledgeBaseId
        (file.filename.getD []) mediaType stored i.createdAt with status := .pending } i.jobId =
          .ok (job, db) := hinsert
    simp only [Services.workers, workerStep, hpending]
    rfl
  | deleted => exact .inl ⟨rfl, rfl, rfl⟩

/-- To the workers, an action of the backend is one of their own, an upload, a retry, or nothing. -/
theorem backend_step_ingests (hrun : (backend settings uuid5).run (.init s₀) as = some b)
    (hstep : (backend settings uuid5).step b a = some c) :
    (∃ db, IngestionKept b.ingestion.db db ∧ c.ingestion = b.ingestion.withDb db) ∨
      ∃ w, Ingests a w ∧
        (workers settings.intake.sha256 uuid5).step b.ingestion w = some c.ingestion := by
  cases backend_step hstep with
  | @api action pool hclient hpool =>
    have hsame (heq : pool.state = b.pool.state) : ∃ db, IngestionKept b.ingestion.db db ∧
        Backend.ingestion { b with pool } = b.ingestion.withDb db := by
      refine ⟨b.pool.state.db, ⟨rfl, rfl, rfl⟩, ?_⟩
      rw [Backend.ingestion, heq]
      rfl
    cases action with
    | start request =>
      obtain rfl := Option.some.inj hpool
      exact .inl (hsame Pool.settle_state)
    | step id input =>
      obtain ⟨client, _, _, heffect⟩ := step_effect (backend_run_api hrun) hpool
      rcases heffect.knowledgeKept with hkept | ⟨principal, _, _, hwrite⟩
      · exact .inl ⟨_, hkept.ingestionKept, rfl⟩
      · rcases KnowledgeWrite.ingests hwrite with hkept | hingests
        · exact .inl ⟨_, hkept, rfl⟩
        · exact .inr hingests
    | kill id =>
      obtain ⟨_, _, rfl⟩ := Option.map_eq_some_iff.mp hpool
      exact .inl (hsame rfl)
    | elsewhere state => cases hclient
  | worker _ hworkers => exact .inr ⟨_, .worker, hworkers⟩
  | operator hwrite => exact .inl ⟨_, hwrite.ingestionKept, rfl⟩

/-- What the workers, uploads and retries keep, and what speaks of nothing but the ingestion's
tables, holds in every run of the backend. -/
theorem backend_keeps {I : WorkerState → Prop} {C : WorkerState → WorkerAction → Prop}
    (hkept : ∀ s db, I s → IngestionKept s.db db → I (s.withDb db))
    (hsteps : ∀ s w t, I s → C s w → (workers settings.intake.sha256 uuid5).step s w = some t → I t)
    (hinit : I (.init s₀.db))
    (hallowed : (backend settings uuid5).Allowed (fun b a => ∀ w, Ingests a w → C b.ingestion w)
      (.init s₀) as)
    (hrun : (backend settings uuid5).run (.init s₀) as = some b) : I b.ingestion := by
  refine Machine.run_history (I := fun _ b => I b.ingestion) ?_ hinit hallowed hrun
  intro as b a c hrun hI hC hstep
  rcases backend_step_ingests hrun hstep with ⟨db, hdb, heq⟩ | ⟨w, hw, hworkers⟩
  · rw [heq]
    exact hkept _ _ hI hdb
  · exact hsteps _ w _ hI (hC w hw) hworkers

/-- The jobs of a database with what has been claimed of them: each is in step with its document and
its claims and satisfies the CHECK constraints, and documents and jobs correspond. -/
structure JobsInStep (db : Database) (claims : List UUID) : Prop where
  checks : ∀ job ∈ db.ingestionJobs, job.Checks
  lifecycle : ∀ job ∈ db.ingestionJobs, ∃ document, db.documents.find? job.documentId = some document ∧
    Lifecycle document.status job (claims.count job.id)
  one_job : ∀ job ∈ db.ingestionJobs, ∀ other ∈ db.ingestionJobs,
    job.documentId = other.documentId → job = other
  has_job : ∀ document ∈ db.documents, ∃ job ∈ db.ingestionJobs, job.documentId = document.id

theorem Consistent.jobsInStep {s : LifecycleState} (h : Consistent s) : JobsInStep s.db s.claims where
  checks job hjob := by
    have hfound := Table.find?_of_mem hjob
    obtain ⟨_, _, hlife⟩ := h.jobs _ _ hfound
    exact hlife.checks (h.bounded _ _ hfound)
  lifecycle job hjob := h.jobs _ _ (Table.find?_of_mem hjob)
  one_job job hjob other hother hsame :=
    Table.eq_of_key_eq hjob hother
      (h.one_job _ _ _ _ (Table.find?_of_mem hjob) (Table.find?_of_mem hother) hsame)
  has_job document hdocument := by
    obtain ⟨_, job, hjob, hid⟩ := h.has_job _ _ (Table.find?_of_mem hdocument)
    exact ⟨job, Table.mem_of_find? hjob, hid⟩

theorem backend_fenced (hfresh : FreshDatabase s₀.db)
    (hrun : (backend settings uuid5).run (.init s₀) as = some b) : Fenced b.ingestion := by
  refine backend_keeps (C := fun _ _ => True) (fun _ _ => Fenced.kept)
    (fun s w t hI _ hstep => workers_step_fenced s w t hI hstep) (.init hfresh) ?_ hrun
  exact Machine.allowed_true.mono fun _ _ _ _ _ => trivial

/-- Whatever clients, workers and operators do, in whatever order, every job stays in step with its
document and its claims. -/
theorem backend_keeps_jobs (hfresh : FreshDatabase s₀.db)
    (hrun : (backend settings uuid5).run (.init s₀) as = some b) :
    JobsInStep b.pool.state.db b.workers.lifecycle.claims :=
  Consistent.jobsInStep (backend_fenced hfresh hrun).consistent

end Ingestion

section Example

/-- The API's example with the digest of the workers'. -/
def backendSettings : ApiSettings Nat := { exampleSettings with intake := ⟨exampleSha256, 100⟩ }

def backendState : KnowledgeState :=
  ⟨{ exampleDatabase with users := outdatedDatabase.users }, fun _ => none⟩

theorem backendState_fresh : FreshDatabase backendState.db := ⟨rfl, rfl, rfl⟩

/-- A login and an upload of the letter a. -/
def uploadActions : List BackendAction :=
  (requestActions (some (List.replicate 32 (ord 'b')))
    (.uploadDocument 3 ⟨some (str "a.txt"), some "text/plain", [[0x61]]⟩) 11).map .api

/-- A worker ingests the upload. -/
def ingestActions : List BackendAction :=
  (claimActions exampleService 10 10 ++ embedActions exampleService 20 ++
    indexActions exampleService 30).map .worker

def backendActions : List BackendAction := uploadActions ++ ingestActions

theorem backend_keeps_jobs_ingested : ∃ b job,
    (backend backendSettings exampleUuid5).run (.init backendState) backendActions = some b ∧
    job ∈ b.pool.state.db.ingestionJobs ∧ job.status = .completed ∧
    JobsInStep b.pool.state.db b.workers.lifecycle.claims := by
  have hany : ((backend backendSettings exampleUuid5).run (.init backendState) backendActions).any
      (fun b => b.pool.state.db.ingestionJobs.rows.any fun job => job.status = .completed) = true := by
    decide +kernel
  obtain ⟨b, hrun, hany⟩ := (Option.any_eq_true _ _).mp hany
  obtain ⟨job, hjob, hcompleted⟩ := List.any_eq_true.mp hany
  exact ⟨b, job, hrun, hjob, of_decide_eq_true hcompleted, backend_keeps_jobs backendState_fresh hrun⟩

end Example
end AgenticRag.Api

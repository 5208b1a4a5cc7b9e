import AgenticRag.Services.ProcessTask
import AgenticRag.Services.WorkerMachine

/-! How an attempt ends. Whatever its stages raise and whenever it is cancelled, one of the two
transitions takes it out of processing, as long as its lease holds and the failure transition is
left to do its work. -/
namespace AgenticRag.Services
open Lib Python Db Ingestion

section Operations
variable {sha256 : Sha256} {svc : IngestionProcessingService} {claimed : ClaimedDocument}

/-- An exception of the pipeline's own, neither a cancellation nor a lost lease. -/
def Raised.Ordinary : Raised → Prop
  | .expected _ | .unexpected => True
  | .cancelled | .leaseLost => False

theorem Raised.Ordinary.ne_leaseLost {raised : Raised} (h : raised.Ordinary) : raised ≠ .leaseLost := by
  rintro rfl
  exact h

theorem Raised.Ordinary.ne_cancelled {raised : Raised} (h : raised.Ordinary) : raised ≠ .cancelled := by
  rintro rfl
  exact h

private theorem ordinary_mapError {α ε : Type} {f : ε → Raised} (hf : ∀ e, (f e).Ordinary)
    (x : Except ε α) : Raises Raised.Ordinary (x.mapError f) := by
  cases x with
  | ok a => exact raises_ok a
  | error e => exact raises_error (hf e)

private theorem ordinary_verifySource (content : Bytes) :
    Raises Raised.Ordinary (verifySource sha256 claimed content) := by
  unfold verifySource
  split
  · exact raises_error trivial
  split
  · exact raises_error trivial
  · exact raises_ok _

private theorem ordinary_consistentChunks (k : Nat) (chunks : List TextChunk) :
    Raises Raised.Ordinary (consistentChunks sha256 k chunks) := by
  induction chunks generalizing k with
  | nil => exact raises_ok _
  | cons chunk rest ih =>
    refine raises_bind ?_ fun _ _ => ih (k + 1)
    unfold consistentChunk
    split
    · exact raises_error trivial
    split
    · exact raises_error trivial
    · exact raises_ok _

private theorem ordinary_parseAndChunk (cfg : ChunkingConfig)
    (parse : DocumentArtifact → Except ParseError ParsedDocument) (content : Bytes) :
    Raises Raised.Ordinary (parseAndChunk sha256 cfg parse claimed content) := by
  have htext : ∀ e, (textRaised e).Ordinary := fun e => by cases e <;> trivial
  refine raises_bind (ordinary_mapError (fun e => by cases e <;> trivial) _) fun _ _ => ?_
  refine raises_bind (ordinary_mapError htext _) fun _ _ => ?_
  refine raises_bind (ordinary_mapError htext _) fun chunks _ => ?_
  split
  · exact raises_error trivial
  · exact raises_bind (ordinary_consistentChunks 0 chunks) fun _ _ => raises_ok _

private theorem ordinary_makeVectorRecords (knowledgeBaseId : UUID) (chunks : List DocumentChunk)
    (embeddings : List EmbeddingVector) :
    Raises Raised.Ordinary (makeVectorRecords knowledgeBaseId chunks embeddings) := by
  unfold makeVectorRecords
  split
  · exact raises_error trivial
  · refine raises_mapM fun p _ => ?_
    dsimp only
    split
    · exact raises_error trivial
    split
    · exact raises_ok _
    · exact raises_error trivial

private theorem ordinary_embedChunks (embed : List Str → Except EmbeddingError Object) (dimension : Int)
    (rows : List DocumentChunk) :
    Raises Raised.Ordinary (embedChunks embed dimension claimed rows) := by
  have hembedding : ∀ e, (embeddingRaised e).Ordinary := fun e => by cases e <;> trivial
  refine raises_bind (ordinary_mapError hembedding _) fun _ _ => ?_
  refine raises_bind (ordinary_mapError hembedding _) fun _ _ => ?_
  refine raises_bind (ordinary_mapError hembedding _) fun _ _ => ?_
  exact ordinary_makeVectorRecords _ _ _

/-- An operation that is not cancelled raises an exception of its own. -/
theorem Operation.outcome_raises {operation : Operation} {answer : OperationAnswer}
    {outcome : Except Raised Statement}
    (h : operation.outcome sha256 svc claimed answer = some outcome) :
    Raises Raised.Ordinary outcome := by
  unfold Operation.outcome at h
  split at h
  · obtain rfl := Option.some.inj h
    refine raises_bind (ordinary_mapError (f := Raised.expected) (fun _ => trivial) _) fun _ _ => ?_
    exact raises_bind (ordinary_verifySource _) fun _ _ => raises_ok _
  · obtain rfl := Option.some.inj h
    exact raises_bind (ordinary_parseAndChunk _ _ _) fun _ _ => raises_ok _
  · obtain rfl := Option.some.inj h
    exact raises_bind (ordinary_embedChunks _ _ _) fun _ _ => raises_ok _
  · obtain rfl := Option.some.inj h
    exact raises_bind (ordinary_mapError (fun e => by cases e <;> trivial) _) fun _ _ => raises_ok _
  · obtain rfl := Option.some.inj h
    exact raises_error trivial
  · obtain rfl := Option.some.inj h
    exact raises_error trivial
  · cases h

/-- The stages that have ended well when a statement begins, the latest first. -/
def Statement.earlier : Statement → List ProcessingStage
  | .withLease .readSource => []
  | .withLease (.parseAndChunk _) => [.readSource]
  | .replaceChunks _ => [.parseAndChunk, .readSource]
  | .withLease (.embedChunks _) => [.replaceChunks, .parseAndChunk, .readSource]
  | .withLease (.replaceVectors _) => [.embedChunks, .replaceChunks, .parseAndChunk, .readSource]
  | .completeSuccess =>
    [.replaceVectors, .embedChunks, .replaceChunks, .parseAndChunk, .readSource]

theorem Operation.outcome_earlier {operation : Operation} {answer : OperationAnswer}
    {statement : Statement}
    (h : operation.outcome sha256 svc claimed answer = some (.ok statement)) :
    statement.earlier = operation.stage :: (Statement.withLease operation).earlier := by
  unfold Operation.outcome at h
  split at h
  · obtain ⟨_, _, hrest⟩ := bind_eq_ok.mp (Option.some.inj h)
    obtain ⟨_, _, hrest⟩ := bind_eq_ok.mp hrest
    obtain rfl := Except.ok.inj hrest
    rfl
  · obtain ⟨_, _, hrest⟩ := bind_eq_ok.mp (Option.some.inj h)
    obtain rfl := Except.ok.inj hrest
    rfl
  · obtain ⟨_, _, hrest⟩ := bind_eq_ok.mp (Option.some.inj h)
    obtain rfl := Except.ok.inj hrest
    rfl
  · obtain ⟨_, _, hrest⟩ := bind_eq_ok.mp (Option.some.inj h)
    obtain rfl := Except.ok.inj hrest
    rfl
  · cases h
  · cases h
  · cases h

end Operations

section Rows
variable {svc : IngestionProcessingService} {claimed : ClaimedDocument} {job : IngestionJob}
  {db db' : Database} {now : Time}

/-- The rows while the attempt is under way. -/
structure Held (svc : IngestionProcessingService) (claimed : ClaimedDocument) (job row : IngestionJob)
    (db : Database) : Prop where
  found : db.ingestionJobs.find? claimed.jobId = some row
  processing : row.status = .processing
  claimedBy : row.claimedBy = some svc.workerId.value
  leased : row.leaseExpiresAt ≠ none
  documentId : row.documentId = claimed.documentId
  attemptCount : row.attemptCount = job.attemptCount
  maxAttempts : row.maxAttempts = job.maxAttempts
  document : (db.documents.find? claimed.documentId).isSome

/-- The rows once a transition has released the job, with what it says of them. -/
def Released (claimed : ClaimedDocument) (db : Database) (P : IngestionJob → Document → Prop) : Prop :=
  ∃ row document, db.ingestionJobs.find? claimed.jobId = some row ∧
    db.documents.find? claimed.documentId = some document ∧ row.claimedBy = none ∧
    row.claimedAt = none ∧ row.leaseExpiresAt = none ∧ P row document

def Succeeded (row : IngestionJob) (document : Document) : Prop :=
  row.status = .completed ∧ document.status = .completed

/-- What the failure transition at `now` makes of the job and its document. -/
def FailedWith (svc : IngestionProcessingService) (job : IngestionJob) (failure : Failure) (now : Time)
    (row : IngestionJob) (document : Document) : Prop :=
  if failure.retryable = true ∧ job.attemptCount < job.maxAttempts then
    row.status = .pending ∧ document.status = .pending ∧ row.nextRetryAt = some (now + svc.retryDelay)
  else row.status = .failed ∧ document.status = .failed

theorem FailedWith.status {row : IngestionJob} {document : Document} {failure : Failure}
    (h : FailedWith svc job failure now row document) :
    row.status ≠ .processing ∧ row.status ≠ .completed := by
  unfold FailedWith at h
  split at h
  · rw [h.1]
    exact ⟨nofun, nofun⟩
  · rw [h.1]
    exact ⟨nofun, nofun⟩

theorem Writes.found_after {row row' : IngestionJob} {f : DocumentStatus → DocumentStatus}
    (h : Writes db db' row row' f) : db'.ingestionJobs.find? row.id = some row' := by
  rw [h.jobs, if_pos rfl]

theorem Writes.document_after {row row' : IngestionJob} {f : DocumentStatus → DocumentStatus}
    {document : Document} (h : Writes db db' row row' f)
    (hdocument : db.documents.find? row.documentId = some document) :
    db'.documents.find? row.documentId = some { document with status := f document.status } := by
  rw [h.documents, hdocument]
  simp

theorem Held.owned {row : IngestionJob} (h : Held svc claimed job row db)
    (hlease : ∀ lease, row.leaseExpiresAt = some lease → now < lease) :
    getOwnedProcessingInternal db claimed.jobId svc.workerId.value now = some row := by
  obtain ⟨lease, hsome⟩ := Option.ne_none_iff_exists'.mp h.leased
  exact getOwnedProcessingInternal_some.mpr
    ⟨h.found, h.processing, h.claimedBy, lease, hsome, hlease lease hsome⟩

/-- Who owns the row that is held. -/
theorem Held.eq_of_owned {row row' : IngestionJob} (h : Held svc claimed job row db)
    (howned : Owned svc db claimed.jobId now row') (hfound : db.ingestionJobs.find? row'.id = some row') :
    row' = row := by
  rw [howned.id, h.found] at hfound
  exact (Option.some.inj hfound).symm

/-- A write of the lease leaves the job held. -/
theorem Held.leaseWritten {row row' row'' : IngestionJob} (h : Held svc claimed job row db)
    (howned : Owned svc db claimed.jobId now row') (hw : Writes db db' row' row'' id)
    (hstatus : row''.status = row'.status) (hclaimedBy : row''.claimedBy = row'.claimedBy)
    (hlease : row''.leaseExpiresAt ≠ none) (hattempts : row''.attemptCount = row'.attemptCount)
    (hmax : row''.maxAttempts = row'.maxAttempts) : Held svc claimed job row'' db' := by
  obtain rfl := h.eq_of_owned howned hw.found
  obtain ⟨document, hdocument⟩ := Option.isSome_iff_exists.mp h.document
  have hafter := hw.document_after (h.documentId ▸ hdocument)
  refine ⟨howned.id ▸ hw.found_after, hstatus.trans h.processing, hclaimedBy.trans h.claimedBy, hlease,
    hw.documentId.trans h.documentId, hattempts.trans h.attemptCount, hmax.trans h.maxAttempts, ?_⟩
  rw [← h.documentId, hafter]
  rfl

/-- Writes elsewhere leave the job held. -/
theorem Held.of_same {row : IngestionJob} (h : Held svc claimed job row db)
    (hjob : db'.ingestionJobs.find? claimed.jobId = db.ingestionJobs.find? claimed.jobId)
    (hdocument : db'.documents.find? claimed.documentId = db.documents.find? claimed.documentId) :
    Held svc claimed job row db' :=
  ⟨hjob.trans h.found, h.processing, h.claimedBy, h.leased, h.documentId, h.attemptCount, h.maxAttempts,
    by rw [hdocument]; exact h.document⟩

theorem Held.renewed {row : IngestionJob} (h : Held svc claimed job row db)
    (hrenew : svc.renewLease db claimed.jobId now = some db') : ∃ row', Held svc claimed job row' db' := by
  obtain ⟨row', howned, hw, _⟩ := renewLease_writes hrenew
  exact ⟨_, h.leaseWritten howned hw rfl rfl (Option.some_ne_none _) rfl rfl⟩

theorem Held.replaced {row : IngestionJob} {chunks : List DocumentChunk}
    (h : Held svc claimed job row db) (hok : svc.replaceChunks db claimed chunks now = .ok db') :
    ∃ row', Held svc claimed job row' db' := by
  obtain ⟨row', howned, hw, _⟩ := replaceChunks_writes hok
  exact ⟨_, h.leaseWritten howned hw rfl rfl (Option.some_ne_none _) rfl rfl⟩

theorem Held.completed {row : IngestionJob} (h : Held svc claimed job row db)
    (hok : svc.completeSuccess db claimed.jobId now = some db') : Released claimed db' Succeeded := by
  obtain ⟨row', howned, hw, _⟩ := completeSuccess_writes hok
  obtain rfl := h.eq_of_owned howned hw.found
  obtain ⟨document, hdocument⟩ := Option.isSome_iff_exists.mp h.document
  have hafter := hw.document_after (h.documentId ▸ hdocument)
  exact ⟨_, _, howned.id ▸ hw.found_after, h.documentId ▸ hafter, rfl, rfl, rfl, rfl, rfl⟩

theorem Held.failed {row : IngestionJob} (failure : Failure) (h : Held svc claimed job row db)
    (hlease : ∀ lease, row.leaseExpiresAt = some lease → now < lease) :
    Released claimed (svc.completeFailure db claimed.jobId failure now)
      (FailedWith svc job failure now) := by
  have howned := h.owned hlease
  obtain ⟨hfound, hrow⟩ := owned_of_some howned
  have hw := settle_writes failure now svc.retryDelay hfound
  obtain ⟨document, hdocument⟩ := Option.isSome_iff_exists.mp h.document
  have hafter := hw.document_after (h.documentId ▸ hdocument)
  have heq : svc.completeFailure db claimed.jobId failure now =
      (db.flushJob (settledJob row failure now svc.retryDelay)).flushDocumentStatus row.documentId
        (settledStatus row failure) := by
    rw [IngestionProcessingService.completeFailure, howned]
  rw [heq]
  refine ⟨_, _, hrow.id ▸ hw.found_after, by rw [← h.documentId]; exact hafter, ?_⟩
  unfold FailedWith settledStatus
  rw [← h.attemptCount, ← h.maxAttempts]
  by_cases hretry : failure.retryable = true ∧ row.attemptCount < row.maxAttempts
  · rw [settledJob_retry hretry, if_pos hretry, if_pos hretry]
    exact ⟨rfl, rfl, rfl, rfl, rfl, rfl⟩
  · rw [settledJob_fail hretry, if_neg hretry, if_neg hretry]
    exact ⟨rfl, rfl, rfl, rfl, rfl⟩

/-- Nobody owns a released job. -/
theorem Released.not_owned {P : IngestionJob → Document → Prop} (h : Released claimed db P) :
    getOwnedProcessingInternal db claimed.jobId svc.workerId.value now = none := by
  obtain ⟨row, _, hfound, _, hclaimedBy, _⟩ := h
  rw [Option.eq_none_iff_forall_ne_some]
  intro row' hrow'
  obtain ⟨hfound', _, hclaimedBy', _⟩ := getOwnedProcessingInternal_some.mp hrow'
  obtain rfl := Option.some.inj (hfound.symm.trans hfound')
  rw [hclaimedBy] at hclaimedBy'
  cases hclaimedBy'

end Rows

/-- A handler has been reached, or the call has ended. -/
def AwaitPoint.Late : AwaitPoint → Prop
  | .stopping (.handler _) | .completingFailure _ _ _ | .returned | .raised _ => True
  | _ => False

/-- The clock value of the transaction under way. -/
def AwaitPoint.reading : AwaitPoint → Option Time
  | .replacingChunks _ now | .completingSuccess now | .completingFailure _ _ now => some now
  | _ => none

namespace ProcessTask

/-- The stages that have ended well are those before the operation of `_with_lease`, and its result
is the statement after it. -/
def WorkOrdered (task : ProcessTask) : Prop :=
  match task.work with
  | .running operation _ => task.finished = (Statement.withLease operation).earlier
  | .done operation outcome => task.finished = (Statement.withLease operation).earlier ∧
      ∀ statement, outcome = .ok statement → statement.earlier = operation.stage :: task.finished

/-- The stages end well in their order. -/
def Ordered (task : ProcessTask) : Prop :=
  match task.point with
  | .waiting | .joiningWork | .joiningLeaseLost => task.WorkOrdered
  | .gathering result => task.WorkOrdered ∧
      ∀ statement, result = .ok statement → ∃ operation, task.work = .done operation (.ok statement)
  | .replacingChunks _ _ => task.finished = [.parseAndChunk, .readSource]
  | .stopping .success | .completingSuccess _ => task.finished = Statement.completeSuccess.earlier
  | _ => True

/-- What is known of the exception that a handler deals with. -/
def Handling (task : ProcessTask) : Prop :=
  match task.point with
  | .gathering (.error raised) => raised ≠ .leaseLost
  | .stopping (.handler raised) =>
    task.throwing = false ∧ task.handled = some raised ∧ raised ≠ .leaseLost
  | .completingFailure raised failure _ =>
    task.throwing = false ∧ task.handled = some raised ∧ raised.failure? = some failure
  | .returned | .raised _ => task.succeeded = true ∨ task.failed ≠ none
  | _ => True

end ProcessTask

/-- The attempt in every state of a call whose lease holds: its stages so far, what it handles, and
the rows before and after its transition. -/
structure Attempted (svc : IngestionProcessingService) (claimed : ClaimedDocument) (job : IngestionJob)
    (task : ProcessTask) : Prop where
  lost : task.lost = none
  ordered : task.Ordered
  handling : task.Handling
  raises : ∀ operation raised, task.work = .done operation (.error raised) → raised ≠ .leaseLost
  held : task.succeeded = false → task.failed = none → ∃ row, Held svc claimed job row task.db
  succeeded : task.succeeded = true → task.point.Late ∧ task.failed = none ∧
    Released claimed task.db Succeeded ∧ Statement.completeSuccess.earlier <:+ task.finished
  failed : ∀ failure now, task.failed = some (failure, now) → task.point.Ended ∧
    Released claimed task.db (FailedWith svc job failure now) ∧
      ∃ raised, task.handled = some raised ∧ raised.failure? = some failure

/-- What is asked of the steps around an attempt: the heartbeat reports no loss, the lease is there when
a transaction needs it, nobody else writes the rows of the attempt, and the failure transition neither
fails nor is cancelled. -/
def Provided (svc : IngestionProcessingService) (claimed : ClaimedDocument) (task : ProcessTask) :
    ProcessAction → Prop
  | .cancel => ∀ raised failure now, task.point ≠ .completingFailure raised failure now
  | .transact _ => LeaseHolds
  | .interrupt committed _ => committed = true → LeaseHolds
  | .failTransaction _ committed _ =>
    (∀ raised failure now, task.point ≠ .completingFailure raised failure now) ∧
      (committed = true → LeaseHolds)
  | .renew => ∀ now stopping, task.heartbeat = .renewing now stopping →
      svc.renewLease task.db claimed.jobId now ≠ none
  | .failRenewal _ => False
  | .change db => db.ingestionJobs.find? claimed.jobId = task.db.ingestionJobs.find? claimed.jobId ∧
      db.documents.find? claimed.documentId = task.db.documents.find? claimed.documentId
  | _ => True
where
  /-- The lease of the job has not expired at the reading of the transaction under way. -/
  LeaseHolds : Prop := ∀ now row lease, task.point.reading = some now →
    task.db.ingestionJobs.find? claimed.jobId = some row → row.leaseExpiresAt = some lease → now < lease

/-- A handler awaits a heartbeat that has ended: it has not gone on to its failure transition, and
there is no task left to take a cancellation in its place. -/
def ProcessTask.Exposed (task : ProcessTask) : Prop :=
  task.heartbeat = .done ∧ ∃ raised, task.point = .stopping (.handler raised)

/-- No cancellation comes between the end of the heartbeat and the failure transition. -/
def SparesHandlers (task : ProcessTask) : ProcessAction → Prop
  | .cancel => ¬task.Exposed
  | _ => True

section Steps
variable {sha256 : Sha256} {uuid5 : UUID → Str → UUID} {svc : IngestionProcessingService}
  {claimed : ClaimedDocument} {job : IngestionJob} {task next : ProcessTask} {now : Time}

theorem WorkTask.cancel_eq_done {work : WorkTask} {operation : Operation}
    {outcome : Except Raised Statement} :
    work.cancel = .done operation outcome ↔ work = .done operation outcome := by
  cases work with
  | running operation' cancelling => exact iff_of_false nofun nofun
  | done operation' outcome' => exact Iff.rfl

theorem ProcessTask.workOrdered_cancel {work : WorkTask} (h : task.WorkOrdered)
    (hwork : work = task.work ∨ work = task.work.cancel) :
    ({ task with work } : ProcessTask).WorkOrdered := by
  rcases hwork with rfl | rfl
  · exact h
  · unfold ProcessTask.WorkOrdered at h ⊢
    cases hw : task.work with
    | running operation cancelling =>
      rw [hw] at h
      exact h
    | done operation outcome =>
      rw [hw] at h
      exact h

/-- Nothing has been committed as long as no handler is reached. -/
theorem Attempted.early (h : Attempted svc claimed job task) (hpoint : ¬task.point.Late) :
    task.succeeded = false ∧ task.failed = none ∧ ∃ row, Held svc claimed job row task.db := by
  have hsucceeded : task.succeeded = false := by
    rw [← Bool.not_eq_true]
    exact fun hs => hpoint (h.succeeded hs).1
  have hfailed : task.failed = none := by
    rw [Option.eq_none_iff_forall_ne_some]
    rintro ⟨failure, now⟩ hsome
    apply hpoint
    have hended := (h.failed failure now hsome).1
    cases hp : task.point <;> rw [hp] at hended <;> first | exact hended.elim | trivial
  exact ⟨hsucceeded, hfailed, h.held hsucceeded hfailed⟩

/-- What the continuations of a call need of the rows: nothing is committed yet, or the success. -/
structure Settleable (svc : IngestionProcessingService) (claimed : ClaimedDocument) (job : IngestionJob)
    (task : ProcessTask) : Prop where
  lost : task.lost = none
  raises : ∀ operation raised, task.work = .done operation (.error raised) → raised ≠ .leaseLost
  failed : task.failed = none
  held : task.succeeded = false → ∃ row, Held svc claimed job row task.db
  succeeded : task.succeeded = true → Released claimed task.db Succeeded ∧
    Statement.completeSuccess.earlier <:+ task.finished

theorem Attempted.settleable (h : Attempted svc claimed job task) (hpoint : ¬task.point.Ended) :
    Settleable svc claimed job task := by
  have hfailed : task.failed = none := by
    rw [Option.eq_none_iff_forall_ne_some]
    rintro ⟨failure, now⟩ hsome
    exact hpoint (h.failed failure now hsome).1
  exact ⟨h.lost, h.raises, hfailed, fun hs => h.held hs hfailed, fun hs => (h.succeeded hs).2.2⟩

/-- Before the handlers nothing is committed. -/
theorem Attempted.unsettled {point : AwaitPoint} (h : Attempted svc claimed job task)
    (hp : task.point = point) (hpoint : ¬point.Late ∧ ¬point.Ended) :
    Settleable svc claimed job task ∧ task.succeeded = false := by
  subst hp
  exact ⟨h.settleable hpoint.2, (h.early hpoint.1).1⟩

/-- A point at which no handler has been reached. -/
theorem Settleable.attempted (h : Settleable svc claimed job task) (hsucceeded : task.succeeded = false)
    (hordered : task.Ordered) (hhandling : task.Handling) : Attempted svc claimed job task where
  lost := h.lost
  ordered := hordered
  handling := hhandling
  raises := h.raises
  held hs _ := h.held hs
  succeeded hs := by
    rw [hsucceeded] at hs
    cases hs
  failed failure now hsome := by
    rw [h.failed] at hsome
    cases hsome

/-- A point of a handler, where the success may have been committed. -/
theorem Settleable.attempted_late (h : Settleable svc claimed job task) (hlate : task.point.Late)
    (hordered : task.Ordered) (hhandling : task.Handling) : Attempted svc claimed job task where
  lost := h.lost
  ordered := hordered
  handling := hhandling
  raises := h.raises
  held hs _ := h.held hs
  succeeded hs := ⟨hlate, h.failed, h.succeeded hs⟩
  failed failure now hsome := by
    rw [h.failed] at hsome
    cases hsome

theorem Settleable.settle {raised : Raised} (h : Settleable svc claimed job task)
    (hraised : raised ≠ .leaseLost) (hhandled : task.handled = some raised) :
    Attempted svc claimed job (task.settle raised now) := by
  unfold ProcessTask.settle
  split
  · rename_i hnone
    cases raised with
    | leaseLost => exact absurd rfl hraised
    | _ => cases hnone
  · rename_i failure hfailure
    exact Settleable.attempted_late ⟨h.lost, h.raises, h.failed, h.held, h.succeeded⟩ trivial trivial
      ⟨rfl, hhandled, hfailure⟩

theorem Settleable.handle {raised : Raised} (h : Settleable svc claimed job task)
    (hraised : raised ≠ .leaseLost) : Attempted svc claimed job (task.handle raised now) := by
  unfold ProcessTask.handle
  split
  · exact Settleable.settle ⟨h.lost, h.raises, h.failed, h.held, h.succeeded⟩ hraised rfl
  · exact Settleable.attempted_late ⟨h.lost, h.raises, h.failed, h.held, h.succeeded⟩ trivial trivial
      ⟨rfl, rfl, hraised⟩

theorem Settleable.gather {result : Except Raised Statement} (h : Settleable svc claimed job task)
    (hsucceeded : task.succeeded = false) (hordered : task.WorkOrdered)
    (hresult : ∀ statement, result = .ok statement →
      ∃ operation, task.work = .done operation (.ok statement))
    (hraises : ∀ raised, result = .error raised → raised ≠ .leaseLost) :
    Attempted svc claimed job (task.gather result) := by
  have hgathered : Settleable svc claimed job (task.gather result) :=
    ⟨h.lost, fun operation raised hwork => h.raises operation raised (WorkTask.cancel_eq_done.mp hwork),
      h.failed, h.held, h.succeeded⟩
  refine hgathered.attempted hsucceeded
    ⟨ProcessTask.workOrdered_cancel hordered (.inr rfl), fun statement hok => ?_⟩ ?_
  · obtain ⟨operation, hwork⟩ := hresult statement hok
    exact ⟨operation, WorkTask.cancel_eq_done.mpr hwork⟩
  · cases result with
    | ok statement => trivial
    | error raised => exact hraises raised rfl

theorem Settleable.withLease {operation : Operation} (h : Settleable svc claimed job task)
    (hsucceeded : task.succeeded = false)
    (hfinished : task.finished = (Statement.withLease operation).earlier) :
    Attempted svc claimed job (task.withLease operation) := by
  unfold ProcessTask.withLease
  split
  · rename_i hlost
    rw [h.lost] at hlost
    cases hlost
  · exact Settleable.attempted ⟨h.lost, nofun, h.failed, h.held, h.succeeded⟩ hsucceeded hfinished
      trivial

theorem Settleable.completeOwned (h : Settleable svc claimed job task)
    (hsucceeded : task.succeeded = false)
    (hfinished : task.finished = Statement.completeSuccess.earlier) :
    Attempted svc claimed job (task.completeOwned now) := by
  unfold ProcessTask.completeOwned
  split
  · rename_i hlost
    rw [h.lost] at hlost
    cases hlost
  · exact Settleable.attempted ⟨h.lost, h.raises, h.failed, h.held, h.succeeded⟩ hsucceeded hfinished
      trivial

theorem Settleable.begin {statement : Statement} (h : Settleable svc claimed job task)
    (hsucceeded : task.succeeded = false) (hfinished : task.finished = statement.earlier) :
    Attempted svc claimed job (task.begin now statement) := by
  cases statement with
  | withLease operation => exact h.withLease hsucceeded hfinished
  | replaceChunks chunks =>
    exact Settleable.attempted ⟨h.lost, h.raises, h.failed, h.held, h.succeeded⟩ hsucceeded hfinished
      trivial
  | completeSuccess =>
    unfold ProcessTask.begin
    dsimp only
    split
    · exact h.completeOwned hsucceeded hfinished
    · exact Settleable.attempted ⟨h.lost, h.raises, h.failed, h.held, h.succeeded⟩ hsucceeded hfinished
        trivial

/-- A transaction of the `try` block that commits leaves the call where it was. -/
theorem Attempted.commits {written : ProcessTask} (h : Attempted svc claimed job task)
    (hpoint : ∀ raised failure now, task.point ≠ .completingFailure raised failure now)
    (hcommit : task.commit uuid5 svc claimed = some (.ok written)) :
    Settleable svc claimed job written ∧ written.point = task.point ∧
      written.finished = task.finished ∧
        (written.succeeded = true ↔ ∃ now, task.point = .completingSuccess now) := by
  unfold ProcessTask.commit at hcommit
  split at hcommit
  · rename_i chunks now hp
    have hlate : ¬task.point.Late := by rw [hp]; exact not_false
    obtain ⟨hsucceeded, hfailed, row, hheld⟩ := h.early hlate
    cases hreplace : svc.replaceChunks task.db claimed (durableChunks uuid5 claimed chunks) now with
    | error raised =>
      rw [hreplace] at hcommit
      cases hcommit
    | ok db =>
      rw [hreplace] at hcommit
      obtain rfl := Except.ok.inj (Option.some.inj hcommit)
      refine ⟨⟨h.lost, h.raises, hfailed, fun _ => hheld.replaced hreplace, fun hs => ?_⟩, rfl, rfl, ?_⟩
      · rw [hsucceeded] at hs
        cases hs
      · rw [hp]
        exact iff_of_false (by rw [hsucceeded]; exact Bool.false_ne_true) nofun
  · rename_i now hp
    have hlate : ¬task.point.Late := by rw [hp]; exact not_false
    obtain ⟨_, hfailed, row, hheld⟩ := h.early hlate
    have hfinished := h.ordered
    rw [ProcessTask.Ordered, hp] at hfinished
    cases hsuccess : svc.completeSuccess task.db claimed.jobId now with
    | none =>
      rw [hsuccess] at hcommit
      cases Option.some.inj hcommit
    | some db =>
      rw [hsuccess] at hcommit
      obtain rfl := Except.ok.inj (Option.some.inj hcommit)
      refine ⟨⟨h.lost, h.raises, hfailed, nofun, fun _ => ⟨hheld.completed hsuccess, ?_⟩⟩, rfl, rfl, ?_⟩
      · exact ⟨[], hfinished.symm⟩
      · exact iff_of_true rfl ⟨now, hp⟩
  · rename_i hp
    exact absurd hp (hpoint _ _ _)
  · cases hcommit

/-- With its lease a transaction of the `try` block finds the job its own. -/
theorem Attempted.refused {raised : Raised} (h : Attempted svc claimed job task)
    (hlease : Provided.LeaseHolds claimed task)
    (hcommit : task.commit uuid5 svc claimed = some (.error raised)) :
    raised ≠ .leaseLost ∧ ¬task.point.Ended := by
  unfold ProcessTask.commit at hcommit
  split at hcommit
  · rename_i chunks now hp
    have hlate : ¬task.point.Late := by rw [hp]; exact not_false
    obtain ⟨_, _, row, hheld⟩ := h.early hlate
    have howned := hheld.owned fun lease => hlease now row lease (by rw [hp]; rfl) hheld.found
    refine ⟨?_, by rw [hp]; exact not_false⟩
    unfold IngestionProcessingService.replaceChunks at hcommit
    rw [howned] at hcommit
    dsimp only at hcommit
    split at hcommit
    · cases hcommit
      exact nofun
    · cases hcommit
      exact nofun
    · cases hcommit
  · rename_i now hp
    have hlate : ¬task.point.Late := by rw [hp]; exact not_false
    obtain ⟨_, _, row, hheld⟩ := h.early hlate
    have howned := hheld.owned fun lease => hlease now row lease (by rw [hp]; rfl) hheld.found
    unfold IngestionProcessingService.completeSuccess at hcommit
    rw [howned] at hcommit
    cases hcommit
  · cases hcommit
  · cases hcommit

theorem ProcessTask.commit_failure {written : ProcessTask} {raised : Raised} {failure : Failure}
    {now : Time} (hp : task.point = .completingFailure raised failure now)
    (hcommit : task.commit uuid5 svc claimed = some (.ok written)) :
    task.failureWritten svc claimed failure now = written := by
  unfold ProcessTask.commit at hcommit
  split at hcommit
  · rename_i hp'
    rw [hp] at hp'
    cases hp'
  · rename_i hp'
    rw [hp] at hp'
    cases hp'
  · rename_i hp'
    rw [hp] at hp'
    cases hp'
    exact Except.ok.inj (Option.some.inj hcommit)
  · cases hcommit

/-- After its failure transition the call has ended. -/
theorem ProcessTask.proceed_ends {raised : Raised} {failure : Failure} {now : Time}
    (hp : task.point = .completingFailure raised failure now) :
    ∃ point, task.proceed uuid5 claimed = { task with point } ∧ point.Ended := by
  unfold ProcessTask.proceed
  rw [hp]
  cases raised with
  | expected error => exact ⟨.returned, rfl, trivial⟩
  | _ => exact ⟨.raised _, rfl, trivial⟩

theorem AwaitPoint.Ended.late {point : AwaitPoint} (h : point.Ended) : point.Late := by
  cases point with
  | returned => trivial
  | raised raised => trivial
  | _ => exact h.elim

/-- The points of a call that has ended say nothing of its stages. -/
theorem ProcessTask.ended_facts (hended : task.point.Ended)
    (h : task.succeeded = true ∨ task.failed ≠ none) : task.Ordered ∧ task.Handling := by
  unfold ProcessTask.Ordered ProcessTask.Handling
  cases hp : task.point with
  | returned => exact ⟨trivial, h⟩
  | raised raised => exact ⟨trivial, h⟩
  | _ =>
    rw [hp] at hended
    exact hended.elim

/-- The failure transition of a handler settles the attempt, unless its success was committed. -/
theorem Attempted.fails {written : ProcessTask} {raised : Raised} {failure : Failure} {now : Time}
    (h : Attempted svc claimed job task) (hp : task.point = .completingFailure raised failure now)
    (hlease : Provided.LeaseHolds claimed task)
    (hcommit : task.commit uuid5 svc claimed = some (.ok written)) :
    Attempted svc claimed job (written.proceed uuid5 claimed) := by
  have hsettleable := h.settleable (by rw [hp]; exact not_false)
  have hhandling := h.handling
  rw [ProcessTask.Handling, hp] at hhandling
  obtain ⟨_, hhandled, hfailure⟩ := hhandling
  obtain rfl := ProcessTask.commit_failure hp hcommit
  have hends : ∃ point, (task.failureWritten svc claimed failure now).proceed uuid5 claimed =
      { task.failureWritten svc claimed failure now with point } ∧ point.Ended :=
    ProcessTask.proceed_ends hp
  obtain ⟨point, hproceed, hended⟩ := hends
  rw [hproceed]
  by_cases hsucceeded : task.succeeded = true
  · obtain ⟨hreleased, hsuffix⟩ := hsettleable.succeeded hsucceeded
    have hsame : task.failureWritten svc claimed failure now = task := by
      unfold ProcessTask.failureWritten IngestionProcessingService.completeFailure
      rw [hreleased.not_owned]
    rw [hsame]
    have hfacts : ({ task with point } : ProcessTask).Ordered ∧ ({ task with point } : ProcessTask).Handling :=
      ProcessTask.ended_facts hended (.inl hsucceeded)
    exact Settleable.attempted_late ⟨h.lost, h.raises, hsettleable.failed, hsettleable.held,
      hsettleable.succeeded⟩ hended.late hfacts.1 hfacts.2
  · rw [Bool.not_eq_true] at hsucceeded
    obtain ⟨row, hheld⟩ := hsettleable.held hsucceeded
    have hholds : ∀ lease, row.leaseExpiresAt = some lease → now < lease :=
      fun lease => hlease now row lease (by rw [hp]; rfl) hheld.found
    have hfailed : (task.failureWritten svc claimed failure now).failed = some (failure, now) := by
      unfold ProcessTask.failureWritten
      rw [hheld.owned hholds]
    generalize hafter : task.failureWritten svc claimed failure now = after
    have hfacts : ({ after with point } : ProcessTask).Ordered ∧ ({ after with point } : ProcessTask).Handling :=
      ProcessTask.ended_facts hended (.inr (by rw [← hafter, hfailed]; exact Option.some_ne_none _))
    subst hafter
    refine ⟨h.lost, hfacts.1, hfacts.2, h.raises, fun _ hnone => ?_, fun hs => ?_,
      fun failure' now' hsome => ?_⟩
    · rw [hfailed] at hnone
      cases hnone
    · exact absurd hs (Bool.not_eq_true _ ▸ hsucceeded)
    · rw [hfailed] at hsome
      obtain ⟨rfl, rfl⟩ := Prod.mk.inj (Option.some.inj hsome)
      exact ⟨hended, hheld.failed _ hholds, raised, hhandled, hfailure⟩

/-- A step beside the course of the call: the same point, stages and transitions. -/
structure Beside (task next : ProcessTask) : Prop where
  lost : next.lost = task.lost
  point : next.point = task.point
  finished : next.finished = task.finished
  succeeded : next.succeeded = task.succeeded
  handled : next.handled = task.handled
  failed : next.failed = task.failed

/-- What such a step may do to the operation, the rows, and a call in no handler. -/
theorem Attempted.beside (h : Attempted svc claimed job task) (hbeside : Beside task next)
    (hthrowing : next.throwing = task.throwing ∨ ¬task.point.Late)
    (hordered : task.WorkOrdered → next.WorkOrdered)
    (hdone : ∀ operation statement, task.work = .done operation (.ok statement) →
      next.work = .done operation (.ok statement))
    (hraises : ∀ operation raised, next.work = .done operation (.error raised) → raised ≠ .leaseLost)
    (hheld : ∀ row, Held svc claimed job row task.db → ∃ row', Held svc claimed job row' next.db)
    (hreleased : ∀ P, Released claimed task.db P → Released claimed next.db P) :
    Attempted svc claimed job next := by
  refine ⟨hbeside.lost.trans h.lost, ?_, ?_, hraises, fun hs hf => ?_, fun hs => ?_, fun failure now hf => ?_⟩
  · have hold := h.ordered
    unfold ProcessTask.Ordered at hold ⊢
    rw [hbeside.point, hbeside.finished]
    cases hp : task.point with
    | waiting | joiningWork | joiningLeaseLost =>
      rw [hp] at hold
      exact hordered hold
    | gathering result =>
      rw [hp] at hold
      refine ⟨hordered hold.1, fun statement hok => ?_⟩
      obtain ⟨operation, hwork⟩ := hold.2 statement hok
      exact ⟨operation, hdone operation statement hwork⟩
    | stopping caller =>
      rw [hp] at hold
      cases caller <;> exact hold
    | _ =>
      rw [hp] at hold
      exact hold
  · have hold := h.handling
    unfold ProcessTask.Handling at hold ⊢
    rw [hbeside.point, hbeside.handled, hbeside.succeeded, hbeside.failed]
    rcases hthrowing with hthrowing | hlate
    · rw [hthrowing]
      exact hold
    · cases hp : task.point with
      | stopping caller =>
        rw [hp] at hlate hold
        cases caller with
        | success => trivial
        | handler raised => exact absurd trivial hlate
      | completingFailure raised failure now =>
        rw [hp] at hlate
        exact absurd trivial hlate
      | gathering result =>
        rw [hp] at hold
        cases result <;> exact hold
      | _ =>
        rw [hp] at hold
        exact hold
  · obtain ⟨row, hrow⟩ := h.held (hbeside.succeeded ▸ hs) (hbeside.failed ▸ hf)
    exact hheld row hrow
  · obtain ⟨hlate, hnone, hrows, hsuffix⟩ := h.succeeded (hbeside.succeeded ▸ hs)
    exact ⟨hbeside.point ▸ hlate, hbeside.failed.trans hnone, hreleased _ hrows, hbeside.finished ▸ hsuffix⟩
  · obtain ⟨hended, hrows, raised, hhandled, hfailure⟩ := h.failed failure now (hbeside.failed ▸ hf)
    exact ⟨hbeside.point ▸ hended, hreleased _ hrows, raised, hbeside.handled.trans hhandled, hfailure⟩

/-- A cancellation cancels a task, or makes a call in no handler go on with `CancelledError`. -/
theorem Attempted.cancelled (h : Attempted svc claimed job task)
    (ha : Provided svc claimed task .cancel) (hexposed : ¬task.Exposed)
    (hcancel : task.cancel = some next) : Attempted svc claimed job next := by
  have hsame : ∀ work throwing leaseLost heartbeat, (work = task.work ∨ work = task.work.cancel) →
      (throwing = task.throwing ∨ ¬task.point.Late) →
      Attempted svc claimed job { task with work, throwing, leaseLost, heartbeat } := by
    intro work throwing leaseLost heartbeat hwork hthrowing
    have hiff : ∀ operation outcome, work = .done operation outcome ↔ task.work = .done operation outcome := by
      intro operation outcome
      rcases hwork with rfl | rfl
      · exact Iff.rfl
      · exact WorkTask.cancel_eq_done
    exact h.beside ⟨rfl, rfl, rfl, rfl, rfl, rfl⟩ hthrowing
      (fun hordered => ProcessTask.workOrdered_cancel hordered hwork)
      (fun operation statement hdone => (hiff _ _).mpr hdone)
      (fun operation raised hdone => h.raises operation raised ((hiff _ _).mp hdone))
      (fun row hrow => ⟨row, hrow⟩) fun P hP => hP
  obtain ⟨work, throwing, leaseLost, heartbeat, rfl, hwork, _, _, hthrowing⟩ := cancel_spec hcancel
  refine hsame work throwing leaseLost heartbeat hwork ?_
  rcases hthrowing with ⟨_, hthrowing⟩ | ⟨_, hpoint⟩
  · exact .inl hthrowing
  refine .inr fun hlate => ?_
  rcases hpoint with hp | hp | habsorbs
  · rw [hp] at hlate
    exact hlate
  · rw [hp] at hlate
    exact hlate
  · unfold ProcessTask.cancel at hcancel
    unfold ProcessTask.Absorbs at habsorbs
    cases hp : task.point with
    | stopping caller =>
      rw [hp] at hlate habsorbs
      cases caller with
      | success => exact hlate
      | handler raised =>
        cases hheartbeat : task.heartbeat with
        | done => exact hexposed ⟨hheartbeat, raised, hp⟩
        | _ =>
          rw [hheartbeat] at habsorbs
          exact habsorbs trivial
    | completingFailure raised failure now => exact ha raised failure now hp
    | returned =>
      rw [hp] at hcancel
      cases hcancel
    | raised raised =>
      rw [hp] at hcancel
      cases hcancel
    | _ =>
      rw [hp] at hlate
      exact hlate

theorem ProcessTask.not_ended_of_commit (h : (task.commit uuid5 svc claimed).isSome) :
    ¬task.point.Ended := by
  intro hended
  unfold ProcessTask.commit at h
  cases hp : task.point with
  | returned | raised =>
    rw [hp] at h
    cases h
  | _ =>
    rw [hp] at hended
    exact hended

/-- A transaction of the `try` block that reports an exception, whether it was committed or not. -/
theorem Attempted.interrupted {committed : Bool} {written : ProcessTask} {raised : Raised}
    (h : Attempted svc claimed job task)
    (hpoint : ∀ raised failure now, task.point ≠ .completingFailure raised failure now)
    (hwritten : Written uuid5 svc claimed task committed written) (hraised : raised ≠ .leaseLost) :
    Attempted svc claimed job (written.fail raised now) := by
  rcases hwritten with ⟨_, rfl, hcommit⟩ | ⟨_, hcommit⟩
  · rw [ProcessTask.fail_eq_handle hpoint]
    exact (h.settleable (ProcessTask.not_ended_of_commit hcommit)).handle hraised
  · obtain ⟨hsettleable, hsame, _⟩ := h.commits hpoint hcommit
    rw [ProcessTask.fail_eq_handle (by rw [hsame]; exact hpoint)]
    exact hsettleable.handle hraised

/-- The call after a transaction that committed. -/
theorem Attempted.committed {written : ProcessTask} (h : Attempted svc claimed job task)
    (hlease : Provided.LeaseHolds claimed task)
    (hcommit : task.commit uuid5 svc claimed = some (.ok written)) :
    Attempted svc claimed job (written.proceed uuid5 claimed) := by
  cases hp : task.point with
  | completingFailure raised failure now => exact h.fails hp hlease hcommit
  | replacingChunks chunks now =>
    obtain ⟨hsettleable, hsame, hfinished, hiff⟩ := h.commits (by rw [hp]; exact nofun) hcommit
    have hordered := h.ordered
    rw [ProcessTask.Ordered, hp] at hordered
    rw [hp] at hsame
    unfold ProcessTask.proceed
    rw [hsame]
    have hearly : written.succeeded = false := by
      rw [← Bool.not_eq_true, hiff, hp]
      exact nofun
    refine Settleable.withLease ⟨hsettleable.lost, hsettleable.raises, hsettleable.failed,
      hsettleable.held, fun hs => absurd hs (Bool.not_eq_true _ ▸ hearly)⟩ hearly ?_
    show _ :: written.finished = _
    rw [hfinished, hordered]
    rfl
  | completingSuccess now =>
    obtain ⟨hsettleable, hsame, _, hiff⟩ := h.commits (by rw [hp]; exact nofun) hcommit
    rw [hp] at hsame
    unfold ProcessTask.proceed
    rw [hsame]
    have hsucceeded : written.succeeded = true := hiff.mpr ⟨now, hp⟩
    obtain ⟨hrows, hsuffix⟩ := hsettleable.succeeded hsucceeded
    refine Settleable.attempted_late ⟨hsettleable.lost, hsettleable.raises, hsettleable.failed,
      hsettleable.held, fun _ => ⟨hrows, hsuffix.trans (List.suffix_cons _ _)⟩⟩ trivial trivial
      (.inl hsucceeded)
  | _ =>
    unfold ProcessTask.commit at hcommit
    rw [hp] at hcommit
    cases hcommit

/-- A step beside the course of the call that leaves the operation as it is. -/
theorem Attempted.unworked {db : Database} {leaseLost : LeaseLostTask} {heartbeat : HeartbeatTask}
    (h : Attempted svc claimed job task)
    (hheld : ∀ row, Held svc claimed job row task.db → ∃ row', Held svc claimed job row' db)
    (hreleased : ∀ P, Released claimed task.db P → Released claimed db P) :
    Attempted svc claimed job { task with db, leaseLost, heartbeat } :=
  h.beside ⟨rfl, rfl, rfl, rfl, rfl, rfl⟩ (.inl rfl) id (fun _ _ hdone => hdone) h.raises hheld hreleased

/-- The operation ends. -/
theorem Attempted.worked {operation : Operation} {cancelling : Bool}
    {outcome : Except Raised Statement} (h : Attempted svc claimed job task)
    (hwork : task.work = .running operation cancelling)
    (hearlier : ∀ statement, outcome = .ok statement →
      statement.earlier = operation.stage :: (Statement.withLease operation).earlier)
    (hraises : ∀ raised, outcome = .error raised → raised ≠ .leaseLost) :
    Attempted svc claimed job { task with work := .done operation outcome } := by
  refine h.beside ⟨rfl, rfl, rfl, rfl, rfl, rfl⟩ (.inl rfl) (fun hordered => ?_) (fun _ _ hdone => ?_)
    (fun _ raised hdone => ?_) (fun row hrow => ⟨row, hrow⟩) fun P hP => hP
  · unfold ProcessTask.WorkOrdered at hordered ⊢
    rw [hwork] at hordered
    dsimp only at hordered ⊢
    exact ⟨hordered, fun statement hok => hordered ▸ hearlier statement hok⟩
  · rw [hwork] at hdone
    cases hdone
  · obtain ⟨_, hsame⟩ := WorkTask.done.inj hdone
    exact hraises raised hsame

/-- What a step preserves that cancels no exposed handler. -/
theorem processStep_attempted {a : ProcessAction} (h : Attempted svc claimed job task)
    (ha : Provided svc claimed task a) (hspares : SparesHandlers task a)
    (hstep : (processing sha256 uuid5 svc claimed).step task a = some next) :
    Attempted svc claimed job next := by
  have hordered := h.ordered
  have hhandling := h.handling
  unfold ProcessTask.Ordered at hordered
  unfold ProcessTask.Handling at hhandling
  have hlost : ∀ lost, task.lost ≠ some lost := by
    rw [h.lost]
    exact nofun
  have hsame : ∀ row, Held svc claimed job row task.db → ∃ row', Held svc claimed job row' task.db :=
    fun row hrow => ⟨row, hrow⟩
  cases processStep_move hstep with
  | waitInterrupted hp hthrowing =>
    obtain ⟨hsettleable, hearly⟩ := h.unsettled hp ⟨not_false, not_false⟩
    rw [hp] at hordered
    exact hsettleable.gather hearly hordered nofun
      fun raised hraised => by cases hraised; exact nofun
  | lostDone _ _ hsome _ => exact absurd hsome (hlost _)
  | lostJoin _ _ hsome _ => exact absurd hsome (hlost _)
  | workJoined _ hsome _ _ => exact absurd hsome (hlost _)
  | leaseJoin hp hthrowing _ hwork =>
    obtain ⟨hsettleable, hearly⟩ := h.unsettled hp ⟨not_false, not_false⟩
    rw [hp] at hordered
    exact Settleable.attempted ⟨h.lost, h.raises, hsettleable.failed, hsettleable.held,
      hsettleable.succeeded⟩ hearly hordered trivial
  | @leaseJoined _ operation outcome hp hwork =>
    obtain ⟨hsettleable, hearly⟩ := h.unsettled hp ⟨not_false, not_false⟩
    rw [hp] at hordered
    rw [h.lost]
    refine hsettleable.gather hearly hordered (fun statement hok => ?_)
      fun raised hraised => ?_
    · cases outcome with
      | error raised => cases hok
      | ok statement' =>
        cases hok
        exact ⟨_, hwork⟩
    · cases outcome with
      | error raised' =>
        cases hraised
        exact h.raises _ _ hwork
      | ok statement' => cases hraised
  | @gathered _ operation outcome statement hp _ hwork =>
    obtain ⟨hsettleable, hearly⟩ := h.unsettled hp ⟨not_false, not_false⟩
    rw [hp] at hordered
    obtain ⟨hwork', operation', hdone⟩ := And.imp_right (fun hall => hall statement rfl) hordered
    unfold ProcessTask.WorkOrdered at hwork'
    rw [hdone] at hwork'
    rw [hwork] at hdone
    obtain ⟨rfl, rfl⟩ := WorkTask.done.inj hdone
    refine Settleable.begin ⟨h.lost, h.raises, hsettleable.failed, hsettleable.held, fun hs => ?_⟩ hearly
      (hwork'.2 statement rfl).symm
    exact absurd hs (Bool.not_eq_true _ ▸ hearly)
  | gatherInterrupted hp _ => exact (h.settleable (by rw [hp]; exact not_false)).handle nofun
  | gatherRaised hp _ =>
    rw [hp] at hhandling
    exact (h.settleable (by rw [hp]; exact not_false)).handle hhandling
  | stopped hp _ _ =>
    obtain ⟨hsettleable, hearly⟩ := h.unsettled hp ⟨not_false, not_false⟩
    rw [hp] at hordered
    exact hsettleable.completeOwned hearly hordered
  | stopInterrupted hp _ _ => exact (h.settleable (by rw [hp]; exact not_false)).handle nofun
  | handlerStopped hp _ _ =>
    rw [hp] at hhandling
    exact (h.settleable (by rw [hp]; exact not_false)).settle hhandling.2.2 hhandling.2.1
  | handlerInterrupted hp _ hthrowing =>
    rw [hp, hthrowing] at hhandling
    cases hhandling.1
  | cancelled hcancel => exact h.cancelled ha hspares hcancel
  | committed _ hcommit => exact h.committed ha hcommit
  | refused _ hcommit =>
    obtain ⟨hraised, hended⟩ := h.refused ha hcommit
    exact (h.settleable hended).handle hraised
  | interrupted hthrowing hwritten =>
    refine h.interrupted (fun raised failure now hp => ?_) hwritten nofun
    rw [hp, hthrowing] at hhandling
    cases hhandling.1
  | failed _ hraised hwritten =>
    refine h.interrupted ha.1 hwritten ?_
    rcases hraised with rfl | rfl <;> exact nofun
  | answered hwork houtcome =>
    refine h.worked hwork (fun statement hok => ?_) fun raised hraised => ?_
    · rw [hok] at houtcome
      exact Operation.outcome_earlier houtcome
    · exact (Operation.outcome_raises houtcome raised hraised).ne_leaseLost
  | workCancelled hwork => exact h.worked hwork nofun fun raised hraised => by cases hraised; exact nofun
  | leaseLostEnded _ => exact h.unworked hsame fun _ hrows => hrows
  | timedOut _ => exact h.unworked hsame fun _ hrows => hrows
  | renewed hheartbeat hrenew =>
    refine h.unworked (fun row hrow => hrow.renewed hrenew) fun P hrows => ?_
    unfold IngestionProcessingService.renewLease at hrenew
    rw [hrows.not_owned] at hrenew
    cases hrenew
  | renewalRefused hheartbeat hrenew => exact absurd hrenew (ha _ _ hheartbeat)
  | renewalFailed _ => exact ha.elim
  | heartbeatEnded => exact h.unworked hsame fun _ hrows => hrows
  | changed =>
    refine h.unworked (fun row hrow => ⟨row, hrow.of_same ha.1 ha.2⟩) fun P hrows => ?_
    unfold Released at hrows ⊢
    rw [ha.1, ha.2]
    exact hrows

theorem Attempted.init {db₀ db : Database} {locked : List UUID} {document : Document}
    (hclaim : svc.claimNext db₀ locked now = .ok (some (job, db)))
    (hdocument : db.documents.find? job.documentId = some document) :
    Attempted svc (claimedDocument job document) job (.init db) := by
  obtain ⟨old, _, rfl, hw, _⟩ := claimNext_writes hclaim
  have hid : document.id = old.documentId := Table.find?_key hdocument
  have hheld : Held svc (claimedDocument (old.claim svc.workerId.value now (now + svc.leaseDuration))
      document) (old.claim svc.workerId.value now (now + svc.leaseDuration))
      (old.claim svc.workerId.value now (now + svc.leaseDuration)) db := by
    refine ⟨hw.found_after, rfl, rfl, Option.some_ne_none _, hid.symm, rfl, rfl, ?_⟩
    show (db.documents.find? document.id).isSome
    rw [hid]
    exact Option.isSome_of_eq_some hdocument
  exact ⟨rfl, rfl, trivial, nofun, fun _ _ => ⟨_, hheld⟩, nofun, nofun⟩

/-- The job and the document once the attempt is settled: both are completed exactly if the success
transition committed, after every earlier stage, and otherwise they are as the failure transition
leaves them for the failure that the handler classified. -/
structure Settlement (svc : IngestionProcessingService) (job : IngestionJob) (task : ProcessTask)
    (row : IngestionJob) (document : Document) : Prop where
  found : task.db.ingestionJobs.find? job.id = some row
  documentFound : task.db.documents.find? job.documentId = some document
  claimedBy : row.claimedBy = none
  claimedAt : row.claimedAt = none
  leaseExpiresAt : row.leaseExpiresAt = none
  left : row.status ≠ .processing
  completed : row.status = .completed ∧ document.status = .completed ↔ task.succeeded = true
  stages : task.succeeded = true →
    [.replaceVectors, .embedChunks, .replaceChunks, .parseAndChunk, .readSource] <:+ task.finished
  failed : task.succeeded = false → ∃ raised failure settledAt, task.handled = some raised ∧
    raised.failure? = some failure ∧ task.failed = some (failure, settledAt) ∧
    FailedWith svc job failure settledAt row document

def Settled (svc : IngestionProcessingService) (job : IngestionJob) (task : ProcessTask) : Prop :=
  ∃ row document, Settlement svc job task row document

/-- A call that has ended with its attempt under way has settled it. -/
theorem Attempted.settled {document : Document} (h : Attempted svc (claimedDocument job document) job task)
    (hid : document.id = job.documentId) (hended : task.point.Ended) : Settled svc job task := by
  have hhandling := h.handling
  unfold ProcessTask.Handling at hhandling
  have hsettled : task.succeeded = true ∨ task.failed ≠ none := by
    cases hp : task.point with
    | returned | raised =>
      rw [hp] at hhandling
      exact hhandling
    | _ =>
      rw [hp] at hended
      exact hended.elim
  by_cases hsucceeded : task.succeeded = true
  · obtain ⟨_, _, ⟨row, document', hrow, hdocument', hclaimedBy, hclaimedAt, hlease, hstatus⟩, hsuffix⟩ :=
      h.succeeded hsucceeded
    refine ⟨row, document', hrow, hid ▸ hdocument', hclaimedBy, hclaimedAt, hlease, ?_,
      iff_of_true hstatus hsucceeded, fun _ => hsuffix, fun hs => ?_⟩
    · rw [hstatus.1]
      exact nofun
    · rw [hs] at hsucceeded
      cases hsucceeded
  · obtain ⟨⟨failure, settledAt⟩, hfailed⟩ :=
      Option.ne_none_iff_exists'.mp (hsettled.resolve_left hsucceeded)
    obtain ⟨_, ⟨row, document', hrow, hdocument', hclaimedBy, hclaimedAt, hlease, hwith⟩, raised,
      hhandled, hfailure⟩ := h.failed failure settledAt hfailed
    have hstatus : row.status ≠ .processing ∧ row.status ≠ .completed := hwith.status
    exact ⟨row, document', hrow, hid ▸ hdocument', hclaimedBy, hclaimedAt, hlease, hstatus.1,
      iff_of_false (fun hboth => hstatus.2 hboth.1) hsucceeded, fun hs => absurd hs hsucceeded,
      fun _ => ⟨raised, failure, settledAt, hhandled, hfailure, hfailed, hwith⟩⟩

end Steps

section Others
variable {s t : LifecycleState} {jobId : UUID} {row : IngestionJob}

/-- A transaction under another worker's name, or a recovery for whose clock the lease has not
run out. -/
def LifecycleAction.Spares (workerId : Str) (row : IngestionJob) : LifecycleAction → Prop
  | .renewLease svc _ _ | .replaceChunks svc _ _ _ | .completeSuccess svc _ _
  | .completeFailure svc _ _ _ => svc.workerId.value ≠ workerId
  | .recoverExpiredLeases _ _ _ now => ∀ lease, row.leaseExpiresAt = some lease → now < lease
  | .upload _ _ | .claimNext _ _ _ | .retryIngestionJob _ _ => True

/-- The rows of the attempt are as they were. -/
def SameRows (jobId : UUID) (row : IngestionJob) (db db' : Database) : Prop :=
  db'.ingestionJobs.find? jobId = db.ingestionJobs.find? jobId ∧
    db'.documents.find? row.documentId = db.documents.find? row.documentId

private theorem Consistent.spared {db' : Database} {old new : IngestionJob}
    {f : DocumentStatus → DocumentStatus} (h : Consistent s)
    (hrow : s.db.ingestionJobs.find? jobId = some row) (hw : Writes s.db db' old new f)
    (hother : old ≠ row) : SameRows jobId row s.db db' := by
  have hne : jobId ≠ old.id := by
    rintro rfl
    exact hother (Option.some.inj (hw.found.symm.trans hrow))
  refine ⟨by rw [hw.jobs, if_neg hne], ?_⟩
  have hdocument : row.documentId ≠ old.documentId :=
    fun he => hne (h.one_job _ _ _ _ hrow hw.found he)
  rw [hw.documents]
  simp only [if_neg hdocument, Option.map_id']

/-- While the lease of the attempt has not run out, and after its success, the other transactions
leave its rows alone. -/
theorem lifecycle_spares {workerId : Str} {a : LifecycleAction} (h : Consistent s)
    (hrow : s.db.ingestionJobs.find? jobId = some row)
    (hstatus : row.status = .processing ∧ row.claimedBy = some workerId ∨ row.status = .completed)
    (ha : a.Spares workerId row) (hstep : lifecycle.step s a = some t) :
    SameRows jobId row s.db t.db := by
  have hprocessing : row.status = .processing ∨ row.status = .completed := hstatus.imp_left And.left
  have howned : ∀ svc now old, svc.workerId.value ≠ workerId → Owned svc s.db old.id now old → old ≠ row := by
    rintro svc now _ hworker howned rfl
    rcases hstatus with ⟨_, hclaimedBy⟩ | hcompleted
    · exact hworker (Option.some.inj (howned.claimedBy.symm.trans hclaimedBy))
    · rw [howned.processing] at hcompleted
      cases hcompleted
  cases lifecycle_step_iff.mp hstep with
  | upload hok =>
    obtain ⟨rfl, _, hjobs, hdocument, hjob, _⟩ := insertUpload_ok hok
    have hkey : jobId ≠ _ := fun he => Option.some_ne_none _
      (hrow.symm.trans (he ▸ (Table.insert?_eq_some hjob).1))
    refine ⟨(Table.find?_insert? hjob _).trans (if_neg hkey), ?_⟩
    exact (Table.find?_insert? hdocument _).trans
      (if_neg (hjobs row (Table.mem_of_find? hrow)))
  | claimNext _ hok =>
    obtain ⟨old, hel, _, hw, _⟩ := claimNext_writes hok
    refine h.spared hrow hw ?_
    rintro rfl
    rw [(eligible_iff.mp hel).1] at hprocessing
    rcases hprocessing with hp | hp <;> cases hp
  | renewLease _ hok =>
    obtain ⟨old, hold, hw, _⟩ := renewLease_writes hok
    exact h.spared hrow hw (howned _ _ _ ha (hold.id ▸ hold))
  | replaceChunks _ hok =>
    obtain ⟨old, hold, hw, _⟩ := replaceChunks_writes hok
    exact h.spared hrow hw (howned _ _ _ ha (hold.id ▸ hold))
  | completeSuccess _ hok =>
    obtain ⟨old, hold, hw, _⟩ := completeSuccess_writes hok
    exact h.spared hrow hw (howned _ _ _ ha (hold.id ▸ hold))
  | completeFailure _ _ =>
    rcases completeFailure_writes _ s.db _ _ _ with heq | ⟨old, hold, hw, _⟩
    · exact ⟨congrArg (fun db => db.ingestionJobs.find? jobId) heq,
        congrArg (fun db => db.documents.find? row.documentId) heq⟩
    · exact h.spared hrow hw (howned _ _ _ ha (hold.id ▸ hold))
  | @recoverExpiredLeases _ _ _ now _ _ hok =>
    refine (recoverExpiredLeases_induction
      (P := fun db => Consistent { s with db } ∧ SameRows jobId row s.db db) hok
      (fun db db' old hP hexpired hw _ => ?_) ⟨h, rfl, rfl⟩).2
    obtain ⟨hp, lease, hlease, hle⟩ := leaseExpired_iff.mp hexpired
    refine ⟨Consistent.settled (s := { s with db }) hP.1 hp leaseExpired_message_length hw, ?_⟩
    have hstep : SameRows jobId row db db' := by
      refine Consistent.spared (s := { s with db }) hP.1 (hP.2.1.trans hrow) hw ?_
      rintro rfl
      exact absurd (ha lease hlease) (not_lt.mpr hle)
    exact ⟨hstep.1.trans hP.2.1, hstep.2.trans hP.2.2⟩
  | retryIngestionJob hok =>
    rcases retryIngestionJob_writes hok with heq | ⟨old, _, hfailed, hw, _⟩
    · rw [heq]
      exact ⟨rfl, rfl⟩
    · refine h.spared hrow hw ?_
      rintro rfl
      rw [hfailed] at hprocessing
      rcases hprocessing with hp | hp <;> cases hp

end Others

section Example

/-- The upload waits for its first attempt. -/
def queuedDatabase : Database := { exampleDatabase with
  documents := ⟨[exampleUpload], List.nodup_singleton _⟩
  ingestionJobs := ⟨[.new 5 2 0], List.nodup_singleton _⟩ }

/-- An operation of `_with_lease` from its answer to the next statement. -/
def leasedActions (answer : OperationAnswer) (now : Time) : List ProcessAction :=
  [.answer answer, .resume now, .endLeaseLost, .resume now, .resume now]

/-- Every stage ends well. -/
def completedActions : List ProcessAction :=
  leasedActions (.content (.ok [0x61])) 11 ++
    leasedActions (.parsed (.ok ⟨[⟨str "a", none, ParsedSection.unnumbered⟩]⟩)) 12 ++ .transact 13 ::
    leasedActions (.vectors (.ok (.list [.list [.float ⟨0⟩]]))) 14 ++
    leasedActions (.indexed (.ok ())) 15 ++ [.endHeartbeat, .resume 16, .transact 17]

end Example

end AgenticRag.Services

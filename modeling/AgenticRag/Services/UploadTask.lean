import AgenticRag.Lib.Machine
import AgenticRag.Services.UploadMachine

/-! `upload_document` calls as tasks, from one await point to the next: worker threads whose
effect may come after the task was cancelled, statements, and commits whose acknowledgement may
be lost. A call's files are its own, as no two calls generate one document id. -/
namespace AgenticRag.Services
open Lib Python Db Ingestion Security

section Tasks

/-- An exception on its way: of the storage, of the service, or the task's cancellation. -/
inductive Raising where
  | store (error : StoreError)
  | upload (error : UploadRaised)
  | cancelled
  deriving DecidableEq

/-- The handlers of `_store_upload`. -/
def Raising.outOfStore : Raising → Raising
  | .store e => .upload (.app e.exception)
  | .upload e => .upload e
  | .cancelled => .cancelled

/-- What `asyncio.to_thread` runs in a worker thread: the steps of `store`, the `unlink` of its
temporary file, and the `unlink` of `delete`. -/
inductive ThreadFunction where
  | mkdir | resolve | open | write (chunk : List UInt8) | flush | fsync | close | replace
  | unlink | delete
  deriving DecidableEq

/-- Whether a function waits for a thread, runs, or has ended, with or without an exception. -/
inductive ThreadStatus where
  | queued | running | finished (raised : Bool)
  deriving DecidableEq

/-- Where a call awaits a thread, and what it does afterwards. -/
inductive ThreadPoint where
  | mkdir | resolve | open | write (chunk : List UInt8) | flush | fsync
  | close (raising : Option Raising)
  | replace
  | unlink (raising : Raising)
  | deleteDuplicate (result : UploadResult)
  | deleteConflict
  | cleanup (raising : Raising)
  deriving DecidableEq

def ThreadPoint.function : ThreadPoint → ThreadFunction
  | .mkdir => .mkdir
  | .resolve => .resolve
  | .open => .open
  | .write chunk => .write chunk
  | .flush => .flush
  | .fsync => .fsync
  | .close _ => .close
  | .replace => .replace
  | .unlink _ => .unlink
  | .deleteDuplicate _ | .deleteConflict | .cleanup _ => .delete

/-- What a call awaits: its first transaction, a thread, a read of its source, a statement or
the COMMIT of its later transactions. -/
inductive TaskStage where
  | authorize
  | awaiting (point : ThreadPoint) (status : ThreadStatus)
  | read
  | select | digest | flush
  | commit (document : Document) (jobId : UUID)
  | commitDuplicate (result : UploadResult)
  | resolveSelect | resolveDigest
  | resolveCommit (result : Option UploadResult)
  | ended (outcome : Except Raising UploadResult)
  deriving DecidableEq

/-- A statement has locked the call's membership and knowledge base. -/
def TaskStage.inTransaction : TaskStage → Bool
  | .digest | .flush | .commit _ _ | .commitDuplicate _ => true
  | .awaiting (.deleteDuplicate _) _ => true
  | .resolveDigest | .resolveCommit _ => true
  | _ => false

/-- A call with its variables, its two files, and the threads that it no longer awaits.
`began` and `cancelled` say whether the transaction of `_persist_upload` began and whether the
task was cancelled, and `committed` is the Document row of the call once it is committed. -/
structure UploadTask where
  request : UploadRequest
  documentId : UUID
  extension : Str
  content : List UInt8
  prefixBytes : List UInt8
  reads : List (List UInt8)
  stage : TaskStage
  target : Option (List UInt8)
  temporary : Option (List UInt8)
  late : List ThreadFunction
  began : Bool
  cancelled : Bool
  committed : Option Document

def UploadTask.key (task : UploadTask) : Str :=
  storageKey task.request.knowledgeBaseId task.documentId task.extension

/-- What `store` reports of a published file. -/
def UploadTask.stored (sha256 : Sha256) (task : UploadTask) : StoredFile :=
  ⟨task.key, task.content.length, hexdigest sha256 task.content, task.prefixBytes⟩

namespace UploadTask

/-- `upload_document` up to its first await. -/
def begin (request : UploadRequest) (documentId : UUID) : UploadTask :=
  let task (extension : Str) (stage : TaskStage) : UploadTask :=
    ⟨request, documentId, extension, [], [], request.source, stage, none, none, [], false, false, none⟩
  match validateUploadMetadata request.filename request.mediaType with
  | .ok extension => task extension .authorize
  | .error e => task [] (.ended (.error (.upload (.app e))))

def goto (task : UploadTask) (stage : TaskStage) : UploadTask := { task with stage }

/-- `await asyncio.to_thread(...)`. -/
def toThread (task : UploadTask) (point : ThreadPoint) : UploadTask :=
  task.goto (.awaiting point .queued)

/-- The `finally` of `upload_document`. -/
def cleanup (task : UploadTask) (raising : Raising) : UploadTask := task.toThread (.cleanup raising)

def raised (task : UploadTask) (raising : Raising) : UploadTask := task.goto (.ended (.error raising))

end UploadTask

/-- The effect of a function that does not fail by itself; `none` when it raises. Writing to a
file whose name is gone is without effect on the names. -/
def ThreadFunction.land (task : UploadTask) : ThreadFunction → Option UploadTask
  | .open => if task.temporary.isSome then none else some { task with temporary := some [] }
  | .write chunk => some { task with temporary := task.temporary.map (· ++ chunk) }
  | .replace => task.temporary.map fun content =>
    { task with target := some content, temporary := none }
  | .unlink => some { task with temporary := none }
  | .delete => some { task with target := none }
  | .mkdir | .resolve | .flush | .fsync | .close => some task

end Tasks

section Steps
variable (sha256 : Sha256) (maxUploadSizeBytes : Nat)

/-- The rest of the lookup in `_persist_upload` once its caller is authorized. -/
def lookupDuplicate (db : Database) (knowledgeBaseId : UUID) (digest : Str) (userId : UUID) :
    Except AppException (Option UploadResult) :=
  match getByDigestForUser db knowledgeBaseId digest userId with
  | none => .ok none
  | some (existing, job, role) => do
    requireCapability (some role) .documentUpload
    match job with
    | none => .error (.conflict "Existing document has no ingestion job.")
    | some job => .ok (some ⟨existing, job, true⟩)

/-- The rest of the lookup in `_resolve_concurrent_duplicate`, up to its COMMIT. -/
def lookupConcurrent (db : Database) (knowledgeBaseId : UUID) (digest : Str) (userId : UUID) :
    Except AppException (Option UploadResult) :=
  match getByDigestForUser db knowledgeBaseId digest userId with
  | none => .ok none
  | some (existing, job, role) => do
    requireCapability (some role) .documentUpload
    .ok (job.map fun job => ⟨existing, job, true⟩)

namespace UploadTask

/-- A thread function has returned. The file is published once `replace` has. -/
def onReturn (task : UploadTask) : ThreadPoint → UploadTask
  | .mkdir => task.toThread .resolve
  | .resolve => task.toThread .open
  | .open => task.goto .read
  | .write _ => task.goto .read
  | .flush => task.toThread .fsync
  | .fsync => task.toThread (.close none)
  | .close none => task.toThread .replace
  | .close (some raising) => task.toThread (.unlink raising)
  | .replace =>
    match validateContent task.request.mediaType (task.stored sha256) with
    | .ok () => task.goto .select
    | .error e => task.cleanup (.upload (.app e))
  | .unlink raising => task.raised raising.outOfStore
  | .deleteDuplicate result => task.goto (.commitDuplicate result)
  | .deleteConflict => task.goto .resolveSelect
  | .cleanup raising => task.raised raising

/-- A thread function has raised, or the task is cancelled at it: `raising` goes through the
`finally` blocks around the await point. -/
def onRaise (task : UploadTask) (raising : Raising) : ThreadPoint → UploadTask
  | .mkdir | .resolve => task.raised raising.outOfStore
  | .write _ | .flush | .fsync => task.toThread (.close (some raising))
  | .open | .close _ | .replace => task.toThread (.unlink raising)
  | .unlink _ => task.raised raising.outOfStore
  | .deleteDuplicate _ | .deleteConflict => task.cleanup raising
  | .cleanup _ => task.raised raising

/-- What an `OSError` is where it is raised. -/
def osError : ThreadPoint → Raising
  | .deleteDuplicate _ | .deleteConflict | .cleanup _ => .upload .unexpected
  | _ => .store .os

/-- A thread's function takes effect, or fails without one. -/
def landThread (task : UploadTask) (point : ThreadPoint) (fails : Bool) : UploadTask :=
  match if fails then none else point.function.land task with
  | some task' => task'.goto (.awaiting point (.finished false))
  | none => task.goto (.awaiting point (.finished true))

/-- The same for a function that is no longer awaited. -/
def landLate (task : UploadTask) (function : ThreadFunction) (fails : Bool) : UploadTask :=
  let task := { task with late := task.late.erase function }
  if fails then task else (function.land task).getD task

/-- The loop of `store` has ended. -/
def afterSource (task : UploadTask) : UploadTask :=
  if task.content = [] then task.toThread (.close (some (.store .emptyFile)))
  else task.toThread .flush

/-- The loop of `store` after a read; an empty read ends it. -/
def onRead (task : UploadTask) : List (List UInt8) → UploadTask
  | [] => task.afterSource
  | chunk :: reads =>
    if chunk = [] then task.afterSource
    else if task.content.length + chunk.length > maxUploadSizeBytes then
      task.toThread (.close (some (.store .fileTooLarge)))
    else
      { task with
        content := task.content ++ chunk
        prefixBytes := if task.prefixBytes.length < prefixSize then
          task.prefixBytes ++ chunk.take (prefixSize - task.prefixBytes.length) else task.prefixBytes
        reads }.toThread (.write chunk)

/-- The statement or the COMMIT that a call awaits. A conflict that a flush meets, or a COMMIT,
is an `IntegrityError`. -/
def onStatement (db : Database) (task : UploadTask) (jobId : UUID) (createdAt : Time) :
    TaskStage → Option (Database × UploadTask)
  | .authorize =>
    match authorizeUpload db task.request.knowledgeBaseId task.request.userId with
    | .ok () => some (db, task.toThread .mkdir)
    | .error e => some (db, task.raised (.upload (.app e)))
  | .select =>
    let task := { task with began := true }
    match authorizeUpload db task.request.knowledgeBaseId task.request.userId with
    | .ok () => some (db, task.goto .digest)
    | .error e => some (db, task.cleanup (.upload (.app e)))
  | .digest =>
    match lookupDuplicate db task.request.knowledgeBaseId (task.stored sha256).sha256
        task.request.userId with
    | .ok none => some (db, task.goto .flush)
    | .ok (some result) => some (db, task.toThread (.deleteDuplicate result))
    | .error e => some (db, task.cleanup (.upload (.app e)))
  | .flush =>
    let document := uploadedDocument task.documentId task.request.knowledgeBaseId
      task.request.filename task.request.mediaType (task.stored sha256) createdAt
    match insertUpload db document jobId with
    | .ok _ => some (db, task.goto (.commit document jobId))
    | .error _ => some (db, task.toThread .deleteConflict)
  | .commit document jobId =>
    match insertUpload db document jobId with
    | .ok (job, db) =>
      some (db, { task with committed := some document }.goto (.ended (.ok ⟨document, job, false⟩)))
    | .error _ => some (db, task.toThread .deleteConflict)
  | .commitDuplicate result => some (db, task.goto (.ended (.ok result)))
  | .resolveSelect =>
    match authorizeUpload db task.request.knowledgeBaseId task.request.userId with
    | .ok () => some (db, task.goto .resolveDigest)
    | .error e => some (db, task.cleanup (.upload (.app e)))
  | .resolveDigest =>
    match lookupConcurrent db task.request.knowledgeBaseId (task.stored sha256).sha256
        task.request.userId with
    | .ok result => some (db, task.goto (.resolveCommit result))
    | .error e => some (db, task.cleanup (.upload (.app e)))
  | .resolveCommit (some result) => some (db, task.goto (.ended (.ok result)))
  | .resolveCommit none => some (db, task.cleanup (.upload (.app
      (.conflict "The document could not be stored due to a concurrent conflict."))))
  | .awaiting _ _ | .read | .ended _ => none

/-- A statement or a COMMIT is interrupted, which rolls its transaction back unless the COMMIT
of the inserts took effect without being acknowledged. -/
def onInterrupt (db : Database) (task : UploadTask) (raising : Raising) (tookEffect : Bool) :
    TaskStage → Option (Database × UploadTask)
  | .authorize => if tookEffect then none else some (db, task.raised raising)
  | .commit document jobId =>
    if tookEffect then
      match insertUpload db document jobId with
      | .ok (_, db) => some (db, { task with committed := some document }.cleanup raising)
      | .error _ => none
    else some (db, task.cleanup raising)
  | .select | .digest | .flush | .commitDuplicate _ | .resolveSelect | .resolveDigest
  | .resolveCommit _ => if tookEffect then none else some (db, task.cleanup raising)
  | .awaiting _ _ | .read | .ended _ => none

/-- What a lost connection raises, through the handlers of `_persist_upload`. -/
def databaseError : TaskStage → Raising
  | .select | .digest | .flush | .commit _ _ | .commitDuplicate _ =>
    .upload (.app (.serviceUnavailable "Database is temporarily unavailable."))
  | _ => .upload .database

/-- The task is cancelled at its await point. A function that has no thread yet is withdrawn,
and one that runs goes on. -/
def onCancel (db : Database) (task : UploadTask) (tookEffect : Bool) :
    TaskStage → Option (Database × UploadTask)
  | .awaiting point status =>
    if tookEffect then none
    else some (db, { task with
      late := if status = ThreadStatus.running then point.function :: task.late else task.late
      cancelled := true }.onRaise .cancelled point)
  | .read =>
    if tookEffect then none
    else some (db, { task with cancelled := true }.toThread (.close (some .cancelled)))
  | stage => onInterrupt db { task with cancelled := true } .cancelled tookEffect stage

end UploadTask

inductive TaskAction where
  | startThread
  | landThread (fails : Bool)
  | landLate (function : ThreadFunction) (fails : Bool)
  | resume
  | read
  | failRead
  | statement (jobId : UUID) (createdAt : Time)
  | lose (tookEffect : Bool)
  | cancel (tookEffect : Bool)

/-- One step of a call. -/
def taskStep (db : Database) (task : UploadTask) : TaskAction → Option (Database × UploadTask)
  | .startThread =>
    match task.stage with
    | .awaiting point .queued => some (db, task.goto (.awaiting point .running))
    | _ => none
  | .landThread fails =>
    match task.stage with
    | .awaiting point .running => some (db, task.landThread point fails)
    | _ => none
  | .landLate function fails =>
    if function ∈ task.late then some (db, task.landLate function fails) else none
  | .resume =>
    match task.stage with
    | .awaiting point (.finished raised) =>
      some (db, if raised then task.onRaise (UploadTask.osError point) point
        else task.onReturn sha256 point)
    | _ => none
  | .read =>
    match task.stage with
    | .read => some (db, task.onRead maxUploadSizeBytes task.reads)
    | _ => none
  | .failRead =>
    match task.stage with
    | .read => some (db, task.toThread (.close (some (.upload .unexpected))))
    | _ => none
  | .statement jobId createdAt => UploadTask.onStatement sha256 db task jobId createdAt task.stage
  | .lose tookEffect =>
    UploadTask.onInterrupt db task (UploadTask.databaseError task.stage) tookEffect task.stage
  | .cancel tookEffect => UploadTask.onCancel db task tookEffect task.stage

end Steps

section Machine

structure IntakeState where
  db : Database
  tasks : List UploadTask

def IntakeState.init (db : Database) : IntakeState := ⟨db, []⟩

/-- A task's transaction holds the row lock of the knowledge base. -/
def IntakeState.locked (s : IntakeState) (knowledgeBaseId : UUID) : Bool :=
  s.tasks.any fun task =>
    task.stage.inTransaction && task.request.knowledgeBaseId == knowledgeBaseId

/-- Another writer commits: it cannot change the rows that a task's transaction has locked. -/
def respectsLocks (tasks : List UploadTask) (db db' : Database) : Bool :=
  tasks.all fun task => !task.stage.inTransaction ||
    decide (db'.membership? task.request.knowledgeBaseId task.request.userId =
      db.membership? task.request.knowledgeBaseId task.request.userId) &&
    decide (db'.knowledgeBases.find? task.request.knowledgeBaseId =
      db.knowledgeBases.find? task.request.knowledgeBaseId)

inductive IntakeAction where
  | start (request : UploadRequest) (documentId : UUID)
  | step (id : Nat) (action : TaskAction)
  | elsewhere (db : Database)

/-- The step is a `SELECT ... FOR UPDATE`. -/
def locksRows (task : UploadTask) : TaskAction → Bool
  | .statement _ _ =>
    match task.stage with
    | .authorize | .select | .resolveSelect => true
    | _ => false
  | _ => false

variable (sha256 : Sha256) (maxUploadSizeBytes : Nat)

def intakeStep (s : IntakeState) : IntakeAction → Option IntakeState
  | .start request documentId =>
    if documentId ∈ s.tasks.map UploadTask.documentId then none
    else some { s with tasks := s.tasks ++ [UploadTask.begin request documentId] }
  | .step id action =>
    match s.tasks[id]? with
    | none => none
    | some task =>
      if locksRows task action && s.locked task.request.knowledgeBaseId then none
      else (taskStep sha256 maxUploadSizeBytes s.db task action).map fun r =>
        ⟨r.1, s.tasks.set id r.2⟩
  | .elsewhere db => if respectsLocks s.tasks s.db db then some { s with db } else none

def intake : Machine IntakeState IntakeAction := ⟨intakeStep sha256 maxUploadSizeBytes⟩

end Machine
end AgenticRag.Services

import AgenticRag.Services.Rebuild

/-! One `process_next` call after its claim, as a task, from one await to the next: the tasks of
`_with_lease`, the heartbeat, and where a cancellation goes that arrives at an await. -/
namespace AgenticRag.Services
open Lib Python Db Ingestion

inductive ProcessingStage where
  | readSource | parseAndChunk | replaceChunks | embedChunks | replaceVectors | completeSuccess
  deriving DecidableEq

/-- The coroutines that `process_next` gives to `_with_lease`. -/
inductive Operation where
  | readSource
  | parseAndChunk (content : Bytes)
  | embedChunks (rows : List DocumentChunk)
  | replaceVectors (records : List VectorRecord)

def Operation.stage : Operation → ProcessingStage
  | .readSource => .readSource
  | .parseAndChunk _ => .parseAndChunk
  | .embedChunks _ => .embedChunks
  | .replaceVectors _ => .replaceVectors

/-- The statement of the `try` block that comes next. -/
inductive Statement where
  | withLease (operation : Operation)
  | replaceChunks (chunks : List TextChunk)
  | completeSuccess

/-- What an operation is answered by storage, parser, model or index; it may also raise
another exception of its own, `none` being one that no handler expects. -/
inductive OperationAnswer where
  | content (result : Except ProcessingError Bytes)
  | parsed (result : Except ParseError ParsedDocument)
  | vectors (result : Except EmbeddingError Object)
  | indexed (result : Except VectorStoreError Unit)
  | raises (error : Option ProcessingError)

/-- How an operation ends that is not cancelled. -/
def Operation.outcome (sha256 : Sha256) (svc : IngestionProcessingService) (claimed : ClaimedDocument) :
    Operation → OperationAnswer → Option (Except Raised Statement)
  | .readSource, .content result => some do
    let content ← result.mapError .expected
    return .withLease (.parseAndChunk (← verifySource sha256 claimed content))
  | .parseAndChunk content, .parsed result => some do
    let chunks ← Services.parseAndChunk sha256 svc.chunkingConfig (fun _ => result) claimed content
    return .replaceChunks chunks
  | .embedChunks rows, .vectors result => some do
    let records ← Services.embedChunks (fun _ => result) svc.embeddingDimension claimed rows
    return .withLease (.replaceVectors records)
  | .replaceVectors _, .indexed result => some do
    result.mapError vectorStoreRaised
    return .completeSuccess
  | _, .raises (some error) => some (.error (.expected error))
  | _, .raises none => some (.error .unexpected)
  | _, _ => none

/-- The task of an operation; `cancelling` once its `cancel` was called. -/
inductive WorkTask where
  | running (operation : Operation) (cancelling : Bool)
  | done (operation : Operation) (outcome : Except Raised Statement)

/-- The task of `heartbeat.lost.wait()`. -/
inductive LeaseLostTask where
  | running (cancelling : Bool)
  | done

/-- The task of `_LeaseHeartbeat._run`: in `wait_for`, in a renewal at a clock reading, or ended. -/
inductive HeartbeatTask where
  | waiting (stopping : Bool)
  | renewing (now : Time) (stopping : Bool)
  | done

/-- `Task.cancel()` does nothing to a task that is done. -/
def WorkTask.cancel : WorkTask → WorkTask
  | .running operation _ => .running operation true
  | .done operation outcome => .done operation outcome

def LeaseLostTask.cancel : LeaseLostTask → LeaseLostTask
  | .running _ => .running true
  | .done => .done

def HeartbeatTask.cancel : HeartbeatTask → HeartbeatTask
  | .waiting _ => .waiting true
  | .renewing now _ => .renewing now true
  | .done => .done

/-- Who called `heartbeat.stop()`: the `try` block, or the handler of an exception. -/
inductive Stopping where
  | success
  | handler (raised : Raised)

/-- What the call awaits, or how it has ended. -/
inductive AwaitPoint where
  | waiting
  | joiningWork
  | joiningLeaseLost
  | gathering (result : Except Raised Statement)
  | replacingChunks (chunks : List TextChunk) (now : Time)
  | stopping (caller : Stopping)
  | completingSuccess (now : Time)
  | completingFailure (raised : Raised) (failure : Failure) (now : Time)
  | returned
  | raised (raised : Raised)

/-- The call has ended. -/
def AwaitPoint.Ended : AwaitPoint → Prop
  | .returned | .raised _ => True
  | _ => False

instance AwaitPoint.decidableEnded : DecidablePred AwaitPoint.Ended
  | .returned | .raised _ => isTrue trivial
  | .waiting | .joiningWork | .joiningLeaseLost | .gathering _ | .replacingChunks _ _ | .stopping _
  | .completingSuccess _ | .completingFailure _ _ _ => isFalse not_false

/-- The call, its tasks and the rows. `throwing` says that the call goes on with `CancelledError`,
and `lost` what `ensure_owned` raises. Stages begun and ended well are logged, and whether the
success transition was committed, which exception reached a handler, and which failure was
committed when. -/
structure ProcessTask where
  db : Database
  point : AwaitPoint
  throwing : Bool
  work : WorkTask
  leaseLost : LeaseLostTask
  heartbeat : HeartbeatTask
  lost : Option Raised
  started : List ProcessingStage
  finished : List ProcessingStage
  succeeded : Bool
  handled : Option Raised
  failed : Option (Failure × Time)

namespace ProcessTask

/-- The call once it first awaits: the operation that reads the source has been begun. -/
def init (db : Database) : ProcessTask where
  db := db
  point := .waiting
  throwing := false
  work := .running .readSource false
  leaseLost := .running false
  heartbeat := .waiting false
  lost := none
  started := [.readSource]
  finished := []
  succeeded := false
  handled := none
  failed := none

/-- The `finally` block of `_with_lease`. -/
def gather (task : ProcessTask) (result : Except Raised Statement) : ProcessTask :=
  { task with
    point := .gathering result
    throwing := false
    work := task.work.cancel
    leaseLost := task.leaseLost.cancel }

/-- A handler after `heartbeat.stop()`. -/
def settle (task : ProcessTask) (raised : Raised) (now : Time) : ProcessTask :=
  match raised.failure? with
  | none => { task with point := .returned, throwing := false }
  | some failure => { task with point := .completingFailure raised failure now, throwing := false }

/-- An exception reaches its handler; a heartbeat that has ended is not awaited. -/
def handle (task : ProcessTask) (raised : Raised) (now : Time) : ProcessTask :=
  match task.heartbeat with
  | .done => { task with handled := some raised }.settle raised now
  | heartbeat => { task with
      handled := some raised
      point := .stopping (.handler raised)
      throwing := false
      heartbeat := heartbeat.cancel }

/-- The `try` block after `heartbeat.stop()`. -/
def completeOwned (task : ProcessTask) (now : Time) : ProcessTask :=
  match task.lost with
  | some lost => task.handle lost now
  | none => { task with
      point := .completingSuccess now
      throwing := false
      started := .completeSuccess :: task.started }

/-- `_with_lease` up to its first await; `ensure_owned` may raise before the operation begins. -/
def withLease (task : ProcessTask) (operation : Operation) : ProcessTask :=
  match task.lost with
  | some lost => { task with
      work := .done operation (.error .cancelled)
      leaseLost := .done }.gather (.error lost)
  | none => { task with
      point := .waiting
      throwing := false
      work := .running operation false
      leaseLost := .running false
      started := operation.stage :: task.started }

def begin (task : ProcessTask) (now : Time) : Statement → ProcessTask
  | .withLease operation => task.withLease operation
  | .replaceChunks chunks => { task with
      point := .replacingChunks chunks now
      throwing := false
      started := .replaceChunks :: task.started }
  | .completeSuccess =>
    match task.heartbeat with
    | .done => task.completeOwned now
    | heartbeat => { task with
        point := .stopping .success
        throwing := false
        heartbeat := heartbeat.cancel }

def finish (task : ProcessTask) (stage : ProcessingStage) : ProcessTask :=
  { task with finished := stage :: task.finished }

/-- `await work` in a lost lease: `CancelledError` is suppressed, and `ensure_owned` raises. -/
def joined (outcome : Except Raised Statement) (lost : Raised) : Except Raised Statement :=
  match outcome with
  | .error .cancelled => .error lost
  | .error raised => .error raised
  | .ok _ => .error lost

/-- `await work` and the `ensure_owned` after it. -/
def owned (outcome : Except Raised Statement) (lost : Option Raised) : Except Raised Statement :=
  match outcome, lost with
  | .error raised, _ => .error raised
  | .ok _, some lost => .error lost
  | .ok statement, none => .ok statement

/-- The call goes on once what it awaits is there; a transaction that begins reads the clock. -/
def resume (task : ProcessTask) (now : Time) : Option ProcessTask :=
  match task.point with
  | .waiting =>
    if task.throwing then some (task.gather (.error .cancelled))
    else match task.lost, task.work with
      | some lost, .done _ outcome => some (task.gather (joined outcome lost))
      | some _, .running operation _ =>
        match task.leaseLost with
        | .done => some { task with point := .joiningWork, work := .running operation true }
        | .running _ => none
      | none, .done _ _ =>
        some { task with point := .joiningLeaseLost, leaseLost := task.leaseLost.cancel }
      | none, .running _ _ => none
  | .joiningWork =>
    match task.work, task.lost with
    | .done _ outcome, some lost =>
      some (task.gather (if task.throwing then .error lost else joined outcome lost))
    | _, _ => none
  | .joiningLeaseLost =>
    match task.leaseLost, task.work with
    | .done, .done _ outcome => some (task.gather (owned outcome task.lost))
    | _, _ => none
  | .gathering result =>
    match task.work, task.leaseLost with
    | .done operation _, .done =>
      match if task.throwing then .error .cancelled else result with
      | .ok statement => some ((task.finish operation.stage).begin now statement)
      | .error raised => some (task.handle raised now)
    | _, _ => none
  | .stopping caller =>
    match task.heartbeat with
    | .done =>
      match caller with
      | .success =>
        some (if task.throwing then task.handle .cancelled now else task.completeOwned now)
      | .handler raised =>
        some (if task.throwing then { task with point := .raised .cancelled, throwing := false }
          else task.settle raised now)
    | _ => none
  | _ => none

/-- What a cancellation does: the task that the call awaits is cancelled in its place, unless it is
done; in `gather` the call is cancelled too. -/
def cancel (task : ProcessTask) : Option ProcessTask :=
  match task.point with
  | .returned | .raised _ => none
  | .gathering _ => some { task with
      throwing := true
      work := task.work.cancel
      leaseLost := task.leaseLost.cancel }
  | .joiningWork =>
    match task.work with
    | .done _ _ => some { task with throwing := true }
    | work => some { task with work := work.cancel }
  | .joiningLeaseLost =>
    match task.leaseLost with
    | .done => some { task with throwing := true }
    | leaseLost => some { task with leaseLost := leaseLost.cancel }
  | .stopping _ =>
    match task.heartbeat with
    | .done => some { task with throwing := true }
    | heartbeat => some { task with heartbeat := heartbeat.cancel }
  | _ => some { task with throwing := true }

/-- An exception leaves the transaction under way. -/
def fail (task : ProcessTask) (raised : Raised) (now : Time) : ProcessTask :=
  match task.point with
  | .completingFailure .cancelled _ _ =>
    let raised := if raised = .expected .sqlAlchemy then .cancelled else raised
    { task with point := .raised raised, throwing := false }
  | .completingFailure _ _ _ => { task with point := .raised raised, throwing := false }
  | _ => task.handle raised now

section Transactions
variable (uuid5 : UUID → Str → UUID) (svc : IngestionProcessingService) (claimed : ClaimedDocument)

/-- What the failure transition leaves; it is logged if the job was still owned. -/
def failureWritten (task : ProcessTask) (failure : Failure) (now : Time) : ProcessTask :=
  { task with
    db := svc.completeFailure task.db claimed.jobId failure now
    failed :=
      match getOwnedProcessingInternal task.db claimed.jobId svc.workerId.value now with
      | some _ => some (failure, now)
      | none => task.failed }

/-- What the transaction under way writes when it commits. -/
def commit (task : ProcessTask) : Option (Except Raised ProcessTask) :=
  match task.point with
  | .replacingChunks chunks now =>
    some ((svc.replaceChunks task.db claimed (durableChunks uuid5 claimed chunks) now).map fun db =>
      { task with db })
  | .completingSuccess now => some <|
    match svc.completeSuccess task.db claimed.jobId now with
    | some db => .ok { task with db, succeeded := true }
    | none => .error .leaseLost
  | .completingFailure _ failure now => some (.ok (task.failureWritten svc claimed failure now))
  | _ => none

/-- The call after its transaction. -/
def proceed (task : ProcessTask) : ProcessTask :=
  match task.point with
  | .replacingChunks chunks _ =>
    (task.finish .replaceChunks).withLease (.embedChunks (durableChunks uuid5 claimed chunks))
  | .completingSuccess _ => { task.finish .completeSuccess with point := .returned }
  | .completingFailure (.expected _) _ _ => { task with point := .returned }
  | .completingFailure raised _ _ => { task with point := .raised raised }
  | _ => task

end Transactions

end ProcessTask

inductive ProcessAction where
  | resume (now : Time)
  | cancel
  | transact (now : Time)
  | interrupt (committed : Bool) (now : Time)
  | failTransaction (raised : Raised) (committed : Bool) (now : Time)
  | answer (answer : OperationAnswer)
  | endCancelled
  | endLeaseLost
  | timeout (now : Time)
  | renew
  | failRenewal (raised : Raised)
  | endHeartbeat
  | change (db : Database)

section Machine
variable (sha256 : Sha256) (uuid5 : UUID → Str → UUID) (svc : IngestionProcessingService)
  (claimed : ClaimedDocument)

/-- One step of the call, of one of its tasks, or of others on the rows. A transaction that is
cancelled or fails may have been committed. -/
def processStep (task : ProcessTask) : ProcessAction → Option ProcessTask
  | .resume now => task.resume now
  | .cancel => task.cancel
  | .transact now =>
    if task.throwing then none
    else match task.commit uuid5 svc claimed with
      | some (.ok written) => some (written.proceed uuid5 claimed)
      | some (.error raised) => some (task.handle raised now)
      | none => none
  | .interrupt committed now =>
    if task.throwing then
      match task.commit uuid5 svc claimed with
      | some (.ok written) => some ((if committed then written else task).fail .cancelled now)
      | some (.error _) => if committed then none else some (task.fail .cancelled now)
      | none => none
    else none
  | .failTransaction raised committed now =>
    if task.throwing = false ∧ (raised = .expected .sqlAlchemy ∨ raised = .unexpected) then
      match task.commit uuid5 svc claimed with
      | some (.ok written) => some ((if committed then written else task).fail raised now)
      | some (.error _) => if committed then none else some (task.fail raised now)
      | none => none
    else none
  | .answer answer =>
    match task.work with
    | .running operation _ => (operation.outcome sha256 svc claimed answer).map fun outcome =>
        { task with work := .done operation outcome }
    | .done _ _ => none
  | .endCancelled =>
    match task.work with
    | .running operation true => some { task with work := .done operation (.error .cancelled) }
    | _ => none
  | .endLeaseLost =>
    match task.leaseLost with
    | .running cancelling =>
      if cancelling || task.lost.isSome then some { task with leaseLost := .done } else none
    | .done => none
  | .timeout now =>
    match task.heartbeat with
    | .waiting false => some { task with heartbeat := .renewing now false }
    | _ => none
  | .renew =>
    match task.heartbeat with
    | .renewing now stopping =>
      match svc.renewLease task.db claimed.jobId now with
      | some db => some { task with db, heartbeat := if stopping then .done else .waiting false }
      | none => some { task with heartbeat := .done, lost := some .leaseLost }
    | _ => none
  | .failRenewal raised =>
    match task.heartbeat with
    | .renewing _ _ =>
      if raised = .leaseLost ∨ raised = .unexpected then
        some { task with heartbeat := .done, lost := some raised }
      else none
    | _ => none
  | .endHeartbeat =>
    match task.heartbeat with
    | .waiting true | .renewing _ true => some { task with heartbeat := .done }
    | _ => none
  | .change db => some { task with db }

def processing : Machine ProcessTask ProcessAction := ⟨processStep sha256 uuid5 svc claimed⟩

end Machine

section Moves
variable {sha256 : Sha256} {uuid5 : UUID → Str → UUID} {svc : IngestionProcessingService}
  {claimed : ClaimedDocument} {task next : ProcessTask}

/-- What a transaction has written that did not report its end. -/
def Written (uuid5 : UUID → Str → UUID) (svc : IngestionProcessingService) (claimed : ClaimedDocument)
    (task : ProcessTask) (committed : Bool) (written : ProcessTask) : Prop :=
  committed = false ∧ written = task ∧ (task.commit uuid5 svc claimed).isSome ∨
    committed = true ∧ task.commit uuid5 svc claimed = some (.ok written)

/-- The steps by what they find and what they leave. -/
inductive ProcessMove (sha256 : Sha256) (uuid5 : UUID → Str → UUID) (svc : IngestionProcessingService)
    (claimed : ClaimedDocument) (task : ProcessTask) : ProcessAction → ProcessTask → Prop where
  | waitInterrupted {now} (hpoint : task.point = .waiting) (hthrowing : task.throwing = true) :
      ProcessMove sha256 uuid5 svc claimed task (.resume now) (task.gather (.error .cancelled))
  | lostDone {now lost operation outcome} (hpoint : task.point = .waiting)
      (hthrowing : task.throwing = false) (hlost : task.lost = some lost)
      (hwork : task.work = .done operation outcome) :
      ProcessMove sha256 uuid5 svc claimed task (.resume now)
        (task.gather (ProcessTask.joined outcome lost))
  | lostJoin {now lost operation cancelling} (hpoint : task.point = .waiting)
      (hthrowing : task.throwing = false) (hlost : task.lost = some lost)
      (hwork : task.work = .running operation cancelling) :
      ProcessMove sha256 uuid5 svc claimed task (.resume now)
        { task with point := .joiningWork, work := .running operation true }
  | leaseJoin {now operation outcome} (hpoint : task.point = .waiting)
      (hthrowing : task.throwing = false) (hlost : task.lost = none)
      (hwork : task.work = .done operation outcome) :
      ProcessMove sha256 uuid5 svc claimed task (.resume now)
        { task with point := .joiningLeaseLost, leaseLost := task.leaseLost.cancel }
  | workJoined {now lost operation outcome result} (hpoint : task.point = .joiningWork)
      (hlost : task.lost = some lost) (hwork : task.work = .done operation outcome)
      (hresult : result = .error lost ∨ result = ProcessTask.joined outcome lost) :
      ProcessMove sha256 uuid5 svc claimed task (.resume now) (task.gather result)
  | leaseJoined {now operation outcome} (hpoint : task.point = .joiningLeaseLost)
      (hwork : task.work = .done operation outcome) :
      ProcessMove sha256 uuid5 svc claimed task (.resume now)
        (task.gather (ProcessTask.owned outcome task.lost))
  | gathered {now operation outcome statement} (hpoint : task.point = .gathering (.ok statement))
      (hthrowing : task.throwing = false) (hwork : task.work = .done operation outcome) :
      ProcessMove sha256 uuid5 svc claimed task (.resume now)
        ((task.finish operation.stage).begin now statement)
  | gatherInterrupted {now result} (hpoint : task.point = .gathering result)
      (hthrowing : task.throwing = true) :
      ProcessMove sha256 uuid5 svc claimed task (.resume now) (task.handle .cancelled now)
  | gatherRaised {now raised} (hpoint : task.point = .gathering (.error raised))
      (hthrowing : task.throwing = false) :
      ProcessMove sha256 uuid5 svc claimed task (.resume now) (task.handle raised now)
  | stopped {now} (hpoint : task.point = .stopping .success) (hheartbeat : task.heartbeat = .done)
      (hthrowing : task.throwing = false) :
      ProcessMove sha256 uuid5 svc claimed task (.resume now) (task.completeOwned now)
  | stopInterrupted {now} (hpoint : task.point = .stopping .success)
      (hheartbeat : task.heartbeat = .done) (hthrowing : task.throwing = true) :
      ProcessMove sha256 uuid5 svc claimed task (.resume now) (task.handle .cancelled now)
  | handlerStopped {now raised} (hpoint : task.point = .stopping (.handler raised))
      (hheartbeat : task.heartbeat = .done) (hthrowing : task.throwing = false) :
      ProcessMove sha256 uuid5 svc claimed task (.resume now) (task.settle raised now)
  | handlerInterrupted {now raised} (hpoint : task.point = .stopping (.handler raised))
      (hheartbeat : task.heartbeat = .done) (hthrowing : task.throwing = true) :
      ProcessMove sha256 uuid5 svc claimed task (.resume now)
        { task with point := .raised .cancelled, throwing := false }
  | cancelled {after} (hcancel : task.cancel = some after) :
      ProcessMove sha256 uuid5 svc claimed task .cancel after
  | committed {now written} (hthrowing : task.throwing = false)
      (hcommit : task.commit uuid5 svc claimed = some (.ok written)) :
      ProcessMove sha256 uuid5 svc claimed task (.transact now) (written.proceed uuid5 claimed)
  | refused {now raised} (hthrowing : task.throwing = false)
      (hcommit : task.commit uuid5 svc claimed = some (.error raised)) :
      ProcessMove sha256 uuid5 svc claimed task (.transact now) (task.handle raised now)
  | interrupted {now committed written} (hthrowing : task.throwing = true)
      (hwritten : Written uuid5 svc claimed task committed written) :
      ProcessMove sha256 uuid5 svc claimed task (.interrupt committed now) (written.fail .cancelled now)
  | failed {now raised committed written} (hthrowing : task.throwing = false)
      (hraised : raised = .expected .sqlAlchemy ∨ raised = .unexpected)
      (hwritten : Written uuid5 svc claimed task committed written) :
      ProcessMove sha256 uuid5 svc claimed task (.failTransaction raised committed now)
        (written.fail raised now)
  | answered {answer operation cancelling outcome} (hwork : task.work = .running operation cancelling)
      (houtcome : operation.outcome sha256 svc claimed answer = some outcome) :
      ProcessMove sha256 uuid5 svc claimed task (.answer answer)
        { task with work := .done operation outcome }
  | workCancelled {operation} (hwork : task.work = .running operation true) :
      ProcessMove sha256 uuid5 svc claimed task .endCancelled
        { task with work := .done operation (.error .cancelled) }
  | leaseLostEnded {cancelling} (hleaseLost : task.leaseLost = .running cancelling) :
      ProcessMove sha256 uuid5 svc claimed task .endLeaseLost { task with leaseLost := .done }
  | timedOut {now} (hheartbeat : task.heartbeat = .waiting false) :
      ProcessMove sha256 uuid5 svc claimed task (.timeout now)
        { task with heartbeat := .renewing now false }
  | renewed {now stopping db} (hheartbeat : task.heartbeat = .renewing now stopping)
      (hrenew : svc.renewLease task.db claimed.jobId now = some db) :
      ProcessMove sha256 uuid5 svc claimed task .renew
        { task with db, heartbeat := if stopping then .done else .waiting false }
  | renewalRefused {now stopping} (hheartbeat : task.heartbeat = .renewing now stopping)
      (hrenew : svc.renewLease task.db claimed.jobId now = none) :
      ProcessMove sha256 uuid5 svc claimed task .renew
        { task with heartbeat := .done, lost := some .leaseLost }
  | renewalFailed {raised} (hraised : raised = .leaseLost ∨ raised = .unexpected) :
      ProcessMove sha256 uuid5 svc claimed task (.failRenewal raised)
        { task with heartbeat := .done, lost := some raised }
  | heartbeatEnded :
      ProcessMove sha256 uuid5 svc claimed task .endHeartbeat { task with heartbeat := .done }
  | changed {db} : ProcessMove sha256 uuid5 svc claimed task (.change db) { task with db }

private theorem resume_move {now : Time} (h : task.resume now = some next) :
    ProcessMove sha256 uuid5 svc claimed task (.resume now) next := by
  unfold ProcessTask.resume at h
  split at h
  · rename_i hpoint
    split at h
    · rename_i hthrowing
      obtain rfl := Option.some.inj h
      exact .waitInterrupted hpoint hthrowing
    rename_i hthrowing
    rw [Bool.not_eq_true] at hthrowing
    split at h
    · rename_i hlost hwork
      obtain rfl := Option.some.inj h
      exact .lostDone hpoint hthrowing hlost hwork
    · rename_i hlost hwork
      split at h
      · obtain rfl := Option.some.inj h
        exact .lostJoin hpoint hthrowing hlost hwork
      · cases h
    · rename_i hlost hwork
      obtain rfl := Option.some.inj h
      exact .leaseJoin hpoint hthrowing hlost hwork
    · cases h
  · rename_i hpoint
    split at h
    · rename_i hwork hlost
      obtain rfl := Option.some.inj h
      refine .workJoined hpoint hlost hwork ?_
      split
      · exact .inl rfl
      · exact .inr rfl
    · cases h
  · rename_i hpoint
    split at h
    · rename_i hwork
      obtain rfl := Option.some.inj h
      exact .leaseJoined hpoint hwork
    · cases h
  · rename_i result hpoint
    split at h
    · rename_i hwork _
      cases hthrowing : task.throwing with
      | true =>
        rw [hthrowing, if_pos rfl] at h
        obtain rfl := Option.some.inj h
        exact .gatherInterrupted hpoint hthrowing
      | false =>
        rw [hthrowing, if_neg Bool.false_ne_true] at h
        cases result with
        | ok statement =>
          obtain rfl := Option.some.inj h
          exact .gathered hpoint hthrowing hwork
        | error raised =>
          obtain rfl := Option.some.inj h
          exact .gatherRaised hpoint hthrowing
    · cases h
  · rename_i caller hpoint
    split at h
    · rename_i hheartbeat
      cases hthrowing : task.throwing with
      | true =>
        cases caller with
        | success =>
          rw [hthrowing] at h
          obtain rfl := Option.some.inj h
          exact .stopInterrupted hpoint hheartbeat hthrowing
        | handler raised =>
          rw [hthrowing] at h
          obtain rfl := Option.some.inj h
          exact .handlerInterrupted hpoint hheartbeat hthrowing
      | false =>
        cases caller with
        | success =>
          rw [hthrowing] at h
          obtain rfl := Option.some.inj h
          exact .stopped hpoint hheartbeat hthrowing
        | handler raised =>
          rw [hthrowing] at h
          obtain rfl := Option.some.inj h
          exact .handlerStopped hpoint hheartbeat hthrowing
    · cases h
  · cases h

private theorem fails_written {committed : Bool} {raised : Raised} {now : Time}
    (h : (match task.commit uuid5 svc claimed with
      | some (.ok written) => some ((if committed then written else task).fail raised now)
      | some (.error _) => if committed then none else some (task.fail raised now)
      | none => none) = some next) :
    ∃ written, Written uuid5 svc claimed task committed written ∧ written.fail raised now = next := by
  split at h
  · rename_i written hcommit
    cases committed with
    | false => exact ⟨task, .inl ⟨rfl, rfl, by rw [hcommit]; rfl⟩, Option.some.inj h⟩
    | true => exact ⟨written, .inr ⟨rfl, hcommit⟩, Option.some.inj h⟩
  · rename_i hcommit
    cases committed with
    | false => exact ⟨task, .inl ⟨rfl, rfl, by rw [hcommit]; rfl⟩, Option.some.inj h⟩
    | true => cases h
  · cases h

theorem processStep_move {a : ProcessAction}
    (h : (processing sha256 uuid5 svc claimed).step task a = some next) :
    ProcessMove sha256 uuid5 svc claimed task a next := by
  cases a with
  | resume now => exact resume_move h
  | cancel => exact .cancelled h
  | transact now =>
    simp only [processing, processStep] at h
    split at h
    · cases h
    rename_i hthrowing
    rw [Bool.not_eq_true] at hthrowing
    split at h
    · rename_i hcommit
      obtain rfl := Option.some.inj h
      exact .committed hthrowing hcommit
    · rename_i hcommit
      obtain rfl := Option.some.inj h
      exact .refused hthrowing hcommit
    · cases h
  | interrupt committed now =>
    simp only [processing, processStep] at h
    split at h
    · rename_i hthrowing
      obtain ⟨written, hwritten, rfl⟩ := fails_written h
      exact .interrupted hthrowing hwritten
    · cases h
  | failTransaction raised committed now =>
    simp only [processing, processStep] at h
    split at h
    · rename_i hguard
      obtain ⟨written, hwritten, rfl⟩ := fails_written h
      exact .failed hguard.1 hguard.2 hwritten
    · cases h
  | answer answer =>
    simp only [processing, processStep] at h
    split at h
    · rename_i hwork
      obtain ⟨outcome, houtcome, rfl⟩ := Option.map_eq_some_iff.mp h
      exact .answered hwork houtcome
    · cases h
  | endCancelled =>
    simp only [processing, processStep] at h
    split at h
    · rename_i hwork
      obtain rfl := Option.some.inj h
      exact .workCancelled hwork
    · cases h
  | endLeaseLost =>
    simp only [processing, processStep] at h
    split at h
    · rename_i hleaseLost
      split at h
      · obtain rfl := Option.some.inj h
        exact .leaseLostEnded hleaseLost
      · cases h
    · cases h
  | timeout now =>
    simp only [processing, processStep] at h
    split at h
    · rename_i hheartbeat
      obtain rfl := Option.some.inj h
      exact .timedOut hheartbeat
    · cases h
  | renew =>
    simp only [processing, processStep] at h
    split at h
    · rename_i hheartbeat
      split at h
      · rename_i hrenew
        obtain rfl := Option.some.inj h
        exact .renewed hheartbeat hrenew
      · rename_i hrenew
        obtain rfl := Option.some.inj h
        exact .renewalRefused hheartbeat hrenew
    · cases h
  | failRenewal raised =>
    simp only [processing, processStep] at h
    split at h
    · split at h
      · rename_i hraised
        obtain rfl := Option.some.inj h
        exact .renewalFailed hraised
      · cases h
    · cases h
  | endHeartbeat =>
    simp only [processing, processStep] at h
    split at h
    · obtain rfl := Option.some.inj h
      exact .heartbeatEnded
    · obtain rfl := Option.some.inj h
      exact .heartbeatEnded
    · cases h
  | change db =>
    obtain rfl := Option.some.inj h
    exact .changed

/-- The call awaits a task that takes a cancellation in its place and ends without passing it on. -/
def ProcessTask.Absorbs (task : ProcessTask) : Prop :=
  match task.point, task.heartbeat with
  | .joiningWork, _ | .joiningLeaseLost, _ => True
  | .stopping _, .waiting _ | .stopping _, .renewing _ _ => True
  | _, _ => False

/-- The call goes on with `CancelledError`, or the task that it awaits was cancelled in its place. -/
theorem cancel_spec (h : task.cancel = some next) :
    ∃ work throwing leaseLost heartbeat, next = { task with work, throwing, leaseLost, heartbeat } ∧
      (work = task.work ∨ work = task.work.cancel) ∧
      (leaseLost = task.leaseLost ∨ leaseLost = task.leaseLost.cancel) ∧
      (heartbeat = task.heartbeat ∨ heartbeat = task.heartbeat.cancel) ∧
      (task.Absorbs ∧ throwing = task.throwing ∨ throwing = true ∧
        (task.point = .joiningWork ∨ task.point = .joiningLeaseLost ∨ ¬task.Absorbs)) := by
  unfold ProcessTask.cancel at h
  unfold ProcessTask.Absorbs
  split at h
  · cases h
  · cases h
  · rename_i hp
    obtain rfl := Option.some.inj h
    refine ⟨_, _, _, _, rfl, .inr rfl, .inr rfl, .inl rfl, .inr ⟨rfl, .inr (.inr ?_)⟩⟩
    rw [hp]
    exact not_false
  · rename_i hp
    split at h
    · obtain rfl := Option.some.inj h
      exact ⟨_, _, _, _, rfl, .inl rfl, .inl rfl, .inl rfl, .inr ⟨rfl, .inl hp⟩⟩
    · obtain rfl := Option.some.inj h
      exact ⟨_, _, _, _, rfl, .inr rfl, .inl rfl, .inl rfl, .inl ⟨by rw [hp]; trivial, rfl⟩⟩
  · rename_i hp
    split at h
    · obtain rfl := Option.some.inj h
      exact ⟨_, _, _, _, rfl, .inl rfl, .inl rfl, .inl rfl, .inr ⟨rfl, .inr (.inl hp)⟩⟩
    · obtain rfl := Option.some.inj h
      exact ⟨_, _, _, _, rfl, .inl rfl, .inr rfl, .inl rfl, .inl ⟨by rw [hp]; trivial, rfl⟩⟩
  · rename_i hp
    split at h
    · rename_i hheartbeat
      obtain rfl := Option.some.inj h
      refine ⟨_, _, _, _, rfl, .inl rfl, .inl rfl, .inl rfl, .inr ⟨rfl, .inr (.inr ?_)⟩⟩
      rw [hp, hheartbeat]
      exact not_false
    · rename_i hheartbeat
      obtain rfl := Option.some.inj h
      refine ⟨_, _, _, _, rfl, .inl rfl, .inl rfl, .inr rfl, .inl ⟨?_, rfl⟩⟩
      rw [hp]
      cases hb : task.heartbeat with
      | done => exact absurd hb hheartbeat
      | _ => trivial
  · obtain rfl := Option.some.inj h
    refine ⟨_, _, _, _, rfl, .inl rfl, .inl rfl, .inl rfl, .inr ⟨rfl, .inr (.inr ?_)⟩⟩
    cases hp : task.point <;> simp_all

theorem ProcessTask.fail_eq_handle {raised : Raised} {now : Time}
    (hpoint : ∀ raised failure now, task.point ≠ .completingFailure raised failure now) :
    task.fail raised now = task.handle raised now := by
  unfold ProcessTask.fail
  split
  · rename_i hp
    exact absurd hp (hpoint _ _ _)
  · rename_i hp
    exact absurd hp (hpoint _ _ _)
  · rfl

end Moves
end AgenticRag.Services

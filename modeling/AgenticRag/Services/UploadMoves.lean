import AgenticRag.Services.UploadTask

/-! What one step of an upload can do: a move between stages that touches no file and no
row, the effect of a thread, the begin of the transaction, its COMMIT, or a cancellation. -/
namespace AgenticRag.Services
open Lib Python Db Ingestion Security

section Relations

/-- The stages from which an exception of the task's transactions or of `store` leads on. -/
inductive RaisesTo : ThreadPoint → TaskStage → Prop where
  | mkdir (r) : RaisesTo .mkdir (.ended (.error r))
  | resolve (r) : RaisesTo .resolve (.ended (.error r))
  | opening (r) : RaisesTo .open (.awaiting (.unlink r) .queued)
  | write (chunk r) : RaisesTo (.write chunk) (.awaiting (.close (some r)) .queued)
  | flush (r) : RaisesTo .flush (.awaiting (.close (some r)) .queued)
  | fsync (r) : RaisesTo .fsync (.awaiting (.close (some r)) .queued)
  | close (raising r) : RaisesTo (.close raising) (.awaiting (.unlink r) .queued)
  | replace (r) : RaisesTo .replace (.awaiting (.unlink r) .queued)
  | unlink (raising r) : RaisesTo (.unlink raising) (.ended (.error r))
  | deleteDuplicate (result r) : RaisesTo (.deleteDuplicate result) (.awaiting (.cleanup r) .queued)
  | deleteConflict (r) : RaisesTo .deleteConflict (.awaiting (.cleanup r) .queued)
  | cleanup (raising r) : RaisesTo (.cleanup raising) (.ended (.error r))

/-- What follows a thread function that has returned. -/
inductive ReturnsTo : ThreadPoint → TaskStage → Prop where
  | mkdir : ReturnsTo .mkdir (.awaiting .resolve .queued)
  | resolve : ReturnsTo .resolve (.awaiting .open .queued)
  | opened : ReturnsTo .open .read
  | write (chunk) : ReturnsTo (.write chunk) .read
  | flush : ReturnsTo .flush (.awaiting .fsync .queued)
  | fsync : ReturnsTo .fsync (.awaiting (.close none) .queued)
  | close : ReturnsTo (.close none) (.awaiting .replace .queued)
  | closeRaising (r) : ReturnsTo (.close (some r)) (.awaiting (.unlink r) .queued)
  | published : ReturnsTo .replace .select
  | invalid (r) : ReturnsTo .replace (.awaiting (.cleanup r) .queued)
  | unlink (raising r) : ReturnsTo (.unlink raising) (.ended (.error r))
  | deleteDuplicate (result) : ReturnsTo (.deleteDuplicate result) (.commitDuplicate result)
  | deleteConflict : ReturnsTo .deleteConflict .resolveSelect
  | cleanup (r) : ReturnsTo (.cleanup r) (.ended (.error r))

/-- A move that touches no file and no row. -/
inductive Quiet : TaskStage → TaskStage → Prop where
  | start (point) : Quiet (.awaiting point .queued) (.awaiting point .running)
  | returned {point stage} (h : ReturnsTo point stage) :
    Quiet (.awaiting point (.finished false)) stage
  | raised {point stage} (h : RaisesTo point stage) : Quiet (.awaiting point (.finished true)) stage
  | authorized : Quiet .authorize (.awaiting .mkdir .queued)
  | refused (r) : Quiet .authorize (.ended (.error r))
  | chunk (chunk) : Quiet .read (.awaiting (.write chunk) .queued)
  | source : Quiet .read (.awaiting .flush .queued)
  | stopped (r) : Quiet .read (.awaiting (.close (some r)) .queued)
  | unbegun (r) : Quiet .select (.awaiting (.cleanup r) .queued)
  | fresh : Quiet .digest .flush
  | duplicate (result) : Quiet .digest (.awaiting (.deleteDuplicate result) .queued)
  | digest (r) : Quiet .digest (.awaiting (.cleanup r) .queued)
  | flushConflict : Quiet .flush (.awaiting .deleteConflict .queued)
  | flush (r) : Quiet .flush (.awaiting (.cleanup r) .queued)
  | conflict (document jobId) : Quiet (.commit document jobId) (.awaiting .deleteConflict .queued)
  | commit (document jobId r) : Quiet (.commit document jobId) (.awaiting (.cleanup r) .queued)
  | found (result) : Quiet (.commitDuplicate result) (.ended (.ok result))
  | commitDuplicate (result r) : Quiet (.commitDuplicate result) (.awaiting (.cleanup r) .queued)
  | resolveSelect (r) : Quiet .resolveSelect (.awaiting (.cleanup r) .queued)
  | lookup (result) : Quiet .resolveDigest (.resolveCommit result)
  | resolveDigest (r) : Quiet .resolveDigest (.awaiting (.cleanup r) .queued)
  | resolved (result) : Quiet (.resolveCommit (some result)) (.ended (.ok result))
  | resolveCommit (result r) : Quiet (.resolveCommit result) (.awaiting (.cleanup r) .queued)

/-- What a quiet move keeps. -/
structure SameFiles (task task' : UploadTask) : Prop where
  request : task'.request = task.request
  documentId : task'.documentId = task.documentId
  extension : task'.extension = task.extension
  target : task'.target = task.target
  temporary : task'.temporary = task.temporary
  late : task'.late = task.late
  began : task'.began = task.began
  cancelled : task'.cancelled = task.cancelled
  committed : task'.committed = task.committed

theorem SameFiles.goto (task : UploadTask) (stage : TaskStage) : SameFiles task (task.goto stage) :=
  ⟨rfl, rfl, rfl, rfl, rfl, rfl, rfl, rfl, rfl⟩

def TaskAction.isCancel : TaskAction → Bool
  | .cancel _ => true
  | _ => false

/-- The commit of a step took effect unseen. -/
def TaskAction.unseen : TaskAction → Bool
  | .cancel tookEffect => tookEffect
  | .lose tookEffect => tookEffect
  | _ => false

/-- The steps of a call. -/
inductive Moves (db : Database) (task : UploadTask) :
    TaskAction → Database → UploadTask → Prop where
  | quiet {action : TaskAction} {task' : UploadTask} (same : SameFiles task task')
    (move : Quiet task.stage task'.stage) (uncancelled : action.isCancel = false) :
    Moves db task action db task'
  | landed {point : ThreadPoint} {landed : UploadTask} (stage : task.stage = .awaiting point .running)
    (effect : point.function.land task = some landed) :
    Moves db task (.landThread false) db (landed.goto (.awaiting point (.finished false)))
  | failed {point : ThreadPoint} {fails : Bool} (stage : task.stage = .awaiting point .running)
    (effect : fails = true ∨ point.function.land task = none) :
    Moves db task (.landThread fails) db (task.goto (.awaiting point (.finished true)))
  | late {function : ThreadFunction} (fails : Bool) (running : function ∈ task.late) :
    Moves db task (.landLate function fails) db (task.landLate function fails)
  | began {jobId : UUID} {createdAt : Time} {stage : TaskStage} (selecting : task.stage = .select)
    (next : stage = .digest ∧
        authorizeUpload db task.request.knowledgeBaseId task.request.userId = .ok () ∨
      ∃ r, stage = .awaiting (.cleanup r) .queued) :
    Moves db task (.statement jobId createdAt) db ({ task with began := true }.goto stage)
  | flushed {action : TaskAction} {document : Document} (jobId : UUID) (flushing : task.stage = .flush)
    (id : document.id = task.documentId) (key : document.storageKey = task.key) :
    Moves db task action db (task.goto (.commit document jobId))
  | resolving {action : TaskAction} (selecting : task.stage = .resolveSelect)
    (authorized : authorizeUpload db task.request.knowledgeBaseId task.request.userId = .ok ()) :
    Moves db task action db (task.goto .resolveDigest)
  | committed {action : TaskAction} {document : Document} {jobId : UUID} {job : IngestionJob}
    {db' : Database} {stage : TaskStage} (committing : task.stage = .commit document jobId)
    (rows : insertUpload db document jobId = .ok (job, db'))
    (next : stage = .ended (.ok ⟨document, job, false⟩) ∧ action.unseen = false ∧
      action.isCancel = false ∨ action.unseen = true ∧ ∃ r, stage = .awaiting (.cleanup r) .queued) {cancelled : Bool}
    (flag : cancelled = (task.cancelled || action.isCancel)) :
    Moves db task action db' ({ task with committed := some document, cancelled }.goto stage)
  | cancelledThread {point : ThreadPoint} {status : ThreadStatus} {stage : TaskStage}
    (awaiting : task.stage = .awaiting point status) (next : RaisesTo point stage) :
    Moves db task (.cancel false) db ({ task with
      late := if status = ThreadStatus.running then point.function :: task.late else task.late
      cancelled := true }.goto stage)
  | cancelled {stage : TaskStage} (next : Quiet task.stage stage)
    (raising : (∃ r, stage = .awaiting (.close (some r)) .queued ∧ task.stage = .read) ∨
      (∃ r, stage = .awaiting (.cleanup r) .queued) ∨ ∃ r, stage = .ended (.error r)) :
    Moves db task (.cancel false) db ({ task with cancelled := true }.goto stage)

end Relations

section Inversion
variable {sha256 : Sha256} {maxUploadSizeBytes : Nat} {db db' : Database} {task task' : UploadTask}

theorem onReturn_moves (sha256 : Sha256) (task : UploadTask) (point : ThreadPoint) :
    ∃ stage, task.onReturn sha256 point = task.goto stage ∧ ReturnsTo point stage := by
  cases point with
  | mkdir => exact ⟨_, rfl, .mkdir⟩
  | resolve => exact ⟨_, rfl, .resolve⟩
  | «open» => exact ⟨_, rfl, .opened⟩
  | write chunk => exact ⟨_, rfl, .write chunk⟩
  | flush => exact ⟨_, rfl, .flush⟩
  | fsync => exact ⟨_, rfl, .fsync⟩
  | close raising =>
    cases raising with
    | none => exact ⟨_, rfl, .close⟩
    | some r => exact ⟨_, rfl, .closeRaising r⟩
  | replace =>
    simp only [UploadTask.onReturn]
    split
    · exact ⟨_, rfl, .published⟩
    · exact ⟨_, rfl, .invalid _⟩
  | unlink r => exact ⟨_, rfl, .unlink r _⟩
  | deleteDuplicate result => exact ⟨_, rfl, .deleteDuplicate result⟩
  | deleteConflict => exact ⟨_, rfl, .deleteConflict⟩
  | cleanup r => exact ⟨_, rfl, .cleanup r⟩

theorem onRaise_moves (task : UploadTask) (raising : Raising) (point : ThreadPoint) :
    ∃ stage, task.onRaise raising point = task.goto stage ∧ RaisesTo point stage := by
  cases point with
  | mkdir => exact ⟨_, rfl, .mkdir _⟩
  | resolve => exact ⟨_, rfl, .resolve _⟩
  | «open» => exact ⟨_, rfl, .opening raising⟩
  | write chunk => exact ⟨_, rfl, .write chunk raising⟩
  | flush => exact ⟨_, rfl, .flush raising⟩
  | fsync => exact ⟨_, rfl, .fsync raising⟩
  | close r => exact ⟨_, rfl, .close r raising⟩
  | replace => exact ⟨_, rfl, .replace raising⟩
  | unlink r => exact ⟨_, rfl, .unlink r _⟩
  | deleteDuplicate result => exact ⟨_, rfl, .deleteDuplicate result raising⟩
  | deleteConflict => exact ⟨_, rfl, .deleteConflict raising⟩
  | cleanup r => exact ⟨_, rfl, .cleanup r raising⟩

theorem onRead_moves (maxUploadSizeBytes : Nat) (task : UploadTask) (reads : List (List UInt8)) :
    SameFiles task (task.onRead maxUploadSizeBytes reads) ∧
      Quiet .read (task.onRead maxUploadSizeBytes reads).stage := by
  have hsource : SameFiles task task.afterSource ∧ Quiet .read task.afterSource.stage := by
    unfold UploadTask.afterSource
    split
    · exact ⟨.goto task _, .stopped _⟩
    · exact ⟨.goto task _, .source⟩
  cases reads with
  | nil => exact hsource
  | cons chunk reads =>
    simp only [UploadTask.onRead]
    split
    · exact hsource
    split
    · exact ⟨.goto task _, .stopped _⟩
    · exact ⟨⟨rfl, rfl, rfl, rfl, rfl, rfl, rfl, rfl, rfl⟩, .chunk chunk⟩

theorem landThread_moves (db : Database) {point : ThreadPoint} {fails : Bool}
    (hstage : task.stage = .awaiting point .running) :
    Moves db task (.landThread fails) db (task.landThread point fails) := by
  unfold UploadTask.landThread
  cases fails with
  | true => exact .failed hstage (.inl rfl)
  | false =>
    cases hland : point.function.land task with
    | none => exact .failed hstage (.inr hland)
    | some landed => exact .landed hstage hland

theorem onStatement_moves {jobId : UUID} {createdAt : Time}
    (h : UploadTask.onStatement sha256 db task jobId createdAt task.stage = some (db', task')) :
    Moves db task (.statement jobId createdAt) db' task' := by
  have hquiet {stage : TaskStage} (hmove : Quiet task.stage stage) :
      Moves db task (.statement jobId createdAt) db (task.goto stage) :=
    .quiet (.goto task stage) hmove rfl
  cases hstage : task.stage with
  | authorize =>
    rw [hstage] at h hquiet
    simp only [UploadTask.onStatement] at h
    split at h <;> cases h
    · exact hquiet .authorized
    · exact hquiet (.refused _)
  | select =>
    rw [hstage] at h
    simp only [UploadTask.onStatement] at h
    split at h <;> cases h
    · rename_i hauthorized
      exact .began hstage (.inl ⟨rfl, hauthorized⟩)
    · exact .began hstage (.inr ⟨_, rfl⟩)
  | digest =>
    rw [hstage] at h hquiet
    simp only [UploadTask.onStatement] at h
    split at h <;> cases h
    · exact hquiet .fresh
    · exact hquiet (.duplicate _)
    · exact hquiet (.digest _)
  | flush =>
    rw [hstage] at h hquiet
    simp only [UploadTask.onStatement] at h
    split at h <;> cases h
    · exact .flushed jobId hstage rfl rfl
    · exact hquiet .flushConflict
  | commit document jobId' =>
    rw [hstage] at h hquiet
    simp only [UploadTask.onStatement] at h
    split at h <;> cases h
    · rename_i hrows
      exact .committed hstage hrows (.inl ⟨rfl, rfl, rfl⟩) (Bool.or_false _).symm
    · exact hquiet (.conflict _ _)
  | commitDuplicate result =>
    rw [hstage] at h hquiet
    cases h
    exact hquiet (.found result)
  | resolveSelect =>
    rw [hstage] at h hquiet
    simp only [UploadTask.onStatement] at h
    split at h <;> cases h
    · rename_i hauthorized
      exact .resolving hstage hauthorized
    · exact hquiet (.resolveSelect _)
  | resolveDigest =>
    rw [hstage] at h hquiet
    simp only [UploadTask.onStatement] at h
    split at h <;> cases h
    · exact hquiet (.lookup _)
    · exact hquiet (.resolveDigest _)
  | resolveCommit result =>
    rw [hstage] at h hquiet
    cases result with
    | none =>
      cases h
      exact hquiet (.resolveCommit none _)
    | some result =>
      cases h
      exact hquiet (.resolved result)
  | awaiting =>
    rw [hstage] at h
    cases h
  | read =>
    rw [hstage] at h
    cases h
  | ended =>
    rw [hstage] at h
    cases h

/-- An interruption of a statement: its transaction is rolled back, or it is a COMMIT that
took effect unseen. -/
theorem onInterrupt_moves {raising : Raising} {tookEffect : Bool}
    (h : UploadTask.onInterrupt db task raising tookEffect task.stage = some (db', task')) :
    (tookEffect = false ∧ db' = db ∧ ∃ stage, task' = task.goto stage ∧ Quiet task.stage stage ∧
      ((∃ r, stage = .awaiting (.cleanup r) .queued) ∨ ∃ r, stage = .ended (.error r))) ∨
    (tookEffect = true ∧ ∃ document jobId job, task.stage = .commit document jobId ∧
      insertUpload db document jobId = .ok (job, db') ∧
      task' = { task with committed := some document }.cleanup raising) := by
  have hcleanup (hmove : Quiet task.stage (.awaiting (.cleanup raising) .queued))
      (h : (if tookEffect then none else some (db, task.cleanup raising)) = some (db', task')) :
      tookEffect = false ∧ db' = db ∧ ∃ stage, task' = task.goto stage ∧ Quiet task.stage stage ∧
        ((∃ r, stage = .awaiting (.cleanup r) .queued) ∨ ∃ r, stage = .ended (.error r)) := by
    cases tookEffect with
    | true => cases h
    | false =>
      cases h
      exact ⟨rfl, rfl, _, rfl, hmove, .inl ⟨raising, rfl⟩⟩
  cases hstage : task.stage with
  | authorize =>
    rw [hstage] at h
    cases tookEffect with
    | true => cases h
    | false =>
      cases h
      exact .inl ⟨rfl, rfl, _, rfl, .refused raising, .inr ⟨raising, rfl⟩⟩
  | commit document jobId =>
    rw [hstage] at h hcleanup
    cases tookEffect with
    | true =>
      rw [UploadTask.onInterrupt, if_pos rfl] at h
      split at h
      · rename_i hrows
        cases h
        exact .inr ⟨rfl, document, jobId, _, rfl, hrows, rfl⟩
      · cases h
    | false => exact .inl (hcleanup (.commit document jobId raising) h)
  | select =>
    rw [hstage] at h hcleanup
    exact .inl (hcleanup (.unbegun raising) h)
  | digest =>
    rw [hstage] at h hcleanup
    exact .inl (hcleanup (.digest raising) h)
  | flush =>
    rw [hstage] at h hcleanup
    exact .inl (hcleanup (.flush raising) h)
  | commitDuplicate result =>
    rw [hstage] at h hcleanup
    exact .inl (hcleanup (.commitDuplicate result raising) h)
  | resolveSelect =>
    rw [hstage] at h hcleanup
    exact .inl (hcleanup (.resolveSelect raising) h)
  | resolveDigest =>
    rw [hstage] at h hcleanup
    exact .inl (hcleanup (.resolveDigest raising) h)
  | resolveCommit result =>
    rw [hstage] at h hcleanup
    exact .inl (hcleanup (.resolveCommit result raising) h)
  | awaiting =>
    rw [hstage] at h
    cases h
  | read =>
    rw [hstage] at h
    cases h
  | ended =>
    rw [hstage] at h
    cases h

theorem lose_moves {tookEffect : Bool}
    (h : UploadTask.onInterrupt db task (UploadTask.databaseError task.stage) tookEffect task.stage =
      some (db', task')) : Moves db task (.lose tookEffect) db' task' := by
  rcases onInterrupt_moves h with ⟨_, rfl, stage, rfl, hmove, _⟩ |
    ⟨rfl, document, jobId, job, hstage, hrows, rfl⟩
  · exact .quiet (.goto task stage) hmove rfl
  · exact .committed hstage hrows (.inr ⟨rfl, _, rfl⟩) (Bool.or_false _).symm

theorem onCancel_moves {tookEffect : Bool}
    (h : UploadTask.onCancel db task tookEffect task.stage = some (db', task')) :
    Moves db task (.cancel tookEffect) db' task' := by
  have hinterrupt (h : UploadTask.onInterrupt db { task with cancelled := true } .cancelled tookEffect
      task.stage = some (db', task')) : Moves db task (.cancel tookEffect) db' task' := by
    rcases onInterrupt_moves h with ⟨rfl, rfl, stage, rfl, hmove, hraising⟩ |
      ⟨rfl, document, jobId, job, hstage, hrows, rfl⟩
    · exact .cancelled hmove (.inr hraising)
    · have hcommitting : task.stage = .commit document jobId := hstage
      exact .committed hcommitting hrows (.inr ⟨rfl, _, rfl⟩) (Bool.or_true _).symm
  cases hstage : task.stage with
  | awaiting point status =>
    rw [hstage] at h
    cases tookEffect with
    | true => cases h
    | false =>
      cases h
      obtain ⟨stage, hraise, hmove⟩ := onRaise_moves ({ task with
        late := if status = ThreadStatus.running then point.function :: task.late else task.late
        cancelled := true }) .cancelled point
      rw [hraise]
      exact .cancelledThread hstage hmove
  | read =>
    rw [hstage] at h
    cases tookEffect with
    | true => cases h
    | false =>
      cases h
      exact .cancelled (hstage ▸ .stopped .cancelled) (.inl ⟨_, rfl, hstage⟩)
  | _ => exact hinterrupt (by rwa [hstage] at h ⊢)

/-- Every step of a call is one of the moves. -/
theorem taskStep_moves {action : TaskAction}
    (h : taskStep sha256 maxUploadSizeBytes db task action = some (db', task')) :
    Moves db task action db' task' := by
  cases action with
  | startThread =>
    simp only [taskStep] at h
    split at h
    · rename_i point hstage
      cases h
      exact .quiet (.goto task _) (hstage ▸ .start point) rfl
    · cases h
  | landThread fails =>
    simp only [taskStep] at h
    split at h
    · rename_i hstage
      cases h
      exact landThread_moves db hstage
    · cases h
  | landLate function fails =>
    simp only [taskStep] at h
    split at h
    · rename_i hrunning
      cases h
      exact .late fails hrunning
    · cases h
  | resume =>
    simp only [taskStep] at h
    split at h
    · rename_i point raised hstage
      cases h
      cases raised with
      | true =>
        obtain ⟨stage, hraise, hmove⟩ := onRaise_moves task (UploadTask.osError point) point
        rw [if_pos rfl, hraise]
        exact .quiet (.goto task stage) (hstage ▸ .raised hmove) rfl
      | false =>
        obtain ⟨stage, hreturn, hmove⟩ := onReturn_moves sha256 task point
        rw [if_neg Bool.false_ne_true, hreturn]
        exact .quiet (.goto task stage) (hstage ▸ .returned hmove) rfl
    · cases h
  | read =>
    simp only [taskStep] at h
    split at h
    · rename_i hstage
      cases h
      obtain ⟨hsame, hmove⟩ := onRead_moves maxUploadSizeBytes task task.reads
      exact .quiet hsame (hstage ▸ hmove) rfl
    · cases h
  | failRead =>
    simp only [taskStep] at h
    split at h
    · rename_i hstage
      cases h
      exact .quiet (.goto task _) (hstage ▸ .stopped _) rfl
    · cases h
  | statement jobId createdAt => exact onStatement_moves h
  | lose tookEffect => exact lose_moves h
  | cancel tookEffect => exact onCancel_moves h

end Inversion
end AgenticRag.Services

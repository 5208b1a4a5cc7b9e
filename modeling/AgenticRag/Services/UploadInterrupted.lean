import AgenticRag.Services.UploadMoves

/-! Wherever an upload is interrupted, the file of a committed document stays, as long as no
COMMIT takes effect unseen: then the cleanup deletes the file of a row that is there. -/
namespace AgenticRag.Services
open Lib Python Db Ingestion Security

section Stages

def ThreadPoint.unwinding : ThreadPoint → Bool
  | .close raising => raising.isSome
  | .unlink _ | .cleanup _ => true
  | _ => false

/-- An exception is on its way through the call, or has left it. -/
def TaskStage.unwinding : TaskStage → Bool
  | .awaiting point _ => point.unwinding
  | .ended (.error _) => true
  | _ => false

def ThreadPoint.persisting : ThreadPoint → Bool
  | .deleteDuplicate _ | .deleteConflict => true
  | _ => false

/-- The call is past the select of `_persist_upload`. -/
def TaskStage.persisting : TaskStage → Bool
  | .awaiting point _ => point.persisting
  | .digest | .flush | .commit _ _ | .commitDuplicate _ => true
  | .resolveSelect | .resolveDigest | .resolveCommit _ => true
  | .ended (.ok _) => true
  | _ => false

/-- What becomes of the rows is decided, and the rest is the cleanup. -/
def TaskStage.settled : TaskStage → Bool
  | .awaiting (.cleanup _) _ => true
  | .ended _ => true
  | _ => false

variable {stage stage' : TaskStage} {point : ThreadPoint}

theorem RaisesTo.unwinding (h : RaisesTo point stage) : stage.unwinding = true := by
  cases h <;> rfl

theorem ReturnsTo.unwinding (h : ReturnsTo point stage) (hpoint : point.unwinding = true) :
    stage.unwinding = true := by
  cases h <;> first | rfl | cases hpoint

theorem Quiet.unwinding (h : Quiet stage stage') (hstage : stage.unwinding = true) :
    stage'.unwinding = true := by
  cases h with
  | start => exact hstage
  | returned h => exact h.unwinding hstage
  | raised h => exact h.unwinding
  | _ => cases hstage

theorem RaisesTo.not_persisting (h : RaisesTo point stage) : stage.persisting = false := by
  cases h <;> rfl

theorem ReturnsTo.persisting (h : ReturnsTo point stage) (hstage : stage.persisting = true) :
    point.persisting = true := by
  cases h <;> first | rfl | cases hstage

/-- Only the select leads past itself. -/
theorem Quiet.persisting (h : Quiet stage stage') (hstage' : stage'.persisting = true) :
    stage.persisting = true := by
  cases h with
  | start => exact hstage'
  | returned h => exact h.persisting hstage'
  | raised h =>
    rw [h.not_persisting] at hstage'
    cases hstage'
  | _ => first | rfl | cases hstage'

theorem Quiet.settled (h : Quiet stage stage') (hstage : stage.settled = true) :
    stage'.settled = true := by
  cases h with
  | start point => cases point <;> first | rfl | cases hstage
  | returned h => cases h <;> first | rfl | cases hstage
  | raised h => cases h <;> first | rfl | cases hstage
  | _ => cases hstage

end Stages

section Soundness

/-- A thread's effect is on the files. -/
theorem land_same {function : ThreadFunction} {task landed : UploadTask}
    (h : function.land task = some landed) :
    landed = { task with target := landed.target, temporary := landed.temporary } := by
  cases function with
  | «open» =>
    simp only [ThreadFunction.land] at h
    split at h <;> cases h
    rfl
  | replace =>
    obtain ⟨content, _, rfl⟩ := Option.map_eq_some_iff.mp h
    rfl
  | _ =>
    cases h
    rfl

theorem landLate_same (task : UploadTask) (function : ThreadFunction) (fails : Bool) :
    task.landLate function fails = { task with
      late := task.late.erase function
      target := (task.landLate function fails).target
      temporary := (task.landLate function fails).temporary } := by
  unfold UploadTask.landLate
  cases fails with
  | true => rfl
  | false =>
    cases hland : function.land { task with late := task.late.erase function } with
    | none => simp [hland]
    | some landed =>
      simp only [hland]
      exact land_same hland

/-- What holds of a call in every run. -/
structure UploadTask.Sound (task : UploadTask) : Prop where
  late : task.cancelled = false → task.late = []
  unwinding : task.cancelled = true → task.stage.unwinding = true
  began : task.stage.persisting = true → task.began = true
  document : ∀ document jobId, task.stage = .commit document jobId →
    document.id = task.documentId ∧ document.storageKey = task.key
  committed : ∀ document, task.committed = some document → task.began = true ∧
    document.id = task.documentId ∧ document.storageKey = task.key
  settled : task.committed.isSome → task.stage.settled = true

theorem Quiet.not_commit {stage stage' : TaskStage} (h : Quiet stage stage') (document : Document)
    (jobId : UUID) : stage' ≠ .commit document jobId := by
  cases h with
  | returned h => cases h <;> rintro ⟨⟩
  | raised h => cases h <;> rintro ⟨⟩
  | _ => rintro ⟨⟩

namespace UploadTask.Sound
variable {db db' : Database} {task task' : UploadTask} {action : TaskAction}

/-- A call that is not unwinding has not been cancelled. -/
theorem uncancelled (h : task.Sound) (hstage : task.stage.unwinding = false) :
    task.cancelled = false := by
  cases hc : task.cancelled with
  | false => rfl
  | true =>
    rw [h.unwinding hc] at hstage
    cases hstage

/-- A call whose rows are not settled has committed none. -/
theorem uncommitted (h : task.Sound) (hstage : task.stage.settled = false) : task.committed = none := by
  cases hc : task.committed with
  | none => rfl
  | some document =>
    have hsettled := h.settled (by rw [hc]; rfl)
    rw [hstage] at hsettled
    cases hsettled

/-- A stage or an effect on the files, by what the invariant reads. -/
theorem move (h : task.Sound) {stage : TaskStage} {target temporary : Option (List UInt8)}
    (hunwinding : task.cancelled = true → stage.unwinding = true)
    (hbegan : stage.persisting = true → task.began = true)
    (hcommit : ∀ document jobId, stage = .commit document jobId →
      document.id = task.documentId ∧ document.storageKey = task.key)
    (hsettled : task.committed.isSome → stage.settled = true) :
    ({ task with target, temporary }.goto stage).Sound :=
  ⟨h.late, hunwinding, hbegan, hcommit, h.committed, hsettled⟩

theorem begin (request : UploadRequest) (documentId : UUID) :
    (UploadTask.begin request documentId).Sound := by
  unfold UploadTask.begin
  simp only
  split <;> exact
    ⟨fun _ => rfl, by rintro ⟨⟩, by rintro ⟨⟩, by rintro _ _ ⟨⟩, by rintro _ ⟨⟩, by rintro ⟨⟩⟩

/-- The thread that is awaited ends. -/
theorem finished {point : ThreadPoint} {status status' : ThreadStatus} (h : task.Sound)
    (hstage : task.stage = .awaiting point status) (target temporary : Option (List UInt8)) :
    ({ task with target, temporary }.goto (.awaiting point status')).Sound := by
  have hunwinding := h.unwinding
  have hbegan := h.began
  have hsettled := h.settled
  rw [hstage] at hunwinding hbegan hsettled
  refine h.move hunwinding hbegan (by rintro _ _ ⟨⟩) fun hc => ?_
  have hold := hsettled hc
  cases point <;> first | rfl | cases hold

theorem step (h : task.Sound) (hmove : Moves db task action db' task') : task'.Sound := by
  cases hmove with
  | quiet same move _ =>
    have hkey : task'.key = task.key := by
      rw [UploadTask.key, same.request, same.documentId, same.extension, UploadTask.key]
    refine ⟨fun hc => ?_, fun hc => ?_, fun hp => ?_, fun document jobId hc => ?_, ?_, fun hc => ?_⟩
    · rw [same.late]
      exact h.late (same.cancelled ▸ hc)
    · exact move.unwinding (h.unwinding (same.cancelled ▸ hc))
    · rw [same.began]
      exact h.began (move.persisting hp)
    · exact absurd hc (move.not_commit document jobId)
    · rw [same.committed, same.began, same.documentId, hkey]
      exact h.committed
    · exact move.settled (h.settled (same.committed ▸ hc))
  | landed hstage heffect =>
    rw [land_same heffect]
    exact h.finished hstage _ _
  | failed hstage _ => exact h.finished hstage task.target task.temporary
  | @late function fails running =>
    have hcancelled : task.cancelled ≠ false := by
      intro hc
      rw [h.late hc] at running
      cases running
    rw [landLate_same]
    exact ⟨fun hc => absurd hc hcancelled, h.unwinding, h.began, h.document, h.committed, h.settled⟩
  | began selecting next =>
    have hcancelled := h.uncancelled (by rw [selecting]; rfl)
    have hcommitted := h.uncommitted (by rw [selecting]; rfl)
    refine ⟨h.late, fun hc => absurd (hcancelled.symm.trans hc) Bool.false_ne_true, fun _ => rfl, ?_,
      fun document hc => ?_, fun hc => ?_⟩
    · rintro document jobId hc
      rcases next with ⟨rfl, _⟩ | ⟨_, rfl⟩ <;> cases hc
    · exact ⟨rfl, (h.committed document hc).2⟩
    · rw [show _ = none from hcommitted] at hc
      cases hc
  | @flushed _ document jobId flushing hid hkey =>
    have hcancelled := h.uncancelled (by rw [flushing]; rfl)
    have hcommitted := h.uncommitted (by rw [flushing]; rfl)
    refine h.move (fun hc => absurd (hcancelled.symm.trans hc) Bool.false_ne_true)
      (fun _ => h.began (by rw [flushing]; rfl)) ?_ fun hc => ?_
    · rintro _ _ ⟨⟩
      exact ⟨hid, hkey⟩
    · rw [hcommitted] at hc
      cases hc
  | resolving selecting _ =>
    have hcancelled := h.uncancelled (by rw [selecting]; rfl)
    have hcommitted := h.uncommitted (by rw [selecting]; rfl)
    refine h.move (fun hc => absurd (hcancelled.symm.trans hc) Bool.false_ne_true)
      (fun _ => h.began (by rw [selecting]; rfl)) (by rintro _ _ ⟨⟩) fun hc => ?_
    rw [hcommitted] at hc
    cases hc
  | @committed _ document jobId job _ stage committing rows next cancelled flag =>
    have hcancelled := h.uncancelled (by rw [committing]; rfl)
    have hbegan : task.began = true := h.began (by rw [committing]; rfl)
    refine ⟨fun _ => h.late hcancelled, fun hc => ?_, fun _ => hbegan, ?_, ?_, fun _ => ?_⟩
    · rcases next with ⟨rfl, _, haction⟩ | ⟨_, _, rfl⟩
      · rw [flag, hcancelled, haction] at hc
        cases hc
      · rfl
    · rintro _ _ hc
      rcases next with ⟨rfl, _⟩ | ⟨_, _, rfl⟩ <;> cases hc
    · rintro _ ⟨⟩
      exact ⟨hbegan, h.document document jobId committing⟩
    · rcases next with ⟨rfl, _⟩ | ⟨_, _, rfl⟩ <;> rfl
  | @cancelledThread point status stage awaiting next =>
    refine ⟨by rintro ⟨⟩, fun _ => next.unwinding, fun hp => ?_, ?_, h.committed, fun hc => ?_⟩
    · exact absurd (next.not_persisting.symm.trans hp) Bool.false_ne_true
    · rintro _ _ rfl
      cases next
    · have hold := h.settled hc
      rw [awaiting] at hold
      cases next <;> first | rfl | cases hold
  | cancelled next raising =>
    refine ⟨by rintro ⟨⟩, fun _ => ?_, fun hp => h.began (next.persisting hp), ?_, h.committed,
      fun hc => next.settled (h.settled hc)⟩
    · rcases raising with ⟨_, rfl, _⟩ | ⟨_, rfl⟩ | ⟨_, rfl⟩ <;> rfl
    · exact fun document jobId hc => absurd hc (next.not_commit document jobId)

end UploadTask.Sound
end Soundness

section Runs
variable {sha256 : Sha256} {maxUploadSizeBytes : Nat}

/-- Steps of calls satisfy `C`. -/
def Taken (C : UploadTask → TaskAction → Prop) (s : IntakeState) : IntakeAction → Prop
  | .step id action => ∀ task ∈ s.tasks[id]?, C task action
  | .start _ _ | .elsewhere _ => True

instance decidableTaken (C : UploadTask → TaskAction → Prop) [∀ task action, Decidable (C task action)]
    (s : IntakeState) (action : IntakeAction) : Decidable (Taken C s action) := by
  unfold Taken
  split <;> infer_instance

theorem intakeStep_step {s t : IntakeState} {id : Nat} {action : TaskAction}
    (h : (intake sha256 maxUploadSizeBytes).step s (.step id action) = some t) :
    ∃ task r, s.tasks[id]? = some task ∧
      taskStep sha256 maxUploadSizeBytes s.db task action = some r ∧ t = ⟨r.1, s.tasks.set id r.2⟩ := by
  simp only [intake, intakeStep] at h
  split at h
  · cases h
  · rename_i task htask
    split at h
    · cases h
    · obtain ⟨r, hr, rfl⟩ := Option.map_eq_some_iff.mp h
      exact ⟨task, r, htask, hr, rfl⟩

/-- All that a step of the calls can do. -/
inductive IntakeMove (sha256 : Sha256) (maxUploadSizeBytes : Nat) (s : IntakeState) :
    IntakeAction → IntakeState → Prop
  | start {request documentId} (hfresh : documentId ∉ s.tasks.map UploadTask.documentId) :
    IntakeMove sha256 maxUploadSizeBytes s (.start request documentId)
      { s with tasks := s.tasks ++ [UploadTask.begin request documentId] }
  | step {id : Nat} {action : TaskAction} {task : UploadTask} {r : Database × UploadTask}
    (htask : s.tasks[id]? = some task)
    (htaken : taskStep sha256 maxUploadSizeBytes s.db task action = some r) :
    IntakeMove sha256 maxUploadSizeBytes s (.step id action) ⟨r.1, s.tasks.set id r.2⟩
  | elsewhere {db : Database} (hrespects : respectsLocks s.tasks s.db db = true) :
    IntakeMove sha256 maxUploadSizeBytes s (.elsewhere db) { s with db }

theorem intakeStep_move {s t : IntakeState} {action : IntakeAction}
    (h : (intake sha256 maxUploadSizeBytes).step s action = some t) :
    IntakeMove sha256 maxUploadSizeBytes s action t := by
  cases action with
  | start request documentId =>
    simp only [intake, intakeStep] at h
    split at h
    · cases h
    · obtain rfl := Option.some.inj h
      exact .start ‹_›
  | step id action =>
    obtain ⟨task, r, htask, htaken, rfl⟩ := intakeStep_step h
    exact .step htask htaken
  | elsewhere db =>
    simp only [intake, intakeStep] at h
    split at h
    · obtain rfl := Option.some.inj h
      exact .elsewhere ‹_›
    · cases h

/-- What every allowed step of a call preserves, every allowed run preserves of every call. -/
theorem tasks_preserved {P : UploadTask → Prop} {C : UploadTask → TaskAction → Prop}
    (hbegin : ∀ request documentId, P (UploadTask.begin request documentId))
    (hstep : ∀ db db' task task' action, P task → C task action → Moves db task action db' task' →
      P task')
    {actions : List IntakeAction} {s t : IntakeState} (hs : ∀ task ∈ s.tasks, P task)
    (hallowed : (intake sha256 maxUploadSizeBytes).Allowed (Taken C) s actions)
    (hrun : (intake sha256 maxUploadSizeBytes).run s actions = some t) :
    ∀ task ∈ t.tasks, P task := by
  refine Machine.run_invariant_of_allowed (I := fun s => ∀ task ∈ s.tasks, P task) ?_ hs hallowed hrun
  intro s action t h hC hs
  cases intakeStep_move hs with
  | start =>
    intro task htask
    rcases List.mem_append.mp htask with htask | htask
    · exact h task htask
    · rw [List.mem_singleton.mp htask]
      exact hbegin _ _
  | step htask htaken =>
    intro task' htask'
    rcases List.mem_or_eq_of_mem_set htask' with hold | rfl
    · exact h task' hold
    · exact hstep _ _ _ _ _ (h _ (List.mem_of_getElem? htask)) (hC _ htask) (taskStep_moves htaken)
  | elsewhere => exact h

/-- It holds of each call in every allowed run from a state without calls. -/
theorem tasks_invariant {P : UploadTask → Prop} {C : UploadTask → TaskAction → Prop}
    (hbegin : ∀ request documentId, P (UploadTask.begin request documentId))
    (hstep : ∀ db db' task task' action, P task → C task action → Moves db task action db' task' →
      P task')
    {db : Database} {actions : List IntakeAction} {s : IntakeState}
    (hallowed : (intake sha256 maxUploadSizeBytes).Allowed (Taken C) (.init db) actions)
    (hrun : (intake sha256 maxUploadSizeBytes).run (.init db) actions = some s) :
    ∀ task ∈ s.tasks, P task :=
  tasks_preserved hbegin hstep (fun _ htask => (List.not_mem_nil htask).elim) hallowed hrun

end Runs

section Kept

def ThreadPoint.isReplace : ThreadPoint → Bool
  | .replace => true
  | _ => false

/-- The file is published, and no statement has decided what becomes of it. -/
def TaskStage.published : TaskStage → Bool
  | .awaiting point (.finished raised) => point.isReplace && !raised
  | .select | .digest | .flush | .commit _ _ => true
  | _ => false

def TaskStage.returned : TaskStage → Bool
  | .ended (.ok _) => true
  | _ => false

theorem Quiet.published {stage stage' : TaskStage} (h : Quiet stage stage')
    (hstage' : stage'.published = true) : stage.published = true := by
  cases h with
  | returned h => cases h <;> first | rfl | cases hstage'
  | raised h => cases h <;> cases hstage'
  | _ => first | rfl | cases hstage'

theorem Quiet.not_returned {stage stage' : TaskStage} (h : Quiet stage stage') :
    stage.returned = false := by
  cases h <;> rfl

theorem TaskStage.of_unwinding {stage : TaskStage} (h : stage.unwinding = true) :
    stage.published = false ∧ stage.returned = false := by
  cases stage with
  | awaiting point status =>
    refine ⟨?_, rfl⟩
    cases point <;> first | (cases status <;> rfl) | cases h
  | ended outcome =>
    refine ⟨rfl, ?_⟩
    cases outcome with
    | ok => cases h
    | error => rfl
  | _ => cases h

def TaskStage.isEnded : TaskStage → Bool
  | .ended _ => true
  | _ => false

/-- The file is there from its publication on until the call has committed its row. -/
structure UploadTask.FileKept (task : UploadTask) : Prop extends task.Sound where
  present : task.stage.published = true → task.target.isSome
  kept : task.committed.isSome → task.target.isSome ∧ task.stage.returned = true

/-- The interruption of a COMMIT tells whether it took effect. -/
def Acknowledged (_ : UploadTask) (action : TaskAction) : Prop := action.unseen = false

instance decidableAcknowledged (task : UploadTask) (action : TaskAction) :
    Decidable (Acknowledged task action) := inferInstanceAs (Decidable (_ = _))

namespace UploadTask.FileKept
variable {db db' : Database} {task task' : UploadTask} {action : TaskAction}

theorem unkept (h : task.FileKept) (hstage : task.stage.returned = false) :
    task.committed = none := by
  cases hc : task.committed with
  | none => rfl
  | some document =>
    have hreturned := (h.kept (by rw [hc]; rfl)).2
    rw [hstage] at hreturned
    cases hreturned

/-- A call that has not committed keeps the invariant when its file stays or is not needed. -/
theorem of_uncommitted (hsound : task'.Sound) (hcommitted : task'.committed = none)
    (hpresent : task'.stage.published = true → task'.target.isSome) : task'.FileKept where
  toSound := hsound
  present := hpresent
  kept := by
    rw [hcommitted]
    rintro ⟨⟩

theorem begin (request : UploadRequest) (documentId : UUID) :
    (UploadTask.begin request documentId).FileKept := by
  have hsound := Sound.begin request documentId
  refine of_uncommitted hsound ?_ ?_
  · unfold UploadTask.begin
    simp only
    split <;> rfl
  · unfold UploadTask.begin
    simp only
    split <;> rintro ⟨⟩

theorem step (h : task.FileKept) (hseen : Acknowledged task action)
    (hmove : Moves db task action db' task') : task'.FileKept := by
  have hsound : task'.Sound := h.toSound.step hmove
  cases hmove with
  | quiet same move _ =>
    have hcommitted := h.unkept move.not_returned
    refine of_uncommitted hsound (same.committed.trans hcommitted) fun hp => ?_
    rw [same.target]
    exact h.present (move.published hp)
  | @landed point landed hstage heffect =>
    have hcommitted := h.unkept (by rw [hstage]; rfl)
    refine of_uncommitted hsound ?_ fun hp => ?_
    · rw [land_same heffect]
      exact hcommitted
    · cases point with
      | replace =>
        obtain ⟨content, _, rfl⟩ := Option.map_eq_some_iff.mp heffect
        rfl
      | _ => cases hp
  | @failed point fails hstage _ =>
    refine of_uncommitted hsound (h.unkept (by rw [hstage]; rfl)) fun hp => ?_
    exact absurd hp (by simp [UploadTask.goto, TaskStage.published])
  | @late function fails running =>
    have hcancelled : task.cancelled = true := by
      by_contra hc
      rw [h.late (Bool.eq_false_of_not_eq_true hc)] at running
      cases running
    obtain ⟨hpublished, hreturned⟩ := TaskStage.of_unwinding (h.unwinding hcancelled)
    rw [landLate_same] at hsound ⊢
    refine of_uncommitted hsound (h.unkept hreturned) fun hp => ?_
    exact absurd (hpublished.symm.trans hp) Bool.false_ne_true
  | began selecting next =>
    refine of_uncommitted hsound (h.unkept (by rw [selecting]; rfl)) fun _ => ?_
    exact h.present (by rw [selecting]; rfl)
  | flushed jobId flushing _ _ =>
    refine of_uncommitted hsound (h.unkept (by rw [flushing]; rfl)) fun _ => ?_
    exact h.present (by rw [flushing]; rfl)
  | resolving selecting _ =>
    refine of_uncommitted hsound (h.unkept (by rw [selecting]; rfl)) ?_
    rintro ⟨⟩
  | committed committing rows next flag =>
    have hpresent := h.present (by rw [committing]; rfl)
    rcases next with ⟨rfl, _⟩ | ⟨hunseen, _⟩
    · exact ⟨hsound, fun _ => hpresent, fun _ => ⟨hpresent, rfl⟩⟩
    · rw [hseen] at hunseen
      cases hunseen
  | cancelledThread awaiting next =>
    refine of_uncommitted hsound (h.unkept (by rw [awaiting]; rfl)) fun hp => ?_
    cases next <;> cases hp
  | cancelled next raising =>
    refine of_uncommitted hsound (h.unkept next.not_returned) fun hp => ?_
    rcases raising with ⟨_, rfl, _⟩ | ⟨_, rfl⟩ | ⟨_, rfl⟩ <;> cases hp

end UploadTask.FileKept

/-- In every run without a COMMIT that takes effect unseen, the file of a committed document
is there under its storage key, wherever the calls were cancelled or lost their connection. -/
theorem interrupted_upload_keeps_file (sha256 : Sha256) (maxUploadSizeBytes : Nat) {db : Database}
    {actions : List IntakeAction} {s : IntakeState}
    (hseen : (intake sha256 maxUploadSizeBytes).Allowed (Taken Acknowledged) (.init db) actions)
    (hrun : (intake sha256 maxUploadSizeBytes).run (.init db) actions = some s) :
    ∀ task ∈ s.tasks, ∀ document, task.committed = some document →
      document.id = task.documentId ∧ document.storageKey = task.key ∧ task.target.isSome := by
  intro task htask document hcommitted
  have hkept := tasks_invariant (P := UploadTask.FileKept) UploadTask.FileKept.begin
    (fun _ _ _ _ _ h hseen hmove => h.step hseen hmove) hseen hrun task htask
  obtain ⟨_, hid, hkey⟩ := hkept.committed document hcommitted
  exact ⟨hid, hkey, (hkept.kept (by rw [hcommitted]; rfl)).1⟩

/-- The only member owns the knowledge base, which holds no document yet. -/
def ownerDatabase : Database where
  users := ⟨[⟨1, str "owner", [], true⟩], List.nodup_singleton _⟩
  userSessions := Table.empty
  knowledgeBases := ⟨[⟨3, str "handbook", none, 0⟩], List.nodup_singleton _⟩
  memberships := ⟨[⟨3, 1, .owner⟩], List.nodup_singleton _⟩
  documents := Table.empty
  ingestionJobs := Table.empty
  documentChunks := Table.empty

def constantSha256 : Sha256 := fun _ => List.Vector.replicate 32 0

def ownerUpload : UploadRequest := ⟨1, 3, str "a.txt", "text/plain", [[0x41]]⟩

/-- A thread function runs and returns. -/
def threadSteps (id : Nat) : List IntakeAction :=
  [.step id .startThread, .step id (.landThread false), .step id .resume]

def untilReplace : List IntakeAction :=
  [.start ownerUpload 9, .step 0 (.statement 7 5)] ++ threadSteps 0 ++ threadSteps 0 ++ threadSteps 0 ++
    [.step 0 .read] ++ threadSteps 0 ++ [.step 0 .read] ++ threadSteps 0 ++ threadSteps 0 ++ threadSteps 0

def untilCommit : List IntakeAction :=
  untilReplace ++ threadSteps 0 ++
    [.step 0 (.statement 7 5), .step 0 (.statement 7 5), .step 0 (.statement 7 5)]

/-- A second call is cancelled while its `open` runs, which takes effect later. -/
def untilInterrupted : List IntakeAction :=
  untilReplace ++ [.start ownerUpload 10, .step 1 (.statement 8 6)] ++ threadSteps 1 ++ threadSteps 1 ++
    [.step 1 .startThread, .step 1 (.cancel false)] ++ threadSteps 0 ++ [.step 1 (.landLate .open false)] ++
    threadSteps 1

theorem interrupted_upload_keeps_file_example : ∃ s,
    (intake constantSha256 100).run (.init ownerDatabase)
      (untilInterrupted ++ List.replicate 4 (.step 0 (.statement 7 5))) = some s ∧
    (∃ task ∈ s.tasks, task.cancelled = true ∧ task.stage.isEnded = true) ∧
    (∃ task ∈ s.tasks, task.committed.isSome) ∧
    ∀ task ∈ s.tasks, ∀ document, task.committed = some document →
      document.id = task.documentId ∧ document.storageKey = task.key ∧ task.target.isSome := by
  have hrun : ((intake constantSha256 100).run (.init ownerDatabase)
      (untilInterrupted ++ List.replicate 4 (.step 0 (.statement 7 5)))).any fun s =>
        (s.tasks.any fun task => decide (task.cancelled = true ∧ task.stage.isEnded = true)) &&
          s.tasks.any fun task => task.committed.isSome := by decide +kernel
  obtain ⟨s, hs, htasks⟩ := (Option.any_eq_true _ _).mp hrun
  obtain ⟨hcancelled, hcommitted⟩ := Bool.and_eq_true_iff.mp htasks
  obtain ⟨task, htask, hended⟩ := List.any_eq_true.mp hcancelled
  refine ⟨s, hs, ⟨task, htask, of_decide_eq_true hended⟩, List.any_eq_true.mp hcommitted, ?_⟩
  exact interrupted_upload_keeps_file constantSha256 100 (by decide +kernel) hs

/-- The task is cancelled while its COMMIT takes effect. -/
theorem interrupted_upload_loses_file : ∃ s,
    (intake constantSha256 100).run (.init ownerDatabase)
      (untilCommit ++ [.step 0 (.cancel true)] ++ threadSteps 0) = some s ∧
    ∃ task ∈ s.tasks, task.stage.isEnded = true ∧ task.late = [] ∧ task.target = none ∧
      ∃ document ∈ s.db.documents.rows, task.committed = some document ∧
        document.storageKey = task.key := by
  have hrun : ((intake constantSha256 100).run (.init ownerDatabase)
      (untilCommit ++ [.step 0 (.cancel true)] ++ threadSteps 0)).any fun s =>
        s.tasks.any fun task => decide (task.stage.isEnded = true ∧ task.late = [] ∧ task.target = none ∧
          ∃ document ∈ s.db.documents.rows, task.committed = some document ∧
            document.storageKey = task.key) := by decide +kernel
  obtain ⟨s, hs, htasks⟩ := (Option.any_eq_true _ _).mp hrun
  obtain ⟨task, htask, hlost⟩ := List.any_eq_true.mp htasks
  exact ⟨s, hs, task, htask, of_decide_eq_true hlost⟩

end Kept
end AgenticRag.Services

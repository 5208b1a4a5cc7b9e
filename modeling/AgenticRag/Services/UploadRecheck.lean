import AgenticRag.Services.UploadCancelled

/-! Uploads against membership changes: whoever inserts rows or is told of a duplicate may
upload at that moment, under the locks of the transaction, and whoever no longer may is refused
and leaves nothing. -/
namespace AgenticRag.Services
open Lib Python Db Ingestion Security

section Permission

/-- The user has an owner or editor membership in the knowledge base. -/
def CanUpload (db : Database) (request : UploadRequest) : Prop :=
  ∃ membership, db.membership? request.knowledgeBaseId request.userId = some membership ∧
    (membership.role = .owner ∨ membership.role = .editor)

variable {db db' : Database} {task task' : UploadTask} {action : TaskAction}

theorem canUpload_of_authorized {request : UploadRequest}
    (h : authorizeUpload db request.knowledgeBaseId request.userId = .ok ()) : CanUpload db request := by
  unfold authorizeUpload at h
  split at h
  · cases h
  · rename_i knowledgeBase role htarget
    simp only [getUploadTargetForUser, bind, Option.bind_eq_some_iff, pure, Option.some.injEq,
      Prod.mk.injEq] at htarget
    obtain ⟨found, hfound, membership, hmembership, rfl, rfl⟩ := htarget
    rw [Table.find?_key hfound] at hmembership
    exact ⟨membership, hmembership, upload_roles.mp (requireCapability_ok.mp h)⟩

theorem CanUpload.congr {request : UploadRequest} (h : CanUpload db request)
    (heq : db'.membership? request.knowledgeBaseId request.userId =
      db.membership? request.knowledgeBaseId request.userId) : CanUpload db' request := by
  obtain ⟨membership, hmembership, hrole⟩ := h
  exact ⟨membership, heq.trans hmembership, hrole⟩

/-- No step of an upload changes a membership. -/
theorem Moves.memberships (h : Moves db task action db' task') : db'.memberships = db.memberships := by
  cases h with
  | committed _ rows =>
    obtain ⟨_, _, _, _, _, heq⟩ := insertUpload_ok rows
    rw [heq]
  | _ => rfl

theorem Moves.request (h : Moves db task action db' task') : task'.request = task.request := by
  cases h with
  | quiet same => exact same.request
  | landed _ heffect =>
    rw [land_same heffect]
    rfl
  | @late function fails _ => rw [landLate_same]
  | _ => rfl

theorem Quiet.inTransaction {stage stage' : TaskStage} (h : Quiet stage stage')
    (hstage' : stage'.inTransaction = true) : stage.inTransaction = true := by
  cases h with
  | start point => cases point <;> first | rfl | cases hstage'
  | returned h => cases h <;> first | rfl | cases hstage'
  | raised h => cases h <;> cases hstage'
  | _ => first | rfl | cases hstage'

/-- A call gets into a transaction only by a select that authorizes it. -/
theorem Moves.inTransaction (h : Moves db task action db' task')
    (hstage' : task'.stage.inTransaction = true) : task.stage.inTransaction = true ∨
      authorizeUpload db task.request.knowledgeBaseId task.request.userId = .ok () := by
  cases h with
  | quiet _ move => exact .inl (move.inTransaction hstage')
  | @landed point _ hstage =>
    rw [hstage]
    cases point <;> first | exact .inl rfl | cases hstage'
  | @failed point _ hstage =>
    rw [hstage]
    cases point <;> first | exact .inl rfl | cases hstage'
  | @late function fails _ =>
    rw [landLate_same] at hstage'
    exact .inl hstage'
  | began _ next =>
    rcases next with ⟨_, hauthorized⟩ | ⟨_, rfl⟩
    · exact .inr hauthorized
    · cases hstage'
  | flushed _ flushing =>
    rw [flushing]
    exact .inl rfl
  | resolving _ hauthorized => exact .inr hauthorized
  | committed committing =>
    rw [committing]
    exact .inl rfl
  | cancelledThread _ next => cases next <;> cases hstage'
  | cancelled next => exact .inl (next.inTransaction hstage')

theorem Quiet.returns {stage : TaskStage} {result : UploadResult} (h : Quiet stage (.ended (.ok result))) :
    stage.inTransaction = true := by
  cases h with
  | returned h => cases h
  | raised h => cases h
  | found => rfl
  | resolved => rfl

/-- A call returns from a transaction. -/
theorem Moves.returns (h : Moves db task action db' task') (hended : task.stage.isEnded = false)
    {result : UploadResult} (hstage' : task'.stage = .ended (.ok result)) :
    task.stage.inTransaction = true := by
  cases h with
  | quiet _ move =>
    rw [hstage'] at move
    exact move.returns
  | landed => cases hstage'
  | failed => cases hstage'
  | @late function fails _ =>
    rw [landLate_same] at hstage'
    rw [show task.stage = _ from hstage'] at hended
    cases hended
  | began _ next => rcases next with ⟨rfl, _⟩ | ⟨_, rfl⟩ <;> cases hstage'
  | flushed => cases hstage'
  | resolving => cases hstage'
  | committed committing =>
    rw [committing]
    rfl
  | cancelledThread _ next => cases next <;> cases hstage'
  | @cancelled stage next =>
    obtain rfl : stage = .ended (.ok result) := hstage'
    exact next.returns

/-- Rows come with a COMMIT. -/
theorem Moves.inserts (h : Moves db task action db' task') (hold : task.committed = none)
    {document : Document} (hnew : task'.committed = some document) :
    task.stage.inTransaction = true ∧ ∃ jobId job, insertUpload db document jobId = .ok (job, db') := by
  have hnone (h : task.committed = some document) : False := by
    rw [hold] at h
    cases h
  cases h with
  | quiet same =>
    rw [same.committed] at hnew
    exact (hnone hnew).elim
  | landed _ heffect =>
    rw [land_same heffect] at hnew
    exact (hnone hnew).elim
  | @late function fails _ =>
    rw [landLate_same] at hnew
    exact (hnone hnew).elim
  | committed committing rows =>
    obtain rfl := Option.some.inj hnew
    rw [committing]
    exact ⟨rfl, _, _, rows⟩
  | _ => exact (hnone hnew).elim

end Permission

section Runs
variable {sha256 : Sha256} {maxUploadSizeBytes : Nat} {s t : IntakeState}

/-- Every call in a transaction may upload: its select said so, and its locks keep it so. -/
def IntakeState.Authorized (s : IntakeState) : Prop :=
  ∀ task ∈ s.tasks, task.stage.inTransaction = true → CanUpload s.db task.request

theorem intakeStep_authorized (s : IntakeState) (action : IntakeAction) (t : IntakeState)
    (h : s.Authorized) (hstep : (intake sha256 maxUploadSizeBytes).step s action = some t) :
    t.Authorized := by
  cases intakeStep_move hstep with
  | start =>
    intro task htask hin
    rcases List.mem_append.mp htask with htask | htask
    · exact h task htask hin
    · rw [List.mem_singleton.mp htask, UploadTask.begin] at hin
      simp only at hin
      split at hin <;> cases hin
  | @step id action task r htask htaken =>
    have hmove := taskStep_moves htaken
    have hkeep {request : UploadRequest} (hcan : CanUpload s.db request) : CanUpload r.1 request := by
      refine hcan.congr ?_
      rw [Database.membership?, hmove.memberships, Database.membership?]
    intro task' htask' hin
    rcases List.mem_or_eq_of_mem_set htask' with hold | rfl
    · exact hkeep (h task' hold hin)
    · rw [hmove.request]
      rcases hmove.inTransaction hin with hin | hauthorized
      · exact hkeep (h task (List.mem_of_getElem? htask) hin)
      · exact hkeep (canUpload_of_authorized hauthorized)
  | elsewhere hrespects =>
    intro task htask hin
    have hlocked := List.all_eq_true.mp hrespects task htask
    simp only [hin, Bool.not_true, Bool.false_or, Bool.and_eq_true, decide_eq_true_eq] at hlocked
    exact (h task htask hin).congr hlocked.1

/-- What a step does to one call. -/
theorem step_at {action : IntakeAction} {id : Nat} {task task' : UploadTask}
    (hstep : (intake sha256 maxUploadSizeBytes).step s action = some t) (htask : s.tasks[id]? = some task)
    (htask' : t.tasks[id]? = some task') :
    task' = task ∨ ∃ action, Moves s.db task action t.db task' := by
  have hlt := (List.getElem?_eq_some_iff.mp htask).1
  cases intakeStep_move hstep with
  | start =>
    rw [List.getElem?_append_left hlt, htask] at htask'
    exact .inl (Option.some.inj htask').symm
  | @step id' action task₀ r htask₀ htaken =>
    by_cases hid : id' = id
    · subst hid
      obtain rfl := Option.some.inj (htask.symm.trans htask₀)
      rw [List.getElem?_set_self hlt] at htask'
      obtain rfl := Option.some.inj htask'
      exact .inr ⟨action, taskStep_moves htaken⟩
    · rw [List.getElem?_set_ne hid, htask] at htask'
      exact .inl (Option.some.inj htask').symm
  | elsewhere => exact .inl (Option.some.inj (htask.symm.trans htask')).symm

end Runs

section Refusal

/-- No thread fails and no task is cancelled, so that no thread is left behind. -/
def Undisturbed (_ : UploadTask) : TaskAction → Prop
  | .landThread fails => fails = false
  | .landLate _ _ => False
  | .cancel _ => False
  | _ => True

instance decidableUndisturbed (task : UploadTask) (action : TaskAction) :
    Decidable (Undisturbed task action) :=
  match action with
  | .landThread fails => inferInstanceAs (Decidable (fails = false))
  | .landLate _ _ | .cancel _ => .isFalse not_false
  | .startThread | .resume | .read | .failRead | .statement _ _ | .lose _ => .isTrue trivial

/-- A call of an undisturbed run. -/
structure UploadTask.Calm (task : UploadTask) : Prop extends task.Tidy where
  uncancelled : task.cancelled = false

/-- The call was refused with `e`: nothing but its cleanup is ahead. -/
structure UploadTask.Refused (e : AppException) (task : UploadTask) : Prop where
  committed : task.committed = none
  stage : (∃ status, task.stage = .awaiting (.cleanup (.upload (.app e))) status ∧
      status ≠ .finished true) ∨ task.stage = .ended (.error (.upload (.app e)))

variable {db db' : Database} {task task' : UploadTask} {action : TaskAction} {e : AppException}

theorem Undisturbed.orderly (h : Undisturbed task action) : Orderly task action := by
  cases action with
  | landThread fails => exact fun _ => h
  | landLate => cases h
  | cancel => cases h
  | _ => trivial

theorem UploadTask.Calm.begin (request : UploadRequest) (documentId : UUID) :
    (UploadTask.begin request documentId).Calm := by
  refine ⟨Tidy.begin request documentId, ?_⟩
  unfold UploadTask.begin
  simp only
  split <;> rfl

theorem UploadTask.Calm.step (h : task.Calm) (hundisturbed : Undisturbed task action)
    (hmove : Moves db task action db' task') : task'.Calm where
  toTidy := h.toTidy.step hundisturbed.orderly hmove
  uncancelled := by
    have hkept := h.uncancelled
    cases hmove with
    | quiet same => rwa [same.cancelled]
    | landed _ heffect => rwa [land_same heffect]
    | late => cases hundisturbed
    | @committed _ _ _ _ _ _ _ _ _ _ flag =>
      cases action with
      | cancel => cases hundisturbed
      | _ =>
        rw [hkept] at flag
        exact flag
    | cancelledThread => cases hundisturbed
    | cancelled => cases hundisturbed
    | _ => exact hkept

/-- A refused call stays refused. -/
theorem UploadTask.Refused.step (h : task.Refused e) (hundisturbed : Undisturbed task action)
    (hmove : Moves db task action db' task') : task'.Refused e := by
  have hstage := h.stage
  cases hmove with
  | quiet same move =>
    refine ⟨same.committed.trans h.committed, ?_⟩
    rcases hstage with ⟨status, hstage, hfails⟩ | hstage
    · rw [hstage] at move
      generalize task'.stage = stage' at move ⊢
      cases move with
      | start => exact .inl ⟨_, rfl, by rintro ⟨⟩⟩
      | returned h =>
        cases h
        exact .inr rfl
      | raised => exact absurd rfl hfails
    · rw [hstage] at move
      cases move
  | landed hawaiting heffect =>
    rw [hawaiting] at hstage
    rcases hstage with ⟨_, hstage, _⟩ | hstage <;> cases hstage
    cases heffect
    exact ⟨h.committed, .inl ⟨_, rfl, by rintro ⟨⟩⟩⟩
  | failed hawaiting heffect =>
    rw [hawaiting] at hstage
    rcases hstage with ⟨_, hstage, _⟩ | hstage <;> cases hstage
    rw [show _ = false from hundisturbed] at heffect
    cases heffect.resolve_left Bool.false_ne_true
  | late => cases hundisturbed
  | cancelledThread => cases hundisturbed
  | cancelled => cases hundisturbed
  | began selecting | flushed _ selecting | resolving selecting | committed selecting =>
    rw [selecting] at hstage
    rcases hstage with ⟨_, hstage, _⟩ | hstage <;> cases hstage

variable {sha256 : Sha256} {maxUploadSizeBytes : Nat} {s t : IntakeState}

/-- In every undisturbed run a refused call stays refused. -/
theorem refused_preserved {id : Nat} {actions : List IntakeAction}
    (hs : ∃ task, s.tasks[id]? = some task ∧ task.Refused e)
    (hundisturbed : (intake sha256 maxUploadSizeBytes).Allowed (Taken Undisturbed) s actions)
    (hrun : (intake sha256 maxUploadSizeBytes).run s actions = some t) :
    ∃ task, t.tasks[id]? = some task ∧ task.Refused e := by
  refine Machine.run_invariant_of_allowed
    (I := fun s => ∃ task, s.tasks[id]? = some task ∧ task.Refused e) ?_ hs hundisturbed hrun
  rintro s action t ⟨task, htask, hrefused⟩ hC hstep
  have hlt := (List.getElem?_eq_some_iff.mp htask).1
  cases intakeStep_move hstep with
  | start => exact ⟨task, (List.getElem?_append_left hlt).trans htask, hrefused⟩
  | @step id' action task' r htask' htaken =>
    by_cases hid : id' = id
    · subst hid
      obtain rfl := Option.some.inj (htask.symm.trans htask')
      exact ⟨r.2, List.getElem?_set_self hlt, hrefused.step (hC task htask) (taskStep_moves htaken)⟩
    · exact ⟨task, (List.getElem?_set_ne hid).trans htask, hrefused⟩
  | elsewhere => exact ⟨task, htask, hrefused⟩

/-- A step of a call that awaits a thread. -/
private theorem step_of_taskStep (sha256 : Sha256) (maxUploadSizeBytes : Nat) {id : Nat}
    {point : ThreadPoint} {status : ThreadStatus} (htask : s.tasks[id]? = some task)
    (hstage : task.stage = .awaiting point status)
    (hstep : taskStep sha256 maxUploadSizeBytes s.db task action = some (s.db, task')) :
    ∃ t, (intake sha256 maxUploadSizeBytes).step s (.step id action) = some t ∧
      t.tasks[id]? = some task' := by
  have hlocks : locksRows task action = false := by
    cases action <;> simp [locksRows, hstage]
  refine ⟨{ s with tasks := s.tasks.set id task' }, ?_, ?_⟩
  · simp only [intake, intakeStep, htask, hlocks, Bool.false_and, Bool.false_eq_true, if_false, hstep,
      Option.map_some]
  · exact List.getElem?_set_self (List.getElem?_eq_some_iff.mp htask).1

/-- The cleanup of a call ends it. -/
theorem cleanup_ends (sha256 : Sha256) (maxUploadSizeBytes : Nat) {id : Nat} {r : Raising}
    (htask : s.tasks[id]? = some task) (hstage : task.stage = .awaiting (.cleanup r) .queued) :
    ∃ t task', (intake sha256 maxUploadSizeBytes).run s
        [.step id .startThread, .step id (.landThread false), .step id .resume] = some t ∧
      t.tasks[id]? = some task' ∧ task'.stage = .ended (.error r) := by
  have hstart : taskStep sha256 maxUploadSizeBytes s.db task .startThread =
      some (s.db, task.goto (.awaiting (.cleanup r) .running)) := by
    simp only [taskStep, hstage]
  obtain ⟨s₁, hs₁, htask₁⟩ := step_of_taskStep sha256 maxUploadSizeBytes htask hstage hstart
  obtain ⟨s₂, hs₂, htask₂⟩ := step_of_taskStep sha256 maxUploadSizeBytes htask₁ rfl
    (show taskStep _ _ s₁.db _ (.landThread false) = some (s₁.db, _) from rfl)
  obtain ⟨s₃, hs₃, htask₃⟩ := step_of_taskStep sha256 maxUploadSizeBytes htask₂ rfl
    (show taskStep _ _ s₂.db _ .resume = some (s₂.db, _) from rfl)
  refine ⟨s₃, _, ?_, htask₃, rfl⟩
  rw [Machine.run_cons, hs₁, Option.bind_some, Machine.run_cons, hs₂, Option.bind_some,
    Machine.run_cons, hs₃, Option.bind_some, Machine.run_nil]

/-- A select refuses whoever may not upload. -/
theorem select_refuses {id : Nat} {jobId : UUID} {createdAt : Time} (htask : s.tasks[id]? = some task)
    (hcommitted : task.committed = none) (hselect : task.stage = .select ∨ task.stage = .resolveSelect)
    (hdenied : ¬CanUpload s.db task.request)
    (hstep : (intake sha256 maxUploadSizeBytes).step s (.step id (.statement jobId createdAt)) = some t) :
    ∃ e, authorizeUpload s.db task.request.knowledgeBaseId task.request.userId = .error e ∧
      ∃ task', t.tasks[id]? = some task' ∧ task'.committed = none ∧
        task'.stage = .awaiting (.cleanup (.upload (.app e))) .queued := by
  obtain ⟨task₀, r, htask₀, htaken, rfl⟩ := intakeStep_step hstep
  obtain rfl := Option.some.inj (htask.symm.trans htask₀)
  have hlt := (List.getElem?_eq_some_iff.mp htask).1
  cases hauthorize : authorizeUpload s.db task.request.knowledgeBaseId task.request.userId with
  | ok => exact absurd (canUpload_of_authorized hauthorize) hdenied
  | error e =>
    refine ⟨e, rfl, r.2, List.getElem?_set_self hlt, ?_⟩
    rcases hselect with hselect | hselect
    · simp only [taskStep, hselect, UploadTask.onStatement, hauthorize, Option.some.injEq] at htaken
      obtain rfl := htaken
      exact ⟨hcommitted, rfl⟩
    · simp only [taskStep, hselect, UploadTask.onStatement, hauthorize, Option.some.injEq] at htaken
      obtain rfl := htaken
      exact ⟨hcommitted, rfl⟩

/-- What becomes of a call that its last transaction refuses: it inserts nothing, it ends, and
when it has ended it has raised the refusal and has no file. -/
theorem refused_leaves_nothing (sha256 : Sha256) (maxUploadSizeBytes : Nat) {db : Database}
    {actions : List IntakeAction} {id : Nat} {jobId : UUID} {createdAt : Time}
    (hundisturbed : (intake sha256 maxUploadSizeBytes).Allowed (Taken Undisturbed) (.init db) actions)
    (hrun : (intake sha256 maxUploadSizeBytes).run (.init db) actions = some s)
    (htask : s.tasks[id]? = some task) (hselect : task.stage = .select ∨ task.stage = .resolveSelect)
    (hdenied : ¬CanUpload s.db task.request)
    (hstep : (intake sha256 maxUploadSizeBytes).step s (.step id (.statement jobId createdAt)) = some t) :
    ∃ e, authorizeUpload s.db task.request.knowledgeBaseId task.request.userId = .error e ∧
      (∃ later u task', (intake sha256 maxUploadSizeBytes).run t later = some u ∧
        u.tasks[id]? = some task' ∧ task'.stage = .ended (.error (.upload (.app e)))) ∧
      ∀ later u, (intake sha256 maxUploadSizeBytes).Allowed (Taken Undisturbed) t later →
        (intake sha256 maxUploadSizeBytes).run t later = some u → ∃ task', u.tasks[id]? = some task' ∧
          task'.committed = none ∧ (task'.stage.isEnded = true →
            task'.stage = .ended (.error (.upload (.app e))) ∧ task'.target = none ∧
              task'.temporary = none) := by
  have hpreserved {actions : List IntakeAction} {s t : IntakeState} (hs : ∀ task ∈ s.tasks, task.Calm)
      (hundisturbed : (intake sha256 maxUploadSizeBytes).Allowed (Taken Undisturbed) s actions)
      (hrun : (intake sha256 maxUploadSizeBytes).run s actions = some t) : ∀ task ∈ t.tasks, task.Calm :=
    tasks_preserved UploadTask.Calm.begin (fun _ _ _ _ _ h hu hmove => h.step hu hmove) hs hundisturbed hrun
  have hcalm : ∀ task ∈ s.tasks, task.Calm :=
    hpreserved (fun _ htask => (List.not_mem_nil htask).elim) hundisturbed hrun
  have hcalm' : ∀ task ∈ t.tasks, task.Calm := by
    have hallowed : (intake sha256 maxUploadSizeBytes).Allowed (Taken Undisturbed) s
        [.step id (.statement jobId createdAt)] := ⟨fun _ _ => trivial, fun _ _ => trivial⟩
    refine hpreserved hcalm hallowed ?_
    rw [Machine.run_cons, hstep, Option.bind_some, Machine.run_nil]
  have hcommitted : task.committed = none := by
    refine (hcalm task (List.mem_of_getElem? htask)).uncommitted ?_
    rcases hselect with hselect | hselect <;> rw [hselect] <;> rfl
  obtain ⟨e, hauthorize, task', htask', hcommitted', hstage'⟩ :=
    select_refuses htask hcommitted hselect hdenied hstep
  refine ⟨e, hauthorize, ?_, fun later u hlater hu => ?_⟩
  · obtain ⟨u, task'', hu, htask'', hended⟩ := cleanup_ends sha256 maxUploadSizeBytes htask' hstage'
    exact ⟨_, u, task'', hu, htask'', hended⟩
  · have hrefused : task'.Refused e := ⟨hcommitted', .inl ⟨_, hstage', by rintro ⟨⟩⟩⟩
    obtain ⟨task'', htask'', hrefused'⟩ := refused_preserved ⟨task', htask', hrefused⟩ hlater hu
    refine ⟨task'', htask'', hrefused'.committed, fun hended => ?_⟩
    rcases hrefused'.stage with ⟨status, hstage, _⟩ | hstage
    · rw [hstage] at hended
      cases hended
    · have hquiet := hpreserved hcalm' hlater hu task'' (List.mem_of_getElem? htask'')
      exact ⟨hstage, hquiet.nothing_left (.inr hquiet.uncancelled) hstage (hquiet.late hquiet.uncancelled)⟩

/-- Authorization is rechecked where it counts, in every run: a call in a transaction may
upload while it holds its locks; rows are inserted, and results returned, from such a
transaction only; and in an undisturbed run a call that its last transaction refuses raises,
inserts nothing and leaves no file. -/
theorem upload_authorization_rechecked (sha256 : Sha256) (maxUploadSizeBytes : Nat) {db : Database}
    {actions : List IntakeAction} {s : IntakeState}
    (hrun : (intake sha256 maxUploadSizeBytes).run (.init db) actions = some s) :
    (∀ task ∈ s.tasks, task.stage.inTransaction = true → CanUpload s.db task.request) ∧
    (∀ (action : IntakeAction) (t : IntakeState) (id : Nat) (task task' : UploadTask) (document : Document),
      (intake sha256 maxUploadSizeBytes).step s action = some t → s.tasks[id]? = some task →
      t.tasks[id]? = some task' → task.committed = none → task'.committed = some document →
      task.stage.inTransaction = true ∧ CanUpload s.db task.request ∧
        ∃ jobId job, insertUpload s.db document jobId = .ok (job, t.db)) ∧
    (∀ (action : IntakeAction) (t : IntakeState) (id : Nat) (task task' : UploadTask)
      (result : UploadResult),
      (intake sha256 maxUploadSizeBytes).step s action = some t → s.tasks[id]? = some task →
      t.tasks[id]? = some task' → task.stage.isEnded = false → task'.stage = .ended (.ok result) →
      task.stage.inTransaction = true ∧ CanUpload s.db task.request) ∧
    (∀ (id : Nat) (task : UploadTask) (jobId : UUID) (createdAt : Time) (t : IntakeState),
      (intake sha256 maxUploadSizeBytes).Allowed (Taken Undisturbed) (.init db) actions →
      s.tasks[id]? = some task → task.stage = .select ∨ task.stage = .resolveSelect →
      ¬CanUpload s.db task.request →
      (intake sha256 maxUploadSizeBytes).step s (.step id (.statement jobId createdAt)) = some t →
      ∃ e, authorizeUpload s.db task.request.knowledgeBaseId task.request.userId = .error e ∧
        (∃ later u task', (intake sha256 maxUploadSizeBytes).run t later = some u ∧
          u.tasks[id]? = some task' ∧ task'.stage = .ended (.error (.upload (.app e)))) ∧
        ∀ later u, (intake sha256 maxUploadSizeBytes).Allowed (Taken Undisturbed) t later →
          (intake sha256 maxUploadSizeBytes).run t later = some u → ∃ task', u.tasks[id]? = some task' ∧
            task'.committed = none ∧ (task'.stage.isEnded = true →
              task'.stage = .ended (.error (.upload (.app e))) ∧ task'.target = none ∧
                task'.temporary = none)) := by
  have hauthorized : s.Authorized :=
    Machine.run_invariant intakeStep_authorized (fun _ htask => (List.not_mem_nil htask).elim) hrun
  refine ⟨hauthorized, ?_, ?_, ?_⟩
  · intro action t id task task' document hstep htask htask' hold hnew
    rcases step_at hstep htask htask' with rfl | ⟨_, hmove⟩
    · rw [hold] at hnew
      cases hnew
    · obtain ⟨hin, hrows⟩ := hmove.inserts hold hnew
      exact ⟨hin, hauthorized task (List.mem_of_getElem? htask) hin, hrows⟩
  · intro action t id task task' result hstep htask htask' hended hstage'
    rcases step_at hstep htask htask' with rfl | ⟨_, hmove⟩
    · rw [hstage'] at hended
      cases hended
    · have hin := hmove.returns hended hstage'
      exact ⟨hin, hauthorized task (List.mem_of_getElem? htask) hin⟩
  · intro id task jobId createdAt t hundisturbed htask hselect hdenied hstep
    exact refused_leaves_nothing sha256 maxUploadSizeBytes hundisturbed hrun htask hselect hdenied hstep

/-- The owner's membership is removed while the source is streamed. -/
def removedMeanwhile : List IntakeAction :=
  untilReplace ++ [.elsewhere { ownerDatabase with memberships := Table.empty }] ++ threadSteps 0

theorem upload_authorization_rechecked_example :
    (∃ s, (intake constantSha256 100).run (.init ownerDatabase) untilCommit = some s ∧
      ∃ task ∈ s.tasks, task.stage.inTransaction = true ∧ CanUpload s.db task.request) ∧
    ∃ s t, (intake constantSha256 100).run (.init ownerDatabase) removedMeanwhile = some s ∧
      (intake constantSha256 100).step s (.step 0 (.statement 7 5)) = some t ∧
      ∃ e later u task', (intake constantSha256 100).run t later = some u ∧
        u.tasks[0]? = some task' ∧ task'.stage = .ended (.error (.upload (.app e))) := by
  constructor
  · have hrun : ((intake constantSha256 100).run (.init ownerDatabase) untilCommit).any fun s =>
        s.tasks.any fun task => task.stage.inTransaction := by decide +kernel
    obtain ⟨s, hs, htasks⟩ := (Option.any_eq_true _ _).mp hrun
    obtain ⟨task, htask, hin⟩ := List.any_eq_true.mp htasks
    exact ⟨s, hs, task, htask, hin,
      (upload_authorization_rechecked constantSha256 100 hs).1 task htask hin⟩
  · have hrun : ((intake constantSha256 100).run (.init ownerDatabase) removedMeanwhile).any fun s =>
        ((intake constantSha256 100).step s (.step 0 (.statement 7 5))).isSome &&
          s.tasks[0]?.any fun task => decide (task.stage = .select ∧
            s.db.membership? task.request.knowledgeBaseId task.request.userId = none) := by decide +kernel
    obtain ⟨s, hs, hselecting⟩ := (Option.any_eq_true _ _).mp hrun
    obtain ⟨hstep, hselecting⟩ := (Bool.and_eq_true_iff).mp hselecting
    obtain ⟨t, ht⟩ := Option.isSome_iff_exists.mp hstep
    obtain ⟨task, htask, hselecting⟩ := (Option.any_eq_true _ _).mp hselecting
    obtain ⟨hselect, hnone⟩ := of_decide_eq_true hselecting
    have hdenied : ¬CanUpload s.db task.request := by
      rintro ⟨_, hmembership, _⟩
      rw [hnone] at hmembership
      cases hmembership
    obtain ⟨e, _, ⟨later, u, task', hends⟩, _⟩ := (upload_authorization_rechecked constantSha256 100 hs).2.2.2
      0 task 7 5 t (by decide +kernel) htask (.inl hselect) hdenied ht
    exact ⟨s, t, hs, ht, e, later, u, task', hends⟩

end Refusal
end AgenticRag.Services

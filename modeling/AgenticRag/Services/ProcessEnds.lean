import AgenticRag.Services.ProcessTask

/-! A call of `process_next` can always come to its end: the tasks that it joins have ended or
were cancelled, and each stage may raise. -/
namespace AgenticRag.Services
open Lib Python Db Ingestion

/-- The task has ended, or its `cancel` was called. -/
def WorkTask.Ending : WorkTask → Prop
  | .running _ cancelling => cancelling = true
  | .done _ _ => True

def LeaseLostTask.Ending : LeaseLostTask → Prop
  | .running cancelling => cancelling = true
  | .done => True

def HeartbeatTask.Ending : HeartbeatTask → Prop
  | .waiting stopping | .renewing _ stopping => stopping = true
  | .done => True

/-- What the call joins is about to end. -/
def ProcessTask.Joins (task : ProcessTask) : Prop :=
  match task.point with
  | .gathering _ => task.work.Ending ∧ task.leaseLost.Ending
  | .joiningWork => task.work.Ending ∧ task.lost ≠ none
  | .joiningLeaseLost =>
    (∃ operation outcome, task.work = .done operation outcome) ∧ task.leaseLost.Ending
  | .stopping _ => task.heartbeat.Ending
  | _ => True

theorem WorkTask.cancel_ending (work : WorkTask) : work.cancel.Ending := by
  cases work with
  | running operation cancelling => rfl
  | done operation outcome => trivial

theorem LeaseLostTask.cancel_ending (leaseLost : LeaseLostTask) : leaseLost.cancel.Ending := by
  cases leaseLost with
  | running cancelling => rfl
  | done => trivial

theorem HeartbeatTask.cancel_ending (heartbeat : HeartbeatTask) : heartbeat.cancel.Ending := by
  cases heartbeat with
  | waiting stopping => rfl
  | renewing now stopping => rfl
  | done => trivial

section Joins
variable {sha256 : Sha256} {uuid5 : UUID → Str → UUID} {svc : IngestionProcessingService}
  {claimed : ClaimedDocument} {task next : ProcessTask} {now : Time}

theorem joins_gather (result : Except Raised Statement) : (task.gather result).Joins :=
  ⟨task.work.cancel_ending, task.leaseLost.cancel_ending⟩

theorem joins_settle (raised : Raised) : (task.settle raised now).Joins := by
  unfold ProcessTask.settle
  split <;> trivial

theorem joins_handle (raised : Raised) : (task.handle raised now).Joins := by
  unfold ProcessTask.handle
  split
  · exact joins_settle raised
  · exact task.heartbeat.cancel_ending

theorem joins_completeOwned : (task.completeOwned now).Joins := by
  unfold ProcessTask.completeOwned
  split
  · exact joins_handle _
  · trivial

theorem joins_withLease (operation : Operation) : (task.withLease operation).Joins := by
  unfold ProcessTask.withLease
  split
  · exact joins_gather _
  · trivial

theorem joins_begin (statement : Statement) : (task.begin now statement).Joins := by
  cases statement with
  | withLease operation => exact joins_withLease operation
  | replaceChunks chunks => trivial
  | completeSuccess =>
    unfold ProcessTask.begin
    dsimp only
    split
    · exact joins_completeOwned
    · exact task.heartbeat.cancel_ending

theorem joins_fail (raised : Raised) : (task.fail raised now).Joins := by
  unfold ProcessTask.fail
  split
  · trivial
  · trivial
  · exact joins_handle raised

theorem joins_proceed (h : (task.commit uuid5 svc claimed).isSome) {written : ProcessTask}
    (hpoint : written.point = task.point) : (written.proceed uuid5 claimed).Joins := by
  unfold ProcessTask.commit at h
  unfold ProcessTask.proceed
  rw [hpoint]
  cases hp : task.point with
  | replacingChunks chunks now => exact joins_withLease _
  | completingSuccess now => trivial
  | completingFailure raised failure now => cases raised <;> trivial
  | _ =>
    rw [hp] at h
    cases h

/-- A transaction writes the rows and its log. -/
theorem commit_spec {written : ProcessTask} (h : task.commit uuid5 svc claimed = some (.ok written)) :
    ∃ db succeeded failed, written = { task with db, succeeded, failed } := by
  unfold ProcessTask.commit at h
  split at h
  · cases hreplace : svc.replaceChunks task.db claimed (durableChunks uuid5 claimed _) _ with
    | error raised =>
      rw [hreplace] at h
      cases h
    | ok db =>
      rw [hreplace] at h
      obtain rfl := Except.ok.inj (Option.some.inj h)
      exact ⟨_, _, _, rfl⟩
  · split at h
    · obtain rfl := Except.ok.inj (Option.some.inj h)
      exact ⟨_, _, _, rfl⟩
    · cases h
  · obtain rfl := Except.ok.inj (Option.some.inj h)
    exact ⟨_, _, _, rfl⟩
  · cases h

theorem commit_point {written : ProcessTask} (h : task.commit uuid5 svc claimed = some (.ok written)) :
    written.point = task.point := by
  obtain ⟨_, _, _, rfl⟩ := commit_spec h
  rfl

/-- A step beside the course of the call. -/
theorem ProcessTask.Joins.beside (h : task.Joins) (hpoint : next.point = task.point)
    (hwork : task.work.Ending → next.work.Ending)
    (hdone : ∀ operation outcome, task.work = .done operation outcome → next.work = task.work)
    (hleaseLost : task.leaseLost.Ending → next.leaseLost.Ending)
    (hheartbeat : task.heartbeat.Ending → next.heartbeat.Ending)
    (hlost : task.lost ≠ none → next.lost ≠ none) : next.Joins := by
  unfold ProcessTask.Joins at h ⊢
  rw [hpoint]
  cases hp : task.point with
  | gathering result =>
    rw [hp] at h
    exact ⟨hwork h.1, hleaseLost h.2⟩
  | joiningWork =>
    rw [hp] at h
    exact ⟨hwork h.1, hlost h.2⟩
  | joiningLeaseLost =>
    rw [hp] at h
    obtain ⟨⟨operation, outcome, hw⟩, hending⟩ := h
    exact ⟨⟨operation, outcome, (hdone operation outcome hw).trans hw⟩, hleaseLost hending⟩
  | stopping caller =>
    rw [hp] at h
    exact hheartbeat h
  | _ => trivial

theorem joins_cancel (h : task.Joins) (hcancel : task.cancel = some next) : next.Joins := by
  obtain ⟨work, throwing, leaseLost, heartbeat, rfl, hwork, hleaseLost, hheartbeat, _⟩ := cancel_spec hcancel
  refine h.beside rfl (fun hending => ?_) (fun operation outcome hdone => ?_) (fun hending => ?_)
    (fun hending => ?_) id
  · rcases hwork with rfl | rfl
    · exact hending
    · exact task.work.cancel_ending
  · rcases hwork with rfl | rfl
    · rfl
    · show task.work.cancel = task.work
      rw [hdone]
      rfl
  · rcases hleaseLost with rfl | rfl
    · exact hending
    · exact task.leaseLost.cancel_ending
  · rcases hheartbeat with rfl | rfl
    · exact hending
    · exact task.heartbeat.cancel_ending

/-- What every step preserves. -/
theorem processStep_joins {a : ProcessAction} (h : task.Joins)
    (hstep : (processing sha256 uuid5 svc claimed).step task a = some next) : next.Joins := by
  cases processStep_move hstep with
  | waitInterrupted _ _ => exact joins_gather _
  | lostDone _ _ _ _ => exact joins_gather _
  | workJoined _ _ _ _ => exact joins_gather _
  | leaseJoined _ _ => exact joins_gather _
  | lostJoin _ _ hlost _ => exact ⟨rfl, by rw [hlost]; exact Option.some_ne_none _⟩
  | leaseJoin _ _ _ hwork => exact ⟨⟨_, _, hwork⟩, task.leaseLost.cancel_ending⟩
  | gathered _ _ _ => exact joins_begin _
  | gatherInterrupted _ _ => exact joins_handle _
  | gatherRaised _ _ => exact joins_handle _
  | stopped _ _ _ => exact joins_completeOwned
  | stopInterrupted _ _ _ => exact joins_handle _
  | handlerStopped _ _ _ => exact joins_settle _
  | handlerInterrupted _ _ _ => trivial
  | cancelled hcancel => exact joins_cancel h hcancel
  | committed _ hcommit => exact joins_proceed (Option.isSome_of_eq_some hcommit) (commit_point hcommit)
  | refused _ _ => exact joins_handle _
  | interrupted _ _ => exact joins_fail _
  | failed _ _ _ => exact joins_fail _
  | answered hwork _ =>
    exact h.beside rfl (fun _ => trivial) (fun _ _ hdone => by rw [hwork] at hdone; cases hdone) id id id
  | workCancelled hwork =>
    exact h.beside rfl (fun _ => trivial) (fun _ _ hdone => by rw [hwork] at hdone; cases hdone) id id id
  | leaseLostEnded _ => exact h.beside rfl id (fun _ _ _ => rfl) (fun _ => trivial) id id
  | timedOut hheartbeat =>
    refine h.beside rfl id (fun _ _ _ => rfl) id (fun hending => ?_) id
    rw [hheartbeat] at hending
    cases hending
  | @renewed _ stopping _ hheartbeat _ =>
    refine h.beside rfl id (fun _ _ _ => rfl) id (fun hending => ?_) id
    rw [hheartbeat] at hending
    obtain rfl : stopping = true := hending
    trivial
  | renewalRefused _ _ =>
    exact h.beside rfl id (fun _ _ _ => rfl) id (fun _ => trivial) fun _ => Option.some_ne_none _
  | renewalFailed _ =>
    exact h.beside rfl id (fun _ _ _ => rfl) id (fun _ => trivial) fun _ => Option.some_ne_none _
  | heartbeatEnded => exact h.beside rfl id (fun _ _ _ => rfl) id (fun _ => trivial) id
  | changed => exact h.beside rfl id (fun _ _ _ => rfl) id id id

end Joins

section Ends
variable {sha256 : Sha256} {uuid5 : UUID → Str → UUID} {svc : IngestionProcessingService}
  {claimed : ClaimedDocument} {task next : ProcessTask} {now : Time}

/-- The call can come to its end without being cancelled. -/
def CanEnd (sha256 : Sha256) (uuid5 : UUID → Str → UUID) (svc : IngestionProcessingService)
    (claimed : ClaimedDocument) (task : ProcessTask) : Prop :=
  (processing sha256 uuid5 svc claimed).CanReach (· ≠ .cancel) (fun t => t.point.Ended) task

theorem CanEnd.cons {a : ProcessAction} {t : ProcessTask}
    (hstep : (processing sha256 uuid5 svc claimed).step task a = some t) (ha : a ≠ .cancel)
    (h : CanEnd sha256 uuid5 svc claimed t) : CanEnd sha256 uuid5 svc claimed task :=
  Machine.CanReach.cons hstep ha h

theorem CanEnd.resumes {t : ProcessTask} (hstep : task.resume 0 = some t)
    (h : CanEnd sha256 uuid5 svc claimed t) : CanEnd sha256 uuid5 svc claimed task :=
  .cons (a := .resume 0) hstep (fun he => by cases he) h

theorem canEnd_ended (h : task.point.Ended) : CanEnd sha256 uuid5 svc claimed task :=
  Machine.CanReach.here h

/-- The operation ends. -/
theorem canEnd_of_work (hending : task.work.Ending)
    (h : ∀ operation outcome,
      CanEnd sha256 uuid5 svc claimed { task with work := .done operation outcome }) :
    CanEnd sha256 uuid5 svc claimed task := by
  cases hwork : task.work with
  | running operation cancelling =>
    rw [hwork] at hending
    obtain rfl : cancelling = true := hending
    refine .cons (a := .endCancelled) ?_ (fun he => by cases he) (h operation (.error .cancelled))
    simp only [processing, processStep, hwork]
  | done operation outcome =>
    have hdone := h operation outcome
    rw [← hwork] at hdone
    exact hdone

/-- `lost.wait()` ends. -/
theorem canEnd_of_leaseLost (hending : task.leaseLost.Ending)
    (h : CanEnd sha256 uuid5 svc claimed { task with leaseLost := .done }) :
    CanEnd sha256 uuid5 svc claimed task := by
  cases hleaseLost : task.leaseLost with
  | running cancelling =>
    rw [hleaseLost] at hending
    obtain rfl : cancelling = true := hending
    refine .cons (a := .endLeaseLost) ?_ (fun he => by cases he) h
    simp only [processing, processStep, hleaseLost, Bool.true_or, if_true]
  | done =>
    rw [← hleaseLost] at h
    exact h

/-- The heartbeat ends. -/
theorem canEnd_of_heartbeat (hending : task.heartbeat.Ending)
    (h : CanEnd sha256 uuid5 svc claimed { task with heartbeat := .done }) :
    CanEnd sha256 uuid5 svc claimed task := by
  cases hheartbeat : task.heartbeat with
  | waiting stopping =>
    rw [hheartbeat] at hending
    obtain rfl : stopping = true := hending
    refine .cons (a := .endHeartbeat) ?_ (fun he => by cases he) h
    simp only [processing, processStep, hheartbeat]
  | renewing now stopping =>
    rw [hheartbeat] at hending
    obtain rfl : stopping = true := hending
    refine .cons (a := .endHeartbeat) ?_ (fun he => by cases he) h
    simp only [processing, processStep, hheartbeat]
  | done =>
    rw [← hheartbeat] at h
    exact h

/-- The failure transition ends the call, whether it commits or not. -/
theorem canEnd_completingFailure {raised : Raised} {failure : Failure}
    (hp : task.point = .completingFailure raised failure now) :
    CanEnd sha256 uuid5 svc claimed task := by
  have hcommit : task.commit uuid5 svc claimed = some (.ok (task.failureWritten svc claimed failure now)) := by
    unfold ProcessTask.commit
    rw [hp]
  cases hthrowing : task.throwing with
  | false =>
    refine .cons (a := .transact now) (t := (task.failureWritten svc claimed failure now).proceed uuid5
      claimed) ?_ (fun he => by cases he) (canEnd_ended ?_)
    · simp only [processing, processStep, hthrowing, hcommit, Bool.false_eq_true, if_false]
    · have hpoint : (task.failureWritten svc claimed failure now).point = task.point := rfl
      unfold ProcessTask.proceed
      rw [hpoint, hp]
      cases raised <;> trivial
  | true =>
    refine .cons (a := .interrupt false now) (t := task.fail .cancelled now) ?_ (fun he => by cases he)
      (canEnd_ended ?_)
    · simp only [processing, processStep, hthrowing, hcommit, Bool.false_eq_true, if_false, if_true]
    · unfold ProcessTask.fail
      rw [hp]
      cases raised <;> trivial

theorem canEnd_settle (raised : Raised) : CanEnd sha256 uuid5 svc claimed (task.settle raised now) := by
  unfold ProcessTask.settle
  split
  · exact canEnd_ended trivial
  · exact canEnd_completingFailure rfl

/-- The handler goes on once the heartbeat has ended. -/
theorem canEnd_handlerStopped {raised : Raised} (hp : task.point = .stopping (.handler raised))
    (hheartbeat : task.heartbeat = .done) : CanEnd sha256 uuid5 svc claimed task := by
  cases hthrowing : task.throwing with
  | false =>
    refine .resumes (t := task.settle raised 0) ?_ (canEnd_settle raised)
    simp only [ProcessTask.resume, hp, hheartbeat, hthrowing,
      Bool.false_eq_true, if_false]
  | true =>
    refine .resumes (t := { task with point := .raised .cancelled, throwing := false })
      ?_ (canEnd_ended trivial)
    simp only [ProcessTask.resume, hp, hheartbeat, hthrowing, if_true]

theorem canEnd_handle (raised : Raised) : CanEnd sha256 uuid5 svc claimed (task.handle raised now) := by
  unfold ProcessTask.handle
  split
  · exact canEnd_settle raised
  · exact canEnd_of_heartbeat task.heartbeat.cancel_ending (canEnd_handlerStopped rfl rfl)

/-- A transaction of the `try` block may raise. -/
theorem canEnd_transaction (hcommit : (task.commit uuid5 svc claimed).isSome)
    (hpoint : ∀ raised failure now, task.point ≠ .completingFailure raised failure now) :
    CanEnd sha256 uuid5 svc claimed task := by
  obtain ⟨result, hresult⟩ := Option.isSome_iff_exists.mp hcommit
  cases hthrowing : task.throwing with
  | false =>
    refine .cons (a := .failTransaction .unexpected false 0) (t := task.handle .unexpected 0) ?_
      (fun he => by cases he) (canEnd_handle .unexpected)
    rw [← ProcessTask.fail_eq_handle hpoint]
    simp only [processing, processStep, hresult]
    rw [if_pos ⟨hthrowing, .inr trivial⟩]
    cases result <;> rfl
  | true =>
    refine .cons (a := .interrupt false 0) (t := task.handle .cancelled 0) ?_ (fun he => by cases he)
      (canEnd_handle .cancelled)
    rw [← ProcessTask.fail_eq_handle hpoint]
    simp only [processing, processStep, hresult]
    rw [if_pos hthrowing]
    cases result <;> rfl

theorem canEnd_completeOwned : CanEnd sha256 uuid5 svc claimed (task.completeOwned now) := by
  unfold ProcessTask.completeOwned
  split
  · exact canEnd_handle _
  · exact canEnd_transaction rfl fun _ _ _ hp => by cases hp

/-- The `try` block goes on once the heartbeat has ended. -/
theorem canEnd_successStopped (hp : task.point = .stopping .success) (hheartbeat : task.heartbeat = .done) :
    CanEnd sha256 uuid5 svc claimed task := by
  cases hthrowing : task.throwing with
  | false =>
    refine .resumes (t := task.completeOwned 0) ?_ canEnd_completeOwned
    simp only [ProcessTask.resume, hp, hheartbeat, hthrowing,
      Bool.false_eq_true, if_false]
  | true =>
    refine .resumes (t := task.handle .cancelled 0) ?_ (canEnd_handle _)
    simp only [ProcessTask.resume, hp, hheartbeat, hthrowing, if_true]

/-- The call goes on with an exception once both tasks of `_with_lease` have ended. -/
theorem canEnd_gatherRaised {operation : Operation} {outcome : Except Raised Statement} {raised : Raised}
    (hp : task.point = .gathering (.error raised)) (hwork : task.work = .done operation outcome)
    (hleaseLost : task.leaseLost = .done) : CanEnd sha256 uuid5 svc claimed task := by
  refine .resumes
    (t := task.handle (if task.throwing then .cancelled else raised) 0) ?_ (canEnd_handle _)
  simp only [ProcessTask.resume, hp, hwork, hleaseLost]
  cases task.throwing <;> rfl

theorem canEnd_gather_error (raised : Raised) :
    CanEnd sha256 uuid5 svc claimed (task.gather (.error raised)) :=
  canEnd_of_work task.work.cancel_ending fun _ _ =>
    canEnd_of_leaseLost task.leaseLost.cancel_ending (canEnd_gatherRaised rfl rfl rfl)

/-- An operation may raise. -/
theorem Operation.outcome_unexpected (operation : Operation) :
    operation.outcome sha256 svc claimed (.raises none) = some (.error .unexpected) := by
  cases operation <;> rfl

theorem canEnd_leaseJoinedError {operation : Operation} {raised : Raised}
    (hp : task.point = .joiningLeaseLost) (hwork : task.work = .done operation (.error raised))
    (hleaseLost : task.leaseLost = .done) : CanEnd sha256 uuid5 svc claimed task := by
  refine .resumes (t := task.gather (.error raised)) ?_ (canEnd_gather_error raised)
  simp only [ProcessTask.resume, hp, hwork, hleaseLost, ProcessTask.owned]

theorem ProcessTask.joined_error (outcome : Except Raised Statement) (lost : Raised) :
    ∃ raised, ProcessTask.joined outcome lost = .error raised := by
  cases outcome with
  | ok => exact ⟨lost, rfl⟩
  | error raised => cases raised <;> exact ⟨_, rfl⟩

/-- The operation has ended, and the call can end from where it has joined `lost.wait()`. -/
theorem canEnd_of_worked {operation : Operation} {outcome : Except Raised Statement}
    (hp : task.point = .waiting) (hwork : task.work = .done operation outcome)
    (hjoined : ∀ t : ProcessTask, t.point = .joiningLeaseLost → t.work = .done operation outcome →
      t.leaseLost = .done → CanEnd sha256 uuid5 svc claimed t) : CanEnd sha256 uuid5 svc claimed task := by
  cases hthrowing : task.throwing with
  | true =>
    refine .resumes (t := task.gather (.error .cancelled)) ?_ (canEnd_gather_error .cancelled)
    simp only [ProcessTask.resume, hp, hthrowing, if_true]
  | false =>
    cases hlost : task.lost with
    | some lost =>
      obtain ⟨error, herror⟩ := ProcessTask.joined_error outcome lost
      refine .resumes (t := task.gather (.error error)) ?_ (canEnd_gather_error error)
      simp only [ProcessTask.resume, hp, hthrowing, hlost, hwork, herror,
        Bool.false_eq_true, if_false]
    | none =>
      refine .resumes
        (t := { task with point := .joiningLeaseLost, leaseLost := task.leaseLost.cancel }) ?_ ?_
      · simp only [ProcessTask.resume, hp, hthrowing, hlost, hwork,
          Bool.false_eq_true, if_false]
      · exact canEnd_of_leaseLost task.leaseLost.cancel_ending (hjoined _ rfl hwork rfl)

theorem canEnd_working {operation : Operation} {cancelling : Bool} (hp : task.point = .waiting)
    (hwork : task.work = .running operation cancelling) : CanEnd sha256 uuid5 svc claimed task := by
  cases hthrowing : task.throwing with
  | false =>
    refine .cons (a := .answer (.raises none))
      (t := { task with work := .done operation (.error .unexpected) }) ?_ (fun he => by cases he)
      (canEnd_of_worked hp rfl fun _ => canEnd_leaseJoinedError)
    simp only [processing, processStep, hwork, Operation.outcome_unexpected, Option.map_some]
  | true =>
    refine .resumes (t := task.gather (.error .cancelled)) ?_
      (canEnd_gather_error .cancelled)
    simp only [ProcessTask.resume, hp, hthrowing, if_true]

theorem canEnd_withLease (operation : Operation) :
    CanEnd sha256 uuid5 svc claimed (task.withLease operation) := by
  unfold ProcessTask.withLease
  split
  · exact canEnd_gather_error _
  · exact canEnd_working rfl rfl

theorem canEnd_begin (statement : Statement) :
    CanEnd sha256 uuid5 svc claimed (task.begin now statement) := by
  cases statement with
  | withLease operation => exact canEnd_withLease operation
  | replaceChunks chunks => exact canEnd_transaction rfl fun _ _ _ hp => by cases hp
  | completeSuccess =>
    unfold ProcessTask.begin
    dsimp only
    split
    · exact canEnd_completeOwned
    · exact canEnd_of_heartbeat task.heartbeat.cancel_ending (canEnd_successStopped rfl rfl)

/-- Both tasks of `_with_lease` have ended. -/
theorem canEnd_gathered {operation : Operation} {outcome result : Except Raised Statement}
    (hp : task.point = .gathering result) (hwork : task.work = .done operation outcome)
    (hleaseLost : task.leaseLost = .done) : CanEnd sha256 uuid5 svc claimed task := by
  cases result with
  | error raised => exact canEnd_gatherRaised hp hwork hleaseLost
  | ok statement =>
    cases hthrowing : task.throwing with
    | false =>
      refine .resumes (t := (task.finish operation.stage).begin 0 statement) ?_
        (canEnd_begin statement)
      simp only [ProcessTask.resume, hp, hwork, hleaseLost, hthrowing,
        Bool.false_eq_true, if_false]
    | true =>
      refine .resumes (t := task.handle .cancelled 0) ?_ (canEnd_handle _)
      simp only [ProcessTask.resume, hp, hwork, hleaseLost, hthrowing, if_true]

theorem canEnd_gather (result : Except Raised Statement) :
    CanEnd sha256 uuid5 svc claimed (task.gather result) :=
  canEnd_of_work task.work.cancel_ending fun _ _ =>
    canEnd_of_leaseLost task.leaseLost.cancel_ending (canEnd_gathered rfl rfl rfl)

/-- `lost.wait()` has ended. -/
theorem canEnd_leaseJoined {operation : Operation} {outcome : Except Raised Statement}
    (hp : task.point = .joiningLeaseLost) (hwork : task.work = .done operation outcome)
    (hleaseLost : task.leaseLost = .done) : CanEnd sha256 uuid5 svc claimed task := by
  refine .resumes (t := task.gather (ProcessTask.owned outcome task.lost)) ?_
    (canEnd_gather _)
  simp only [ProcessTask.resume, hp, hwork, hleaseLost]

/-- The operation has ended in a lost lease. -/
theorem canEnd_workJoined {operation : Operation} {outcome : Except Raised Statement} {lost : Raised}
    (hp : task.point = .joiningWork) (hwork : task.work = .done operation outcome)
    (hlost : task.lost = some lost) : CanEnd sha256 uuid5 svc claimed task := by
  refine .resumes
    (t := task.gather (if task.throwing then .error lost else ProcessTask.joined outcome lost)) ?_
    (canEnd_gather _)
  simp only [ProcessTask.resume, hp, hwork, hlost]

/-- Wherever the call is, it can come to its end. -/
theorem ProcessTask.Joins.canEnd (h : task.Joins) : CanEnd sha256 uuid5 svc claimed task := by
  unfold ProcessTask.Joins at h
  cases hp : task.point with
  | waiting =>
    cases hwork : task.work with
    | running operation cancelling => exact canEnd_working hp hwork
    | done operation outcome => exact canEnd_of_worked hp hwork fun _ => canEnd_leaseJoined
  | joiningWork =>
    rw [hp] at h
    obtain ⟨lost, hlost⟩ := Option.ne_none_iff_exists'.mp h.2
    exact canEnd_of_work h.1 fun _ _ => canEnd_workJoined hp rfl hlost
  | joiningLeaseLost =>
    rw [hp] at h
    obtain ⟨⟨operation, outcome, hwork⟩, hending⟩ := h
    exact canEnd_of_leaseLost hending (canEnd_leaseJoined hp hwork rfl)
  | gathering result =>
    rw [hp] at h
    exact canEnd_of_work h.1 fun _ _ => canEnd_of_leaseLost h.2 (canEnd_gathered hp rfl rfl)
  | replacingChunks chunks now =>
    refine canEnd_transaction ?_ fun _ _ _ hp' => by rw [hp] at hp'; cases hp'
    simp only [ProcessTask.commit, hp, Option.isSome_some]
  | stopping caller =>
    rw [hp] at h
    cases caller with
    | success => exact canEnd_of_heartbeat h (canEnd_successStopped hp rfl)
    | handler raised => exact canEnd_of_heartbeat h (canEnd_handlerStopped hp rfl)
  | completingSuccess now =>
    refine canEnd_transaction ?_ fun _ _ _ hp' => by rw [hp] at hp'; cases hp'
    simp only [ProcessTask.commit, hp, Option.isSome_some]
  | completingFailure raised failure now => exact canEnd_completingFailure hp
  | returned => exact canEnd_ended (by rw [hp]; trivial)
  | raised raised => exact canEnd_ended (by rw [hp]; trivial)

end Ends

end AgenticRag.Services

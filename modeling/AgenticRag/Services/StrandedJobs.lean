import AgenticRag.Services.LifecycleMachine

/-! When a pending job can be claimed. A user retry keeps the attempt count, so requeueing a
job that has used its attempts leaves it pending for good. -/
namespace AgenticRag.Services
open Lib Python Db Ingestion Security

/-- Every pending job has attempts left, and is eligible once its retry time is due. -/
def PendingClaimable (s : LifecycleState) : Prop :=
  ∀ job ∈ s.db.ingestionJobs, job.status = .pending → job.attemptCount < job.maxAttempts ∧
    ∀ now, (∀ t, job.nextRetryAt = some t → t ≤ now) → job.eligible now = true

/-- The retry of a failed job finds attempts left. -/
def RetryWithinLimit (s : LifecycleState) : LifecycleAction → Prop
  | .retryIngestionJob _ jobId => ∀ job, s.db.ingestionJobs.find? jobId = some job →
      job.status = .failed → job.attemptCount < job.maxAttempts
  | _ => True

/-- The attempt guard of the claim query, on every pending row. -/
def AttemptsLeft (db : Database) : Prop :=
  ∀ k job, db.ingestionJobs.find? k = some job → job.status = .pending →
    job.attemptCount < job.maxAttempts

section Steps
variable {db db' : Database} {job job' : IngestionJob} {f : DocumentStatus → DocumentStatus}

theorem AttemptsLeft.writes (h : AttemptsLeft db) (hw : Writes db db' job job' f)
    (hrow : job'.status = .pending → job'.attemptCount < job'.maxAttempts) : AttemptsLeft db' := by
  intro k row hk hp
  rw [hw.jobs] at hk
  split at hk
  · obtain rfl := Option.some.inj hk
    exact hrow hp
  · exact h k row hk hp

/-- An attempt is requeued only while attempts are left. -/
theorem settledJob_attempts {failure : Failure} {now retryDelay : Time}
    (hp : (settledJob job failure now retryDelay).status = .pending) :
    (settledJob job failure now retryDelay).attemptCount <
      (settledJob job failure now retryDelay).maxAttempts := by
  by_cases hr : failure.retryable ∧ job.attemptCount < job.maxAttempts
  · rw [settledJob_retry hr]
    exact hr.2
  · rw [settledJob_fail hr] at hp
    cases hp

theorem AttemptsLeft.step {s t : LifecycleState} {a : LifecycleAction} (h : AttemptsLeft s.db)
    (hallowed : RetryWithinLimit s a) (hstep : lifecycle.step s a = some t) :
    AttemptsLeft t.db := by
  cases lifecycle_step_iff.mp hstep with
  | upload hok =>
    obtain ⟨rfl, _, _, _, hins, _⟩ := insertUpload_ok hok
    intro k row hk hp
    rw [Table.find?_insert? hins] at hk
    split at hk
    · obtain rfl := Option.some.inj hk
      exact Nat.zero_lt_succ 2
    · exact h k row hk hp
  | claimNext _ hok =>
    obtain ⟨old, _, rfl, hw, _⟩ := claimNext_writes hok
    exact h.writes hw fun hp => by cases hp
  | renewLease _ hok =>
    obtain ⟨job, howned, hw, _⟩ := renewLease_writes hok
    exact h.writes hw fun hp => by simp [howned.processing] at hp
  | replaceChunks _ hok =>
    obtain ⟨job, howned, hw, _⟩ := replaceChunks_writes hok
    exact h.writes hw fun hp => by simp [howned.processing] at hp
  | completeSuccess _ hok =>
    obtain ⟨job, _, hw, _⟩ := completeSuccess_writes hok
    exact h.writes hw fun hp => by cases hp
  | @completeFailure svc jobId _ failure now =>
    rcases completeFailure_writes svc s.db jobId failure now with heq | ⟨job, _, hw, _⟩
    · change AttemptsLeft (svc.completeFailure s.db jobId failure now)
      rw [heq]
      exact h
    · exact h.writes hw settledJob_attempts
  | recoverExpiredLeases hok =>
    exact recoverExpiredLeases_induction (P := AttemptsLeft) hok
      (fun _ _ _ hP _ hw _ => hP.writes hw settledJob_attempts) h
  | retryIngestionJob hok =>
    rcases retryIngestionJob_writes hok with heq | ⟨old, rfl, hfailed, hw, _⟩
    · rw [heq]
      exact h
    · exact h.writes hw fun _ => hallowed old hw.found hfailed

end Steps

/-- A job requeued by a user is claimable exactly when its attempts were not used up. -/
theorem retried_eligible_iff (job : IngestionJob) (now : Time) :
    (retriedJob job).eligible now = true ↔ job.attemptCount < job.maxAttempts := by
  simp [eligible_iff, retriedJob]

/-- While every retry finds attempts left, no pending job is stranded. -/
theorem pending_claimable {db : Database} (hfresh : FreshDatabase db) {as : List LifecycleAction}
    (hallowed : lifecycle.Allowed RetryWithinLimit (.init db) as) {s : LifecycleState}
    (hrun : lifecycle.run (.init db) as = some s) : PendingClaimable s := by
  have hinit : AttemptsLeft db := by
    intro k job hk
    rw [Table.find?, hfresh.ingestionJobs] at hk
    cases hk
  have h : AttemptsLeft s.db := Machine.run_invariant_of_allowed (I := fun s => AttemptsLeft s.db)
    (fun _ _ _ hI hC hstep => hI.step hC hstep) hinit hallowed hrun
  intro job hjob hp
  have hleft := h _ _ (Table.find?_of_mem hjob) hp
  exact ⟨hleft, fun now hdue => eligible_iff.mpr ⟨hp, hleft, hdue⟩⟩

/-- A first attempt that fails for good. -/
def failedActions : List LifecycleAction :=
  [.upload exampleDocument 5, .claimNext exampleService [] 10,
    .completeFailure exampleService 5 (.expected .sourceIntegrity) 20]

theorem pending_claimable_example : ∃ s,
    lifecycle.run (.init exampleDatabase) (failedActions ++ [.retryIngestionJob 1 5]) = some s ∧
      PendingClaimable s := by
  have hsome : (lifecycle.run (.init exampleDatabase)
      (failedActions ++ [.retryIngestionJob 1 5])).isSome := by decide
  obtain ⟨s, hrun⟩ := Option.isSome_iff_exists.mp hsome
  refine ⟨s, hrun, pending_claimable exampleDatabase_fresh ?_ hrun⟩
  refine Machine.allowed_append.mpr ⟨Machine.allowed_of_forall ?_, fun t ht => ⟨?_, fun _ _ => trivial⟩⟩
  · simp [failedActions, RetryWithinLimit]
  · intro job hjob _
    have hall : (lifecycle.run (.init exampleDatabase) failedActions).all (fun t =>
        (t.db.ingestionJobs.find? 5).all fun job => job.attemptCount < job.maxAttempts) := by decide
    rw [ht, Option.all_some, hjob, Option.all_some] at hall
    exact of_decide_eq_true hall

/-- Three attempts that fail, and a retry. -/
def exhaustedActions : List LifecycleAction :=
  [.upload exampleDocument 5, .claimNext exampleService [] 10,
    .completeFailure exampleService 5 .unexpected 20, .claimNext exampleService [] 50,
    .completeFailure exampleService 5 .unexpected 60, .claimNext exampleService [] 90,
    .completeFailure exampleService 5 .unexpected 100, .retryIngestionJob 1 5]

/-- The requeued job is pending with three attempts of three. -/
theorem exhausted_retry_stranded : ¬∀ (db : Database), FreshDatabase db →
    ∀ as s, lifecycle.run (.init db) as = some s → PendingClaimable s := by
  intro h
  have hany : (lifecycle.run (.init exampleDatabase) exhaustedActions).any (fun s =>
      s.db.ingestionJobs.rows.any fun job =>
        job.status = .pending ∧ job.attemptCount = 3 ∧ job.maxAttempts = 3) := by decide
  obtain ⟨s, hrun, hjob⟩ := Option.any_eq_true _ _ |>.mp hany
  obtain ⟨job, hjob, hrow⟩ := List.any_eq_true.mp hjob
  obtain ⟨hp, hcount, hmax⟩ := of_decide_eq_true hrow
  have hlt := (h exampleDatabase exampleDatabase_fresh _ s hrun job hjob hp).1
  omega

end AgenticRag.Services

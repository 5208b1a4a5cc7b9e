import AgenticRag.Services.ProcessSettled

/-! The lease over one claim. The heartbeat and the chunk replacement read the clock before they
wait for the row, so the later reading may be committed first. -/
namespace AgenticRag.Services
open Lib Python Db Ingestion

/-- The lease in the row of a job. -/
def leaseOf (db : Database) (jobId : UUID) : Option Time :=
  (db.ingestionJobs.find? jobId).bind IngestionJob.leaseExpiresAt

/-- The clock value that a step reads. -/
def ProcessAction.reading : ProcessAction → Option Time
  | .resume now | .transact now | .interrupt _ now | .failTransaction _ _ now | .timeout now => some now
  | _ => none

section Machine
variable (sha256 : Sha256) (uuid5 : UUID → Str → UUID) (svc : IngestionProcessingService)
  (claimed : ClaimedDocument)

/-- The reading that the transaction of `_renew_lease` writes into the lease. -/
def renewalReading (task : ProcessTask) : Option Time :=
  match task.heartbeat with
  | .renewing now _ => if (svc.renewLease task.db claimed.jobId now).isSome then some now else none
  | _ => none

/-- The reading that the transaction of `_replace_chunks` writes into the lease. -/
def replacementReading (task : ProcessTask) : Option Time :=
  match task.point with
  | .replacingChunks chunks now =>
    match svc.replaceChunks task.db claimed (durableChunks uuid5 claimed chunks) now with
    | .ok _ => some now
    | .error _ => none
  | _ => none

/-- The reading in the lease that a step commits. -/
def leaseReading (task : ProcessTask) : ProcessAction → Option Time
  | .renew => renewalReading svc claimed task
  | .transact _ | .interrupt true _ | .failTransaction _ true _ =>
    replacementReading uuid5 svc claimed task
  | _ => none

/-- A call with the clock and, until the lease of its claim is cleared, the reading in the lease. -/
structure LeaseRun where
  task : ProcessTask
  clock : Time
  written : Option Time

/-- The call once it has claimed its job at `now`. -/
def LeaseRun.init (db : Database) (now : Time) : LeaseRun := ⟨.init db, now, some now⟩

/-- A step under a clock that never goes back. -/
def leaseStep (run : LeaseRun) (a : ProcessAction) : Option LeaseRun :=
  let reading := a.reading.getD run.clock
  if reading < run.clock then none
  else (processStep sha256 uuid5 svc claimed run.task a).map fun task =>
    { task
      clock := reading
      written :=
        match leaseOf task.db claimed.jobId, leaseReading uuid5 svc claimed run.task a with
        | none, _ => none
        | some _, some now => run.written.map fun _ => now
        | some _, none => run.written }

def leasing : Machine LeaseRun ProcessAction := ⟨leaseStep sha256 uuid5 svc claimed⟩

/-- Others leave the lease of the claim alone or clear it. -/
def OthersSpareLease (run : LeaseRun) : ProcessAction → Prop
  | .change db => leaseOf db claimed.jobId = leaseOf run.task.db claimed.jobId ∨
      leaseOf db claimed.jobId = none ∨ run.written = none
  | _ => True

/-- A lease that a step commits was read no earlier than the one it replaces. -/
def InReadingOrder (run : LeaseRun) (a : ProcessAction) : Prop :=
  ∀ written now, run.written = some written → leaseReading uuid5 svc claimed run.task a = some now →
    written ≤ now

instance decidableInReadingOrder (run : LeaseRun) (a : ProcessAction) :
    Decidable (InReadingOrder uuid5 svc claimed run a) :=
  decidable_of_iff
    (run.written.all fun written =>
      (leaseReading uuid5 svc claimed run.task a).all fun now => decide (written ≤ now))
    (by simp only [Option.all_eq_true, decide_eq_true_eq]
        exact ⟨fun h written now hw hr => h written hw now hr, fun h written hw now hr => h written now hw hr⟩)

end Machine

section Rows
variable {sha256 : Sha256} {uuid5 : UUID → Str → UUID} {svc : IngestionProcessingService}
  {claimed : ClaimedDocument} {task next : ProcessTask} {db db' : Database} {now : Time}

theorem Writes.leaseOf {job job' : IngestionJob} {f : DocumentStatus → DocumentStatus}
    (h : Writes db db' job job' f) (k : UUID) :
    leaseOf db' k = if k = job.id then job'.leaseExpiresAt else leaseOf db k := by
  unfold Services.leaseOf
  rw [h.jobs]
  split
  · rfl
  · rfl

theorem renewLease_leaseOf {jobId : UUID} (h : svc.renewLease db jobId now = some db') :
    leaseOf db' jobId = some (now + svc.leaseDuration) := by
  obtain ⟨job, howned, hw, _⟩ := renewLease_writes h
  rw [hw.leaseOf, if_pos howned.id.symm]

theorem replaceChunks_leaseOf {chunks : List DocumentChunk}
    (h : svc.replaceChunks db claimed chunks now = .ok db') :
    leaseOf db' claimed.jobId = some (now + svc.leaseDuration) := by
  obtain ⟨job, howned, hw, _⟩ := replaceChunks_writes h
  rw [hw.leaseOf, if_pos howned.id.symm]

theorem completeSuccess_leaseOf {jobId : UUID} (h : svc.completeSuccess db jobId now = some db') :
    leaseOf db' jobId = none := by
  obtain ⟨job, howned, hw, _⟩ := completeSuccess_writes h
  rw [hw.leaseOf, if_pos howned.id.symm]
  rfl

theorem settledJob_leaseExpiresAt (job : IngestionJob) (failure : Failure) (now retryDelay : Time) :
    (settledJob job failure now retryDelay).leaseExpiresAt = none := by
  by_cases hretry : failure.retryable = true ∧ job.attemptCount < job.maxAttempts
  · rw [settledJob_retry hretry]
    rfl
  · rw [settledJob_fail hretry]
    rfl

theorem completeFailure_leaseOf (svc : IngestionProcessingService) (db : Database) (jobId : UUID)
    (failure : Failure) (now : Time) :
    leaseOf (svc.completeFailure db jobId failure now) jobId = leaseOf db jobId ∨
      leaseOf (svc.completeFailure db jobId failure now) jobId = none := by
  rcases completeFailure_writes svc db jobId failure now with heq | ⟨job, howned, hw, _⟩
  · rw [heq]
    exact .inl rfl
  · rw [hw.leaseOf, if_pos howned.id.symm]
    exact .inr (settledJob_leaseExpiresAt _ _ _ _)

@[simp] theorem ProcessTask.gather_db (result : Except Raised Statement) :
    (task.gather result).db = task.db := rfl

@[simp] theorem ProcessTask.finish_db (stage : ProcessingStage) : (task.finish stage).db = task.db := rfl

@[simp] theorem ProcessTask.settle_db (raised : Raised) : (task.settle raised now).db = task.db := by
  unfold ProcessTask.settle
  split <;> rfl

@[simp] theorem ProcessTask.handle_db (raised : Raised) : (task.handle raised now).db = task.db := by
  unfold ProcessTask.handle
  split
  · exact settle_db raised
  · rfl

@[simp] theorem ProcessTask.completeOwned_db : (task.completeOwned now).db = task.db := by
  unfold ProcessTask.completeOwned
  split
  · exact handle_db _
  · rfl

@[simp] theorem ProcessTask.withLease_db (operation : Operation) :
    (task.withLease operation).db = task.db := by
  unfold ProcessTask.withLease
  split <;> rfl

@[simp] theorem ProcessTask.begin_db (statement : Statement) :
    (task.begin now statement).db = task.db := by
  cases statement with
  | withLease operation => exact withLease_db operation
  | replaceChunks chunks => rfl
  | completeSuccess =>
    simp only [ProcessTask.begin]
    split
    · exact completeOwned_db
    · rfl

@[simp] theorem ProcessTask.fail_db (raised : Raised) : (task.fail raised now).db = task.db := by
  unfold ProcessTask.fail
  split
  · rfl
  · rfl
  · exact handle_db raised

@[simp] theorem ProcessTask.proceed_db : (task.proceed uuid5 claimed).db = task.db := by
  unfold ProcessTask.proceed
  split
  · simp
  · rfl
  · rfl
  · rfl
  · rfl

/-- The reading a transaction of the call leaves in the lease. -/
theorem commit_leaseOf {written : ProcessTask} (h : task.commit uuid5 svc claimed = some (.ok written)) :
    (∃ now, replacementReading uuid5 svc claimed task = some now ∧
      leaseOf written.db claimed.jobId = some (now + svc.leaseDuration)) ∨
    replacementReading uuid5 svc claimed task = none ∧
      (leaseOf written.db claimed.jobId = leaseOf task.db claimed.jobId ∨
        leaseOf written.db claimed.jobId = none) := by
  unfold ProcessTask.commit at h
  unfold replacementReading
  cases hp : task.point with
  | replacingChunks chunks now =>
    rw [hp] at h
    dsimp only at h ⊢
    cases hreplace : svc.replaceChunks task.db claimed (durableChunks uuid5 claimed chunks) now with
    | error raised =>
      rw [hreplace] at h
      cases h
    | ok db =>
      rw [hreplace] at h
      obtain rfl := Except.ok.inj (Option.some.inj h)
      exact .inl ⟨now, rfl, replaceChunks_leaseOf hreplace⟩
  | completingSuccess now =>
    rw [hp] at h
    dsimp only at h ⊢
    cases hcomplete : svc.completeSuccess task.db claimed.jobId now with
    | none =>
      rw [hcomplete] at h
      cases h
    | some db =>
      rw [hcomplete] at h
      obtain rfl := Except.ok.inj (Option.some.inj h)
      exact .inr ⟨rfl, .inr (completeSuccess_leaseOf hcomplete)⟩
  | completingFailure raised failure now =>
    rw [hp] at h
    obtain rfl := Except.ok.inj (Option.some.inj h)
    exact .inr ⟨rfl, completeFailure_leaseOf svc task.db claimed.jobId failure now⟩
  | _ =>
    rw [hp] at h
    cases h

theorem replacementReading_of_error {raised : Raised}
    (h : task.commit uuid5 svc claimed = some (.error raised)) :
    replacementReading uuid5 svc claimed task = none := by
  unfold ProcessTask.commit at h
  unfold replacementReading
  cases hp : task.point with
  | replacingChunks chunks now =>
    rw [hp] at h
    dsimp only at h ⊢
    cases hreplace : svc.replaceChunks task.db claimed (durableChunks uuid5 claimed chunks) now with
    | error raised => rfl
    | ok db =>
      rw [hreplace] at h
      cases h
  | _ => rfl

/-- What a step of the call does to the lease: it writes a reading into it, leaves it or clears it. -/
theorem processStep_leaseOf {a : ProcessAction} (hother : ∀ db, a ≠ .change db)
    (hstep : (processing sha256 uuid5 svc claimed).step task a = some next) :
    (∃ now, leaseReading uuid5 svc claimed task a = some now ∧
      leaseOf next.db claimed.jobId = some (now + svc.leaseDuration)) ∨
    leaseReading uuid5 svc claimed task a = none ∧
      (leaseOf next.db claimed.jobId = leaseOf task.db claimed.jobId ∨
        leaseOf next.db claimed.jobId = none) := by
  have hwritten : ∀ {committed : Bool} {written : ProcessTask},
      Written uuid5 svc claimed task committed written →
      (∃ now, (if committed then replacementReading uuid5 svc claimed task else none) = some now ∧
        leaseOf written.db claimed.jobId = some (now + svc.leaseDuration)) ∨
      (if committed then replacementReading uuid5 svc claimed task else none) = none ∧
        (leaseOf written.db claimed.jobId = leaseOf task.db claimed.jobId ∨
          leaseOf written.db claimed.jobId = none) := by
    rintro committed written (⟨rfl, rfl, _⟩ | ⟨rfl, hcommit⟩)
    · exact .inr ⟨rfl, .inl rfl⟩
    · exact commit_leaseOf hcommit
  cases processStep_move hstep with
  | committed _ hcommit =>
    rw [ProcessTask.proceed_db]
    exact commit_leaseOf hcommit
  | refused _ hcommit =>
    rw [ProcessTask.handle_db]
    exact .inr ⟨replacementReading_of_error hcommit, .inl rfl⟩
  | @interrupted _ committed _ _ hw =>
    rw [ProcessTask.fail_db]
    have h := hwritten hw
    cases committed <;> exact h
  | @failed _ _ committed _ _ _ hw =>
    rw [ProcessTask.fail_db]
    have h := hwritten hw
    cases committed <;> exact h
  | @renewed now _ _ hheartbeat hrenew =>
    refine .inl ⟨now, ?_, renewLease_leaseOf hrenew⟩
    simp only [leaseReading, renewalReading, hheartbeat, hrenew, Option.isSome_some, if_true]
  | renewalRefused hheartbeat hrenew =>
    refine .inr ⟨?_, .inl rfl⟩
    simp only [leaseReading, renewalReading, hheartbeat, hrenew, Option.isSome_none,
      Bool.false_eq_true, if_false]
  | cancelled hcancel =>
    obtain ⟨work, throwing, leaseLost, heartbeat, rfl, _⟩ := cancel_spec hcancel
    exact .inr ⟨rfl, .inl rfl⟩
  | changed => exact absurd rfl (hother _)
  | _ => exact .inr ⟨rfl, .inl (by simp)⟩

end Rows

section Others
variable {s t : LifecycleState} {jobId : UUID} {row : IngestionJob}

/-- A transaction under another worker's name, or of no worker. -/
def LifecycleAction.Foreign (workerId : Str) : LifecycleAction → Prop
  | .renewLease svc _ _ | .replaceChunks svc _ _ _ | .completeSuccess svc _ _
  | .completeFailure svc _ _ _ => svc.workerId.value ≠ workerId
  | .upload _ _ | .claimNext _ _ _ | .recoverExpiredLeases _ _ _ _ | .retryIngestionJob _ _ => True

/-- The other transactions leave the lease of a claim alone; a recovery may clear it. -/
theorem lifecycle_spares_lease {workerId : Str} {a : LifecycleAction} (h : Consistent s)
    (hrow : s.db.ingestionJobs.find? jobId = some row) (hstatus : row.status = .processing)
    (hclaimedBy : row.claimedBy = some workerId) (ha : a.Foreign workerId)
    (hstep : lifecycle.step s a = some t) :
    leaseOf t.db jobId = leaseOf s.db jobId ∨ leaseOf t.db jobId = none := by
  by_cases hrecover : ∃ svc locked limit now, a = .recoverExpiredLeases svc locked limit now
  · obtain ⟨svc, locked, limit, now, rfl⟩ := hrecover
    cases lifecycle_step_iff.mp hstep with
    | recoverExpiredLeases hok =>
      refine recoverExpiredLeases_induction
        (P := fun db => leaseOf db jobId = leaseOf s.db jobId ∨ leaseOf db jobId = none) hok
        (fun db db' old hP _ hw _ => ?_) (.inl rfl)
      rw [hw.leaseOf]
      split
      · exact .inr (settledJob_leaseExpiresAt _ _ _ _)
      · exact hP
  · have hspares : a.Spares workerId row := by
      cases a with
      | recoverExpiredLeases svc locked limit now => exact absurd ⟨_, _, _, _, rfl⟩ hrecover
      | _ => exact ha
    have hsame := lifecycle_spares h hrow (.inl ⟨hstatus, hclaimedBy⟩) hspares hstep
    left
    unfold leaseOf
    rw [hsame.1]

end Others

section Runs
variable {sha256 : Sha256} {uuid5 : UUID → Str → UUID} {svc : IngestionProcessingService}
  {claimed : ClaimedDocument} {run next : LeaseRun} {a : ProcessAction}

/-- Until the lease is cleared it is the reading last written, and the lease duration. -/
def LeaseRun.Kept (svc : IngestionProcessingService) (claimed : ClaimedDocument) (run : LeaseRun) : Prop :=
  ∀ written, run.written = some written →
    leaseOf run.task.db claimed.jobId = some (written + svc.leaseDuration)

theorem leaseStep_some (h : (leasing sha256 uuid5 svc claimed).step run a = some next) :
    (processing sha256 uuid5 svc claimed).step run.task a = some next.task ∧
      next.written = match leaseOf next.task.db claimed.jobId,
          leaseReading uuid5 svc claimed run.task a with
        | none, _ => none
        | some _, some now => run.written.map fun _ => now
        | some _, none => run.written := by
  simp only [leasing, leaseStep] at h
  split at h
  · cases h
  · obtain ⟨task, hstep, rfl⟩ := Option.map_eq_some_iff.mp h
    exact ⟨hstep, rfl⟩

/-- While the lease is not cleared, a step writes the reading that it commits or leaves the lease. -/
theorem LeaseRun.Kept.step (h : run.Kept svc claimed) (hothers : OthersSpareLease claimed run a)
    (hstep : (leasing sha256 uuid5 svc claimed).step run a = some next) :
    next.Kept svc claimed ∧ ∀ later, next.written = some later → ∃ earlier, run.written = some earlier ∧
      (leaseReading uuid5 svc claimed run.task a = some later ∨
        leaseReading uuid5 svc claimed run.task a = none ∧ later = earlier) := by
  obtain ⟨hprocess, hwritten⟩ := leaseStep_some hstep
  suffices hlater : ∀ later, next.written = some later →
      leaseOf next.task.db claimed.jobId = some (later + svc.leaseDuration) ∧
        ∃ earlier, run.written = some earlier ∧
          (leaseReading uuid5 svc claimed run.task a = some later ∨
            leaseReading uuid5 svc claimed run.task a = none ∧ later = earlier) from
    ⟨fun later hl => (hlater later hl).1, fun later hl => (hlater later hl).2⟩
  intro later hl
  rw [hwritten] at hl
  cases hlease : leaseOf next.task.db claimed.jobId with
  | none =>
    rw [hlease] at hl
    cases hl
  | some lease =>
    cases hreading : leaseReading uuid5 svc claimed run.task a with
    | some now =>
      rw [hlease, hreading] at hl
      obtain ⟨earlier, hearlier, rfl⟩ := Option.map_eq_some_iff.mp hl
      refine ⟨?_, earlier, hearlier, .inl rfl⟩
      have hown : ∀ db, a ≠ .change db := by
        rintro db rfl
        cases hreading
      rcases processStep_leaseOf hown hprocess with ⟨now', hnow, heq⟩ | ⟨hnone, _⟩
      · obtain rfl := Option.some.inj (hreading.symm.trans hnow)
        rw [← hlease, heq]
      · rw [hreading] at hnone
        cases hnone
    | none =>
      rw [hlease, hreading] at hl
      refine ⟨?_, later, hl, .inr ⟨rfl, rfl⟩⟩
      have hsame : leaseOf next.task.db claimed.jobId = leaseOf run.task.db claimed.jobId := by
        by_cases hchange : ∃ db, a = .change db
        · obtain ⟨db, rfl⟩ := hchange
          have htask := Option.some.inj hprocess
          rw [← htask] at hlease ⊢
          rcases hothers with hsame | hcleared | hnone
          · exact hsame
          · cases hcleared.symm.trans hlease
          · rw [hnone] at hl
            cases hl
        · rcases processStep_leaseOf (fun db he => hchange ⟨db, he⟩) hprocess with
            ⟨now, hnow, _⟩ | ⟨_, hsame | hcleared⟩
          · rw [hreading] at hnow
            cases hnow
          · exact hsame
          · rw [hcleared] at hlease
            cases hlease
      rw [← hlease, hsame, h later hl]

/-- In the order of the readings the lease does not fall back. -/
theorem LeaseRun.Kept.grows (h : run.Kept svc claimed) {as : List ProcessAction}
    (hothers : (leasing sha256 uuid5 svc claimed).Allowed (OthersSpareLease claimed) run as)
    (hordered : (leasing sha256 uuid5 svc claimed).Allowed (InReadingOrder uuid5 svc claimed) run as)
    (hrun : (leasing sha256 uuid5 svc claimed).run run as = some next) :
    next.Kept svc claimed ∧ ∀ later, next.written = some later →
      ∃ earlier, run.written = some earlier ∧ earlier ≤ later := by
  induction as generalizing run with
  | nil =>
    obtain rfl := Option.some.inj hrun
    exact ⟨h, fun later hl => ⟨later, hl, le_refl later⟩⟩
  | cons a as ih =>
    obtain ⟨middle, hstep, hrest⟩ := Machine.run_cons_eq_some.mp hrun
    obtain ⟨hkept, hwrites⟩ := h.step hothers.1 hstep
    obtain ⟨hlast, hgrows⟩ := ih hkept (hothers.2 middle hstep) (hordered.2 middle hstep) hrest
    refine ⟨hlast, fun later hl => ?_⟩
    obtain ⟨between, hbetween, hle⟩ := hgrows later hl
    obtain ⟨earlier, hearlier, hreading | ⟨_, rfl⟩⟩ := hwrites between hbetween
    · exact ⟨earlier, hearlier, (hordered.1 earlier between hearlier hreading).trans hle⟩
    · exact ⟨between, hearlier, hle⟩

/-- What every step keeps, whatever the order of the readings. -/
theorem LeaseRun.Kept.reached (h : run.Kept svc claimed) {as : List ProcessAction}
    (hothers : (leasing sha256 uuid5 svc claimed).Allowed (OthersSpareLease claimed) run as)
    (hrun : (leasing sha256 uuid5 svc claimed).run run as = some next) : next.Kept svc claimed :=
  Machine.run_invariant_of_allowed (I := LeaseRun.Kept svc claimed)
    (fun _ _ _ hkept hother hstep => (hkept.step hother hstep).1) h hothers hrun

theorem LeaseRun.Kept.init {db₀ db : Database} {locked : List UUID} {job : IngestionJob} {now : Time}
    {document : Document} (hclaim : svc.claimNext db₀ locked now = .ok (some (job, db))) :
    (LeaseRun.init db now).Kept svc (claimedDocument job document) := by
  intro written hwritten
  obtain rfl := Option.some.inj hwritten
  obtain ⟨old, _, rfl, hw, _⟩ := claimNext_writes hclaim
  show leaseOf db old.id = _
  rw [hw.leaseOf, if_pos rfl]
  rfl

/-- The lease never falls back between the claim and its clearing exactly if every lease is
committed in the order in which the clock was read for it. -/
theorem lease_never_backward_iff {db₀ db : Database} {locked : List UUID} {job : IngestionJob}
    {now : Time} {document : Document}
    (hclaim : svc.claimNext db₀ locked now = .ok (some (job, db))) {as : List ProcessAction} {t : LeaseRun}
    (hothers : (leasing sha256 uuid5 svc (claimedDocument job document)).Allowed
      (OthersSpareLease (claimedDocument job document)) (.init db now) as)
    (hrun : (leasing sha256 uuid5 svc (claimedDocument job document)).run (.init db now) as = some t) :
    (∀ before middle after r s lease lease', as = before ++ middle ++ after →
      (leasing sha256 uuid5 svc (claimedDocument job document)).run (.init db now) before = some r →
      (leasing sha256 uuid5 svc (claimedDocument job document)).run r middle = some s →
      s.written ≠ none → leaseOf r.task.db job.id = some lease → leaseOf s.task.db job.id = some lease' →
      lease ≤ lease') ↔
    (leasing sha256 uuid5 svc (claimedDocument job document)).Allowed
      (InReadingOrder uuid5 svc (claimedDocument job document)) (.init db now) as := by
  have hinit : (LeaseRun.init db now).Kept svc (claimedDocument job document) := .init hclaim
  constructor
  · intro hbackward
    rw [Machine.allowed_iff_forall hrun]
    intro before a after r has hbefore written reading hwritten hreading
    rw [has] at hrun hothers
    obtain ⟨hothers, hlater⟩ := Machine.allowed_append.mp hothers
    have hkept := hinit.reached hothers hbefore
    rw [Machine.run_append, hbefore] at hrun
    obtain ⟨s, hstep, _⟩ := Machine.run_cons_eq_some.mp hrun
    have hkept' := (hkept.step (hlater r hbefore).1 hstep).1
    have hown : ∀ db, a ≠ .change db := by
      rintro db rfl
      cases hreading
    obtain ⟨hprocess, hs⟩ := leaseStep_some hstep
    rcases processStep_leaseOf hown hprocess with ⟨now', hnow', hlease⟩ | ⟨hnone, _⟩
    · obtain rfl := Option.some.inj (hreading.symm.trans hnow')
      rw [hlease, hreading, hwritten] at hs
      have hle := hbackward before [a] after r s _ _ (by rw [has]; simp) hbefore
        (by rw [Machine.run_cons, hstep]; rfl) (by rw [hs]; exact Option.some_ne_none _)
        (hkept written hwritten) hlease
      exact le_of_add_le_add_right hle
    · rw [hreading] at hnone
      cases hnone
  · rintro hordered before middle after r s lease lease' rfl hbefore hmiddle hs hlease hlease'
    obtain ⟨hothers, _⟩ := Machine.allowed_append.mp hothers
    obtain ⟨hothers, hothers'⟩ := Machine.allowed_append.mp hothers
    obtain ⟨hordered, _⟩ := Machine.allowed_append.mp hordered
    obtain ⟨_, hordered'⟩ := Machine.allowed_append.mp hordered
    have hkept := hinit.reached hothers hbefore
    obtain ⟨hkept', hgrows⟩ := hkept.grows (hothers' r hbefore) (hordered' r hbefore) hmiddle
    obtain ⟨later, hlater⟩ := Option.ne_none_iff_exists'.mp hs
    obtain ⟨earlier, hearlier, hle⟩ := hgrows later hlater
    have hfirst := hlease.symm.trans (hkept earlier hearlier)
    have hsecond := hlease'.symm.trans (hkept' later hlater)
    obtain rfl := Option.some.inj hfirst
    obtain rfl := Option.some.inj hsecond
    exact add_le_add_left hle _

end Runs

section Example

/-- The heartbeat's renewal reads the clock before the chunk replacement does. -/
def overlappingActions : List ProcessAction :=
  leasedActions (.content (.ok [0x61])) 11 ++ .timeout 12 ::
    leasedActions (.parsed (.ok ⟨[⟨str "a", none, ParsedSection.unnumbered⟩]⟩)) 13

theorem lease_never_backward_example : ∃ job db document t,
    exampleService.claimNext queuedDatabase [] 10 = .ok (some (job, db)) ∧
    (leasing exampleSha256 exampleUuid5 exampleService (claimedDocument job document)).run
      (.init db 10) (overlappingActions ++ [.renew, .transact 14]) = some t ∧
    ∀ before middle after r s lease lease', overlappingActions ++ [.renew, .transact 14] =
        before ++ middle ++ after →
      (leasing exampleSha256 exampleUuid5 exampleService (claimedDocument job document)).run
        (.init db 10) before = some r →
      (leasing exampleSha256 exampleUuid5 exampleService (claimedDocument job document)).run
        r middle = some s →
      s.written ≠ none → leaseOf r.task.db job.id = some lease → leaseOf s.task.db job.id = some lease' →
      lease ≤ lease' := by
  have hany : (exampleService.claimNext queuedDatabase [] 10).toOption.any fun claim =>
      claim.any fun (job, db) => (db.documents.find? job.documentId).any fun document =>
        decide ((leasing exampleSha256 exampleUuid5 exampleService (claimedDocument job document)).Allowed
          (InReadingOrder exampleUuid5 exampleService (claimedDocument job document)) (.init db 10)
          (overlappingActions ++ [.renew, .transact 14])) &&
        ((leasing exampleSha256 exampleUuid5 exampleService (claimedDocument job document)).run
          (.init db 10) (overlappingActions ++ [.renew, .transact 14])).isSome := by
    decide +kernel
  obtain ⟨claim, hclaim, hclaimed⟩ := Option.any_eq_true _ _ |>.mp hany
  obtain ⟨⟨job, db⟩, rfl, hread⟩ := Option.any_eq_true _ _ |>.mp hclaimed
  obtain ⟨document, hdocument, hruns⟩ := Option.any_eq_true _ _ |>.mp hread
  obtain ⟨hordered, hfinal⟩ := Bool.and_eq_true_iff.mp hruns
  obtain ⟨t, hrun⟩ := Option.isSome_iff_exists.mp hfinal
  have hclaim := toOption_eq_some.mp hclaim
  have hothers : (leasing exampleSha256 exampleUuid5 exampleService (claimedDocument job document)).Allowed
      (OthersSpareLease (claimedDocument job document)) (.init db 10)
      (overlappingActions ++ [.renew, .transact 14]) := by
    refine Machine.allowed_of_forall fun a ha r => ?_
    cases a with
    | change db => simp [overlappingActions, leasedActions] at ha
    | _ => trivial
  exact ⟨job, db, document, t, hclaim, hrun,
    (lease_never_backward_iff hclaim hothers hrun).mpr (of_decide_eq_true hordered)⟩

/-- The replacement commits first, and the renewal then shortens the lease. -/
theorem lease_backward : ∃ job db document r s lease lease',
    exampleService.claimNext queuedDatabase [] 10 = .ok (some (job, db)) ∧
    (leasing exampleSha256 exampleUuid5 exampleService (claimedDocument job document)).run
      (.init db 10) (overlappingActions ++ [.transact 14]) = some r ∧
    (leasing exampleSha256 exampleUuid5 exampleService (claimedDocument job document)).run
      r [.renew] = some s ∧
    s.written ≠ none ∧ leaseOf r.task.db job.id = some lease ∧ leaseOf s.task.db job.id = some lease' ∧
    lease' < lease := by
  have hany : (exampleService.claimNext queuedDatabase [] 10).toOption.any fun claim =>
      claim.any fun (job, db) => (db.documents.find? job.documentId).any fun document =>
        ((leasing exampleSha256 exampleUuid5 exampleService (claimedDocument job document)).run
          (.init db 10) (overlappingActions ++ [.transact 14])).any fun r =>
        ((leasing exampleSha256 exampleUuid5 exampleService (claimedDocument job document)).run
          r [.renew]).any fun s => s.written.isSome && (leaseOf r.task.db job.id).any fun lease =>
            (leaseOf s.task.db job.id).any fun lease' => decide (lease' < lease) := by
    decide +kernel
  obtain ⟨claim, hclaim, hclaimed⟩ := Option.any_eq_true _ _ |>.mp hany
  obtain ⟨⟨job, db⟩, rfl, hread⟩ := Option.any_eq_true _ _ |>.mp hclaimed
  obtain ⟨document, hdocument, hruns⟩ := Option.any_eq_true _ _ |>.mp hread
  obtain ⟨r, hr, hnext⟩ := Option.any_eq_true _ _ |>.mp hruns
  obtain ⟨s, hs, hleases⟩ := Option.any_eq_true _ _ |>.mp hnext
  obtain ⟨hwritten, hleases⟩ := Bool.and_eq_true_iff.mp hleases
  obtain ⟨lease, hlease, hless⟩ := Option.any_eq_true _ _ |>.mp hleases
  obtain ⟨lease', hlease', hless⟩ := Option.any_eq_true _ _ |>.mp hless
  exact ⟨job, db, document, r, s, lease, lease', toOption_eq_some.mp hclaim, hr, hs,
    Option.ne_none_iff_isSome.mpr hwritten, hlease, hlease', of_decide_eq_true hless⟩

end Example

end AgenticRag.Services

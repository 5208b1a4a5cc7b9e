import AgenticRag.Lib.Totals
import AgenticRag.Services.LifecycleMachine

/-! How long a pending job waits. Claims go by the order of the queue, and no job is claimed more
often than its attempts allow, so only so many claims can pass a waiting job by. -/
namespace AgenticRag.Services
open Lib Python Db Ingestion Security

/-- The row can be claimed while the job waits: it is another's, unfinished and not queued behind. -/
def overtakes (job row : IngestionJob) : Bool :=
  row.id ≠ job.id ∧ row.status ≠ .completed ∧ ¬(row.status = .pending ∧ job.claimKey < row.claimKey)

/-- The claims of the row that can pass the job by. -/
def claimsAhead (job row : IngestionJob) : Nat :=
  if overtakes job row then row.maxAttempts - row.attemptCount else 0

/-- The claims that can pass the job by. -/
def LifecycleState.claimsAhead (s : LifecycleState) (job : IngestionJob) : Nat :=
  s.db.ingestionJobs.total (Services.claimsAhead job)

/-- An upload whose job is queued before this one. -/
def uploadsAhead (job : IngestionJob) : LifecycleAction → Bool
  | .upload document jobId =>
    ¬job.claimKey < (IngestionJob.new jobId document.id document.createdAt).claimKey
  | _ => false

/-- Every claim finds the job eligible and its row unlocked. -/
def FindsClaimable (job : IngestionJob) (_ : LifecycleState) : LifecycleAction → Prop
  | .claimNext _ locked now => job.eligible now = true ∧ job.id ∉ locked
  | _ => True

instance (job : IngestionJob) (s : LifecycleState) (a : LifecycleAction) :
    Decidable (FindsClaimable job s a) := by
  unfold FindsClaimable
  split <;> infer_instance

/-- The job waits as it is, and no more claims are made or left ahead than there were. -/
structure Waits (job : IngestionJob) (bound : Nat) (s : LifecycleState) : Prop where
  found : s.db.ingestionJobs.find? job.id = some job
  budget : s.claims.length + s.claimsAhead job ≤ bound

section Rows
variable {job old new : IngestionJob}

/-- The claim takes the first job of the queue. -/
theorem claimNext_least {svc : IngestionProcessingService} {db db' : Database} {locked : List UUID}
    {now : Time} {claimed : IngestionJob} (hok : svc.claimNext db locked now = .ok (some (claimed, db')))
    (hjob : job ∈ db.ingestionJobs) (heligible : job.eligible now = true) (hfree : job.id ∉ locked) :
    ∃ first, first.eligible now = true ∧
      claimed = first.claim svc.workerId.value now (now + svc.leaseDuration) ∧
      Writes db db' first claimed (fun _ => .processing) ∧ first.claimKey ≤ job.claimKey := by
  obtain ⟨first, hfirst, rfl, hw, _⟩ := claimNext_writes hok
  refine ⟨first, hfirst, rfl, hw, ?_⟩
  unfold IngestionProcessingService.claimNext claimNextInternal at hok
  split at hok
  · cases hok
  split at hok
  · cases hok
  dsimp only at hok
  split at hok
  · cases hok
  · rename_i least hleast
    obtain ⟨hclaim, _⟩ := Prod.mk.inj (Option.some.inj (Except.ok.inj hok))
    have hmem := (List.mem_filter.mp (mem_orderBy.mp (List.mem_of_mem_head? hleast))).1
    have hid := congrArg IngestionJob.id hclaim
    obtain rfl : least = first := Table.eq_of_key_eq hmem (Table.mem_of_find? hw.found) hid
    exact head?_orderBy_le hleast (List.mem_filter.mpr ⟨hjob, by simp [heligible, hfree]⟩)

theorem claimsAhead_le (job row : IngestionJob) : claimsAhead job row ≤ row.maxAttempts - row.attemptCount := by
  unfold claimsAhead
  split
  · exact le_rfl
  · exact Nat.zero_le _

/-- A row that is neither queued nor done counts in full. -/
theorem claimsAhead_open (hid : old.id ≠ job.id) (hpending : old.status ≠ .pending)
    (hcompleted : old.status ≠ .completed) :
    claimsAhead job old = old.maxAttempts - old.attemptCount :=
  if_pos (decide_eq_true ⟨hid, hcompleted, fun h => hpending h.1⟩)

end Rows

section Steps
variable {job : IngestionJob} {bound : Nat} {s t : LifecycleState} {db : Database} {now : Time}
  {svc : IngestionProcessingService}

/-- A write of one row changes what is ahead by that row. -/
theorem claimsAhead_write (job : IngestionJob) {old new : IngestionJob} {f : DocumentStatus → DocumentStatus}
    (hw : Writes s.db db old new f) :
    db.ingestionJobs.total (claimsAhead job) + claimsAhead job old =
      s.claimsAhead job + claimsAhead job new := by
  refine Table.total_write (hw.id ▸ hw.found) (fun k => ?_) _
  rw [hw.id]
  exact hw.jobs k

/-- A row that is being processed, or failed, is written without a claim. -/
theorem Waits.written (h : Waits job bound s) (hwaiting : job.status = .pending)
    {old new : IngestionJob} {f : DocumentStatus → DocumentStatus} (hw : Writes s.db db old new f)
    (hpending : old.status ≠ .pending) (hcompleted : old.status ≠ .completed)
    (hmax : new.maxAttempts = old.maxAttempts) (hcount : new.attemptCount = old.attemptCount) :
    Waits job bound { s with db } := by
  have hne : old.id ≠ job.id := by
    intro heq
    obtain rfl := Option.some.inj ((heq ▸ hw.found).symm.trans h.found)
    exact hpending hwaiting
  refine ⟨?_, ?_⟩
  · change db.ingestionJobs.find? job.id = some job
    rw [hw.jobs, if_neg hne.symm]
    exact h.found
  · have hbudget := h.budget
    have hahead := claimsAhead_write job hw
    have hnew := claimsAhead_le job new
    rw [claimsAhead_open hne hpending hcompleted] at hahead
    rw [hmax, hcount] at hnew
    change s.claims.length + db.ingestionJobs.total (claimsAhead job) ≤ bound
    omega

private theorem settledJob_attempts_kept (job : IngestionJob) (failure : Failure) (now retryDelay : Time) :
    (settledJob job failure now retryDelay).maxAttempts = job.maxAttempts ∧
      (settledJob job failure now retryDelay).attemptCount = job.attemptCount := by
  by_cases hr : failure.retryable ∧ job.attemptCount < job.maxAttempts
  · rw [settledJob_retry hr]
    exact ⟨rfl, rfl⟩
  · rw [settledJob_fail hr]
    exact ⟨rfl, rfl⟩

/-- Another job is claimed, from before the waiting one. -/
theorem Waits.claimed (h : Waits job bound s) {first : IngestionJob} {f : DocumentStatus → DocumentStatus}
    {w : Str} {lease : Time} (hw : Writes s.db db first (first.claim w now lease) f)
    (hne : first.id ≠ job.id) (heligible : first.eligible now = true)
    (hleast : first.claimKey ≤ job.claimKey) {claimReading : Str → Option Time} :
    Waits job bound ⟨db, claimReading, first.id :: s.claims⟩ := by
  obtain ⟨hpending, hattempts, _⟩ := eligible_iff.mp heligible
  refine ⟨?_, ?_⟩
  · change db.ingestionJobs.find? job.id = some job
    rw [hw.jobs, if_neg hne.symm]
    exact h.found
  · have hbudget := h.budget
    have hahead := claimsAhead_write job hw
    have hfirst : claimsAhead job first = first.maxAttempts - first.attemptCount :=
      if_pos (decide_eq_true ⟨hne, by simp [hpending], fun hlate => not_le.mpr hlate.2 hleast⟩)
    have hclaimed : claimsAhead job (first.claim w now lease) ≤ first.maxAttempts - (first.attemptCount + 1) :=
      claimsAhead_le _ _
    change (first.id :: s.claims).length + db.ingestionJobs.total (claimsAhead job) ≤ bound
    rw [List.length_cons]
    omega

/-- What the next claims can be after a step of the machine. -/
theorem Waits.step {a : LifecycleAction} (h : Waits job bound s) (hwaiting : job.status = .pending)
    (hallowed : FindsClaimable job s a) (hstep : LifecycleStep s a t) :
    s.claims.count job.id < t.claims.count job.id ∨
      Waits job (bound + if uploadsAhead job a then defaultMaxAttempts else 0) t := by
  cases hstep with
  | @upload document jobId _ db hok =>
    right
    obtain ⟨rfl, _, _, _, hinsert, _⟩ := insertUpload_ok hok
    have hnew := (Table.insert?_eq_some hinsert).1
    refine ⟨?_, ?_⟩
    · change db.ingestionJobs.find? job.id = some job
      rw [Table.find?_insert? hinsert, if_neg, h.found]
      intro heq
      exact Option.some_ne_none _ (h.found.symm.trans (heq ▸ hnew))
    · have hbudget := h.budget
      change s.claims.length + db.ingestionJobs.total (claimsAhead job) ≤ _
      rw [Table.total_insert? hinsert]
      have hahead : claimsAhead job (IngestionJob.new jobId document.id document.createdAt) ≤
          if uploadsAhead job (.upload document jobId) then defaultMaxAttempts else 0 := by
        by_cases hlate : job.claimKey < (IngestionJob.new jobId document.id document.createdAt).claimKey
        · have hnone : claimsAhead job (IngestionJob.new jobId document.id document.createdAt) = 0 :=
            if_neg (fun hahead => (of_decide_eq_true hahead).2.2 ⟨rfl, hlate⟩)
          rw [hnone]
          exact Nat.zero_le _
        · rw [if_pos (by simpa [uploadsAhead] using not_lt.mp hlate)]
          exact claimsAhead_le _ _
      change s.claims.length + (claimsAhead job (IngestionJob.new jobId document.id document.createdAt) +
        s.claimsAhead job) ≤ _
      omega
  | claimNext hclock hok =>
    obtain ⟨heligible, hfree⟩ := hallowed
    obtain ⟨first, hfirst, rfl, hw, hleast⟩ :=
      claimNext_least hok (Table.mem_of_find? h.found) heligible hfree
    by_cases hself : first.id = job.id
    · left
      change _ < (first.id :: s.claims).count job.id
      rw [hself, List.count_cons_self]
      exact Nat.lt_succ_self _
    · right
      exact h.claimed hw hself hfirst hleast
  | renewLease _ hok =>
    obtain ⟨old, howned, hw, _⟩ := renewLease_writes hok
    exact .inr (h.written hwaiting hw (by simp [howned.processing]) (by simp [howned.processing]) rfl rfl)
  | replaceChunks _ hok =>
    obtain ⟨old, howned, hw, _⟩ := replaceChunks_writes hok
    exact .inr (h.written hwaiting hw (by simp [howned.processing]) (by simp [howned.processing]) rfl rfl)
  | completeSuccess _ hok =>
    obtain ⟨old, howned, hw, _⟩ := completeSuccess_writes hok
    exact .inr (h.written hwaiting hw (by simp [howned.processing]) (by simp [howned.processing]) rfl rfl)
  | @completeFailure svc jobId _ failure now _ _ =>
    right
    rcases completeFailure_writes svc s.db jobId failure now with heq | ⟨old, howned, hw, _⟩
    · rw [heq]
      exact h
    · obtain ⟨hmax, hcount⟩ := settledJob_attempts_kept old failure now svc.retryDelay
      exact h.written hwaiting hw (by simp [howned.processing]) (by simp [howned.processing]) hmax hcount
  | recoverExpiredLeases hok =>
    refine .inr (recoverExpiredLeases_induction (P := fun db => Waits job bound { s with db }) hok ?_ h)
    intro db db' old hP hexpired hw _
    obtain ⟨hprocessing, _⟩ := leaseExpired_iff.mp hexpired
    obtain ⟨hmax, hcount⟩ := settledJob_attempts_kept old leaseExpiredFailure _ _
    exact hP.written hwaiting hw (by simp [hprocessing]) (by simp [hprocessing]) hmax hcount
  | retryIngestionJob hok =>
    rcases retryIngestionJob_writes hok with rfl | ⟨old, _, hfailed, hw, _⟩
    · exact .inr h
    · exact .inr (h.written hwaiting hw (by simp [hfailed]) (by simp [hfailed]) rfl rfl)

/-- Claims are never forgotten. -/
theorem claims_grow {as : List LifecycleAction} (hrun : lifecycle.run s as = some t) :
    s.claims <:+ t.claims := by
  refine Machine.reaches_relation (I := fun _ => True) (R := fun s t => s.claims <:+ t.claims)
    (fun _ _ _ _ _ => trivial) ?_ (fun _ => List.suffix_rfl) (fun _ _ _ => List.IsSuffix.trans) trivial
    ⟨as, hrun⟩
  intro s a t _ hstep
  cases lifecycle_step_iff.mp hstep with
  | claimNext _ _ => exact List.suffix_cons _ _
  | _ => exact List.suffix_rfl

theorem Waits.run {as : List LifecycleAction} (h : Waits job bound s) (hwaiting : job.status = .pending)
    (hallowed : lifecycle.Allowed (FindsClaimable job) s as) (hrun : lifecycle.run s as = some t) :
    s.claims.count job.id < t.claims.count job.id ∨
      Waits job (bound + defaultMaxAttempts * as.countP (uploadsAhead job)) t := by
  induction as generalizing s bound with
  | nil =>
    obtain rfl := Option.some.inj hrun
    exact .inr h
  | cons a as ih =>
    obtain ⟨r, hr, hrest⟩ := Machine.run_cons_eq_some.mp hrun
    rcases h.step hwaiting hallowed.1 (lifecycle_step_iff.mp hr) with hclaimed | hwaits
    · exact .inl (hclaimed.trans_le ((claims_grow hrest).sublist.count_le _))
    · have hone : lifecycle.run s [a] = some r := by
        rw [Machine.run_cons, hr]
        rfl
      have hstep : s.claims <:+ r.claims := claims_grow hone
      rcases ih hwaits (hallowed.2 r hr) hrest with hclaimed | hwaits
      · exact .inl ((hstep.sublist.count_le _).trans_lt hclaimed)
      · right
        rw [List.countP_cons]
        refine ⟨hwaits.found, hwaits.budget.trans (le_of_eq ?_)⟩
        split <;> ring

/-- From any state, while every claim finds a pending job eligible and unlocked, the claims of other
jobs before its own are no more than the attempts left to the jobs that are not queued behind it, and
to the uploads that come in before it. -/
theorem bounded_overtaking (hjob : job ∈ s.db.ingestionJobs) (hwaiting : job.status = .pending)
    {as : List LifecycleAction} (hallowed : lifecycle.Allowed (FindsClaimable job) s as)
    (hrun : lifecycle.run s as = some t) :
    s.claims.count job.id < t.claims.count job.id ∨
      t.db.ingestionJobs.find? job.id = some job ∧
        t.claims.length + t.claimsAhead job ≤
          s.claims.length + s.claimsAhead job + defaultMaxAttempts * as.countP (uploadsAhead job) := by
  have hstart : Waits job (s.claims.length + s.claimsAhead job) s := ⟨Table.find?_of_mem hjob, le_rfl⟩
  exact (hstart.run hwaiting hallowed hrun).imp_right fun hwaits => ⟨hwaits.found, hwaits.budget⟩

/-- Two uploads, of which the second waits. -/
def queuedActions : List LifecycleAction :=
  [.upload exampleDocument 5,
    .upload { exampleDocument with
      id := 4
      sha256 := List.replicate 64 (ord '1')
      storageKey := str "other" } 6]

def waitingJob : IngestionJob := IngestionJob.new 6 4 0

/-- The first upload is claimed, fails, and is claimed again when its retry comes before. -/
def passingActions : List LifecycleAction :=
  [.claimNext exampleService [] 10, .completeFailure exampleService 5 .unexpected 20,
    .claimNext exampleService [] 50]

theorem bounded_overtaking_queued : ∃ s t, lifecycle.run (.init exampleDatabase) queuedActions = some s ∧
    lifecycle.run s passingActions = some t ∧ s.claimsAhead waitingJob = 3 ∧
    t.claims = [6, 5] ∧ s.claims.count waitingJob.id < t.claims.count waitingJob.id := by
  have hany : (lifecycle.run (.init exampleDatabase) queuedActions).any (fun s =>
      (s.db.ingestionJobs.rows.any fun row => row = waitingJob) && s.claimsAhead waitingJob = 3 &&
        decide (lifecycle.Allowed (FindsClaimable waitingJob) s passingActions) &&
        (lifecycle.run s passingActions).any fun t =>
          t.claims = [6, 5] ∧ t.db.ingestionJobs.find? waitingJob.id ≠ some waitingJob) = true := by
    decide +kernel
  obtain ⟨s, hs, hany⟩ := (Option.any_eq_true _ _).mp hany
  simp only [Bool.and_eq_true, decide_eq_true_eq] at hany
  obtain ⟨⟨⟨hjob, hahead⟩, hallowed⟩, hany⟩ := hany
  obtain ⟨row, hrow, heq⟩ := List.any_eq_true.mp hjob
  obtain rfl := of_decide_eq_true heq
  obtain ⟨t, ht, hboth⟩ := (Option.any_eq_true _ _).mp hany
  obtain ⟨hclaims, hchanged⟩ := of_decide_eq_true hboth
  exact ⟨s, t, hs, ht, hahead, hclaims,
    (bounded_overtaking hrow rfl hallowed ht).resolve_right fun hwaits => hchanged hwaits.1⟩

end Steps
end AgenticRag.Services

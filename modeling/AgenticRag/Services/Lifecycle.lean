import AgenticRag.Services.Processing

/-! The invariant of one job and its document, and what each transition makes of it. -/
namespace AgenticRag.Services
open Lib Python Db Ingestion

/-- A job, the status of its document and the number of claims it has seen. -/
structure Lifecycle (status : DocumentStatus) (job : IngestionJob) (claims : Nat) : Prop where
  status_agrees : status.value = job.status.value
  leased : job.status = .processing → ∃ w claimed lease, job.claimedBy = some w ∧
    job.claimedAt = some claimed ∧ job.leaseExpiresAt = some lease ∧ claimed < lease
  unleased : job.status ≠ .processing →
    job.claimedBy = none ∧ job.claimedAt = none ∧ job.leaseExpiresAt = none
  attempts_le : job.attemptCount ≤ job.maxAttempts
  attempts_eq : job.attemptCount = claims
  finished : job.finishedAt.isSome ↔ job.status = .completed ∨ job.status = .failed
  next_retry : job.nextRetryAt.isSome → job.status = .pending
  started : job.startedAt = none ↔ job.status = .pending
  progress_completed : job.progressPercent = 100 ↔ job.status = .completed
  progress_pending : job.status = .pending → job.progressPercent = 0
  error_clear : job.status = .processing ∨ job.status = .completed → job.errorCode = none
  error_set : job.status = .failed → job.errorCode ≠ none

/-- The bounds that the CHECK constraints ask for besides. -/
structure Bounded (job : IngestionJob) : Prop where
  maxAttempts_pos : 0 < job.maxAttempts
  progress_le : job.progressPercent ≤ 100
  worker : ∀ w, job.claimedBy = some w → strip w ≠ [] ∧ w.length ≤ 255
  message : ∀ m, job.safeErrorMessage = some m → m.length ≤ 1000

section Rows
variable {status : DocumentStatus} {job : IngestionJob} {claims : Nat} {now : Time}

/-- The row satisfies every CHECK constraint of its table. -/
theorem Lifecycle.checks (h : Lifecycle status job claims) (hb : Bounded job) : job.Checks where
  positive_max_attempts := hb.maxAttempts_pos
  attempt_count_within_max_attempts := h.attempts_le
  progress_percent_range := hb.progress_le
  claimed_by_nonblank := by
    intro w hw
    obtain ⟨hstrip, hlen⟩ := hb.worker w hw
    constructor
    · apply List.length_pos_iff.mpr
      intro hnil
      apply hstrip
      rw [strip_eq_nil]
      intro c hc
      have hspace := stripWhile_eq_nil.mp hnil c hc
      rw [beq_iff_eq.mp hspace]
      rfl
    · refine le_trans ?_ hlen
      exact ((List.rdropWhile_prefix _ _).length_le).trans (List.dropWhile_suffix _).length_le
  lease_fields_consistent := by
    by_cases hp : job.status = .processing
    · obtain ⟨w, c, l, hw, hc, hl, _⟩ := h.leased hp
      exact .inr ⟨by simp [hw], by simp [hc], by simp [hl]⟩
    · exact .inl (h.unleased hp)
  lease_window := by
    intro c l hc hl
    by_cases hp : job.status = .processing
    · obtain ⟨_, c', l', _, hc', hl', hlt⟩ := h.leased hp
      obtain rfl := Option.some.inj (hc.symm.trans hc')
      obtain rfl := Option.some.inj (hl.symm.trans hl')
      exact hlt
    · rw [(h.unleased hp).2.1] at hc
      cases hc
  safe_error_message_length := hb.message

theorem Lifecycle.new (id documentId : UUID) (createdAt : Time) :
    Lifecycle .pending (IngestionJob.new id documentId createdAt) 0 := by
  constructor <;> simp [IngestionJob.new, DocumentStatus.value, IngestionJobStatus.value]

theorem Lifecycle.claim (h : Lifecycle status job claims) (hel : job.eligible now = true) (w : Str)
    {lease : Time} (hlt : now < lease) :
    Lifecycle .processing (job.claim w now lease) (claims + 1) := by
  obtain ⟨_, hattempts, _⟩ := eligible_iff.mp hel
  have heq := h.attempts_eq
  constructor <;> simp [IngestionJob.claim, DocumentStatus.value, IngestionJobStatus.value, hlt]
  · omega
  · exact heq

/-- A renewed lease, with any progress short of the end. -/
theorem Lifecycle.renew (h : Lifecycle status job claims) (hp : job.status = .processing)
    {lease : Time} (hlt : ∀ claimed, job.claimedAt = some claimed → claimed < lease)
    {progress : Nat} (hprogress : progress ≠ 100) :
    Lifecycle status { job with progressPercent := progress, leaseExpiresAt := some lease }
      claims where
  status_agrees := h.status_agrees
  leased := by
    intro _
    obtain ⟨w, c, _, hw, hc, _, _⟩ := h.leased hp
    exact ⟨w, c, lease, hw, hc, rfl, hlt c hc⟩
  unleased := fun hn => absurd hp hn
  attempts_le := h.attempts_le
  attempts_eq := h.attempts_eq
  finished := h.finished
  next_retry := h.next_retry
  started := h.started
  progress_completed := by simp [hp, hprogress]
  progress_pending := by simp [hp]
  error_clear := h.error_clear
  error_set := h.error_set

theorem Lifecycle.succeed (h : Lifecycle status job claims) (hp : job.status = .processing) :
    Lifecycle .completed (succeededJob job now) claims := by
  have hstarted := h.started
  have hle := h.attempts_le
  have heq := h.attempts_eq
  constructor <;>
    simp_all [succeededJob, clearLease, DocumentStatus.value, IngestionJobStatus.value]

theorem Lifecycle.settle (h : Lifecycle status job claims) (hp : job.status = .processing)
    (failure : Failure) (retryDelay : Time) :
    Lifecycle (settledStatus job failure) (settledJob job failure now retryDelay) claims := by
  have hstarted := h.started
  have hprogress := h.progress_completed
  have hle := h.attempts_le
  have heq := h.attempts_eq
  by_cases hr : failure.retryable ∧ job.attemptCount < job.maxAttempts
  · rw [settledStatus, if_pos hr, settledJob_retry hr]
    constructor <;> simp_all [clearLease, DocumentStatus.value, IngestionJobStatus.value]
  · rw [settledStatus, if_neg hr, settledJob_fail hr]
    constructor <;> simp_all [clearLease, DocumentStatus.value, IngestionJobStatus.value]

theorem Lifecycle.retry (h : Lifecycle status job claims) :
    Lifecycle .pending (retriedJob job) claims := by
  have hle := h.attempts_le
  have heq := h.attempts_eq
  constructor <;> simp_all [retriedJob, DocumentStatus.value, IngestionJobStatus.value]

theorem Bounded.new (id documentId : UUID) (createdAt : Time) :
    Bounded (IngestionJob.new id documentId createdAt) := by
  constructor <;> simp [IngestionJob.new, defaultMaxAttempts]

theorem Bounded.claim (h : Bounded job) (w : WorkerId) (lease : Time) :
    Bounded (job.claim w.value now lease) where
  maxAttempts_pos := h.maxAttempts_pos
  progress_le := Nat.zero_le _
  worker := by
    rintro _ ⟨⟩
    exact ⟨w.nonblank, w.length_le⟩
  message := by simp [IngestionJob.claim]

theorem Bounded.renew (h : Bounded job) {progress : Nat} (hprogress : progress ≤ 100)
    (lease : Option Time) :
    Bounded { job with progressPercent := progress, leaseExpiresAt := lease } :=
  ⟨h.maxAttempts_pos, hprogress, h.worker, h.message⟩

theorem Bounded.succeed (h : Bounded job) : Bounded (succeededJob job now) := by
  have hmax := h.maxAttempts_pos
  constructor <;> simp [succeededJob, clearLease, hmax]

theorem Bounded.settle (h : Bounded job) {failure : Failure} (retryDelay : Time)
    (hmessage : failure.safeMessage.length ≤ 1000) :
    Bounded (settledJob job failure now retryDelay) := by
  have hmax := h.maxAttempts_pos
  have hprogress := h.progress_le
  by_cases hr : failure.retryable ∧ job.attemptCount < job.maxAttempts
  · rw [settledJob_retry hr]
    constructor <;> simp [clearLease, hmax, hmessage]
  · rw [settledJob_fail hr]
    constructor <;> simp [clearLease, hmax, hmessage, hprogress]

theorem Bounded.retry (h : Bounded job) : Bounded (retriedJob job) := by
  have hmax := h.maxAttempts_pos
  constructor <;> simp [retriedJob, hmax]

end Rows
end AgenticRag.Services

import AgenticRag.Services.Processing

/-! What each transaction writes: one job row and the status of its document, and besides
only chunk rows in a replacement. -/
namespace AgenticRag.Services
open Lib Python Db Ingestion Security

/-- One job row is written, and the status of its document through `f`. -/
structure Writes (db db' : Database) (job job' : IngestionJob)
    (f : DocumentStatus → DocumentStatus) : Prop where
  found : db.ingestionJobs.find? job.id = some job
  id : job'.id = job.id
  documentId : job'.documentId = job.documentId
  jobs : ∀ k, db'.ingestionJobs.find? k =
    if k = job.id then some job' else db.ingestionJobs.find? k
  documents : ∀ d, db'.documents.find? d = (db.documents.find? d).map fun document =>
    if d = job.documentId then { document with status := f document.status } else document

section Writes
variable {db : Database} {job : IngestionJob} (job' : IngestionJob)

theorem writes_flushJob (hfound : db.ingestionJobs.find? job.id = some job)
    (hid : job'.id = job.id) (hdoc : job'.documentId = job.documentId) :
    Writes db (db.flushJob job') job job' id where
  found := hfound
  id := hid
  documentId := hdoc
  jobs := by
    intro k
    rw [Database.find?_flushJob, hid]
    by_cases hk : k = job.id
    · rw [if_pos hk, if_pos hk, hk, hfound]
      rfl
    · rw [if_neg hk, if_neg hk]
  documents := by
    intro d
    simp

theorem writes_touch (status : DocumentStatus) (hfound : db.ingestionJobs.find? job.id = some job)
    (hid : job'.id = job.id) (hdoc : job'.documentId = job.documentId) :
    Writes db ((db.flushJob job').flushDocumentStatus job.documentId status) job job'
      fun _ => status where
  found := hfound
  id := hid
  documentId := hdoc
  jobs := by
    intro k
    rw [Database.flushDocumentStatus_ingestionJobs]
    exact (writes_flushJob job' hfound hid hdoc).jobs k
  documents := fun d => Database.find?_flushDocumentStatus _ _ _ _

end Writes

section Operations
variable {svc : IngestionProcessingService} {db db' : Database} {now : Time}

theorem claimNext_writes {locked : List UUID} {claimed : IngestionJob}
    (h : svc.claimNext db locked now = .ok (some (claimed, db'))) :
    ∃ job, job.eligible now = true ∧
      claimed = job.claim svc.workerId.value now (now + svc.leaseDuration) ∧
      Writes db db' job claimed (fun _ => .processing) ∧ db'.documentChunks = db.documentChunks := by
  obtain ⟨job, hfound, hel, _, rfl, rfl⟩ := claimNextInternal_some h
  refine ⟨job, hel, rfl, writes_touch _ .processing hfound rfl rfl, ?_⟩
  rw [Database.flushDocumentStatus_documentChunks, Database.flushJob_documentChunks]

/-- What ownership at a reading says of the row. -/
structure Owned (svc : IngestionProcessingService) (db : Database) (jobId : UUID) (now : Time)
    (job : IngestionJob) : Prop where
  id : job.id = jobId
  processing : job.status = .processing
  claimedBy : job.claimedBy = some svc.workerId.value
  lease : ∃ lease, job.leaseExpiresAt = some lease ∧ now < lease

theorem owned_of_some {jobId : UUID} {job : IngestionJob}
    (h : getOwnedProcessingInternal db jobId svc.workerId.value now = some job) :
    db.ingestionJobs.find? job.id = some job ∧ Owned svc db jobId now job := by
  obtain ⟨hfound, hp, hby, hlease⟩ := getOwnedProcessingInternal_some.mp h
  have hid := Table.find?_key hfound
  exact ⟨hid ▸ hfound, hid, hp, hby, hlease⟩

theorem renewLease_writes {jobId : UUID} (h : svc.renewLease db jobId now = some db') :
    ∃ job, Owned svc db jobId now job ∧
      Writes db db' job { job with leaseExpiresAt := some (now + svc.leaseDuration) } id ∧
      db'.documentChunks = db.documentChunks := by
  obtain ⟨job, howned, rfl⟩ := Option.map_eq_some_iff.mp h
  obtain ⟨hfound, howned⟩ := owned_of_some howned
  exact ⟨job, howned, writes_flushJob _ hfound rfl rfl, rfl⟩

theorem replaceChunks_writes {claimed : ClaimedDocument} {chunks : List DocumentChunk}
    (h : svc.replaceChunks db claimed chunks now = .ok db') :
    ∃ job, Owned svc db claimed.jobId now job ∧
      Writes db db' job { job with
        progressPercent := 50
        leaseExpiresAt := some (now + svc.leaseDuration) } id ∧
      (∀ c ∈ chunks, c.documentId = claimed.documentId) ∧ (chunks.map DocumentChunk.id).Nodup ∧
      ∀ c, c ∈ db'.documentChunks ↔
        c ∈ chunks ∨ c ∈ db.documentChunks ∧ c.documentId ≠ claimed.documentId := by
  obtain ⟨job, mid, howned, hreplace, rfl⟩ := replaceChunks_ok h
  obtain ⟨hfound, howned⟩ := owned_of_some howned
  obtain ⟨hdoc, hids, hmem, hmid⟩ := replaceForDocumentInternal_ok hreplace
  have hw : Writes mid (mid.flushJob { job with
      progressPercent := 50
      leaseExpiresAt := some (now + svc.leaseDuration) }) job _ id :=
    writes_flushJob _ (by rw [hmid]; exact hfound) rfl rfl
  refine ⟨job, howned, ?_, hdoc, hids, hmem⟩
  rw [hmid] at hw ⊢
  exact ⟨hfound, hw.id, hw.documentId, hw.jobs, hw.documents⟩

theorem completeSuccess_writes {jobId : UUID} (h : svc.completeSuccess db jobId now = some db') :
    ∃ job, Owned svc db jobId now job ∧
      Writes db db' job (succeededJob job now) (fun _ => .completed) ∧
      db'.documentChunks = db.documentChunks := by
  obtain ⟨job, howned, rfl⟩ := Option.map_eq_some_iff.mp h
  obtain ⟨hfound, howned⟩ := owned_of_some howned
  refine ⟨job, howned, writes_touch _ .completed hfound rfl rfl, ?_⟩
  rw [Database.flushDocumentStatus_documentChunks, Database.flushJob_documentChunks]

/-- A failed or abandoned attempt written back. -/
theorem settle_writes {job : IngestionJob} (failure : Failure) (now retryDelay : Time)
    (hfound : db.ingestionJobs.find? job.id = some job) :
    Writes db ((db.flushJob (settledJob job failure now retryDelay)).flushDocumentStatus
      job.documentId (settledStatus job failure)) job (settledJob job failure now retryDelay)
      fun _ => settledStatus job failure :=
  writes_touch _ _ hfound (settledJob_id _ _ _ _) (settledJob_documentId _ _ _ _)

theorem completeFailure_writes (svc : IngestionProcessingService) (db : Database) (jobId : UUID)
    (failure : Failure) (now : Time) :
    svc.completeFailure db jobId failure now = db ∨
      ∃ job, Owned svc db jobId now job ∧
        Writes db (svc.completeFailure db jobId failure now) job
          (settledJob job failure now svc.retryDelay) (fun _ => settledStatus job failure) ∧
        (svc.completeFailure db jobId failure now).documentChunks = db.documentChunks := by
  unfold IngestionProcessingService.completeFailure
  split
  · exact .inl rfl
  · rename_i job howned
    obtain ⟨hfound, howned⟩ := owned_of_some howned
    refine .inr ⟨job, howned, settle_writes failure now svc.retryDelay hfound, ?_⟩
    rw [Database.flushDocumentStatus_documentChunks, Database.flushJob_documentChunks]

theorem retryIngestionJob_writes {userId jobId : UUID} {job : IngestionJob}
    (h : retryIngestionJob db userId jobId = .ok (job, db')) :
    db' = db ∨ ∃ old, old.id = jobId ∧ old.status = .failed ∧
      Writes db db' old (retriedJob old) (fun _ => .pending) ∧
      db'.documentChunks = db.documentChunks := by
  rcases retryIngestionJob_ok h with ⟨_, _, rfl⟩ | ⟨old, hfound, hfailed, _, rfl⟩
  · exact .inl rfl
  · have hid := Table.find?_key hfound
    rw [← hid] at hfound
    refine .inr ⟨old, hid, hfailed, writes_touch _ .pending hfound rfl rfl, ?_⟩
    rw [Database.flushDocumentStatus_documentChunks, Database.flushJob_documentChunks]

end Operations

section Recovery
variable {svc : IngestionProcessingService} {now : Time}

/-- Recoveries one after another: each job is still as it was read when its turn comes, so
whatever each of them preserves, the loop preserves. -/
theorem recoverJobs_induction {P : Database → Prop} {db : Database} {jobs : List IngestionJob}
    (hnodup : (jobs.map IngestionJob.id).Nodup)
    (hjobs : ∀ job ∈ jobs, db.ingestionJobs.find? job.id = some job ∧ job.leaseExpired now = true)
    (hstep : ∀ db db' job, P db → job.leaseExpired now = true →
      Writes db db' job (settledJob job leaseExpiredFailure now svc.retryDelay)
        (fun _ => settledStatus job leaseExpiredFailure) →
      db'.documentChunks = db.documentChunks → P db')
    (hP : P db) : P (jobs.foldl (svc.recoverJob now) db) := by
  induction jobs generalizing db with
  | nil => exact hP
  | cons job jobs ih =>
    rw [List.map_cons, List.nodup_cons] at hnodup
    obtain ⟨hfound, hp⟩ := hjobs job List.mem_cons_self
    have hw := settle_writes leaseExpiredFailure now svc.retryDelay hfound
    have hchunks : (svc.recoverJob now db job).documentChunks = db.documentChunks := by
      unfold IngestionProcessingService.recoverJob
      rw [Database.flushDocumentStatus_documentChunks, Database.flushJob_documentChunks]
    refine ih hnodup.2 ?_ (hstep db _ job hP hp hw hchunks)
    intro other hother
    have hne : other.id ≠ job.id := fun he => hnodup.1 (he ▸ List.mem_map_of_mem hother)
    obtain ⟨hf, hpo⟩ := hjobs other (List.mem_cons_of_mem _ hother)
    refine ⟨?_, hpo⟩
    rw [IngestionProcessingService.recoverJob, hw.jobs, if_neg hne]
    exact hf

theorem recoverExpiredLeases_induction {P : Database → Prop} {db db' : Database}
    {locked : List UUID} {limit : Int} {n : Nat}
    (h : svc.recoverExpiredLeases db locked limit now = .ok (n, db'))
    (hstep : ∀ db db' job, P db → job.leaseExpired now = true →
      Writes db db' job (settledJob job leaseExpiredFailure now svc.retryDelay)
        (fun _ => settledStatus job leaseExpiredFailure) →
      db'.documentChunks = db.documentChunks → P db')
    (hP : P db) : P db' := by
  unfold IngestionProcessingService.recoverExpiredLeases at h
  cases hlock : lockExpiredLeasesInternal db locked now limit with
  | error e =>
    rw [hlock] at h
    cases h
  | ok jobs =>
    rw [hlock] at h
    obtain ⟨hnodup, hall⟩ := lockExpiredLeasesInternal_ok hlock
    simp only [Except.map, Except.ok.injEq, Prod.mk.injEq] at h
    obtain ⟨_, rfl⟩ := h
    exact recoverJobs_induction hnodup hall hstep hP

end Recovery
end AgenticRag.Services

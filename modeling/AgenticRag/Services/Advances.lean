import AgenticRag.Services.LifecycleMachine

/-! What each transaction leaves alone: the rows of completed jobs and of jobs that another
worker holds. -/
namespace AgenticRag.Services
open Lib Python Db Ingestion Security

def SameChunks (db db' : Database) (documentId : UUID) : Prop :=
  ∀ c, c.documentId = documentId → (c ∈ db'.documentChunks ↔ c ∈ db.documentChunks)

def OneJob (db : Database) : Prop :=
  ∀ j k a b, db.ingestionJobs.find? j = some a → db.ingestionJobs.find? k = some b →
    a.documentId = b.documentId → j = k

/-- What a transaction leaves alone: completed jobs, and jobs held by others than `writer`.
Only jobs in `done` become completed. -/
structure Advances (writer : Option Str) (done : UUID → Prop) (db db' : Database) : Prop where
  persists : ∀ k job, db.ingestionJobs.find? k = some job →
    ∃ job', db'.ingestionJobs.find? k = some job' ∧ job'.documentId = job.documentId
  held : ∀ k job' w, db'.ingestionJobs.find? k = some job' → job'.status = .processing →
    job'.claimedBy = some w → some w ≠ writer → ∃ job, db.ingestionJobs.find? k = some job ∧
      job.documentId = job'.documentId ∧ job.status = .processing ∧ job.claimedBy = some w ∧
      job.attemptCount = job'.attemptCount ∧ SameChunks db db' job.documentId
  completed : ∀ k job, db.ingestionJobs.find? k = some job → job.status = .completed →
    db'.ingestionJobs.find? k = some job ∧
      db'.documents.find? job.documentId = db.documents.find? job.documentId ∧
      SameChunks db db' job.documentId
  completes : ∀ k job', db'.ingestionJobs.find? k = some job' → job'.status = .completed →
    db.ingestionJobs.find? k = some job' ∨ done k

section Advances
variable {writer : Option Str} {done : UUID → Prop} {db db' db'' : Database}

theorem SameChunks.refl (db : Database) (d : UUID) : SameChunks db db d := fun _ _ => Iff.rfl

theorem SameChunks.trans {d : UUID} (h : SameChunks db db' d) (h' : SameChunks db' db'' d) :
    SameChunks db db'' d := fun c hc => (h' c hc).trans (h c hc)

theorem sameChunks_of_eq (h : db'.documentChunks = db.documentChunks) (d : UUID) :
    SameChunks db db' d := by
  intro c _
  rw [h]

theorem Advances.refl (writer : Option Str) (done : UUID → Prop) (db : Database) :
    Advances writer done db db where
  persists := fun _ job hk => ⟨job, hk, rfl⟩
  held := fun _ job _ hk hp hby _ => ⟨job, hk, rfl, hp, hby, rfl, .refl _ _⟩
  completed := fun _ _ hk _ => ⟨hk, rfl, .refl _ _⟩
  completes := fun _ _ hk _ => .inl hk

theorem Advances.trans (h : Advances writer done db db') (h' : Advances writer done db' db'') :
    Advances writer done db db'' where
  persists := by
    intro k job hk
    obtain ⟨job', hk', hd⟩ := h.persists k job hk
    obtain ⟨job'', hk'', hd'⟩ := h'.persists k job' hk'
    exact ⟨job'', hk'', hd'.trans hd⟩
  held := by
    intro k job'' w hk'' hp'' hby'' hne
    obtain ⟨job', hk', hd', hp', hby', hn', hc'⟩ := h'.held k job'' w hk'' hp'' hby'' hne
    obtain ⟨job, hk, hd, hp, hby, hn, hc⟩ := h.held k job' w hk' hp' hby' hne
    exact ⟨job, hk, hd.trans hd', hp, hby, hn.trans hn', hc.trans (hd ▸ hc')⟩
  completed := by
    intro k job hk hc
    obtain ⟨hk', hd', hs'⟩ := h.completed k job hk hc
    obtain ⟨hk'', hd'', hs''⟩ := h'.completed k job hk' hc
    exact ⟨hk'', hd''.trans hd', hs'.trans hs''⟩
  completes := by
    intro k job'' hk'' hc
    rcases h'.completes k job'' hk'' hc with hk' | hd
    · exact h.completes k job'' hk' hc
    · exact .inr hd

/-- One written job: it was not completed, and if another worker than `writer` holds it
afterwards, that worker held it before. -/
theorem Writes.advances {job job' : IngestionJob} {f : DocumentStatus → DocumentStatus}
    (hw : Writes db db' job job' f) (hone : OneJob db) (hopen : job.status ≠ .completed)
    (hheld : ∀ w, job'.status = .processing → job'.claimedBy = some w → some w ≠ writer →
      job.status = .processing ∧ job.claimedBy = some w ∧ job.attemptCount = job'.attemptCount)
    (hdone : job'.status = .completed → done job.id)
    (hothers : ∀ d, d ≠ job.documentId → SameChunks db db' d)
    (hown : job'.claimedBy = writer ∨ SameChunks db db' job.documentId) :
    Advances writer done db db' where
  persists := by
    intro k row hk
    rw [hw.jobs]
    by_cases he : k = job.id
    · obtain rfl := Option.some.inj ((he ▸ hk).symm.trans hw.found)
      exact ⟨job', if_pos he, hw.documentId⟩
    · exact ⟨row, (if_neg he).trans hk, rfl⟩
  held := by
    intro k row w hk hp hby hne
    rw [hw.jobs] at hk
    by_cases he : k = job.id
    · rw [if_pos he] at hk
      obtain rfl := Option.some.inj hk
      obtain ⟨hp', hby', hn⟩ := hheld w hp hby hne
      refine ⟨job, he ▸ hw.found, hw.documentId.symm, hp', hby', hn, hown.resolve_left ?_⟩
      intro hwriter
      exact hne (hby.symm.trans hwriter)
    · rw [if_neg he] at hk
      exact ⟨row, hk, rfl, hp, hby, rfl, hothers _ fun hd => he (hone _ _ _ _ hk hw.found hd)⟩
  completed := by
    intro k row hk hc
    have he : k ≠ job.id := by
      rintro rfl
      obtain rfl := Option.some.inj (hk.symm.trans hw.found)
      exact hopen hc
    have hd : row.documentId ≠ job.documentId := fun hd => he (hone _ _ _ _ hk hw.found hd)
    refine ⟨by rw [hw.jobs, if_neg he, hk], ?_, hothers _ hd⟩
    simp only [hw.documents, if_neg hd, Option.map_id']
  completes := by
    intro k row hk hc
    rw [hw.jobs] at hk
    by_cases he : k = job.id
    · rw [if_pos he] at hk
      obtain rfl := Option.some.inj hk
      exact .inr (he ▸ hdone hc)
    · exact .inl (by rwa [if_neg he] at hk)

end Advances

section Operations
variable {svc : IngestionProcessingService} {s : LifecycleState} {db' : Database} {now : Time}

theorem claimNext_advances (h : Consistent s) (done : UUID → Prop) {locked : List UUID}
    {job : IngestionJob} (hok : svc.claimNext s.db locked now = .ok (some (job, db'))) :
    Advances (some svc.workerId.value) done s.db db' := by
  obtain ⟨old, hel, rfl, hw, hchunks⟩ := claimNext_writes hok
  refine hw.advances h.one_job ?_ ?_ (fun hc => nomatch hc)
    (fun d _ => sameChunks_of_eq hchunks d) (.inl rfl)
  · rw [(eligible_iff.mp hel).1]
    exact nofun
  · intro w _ hby hne
    exact absurd hby.symm hne

theorem renewLease_advances (h : Consistent s) (writer : Option Str) (done : UUID → Prop)
    {jobId : UUID} (hok : svc.renewLease s.db jobId now = some db') :
    Advances writer done s.db db' := by
  obtain ⟨job, howned, hw, hchunks⟩ := renewLease_writes hok
  have hp := howned.processing
  refine hw.advances h.one_job (by simp [hp]) (fun w _ hby _ => ⟨hp, hby, rfl⟩) ?_
    (fun d _ => sameChunks_of_eq hchunks d) (.inr (sameChunks_of_eq hchunks _))
  intro hc
  simp [hp] at hc

/-- A replacement whose claim names the document of its job. -/
theorem replaceChunks_advances (h : Consistent s) (done : UUID → Prop) {claimed : ClaimedDocument}
    {rows : List DocumentChunk} (hok : svc.replaceChunks s.db claimed rows now = .ok db')
    (hdocument : ∀ job, s.db.ingestionJobs.find? claimed.jobId = some job →
      job.documentId = claimed.documentId) :
    Advances (some svc.workerId.value) done s.db db' := by
  obtain ⟨job, howned, hw, hdoc, _, hmem⟩ := replaceChunks_writes hok
  have hp := howned.processing
  have hd : job.documentId = claimed.documentId := hdocument job (howned.id ▸ hw.found)
  refine hw.advances h.one_job (by simp [hp]) (fun w _ hby _ => ⟨hp, hby, rfl⟩) ?_ ?_
    (.inl howned.claimedBy)
  · intro hc
    simp [hp] at hc
  · intro d hne c hc
    rw [hmem]
    constructor
    · rintro (hrow | ⟨hold, _⟩)
      · exact absurd (hc.symm.trans ((hdoc c hrow).trans hd.symm)) hne
      · exact hold
    · intro hold
      exact .inr ⟨hold, fun he => hne (hc.symm.trans (he.trans hd.symm))⟩

theorem completeSuccess_advances (h : Consistent s) {jobId : UUID}
    (hok : svc.completeSuccess s.db jobId now = some db') :
    Advances none (· = jobId) s.db db' := by
  obtain ⟨job, howned, hw, hchunks⟩ := completeSuccess_writes hok
  exact hw.advances h.one_job (by simp [howned.processing]) (fun _ hp => nomatch hp)
    (fun _ => howned.id) (fun d _ => sameChunks_of_eq hchunks d) (.inl rfl)

theorem settledJob_open (job : IngestionJob) (failure : Failure) (now retryDelay : Time) :
    (settledJob job failure now retryDelay).status ≠ .processing ∧
      (settledJob job failure now retryDelay).status ≠ .completed ∧
      (settledJob job failure now retryDelay).claimedBy = none := by
  by_cases h : failure.retryable ∧ job.attemptCount < job.maxAttempts
  · rw [settledJob_retry h]
    exact ⟨nofun, nofun, rfl⟩
  · rw [settledJob_fail h]
    exact ⟨nofun, nofun, rfl⟩

theorem settled_advances (h : Consistent s) {job : IngestionJob} {failure : Failure}
    {retryDelay : Time} (hp : job.status = .processing)
    (hw : Writes s.db db' job (settledJob job failure now retryDelay)
      fun _ => settledStatus job failure)
    (hchunks : db'.documentChunks = s.db.documentChunks) :
    Advances none (fun _ => False) s.db db' := by
  obtain ⟨hnp, hnc, hby⟩ := settledJob_open job failure now retryDelay
  exact hw.advances h.one_job (by simp [hp]) (fun _ hs => absurd hs hnp) (fun hs => hnc hs)
    (fun d _ => sameChunks_of_eq hchunks d) (.inl hby)

theorem completeFailure_advances (h : Consistent s) (svc : IngestionProcessingService)
    (jobId : UUID) (failure : Failure) (now : Time) :
    Advances none (fun _ => False) s.db (svc.completeFailure s.db jobId failure now) := by
  rcases completeFailure_writes svc s.db jobId failure now with heq | ⟨job, howned, hw, hchunks⟩
  · rw [heq]
    exact .refl _ _ _
  · exact settled_advances h howned.processing hw hchunks

theorem recoverExpiredLeases_advances (h : Consistent s) {locked : List UUID} {limit : Int}
    {n : Nat} (hok : svc.recoverExpiredLeases s.db locked limit now = .ok (n, db')) :
    Advances none (fun _ => False) s.db db' :=
  (recoverExpiredLeases_induction
    (P := fun db => Consistent { s with db } ∧ Advances none (fun _ => False) s.db db) hok
    (fun db _ _ hP hexpired hw hchunks =>
      have hp := (leaseExpired_iff.mp hexpired).1
      ⟨Consistent.settled (s := { s with db }) hP.1 hp leaseExpired_message_length hw,
        hP.2.trans (settled_advances (s := { s with db }) hP.1 hp hw hchunks)⟩)
    ⟨h, .refl _ _ _⟩).2

theorem retryIngestionJob_advances (h : Consistent s) {userId jobId : UUID} {job : IngestionJob}
    (hok : retryIngestionJob s.db userId jobId = .ok (job, db')) :
    Advances none (fun _ => False) s.db db' := by
  rcases retryIngestionJob_writes hok with rfl | ⟨old, _, hfailed, hw, hchunks⟩
  · exact .refl _ _ _
  · exact hw.advances h.one_job (by simp [hfailed]) (fun _ hp => nomatch hp) (fun hp => nomatch hp)
      (fun d _ => sameChunks_of_eq hchunks d) (.inl rfl)

theorem insertUpload_advances {document : Document} {jobId : UUID} {job : IngestionJob}
    (hok : insertUpload s.db document jobId = .ok (job, db')) :
    Advances none (fun _ => False) s.db db' := by
  obtain ⟨rfl, _, hjobs, hdoc, hins, hdb⟩ := insertUpload_ok hok
  have hfresh := (Table.insert?_eq_some hins).1
  have hchunks : db'.documentChunks = s.db.documentChunks := by rw [hdb]
  have hold : ∀ k row, s.db.ingestionJobs.find? k = some row →
      db'.ingestionJobs.find? k = some row := by
    intro k row hk
    rw [Table.find?_insert? hins, if_neg, hk]
    rintro rfl
    exact Option.some_ne_none _ (hk.symm.trans hfresh)
  have hrow : ∀ k row, db'.ingestionJobs.find? k = some row →
      row.status = .pending ∨ s.db.ingestionJobs.find? k = some row := by
    intro k row hk
    rw [Table.find?_insert? hins] at hk
    split at hk
    · exact .inl (Option.some.inj hk ▸ rfl)
    · exact .inr hk
  constructor
  · exact fun k row hk => ⟨row, hold k row hk, rfl⟩
  · intro k row w hk hp hby _
    have hs := (hrow k row hk).resolve_left (by simp [hp])
    exact ⟨row, hs, rfl, hp, hby, rfl, sameChunks_of_eq hchunks _⟩
  · intro k row hk _
    refine ⟨hold k row hk, ?_, sameChunks_of_eq hchunks _⟩
    rw [Table.find?_insert? hdoc, if_neg]
    exact hjobs row (Table.mem_of_find? hk)
  · intro k row hk hc
    exact .inl ((hrow k row hk).resolve_left (by simp [hc]))

end Operations

end AgenticRag.Services

import AgenticRag.Lib.Machine
import AgenticRag.Services.Intake
import AgenticRag.Services.Lifecycle
import AgenticRag.Services.Writes

/-! Uploads, worker transactions, recoveries and user retries in any order, each transaction
atomic, and the invariant of every job they reach. -/
namespace AgenticRag.Services
open Lib Python Db Ingestion Security

/-- The rows, the clock reading of each worker's latest claim and the job of every claim. -/
structure LifecycleState where
  db : Database
  claimReading : Str → Option Time
  claims : List UUID

inductive LifecycleAction where
  | upload (document : Document) (jobId : UUID)
  | claimNext (svc : IngestionProcessingService) (locked : List UUID) (now : Time)
  | renewLease (svc : IngestionProcessingService) (jobId : UUID) (now : Time)
  | replaceChunks (svc : IngestionProcessingService) (claimed : ClaimedDocument)
      (chunks : List DocumentChunk) (now : Time)
  | completeSuccess (svc : IngestionProcessingService) (jobId : UUID) (now : Time)
  | completeFailure (svc : IngestionProcessingService) (jobId : UUID) (raised : Raised) (now : Time)
  | recoverExpiredLeases (svc : IngestionProcessingService) (locked : List UUID) (limit : Int)
      (now : Time)
  | retryIngestionJob (userId jobId : UUID)

/-- A worker's clock has not gone back behind its latest claim; a clock that never goes back
satisfies this at every reading. -/
def LifecycleState.clockAllows (s : LifecycleState) (svc : IngestionProcessingService) (now : Time) :
    Bool :=
  (s.claimReading svc.workerId.value).all (· ≤ now)

/-- A transaction that raises, or finds nothing to do, is no step. -/
def lifecycleStep (s : LifecycleState) : LifecycleAction → Option LifecycleState
  | .upload document jobId =>
    match insertUpload s.db { document with status := .pending } jobId with
    | .ok (_, db) => some { s with db }
    | .error _ => none
  | .claimNext svc locked now =>
    if s.clockAllows svc now then
      match svc.claimNext s.db locked now with
      | .ok (some (job, db)) => some
        { db
          claimReading := Function.update s.claimReading svc.workerId.value (some now)
          claims := job.id :: s.claims }
      | _ => none
    else none
  | .renewLease svc jobId now =>
    if s.clockAllows svc now then (svc.renewLease s.db jobId now).map fun db => { s with db }
    else none
  | .replaceChunks svc claimed chunks now =>
    if s.clockAllows svc now then
      match svc.replaceChunks s.db claimed chunks now with
      | .ok db => some { s with db }
      | .error _ => none
    else none
  | .completeSuccess svc jobId now =>
    if s.clockAllows svc now then (svc.completeSuccess s.db jobId now).map fun db => { s with db }
    else none
  | .completeFailure svc jobId raised now =>
    if s.clockAllows svc now then
      raised.failure?.map fun failure =>
        { s with db := svc.completeFailure s.db jobId failure now }
    else none
  | .recoverExpiredLeases svc locked limit now =>
    match svc.recoverExpiredLeases s.db locked limit now with
    | .ok (_, db) => some { s with db }
    | .error _ => none
  | .retryIngestionJob userId jobId =>
    match retryIngestionJob s.db userId jobId with
    | .ok (_, db) => some { s with db }
    | .error _ => none

def lifecycle : Machine LifecycleState LifecycleAction := ⟨lifecycleStep⟩

/-- The steps by the outcome of their transaction. -/
inductive LifecycleStep (s : LifecycleState) : LifecycleAction → LifecycleState → Prop where
  | upload {document jobId job db}
      (hok : insertUpload s.db { document with status := .pending } jobId = .ok (job, db)) :
      LifecycleStep s (.upload document jobId) { s with db }
  | claimNext {svc locked now job db} (hclock : s.clockAllows svc now = true)
      (hok : svc.claimNext s.db locked now = .ok (some (job, db))) :
      LifecycleStep s (.claimNext svc locked now)
        { db
          claimReading := Function.update s.claimReading svc.workerId.value (some now)
          claims := job.id :: s.claims }
  | renewLease {svc jobId now db} (hclock : s.clockAllows svc now = true)
      (hok : svc.renewLease s.db jobId now = some db) :
      LifecycleStep s (.renewLease svc jobId now) { s with db }
  | replaceChunks {svc claimed chunks now db} (hclock : s.clockAllows svc now = true)
      (hok : svc.replaceChunks s.db claimed chunks now = .ok db) :
      LifecycleStep s (.replaceChunks svc claimed chunks now) { s with db }
  | completeSuccess {svc jobId now db} (hclock : s.clockAllows svc now = true)
      (hok : svc.completeSuccess s.db jobId now = some db) :
      LifecycleStep s (.completeSuccess svc jobId now) { s with db }
  | completeFailure {svc jobId raised failure now} (hclock : s.clockAllows svc now = true)
      (hfailure : raised.failure? = some failure) :
      LifecycleStep s (.completeFailure svc jobId raised now)
        { s with db := svc.completeFailure s.db jobId failure now }
  | recoverExpiredLeases {svc locked limit now n db}
      (hok : svc.recoverExpiredLeases s.db locked limit now = .ok (n, db)) :
      LifecycleStep s (.recoverExpiredLeases svc locked limit now) { s with db }
  | retryIngestionJob {userId jobId job db}
      (hok : retryIngestionJob s.db userId jobId = .ok (job, db)) :
      LifecycleStep s (.retryIngestionJob userId jobId) { s with db }

/-- A step is taken exactly when its transaction commits. -/
theorem lifecycle_step_iff {s t : LifecycleState} {a : LifecycleAction} :
    lifecycle.step s a = some t ↔ LifecycleStep s a t := by
  constructor
  · intro hstep
    cases a with
    | upload document jobId =>
      simp only [lifecycle, lifecycleStep] at hstep
      split at hstep
      · rename_i job db hok
        obtain rfl := Option.some.inj hstep
        exact .upload hok
      · cases hstep
    | claimNext svc locked now =>
      simp only [lifecycle, lifecycleStep] at hstep
      split at hstep
      · rename_i hclock
        split at hstep
        · rename_i job db hok
          obtain rfl := Option.some.inj hstep
          exact .claimNext hclock hok
        · cases hstep
      · cases hstep
    | renewLease svc jobId now =>
      simp only [lifecycle, lifecycleStep] at hstep
      split at hstep
      · rename_i hclock
        obtain ⟨db, hok, rfl⟩ := Option.map_eq_some_iff.mp hstep
        exact .renewLease hclock hok
      · cases hstep
    | replaceChunks svc claimed chunks now =>
      simp only [lifecycle, lifecycleStep] at hstep
      split at hstep
      · rename_i hclock
        split at hstep
        · rename_i db hok
          obtain rfl := Option.some.inj hstep
          exact .replaceChunks hclock hok
        · cases hstep
      · cases hstep
    | completeSuccess svc jobId now =>
      simp only [lifecycle, lifecycleStep] at hstep
      split at hstep
      · rename_i hclock
        obtain ⟨db, hok, rfl⟩ := Option.map_eq_some_iff.mp hstep
        exact .completeSuccess hclock hok
      · cases hstep
    | completeFailure svc jobId raised now =>
      simp only [lifecycle, lifecycleStep] at hstep
      split at hstep
      · rename_i hclock
        obtain ⟨failure, hfailure, rfl⟩ := Option.map_eq_some_iff.mp hstep
        exact .completeFailure hclock hfailure
      · cases hstep
    | recoverExpiredLeases svc locked limit now =>
      simp only [lifecycle, lifecycleStep] at hstep
      split at hstep
      · rename_i n db hok
        obtain rfl := Option.some.inj hstep
        exact .recoverExpiredLeases hok
      · cases hstep
    | retryIngestionJob userId jobId =>
      simp only [lifecycle, lifecycleStep] at hstep
      split at hstep
      · rename_i job db hok
        obtain rfl := Option.some.inj hstep
        exact .retryIngestionJob hok
      · cases hstep
  · intro h
    cases h with
    | upload hok => simp only [lifecycle, lifecycleStep, hok]
    | claimNext hclock hok => simp only [lifecycle, lifecycleStep, hok, if_pos hclock]
    | renewLease hclock hok => simp only [lifecycle, lifecycleStep, hok, if_pos hclock, Option.map_some]
    | replaceChunks hclock hok => simp only [lifecycle, lifecycleStep, hok, if_pos hclock]
    | completeSuccess hclock hok =>
      simp only [lifecycle, lifecycleStep, hok, if_pos hclock, Option.map_some]
    | completeFailure hclock hfailure =>
      simp only [lifecycle, lifecycleStep, hfailure, if_pos hclock, Option.map_some]
    | recoverExpiredLeases hok => simp only [lifecycle, lifecycleStep, hok]
    | retryIngestionJob hok => simp only [lifecycle, lifecycleStep, hok]

/-- Before the first upload: any accounts and knowledge bases, nothing ingested. -/
structure FreshDatabase (db : Database) : Prop where
  documents : db.documents.rows = []
  ingestionJobs : db.ingestionJobs.rows = []
  documentChunks : db.documentChunks.rows = []

def LifecycleState.init (db : Database) : LifecycleState := ⟨db, fun _ => none, []⟩

/-- The invariant: every job with its document, one job a document, the claims and the clocks. -/
structure Consistent (s : LifecycleState) : Prop where
  bounded : ∀ k job, s.db.ingestionJobs.find? k = some job → Bounded job
  jobs : ∀ k job, s.db.ingestionJobs.find? k = some job → ∃ document,
    s.db.documents.find? job.documentId = some document ∧
      Lifecycle document.status job (s.claims.count k)
  one_job : ∀ j k a b, s.db.ingestionJobs.find? j = some a → s.db.ingestionJobs.find? k = some b →
    a.documentId = b.documentId → j = k
  clock : ∀ k job w claimed, s.db.ingestionJobs.find? k = some job → job.claimedBy = some w →
    job.claimedAt = some claimed → ∃ r, s.claimReading w = some r ∧ claimed ≤ r
  claims_known : ∀ k ∈ s.claims, (s.db.ingestionJobs.find? k).isSome
  has_job : ∀ d document, s.db.documents.find? d = some document →
    ∃ k job, s.db.ingestionJobs.find? k = some job ∧ job.documentId = d

/-- A transaction that writes one job keeps the invariant when the new row satisfies it. -/
theorem Consistent.writes {s t : LifecycleState} {job job' : IngestionJob}
    {f : DocumentStatus → DocumentStatus} (h : Consistent s) (hw : Writes s.db t.db job job' f)
    (hbounded : Bounded job')
    (hlife : ∀ status, Lifecycle status job (s.claims.count job.id) →
      Lifecycle (f status) job' (t.claims.count job.id))
    (hclock : ∀ w claimed, job'.claimedBy = some w → job'.claimedAt = some claimed →
      ∃ r, t.claimReading w = some r ∧ claimed ≤ r)
    (hothers : ∀ k, k ≠ job.id → t.claims.count k = s.claims.count k)
    (hknown : ∀ k ∈ t.claims, k = job.id ∨ k ∈ s.claims)
    (hreadings : ∀ w r, s.claimReading w = some r → ∃ r', t.claimReading w = some r' ∧ r ≤ r') :
    Consistent t := by
  have hrow : ∀ k row, t.db.ingestionJobs.find? k = some row →
      k = job.id ∧ row = job' ∨ k ≠ job.id ∧ s.db.ingestionJobs.find? k = some row := by
    intro k row hk
    rw [hw.jobs] at hk
    by_cases he : k = job.id
    · rw [if_pos he] at hk
      exact .inl ⟨he, (Option.some.inj hk).symm⟩
    · exact .inr ⟨he, by rwa [if_neg he] at hk⟩
  have hold : ∀ k row, t.db.ingestionJobs.find? k = some row →
      ∃ old, s.db.ingestionJobs.find? k = some old ∧ old.documentId = row.documentId := by
    intro k row hk
    rcases hrow k row hk with ⟨rfl, rfl⟩ | ⟨_, hs⟩
    · exact ⟨job, hw.found, hw.documentId.symm⟩
    · exact ⟨row, hs, rfl⟩
  constructor
  · intro k row hk
    rcases hrow k row hk with ⟨_, rfl⟩ | ⟨_, hs⟩
    · exact hbounded
    · exact h.bounded k row hs
  · intro k row hk
    rcases hrow k row hk with ⟨rfl, rfl⟩ | ⟨hne, hs⟩
    · obtain ⟨document, hdoc, hl⟩ := h.jobs _ _ hw.found
      refine ⟨{ document with status := f document.status }, ?_, hlife _ hl⟩
      rw [hw.documentId, hw.documents, hdoc, Option.map_some, if_pos rfl]
    · obtain ⟨document, hdoc, hl⟩ := h.jobs k row hs
      have hd : row.documentId ≠ job.documentId := fun he => hne (h.one_job _ _ _ _ hs hw.found he)
      refine ⟨document, ?_, by rwa [hothers k hne]⟩
      rw [hw.documents, hdoc, Option.map_some, if_neg hd]
  · intro j k a b ha hb hab
    obtain ⟨a', ha', hda⟩ := hold j a ha
    obtain ⟨b', hb', hdb⟩ := hold k b hb
    exact h.one_job j k a' b' ha' hb' (by rw [hda, hdb, hab])
  · intro k row w claimed hk hby hat
    rcases hrow k row hk with ⟨_, rfl⟩ | ⟨_, hs⟩
    · exact hclock w claimed hby hat
    · obtain ⟨r, hr, hle⟩ := h.clock k row w claimed hs hby hat
      obtain ⟨r', hr', hle'⟩ := hreadings w r hr
      exact ⟨r', hr', hle.trans hle'⟩
  · intro k hk
    rw [hw.jobs]
    by_cases he : k = job.id
    · rw [if_pos he]
      rfl
    · rw [if_neg he]
      exact h.claims_known k ((hknown k hk).resolve_left he)
  · intro d document hd
    rw [hw.documents] at hd
    obtain ⟨old, hold, _⟩ := Option.map_eq_some_iff.mp hd
    obtain ⟨k, row, hk, rfl⟩ := h.has_job d old hold
    by_cases he : k = job.id
    · have hrow : row = job := Option.some.inj (hk.symm.trans (he ▸ hw.found))
      exact ⟨k, job', by rw [hw.jobs, if_pos he], hrow ▸ hw.documentId⟩
    · exact ⟨k, row, by rw [hw.jobs, if_neg he, hk], rfl⟩

/-- The same for a transaction other than a claim. -/
theorem Consistent.writes_db {s : LifecycleState} {db' : Database} {job job' : IngestionJob}
    {f : DocumentStatus → DocumentStatus} (h : Consistent s) (hw : Writes s.db db' job job' f)
    (hbounded : Bounded job')
    (hlife : ∀ status claims, Lifecycle status job claims → Lifecycle (f status) job' claims)
    (hclock : ∀ w claimed, job'.claimedBy = some w → job'.claimedAt = some claimed →
      job.claimedBy = some w ∧ job.claimedAt = some claimed) :
    Consistent { s with db := db' } :=
  h.writes (t := { s with db := db' }) hw hbounded (fun status => hlife status _)
    (fun w claimed hby hat => by
      obtain ⟨hby', hat'⟩ := hclock w claimed hby hat
      exact h.clock _ _ w claimed hw.found hby' hat')
    (fun _ _ => rfl) (fun _ hk => .inr hk) (fun _ r hr => ⟨r, hr, le_rfl⟩)

section Steps
variable {s : LifecycleState} {svc : IngestionProcessingService} {db' : Database} {now : Time}

theorem Consistent.init {db : Database} (h : FreshDatabase db) : Consistent (.init db) := by
  have hnone : ∀ k, db.ingestionJobs.find? k = none := by
    intro k
    rw [Table.find?, h.ingestionJobs]
    rfl
  constructor
  · intro k job hk
    rw [LifecycleState.init, hnone] at hk
    cases hk
  · intro k job hk
    rw [LifecycleState.init, hnone] at hk
    cases hk
  · intro j k a b ha
    rw [LifecycleState.init, hnone] at ha
    cases ha
  · intro k job w claimed hk
    rw [LifecycleState.init, hnone] at hk
    cases hk
  · intro k hk
    cases hk
  · intro d document hd
    rw [LifecycleState.init, Table.find?, h.documents] at hd
    cases hd

/-- An upload adds a pending job, never claimed, for a document that had none. -/
theorem Consistent.upload (h : Consistent s) {document : Document} {jobId : UUID}
    {job : IngestionJob} (hpending : document.status = .pending)
    (hok : insertUpload s.db document jobId = .ok (job, db')) :
    Consistent { s with db := db' } := by
  obtain ⟨rfl, _, hjobs, hdoc, hins, hdb⟩ := insertUpload_ok hok
  have hfresh := (Table.insert?_eq_some hins).1
  have hjob := Table.find?_insert? hins
  have hdocs := Table.find?_insert? hdoc
  have hnew := (Table.insert?_eq_some hdoc).1
  have hcount : s.claims.count jobId = 0 := by
    rw [List.count_eq_zero]
    intro hmem
    have hsome := h.claims_known _ hmem
    change s.db.ingestionJobs.find? jobId = none at hfresh
    rw [hfresh] at hsome
    cases hsome
  have hrow : ∀ k row, db'.ingestionJobs.find? k = some row →
      k = jobId ∧ row = IngestionJob.new jobId document.id document.createdAt ∨
        s.db.ingestionJobs.find? k = some row ∧ row.documentId ≠ document.id := by
    intro k row hk
    rw [hjob] at hk
    split at hk
    · rename_i he
      exact .inl ⟨he, (Option.some.inj hk).symm⟩
    · exact .inr ⟨hk, hjobs row (Table.mem_of_find? hk)⟩
  constructor
  · intro k row hk
    rcases hrow k row hk with ⟨_, rfl⟩ | ⟨hs, _⟩
    · exact Bounded.new _ _ _
    · exact h.bounded k row hs
  · intro k row hk
    change ∃ d, db'.documents.find? row.documentId = some d ∧ _
    rcases hrow k row hk with ⟨rfl, rfl⟩ | ⟨hs, hne⟩
    · refine ⟨document, by rw [hdocs]; exact if_pos rfl, ?_⟩
      rw [hpending, hcount]
      exact Lifecycle.new _ _ _
    · obtain ⟨d, hd, hl⟩ := h.jobs k row hs
      exact ⟨d, by rw [hdocs, if_neg hne, hd], hl⟩
  · intro j k a b ha hb hab
    rcases hrow j a ha with ⟨rfl, rfl⟩ | ⟨hsa, hna⟩ <;>
      rcases hrow k b hb with ⟨rfl, rfl⟩ | ⟨hsb, hnb⟩
    · rfl
    · exact absurd hab.symm hnb
    · exact absurd hab hna
    · exact h.one_job j k a b hsa hsb hab
  · intro k row w claimed hk hby hat
    rcases hrow k row hk with ⟨_, rfl⟩ | ⟨hs, _⟩
    · cases hby
    · exact h.clock k row w claimed hs hby hat
  · intro k hk
    change (db'.ingestionJobs.find? k).isSome
    rw [hjob]
    split
    · rfl
    · exact h.claims_known k hk
  · intro d row hd
    change db'.documents.find? d = some row at hd
    rw [hdocs] at hd
    split at hd
    · rename_i he
      exact ⟨jobId, _, (hjob _).trans (if_pos rfl), he.symm⟩
    · obtain ⟨k, old, hk, hdoc⟩ := h.has_job d row hd
      refine ⟨k, old, ?_, hdoc⟩
      change db'.ingestionJobs.find? k = some old
      rw [hjob, if_neg, hk]
      rintro rfl
      exact Option.some_ne_none _ (hk.symm.trans hfresh)

theorem Consistent.claimNext (h : Consistent s) {locked : List UUID} {job : IngestionJob}
    (hclock : s.clockAllows svc now) (hok : svc.claimNext s.db locked now = .ok (some (job, db'))) :
    Consistent
      { db := db'
        claimReading := Function.update s.claimReading svc.workerId.value (some now)
        claims := job.id :: s.claims } := by
  obtain ⟨old, hel, rfl, hw, _⟩ := claimNext_writes hok
  refine h.writes hw (Bounded.claim (h.bounded _ _ hw.found) svc.workerId _) ?_ ?_ ?_ ?_ ?_
  · intro status hl
    change Lifecycle _ _ ((old.id :: s.claims).count old.id)
    rw [List.count_cons_self]
    exact hl.claim hel _ (lt_add_of_pos_right now svc.leaseDuration_pos)
  · rintro w claimed ⟨⟩ ⟨⟩
    exact ⟨now, Function.update_self _ _ _, le_rfl⟩
  · intro k hk
    exact List.count_cons_of_ne hk.symm
  · intro k hk
    exact List.mem_cons.mp hk
  · intro w r hr
    by_cases hww : w = svc.workerId.value
    · subst hww
      refine ⟨now, Function.update_self _ _ _, ?_⟩
      rw [LifecycleState.clockAllows, hr] at hclock
      simpa using hclock
    · exact ⟨r, (Function.update_of_ne hww _ _).trans hr, le_rfl⟩

/-- A lease renewed by its owner, with any progress short of the end. -/
theorem Consistent.renewed (h : Consistent s) {jobId : UUID} {job : IngestionJob}
    (hclock : s.clockAllows svc now) (howned : Owned svc s.db jobId now job) (progress : Nat)
    (hprogress : progress < 100)
    (hw : Writes s.db db' job
      { job with progressPercent := progress, leaseExpiresAt := some (now + svc.leaseDuration) } id) :
    Consistent { s with db := db' } := by
  have hlt : ∀ claimed, job.claimedAt = some claimed → claimed < now + svc.leaseDuration := by
    intro claimed hat
    obtain ⟨r, hr, hle⟩ := h.clock _ _ _ claimed hw.found howned.claimedBy hat
    rw [LifecycleState.clockAllows, hr] at hclock
    have hnow : r ≤ now := by simpa using hclock
    exact (hle.trans hnow).trans_lt (lt_add_of_pos_right now svc.leaseDuration_pos)
  exact h.writes_db hw ((h.bounded _ _ hw.found).renew hprogress.le _)
    (fun _ _ hl => hl.renew howned.processing hlt hprogress.ne) (fun _ _ hw hc => ⟨hw, hc⟩)

theorem Consistent.renewLease (h : Consistent s) {jobId : UUID} (hclock : s.clockAllows svc now)
    (hok : svc.renewLease s.db jobId now = some db') : Consistent { s with db := db' } := by
  obtain ⟨job, howned, hw, _⟩ := renewLease_writes hok
  obtain ⟨document, _, hl⟩ := h.jobs _ _ hw.found
  have hne : job.progressPercent ≠ 100 := by
    rw [Ne, hl.progress_completed, howned.processing]
    simp
  have hle := (h.bounded _ _ hw.found).progress_le
  exact h.renewed hclock howned job.progressPercent (by omega) hw

theorem Consistent.replaceChunks (h : Consistent s) {claimed : ClaimedDocument}
    {chunks : List DocumentChunk} (hclock : s.clockAllows svc now)
    (hok : svc.replaceChunks s.db claimed chunks now = .ok db') :
    Consistent { s with db := db' } := by
  obtain ⟨job, howned, hw, _⟩ := replaceChunks_writes hok
  exact h.renewed hclock howned 50 (by decide) hw

theorem Consistent.completeSuccess (h : Consistent s) {jobId : UUID}
    (hok : svc.completeSuccess s.db jobId now = some db') : Consistent { s with db := db' } := by
  obtain ⟨job, howned, hw, _⟩ := completeSuccess_writes hok
  exact h.writes_db hw (h.bounded _ _ hw.found).succeed
    (fun _ _ hl => hl.succeed howned.processing) (fun _ _ hw => nomatch hw)

/-- A job in processing settled as failed or requeued. -/
theorem Consistent.settled (h : Consistent s) {job : IngestionJob} {failure : Failure}
    {retryDelay : Time} (hp : job.status = .processing)
    (hmessage : failure.safeMessage.length ≤ 1000)
    (hw : Writes s.db db' job (settledJob job failure now retryDelay)
      fun _ => settledStatus job failure) : Consistent { s with db := db' } := by
  refine h.writes_db hw ((h.bounded _ _ hw.found).settle retryDelay hmessage)
    (fun _ _ hl => hl.settle hp failure retryDelay) ?_
  intro w claimed hby
  by_cases hr : failure.retryable ∧ job.attemptCount < job.maxAttempts
  · rw [settledJob_retry hr] at hby
    cases hby
  · rw [settledJob_fail hr] at hby
    cases hby

theorem Consistent.completeFailure (h : Consistent s) (svc : IngestionProcessingService)
    (jobId : UUID) (now : Time) {failure : Failure} (hmessage : failure.safeMessage.length ≤ 1000) :
    Consistent { s with db := svc.completeFailure s.db jobId failure now } := by
  rcases completeFailure_writes svc s.db jobId failure now with heq | ⟨job, howned, hw, _⟩
  · rw [heq]
    exact h
  · exact h.settled howned.processing hmessage hw

theorem Consistent.recoverExpiredLeases (h : Consistent s) {locked : List UUID} {limit : Int}
    {n : Nat} (hok : svc.recoverExpiredLeases s.db locked limit now = .ok (n, db')) :
    Consistent { s with db := db' } :=
  recoverExpiredLeases_induction (P := fun db => Consistent { s with db }) hok
    (fun db _ _ hP hexpired hw _ => Consistent.settled (s := { s with db }) hP
      (leaseExpired_iff.mp hexpired).1 leaseExpired_message_length hw) h

theorem Consistent.retryIngestionJob (h : Consistent s) {userId jobId : UUID} {job : IngestionJob}
    (hok : Services.retryIngestionJob s.db userId jobId = .ok (job, db')) :
    Consistent { s with db := db' } := by
  rcases retryIngestionJob_writes hok with rfl | ⟨old, _, _, hw, _⟩
  · exact h
  · exact h.writes_db hw (h.bounded _ _ hw.found).retry (fun _ _ hl => hl.retry)
      (fun _ _ hw => nomatch hw)

end Steps

/-- Every step keeps the invariant. -/
theorem lifecycle_step_consistent (s : LifecycleState) (a : LifecycleAction) (t : LifecycleState)
    (h : Consistent s) (hstep : lifecycle.step s a = some t) : Consistent t := by
  cases lifecycle_step_iff.mp hstep with
  | upload hok => exact h.upload rfl hok
  | claimNext hclock hok => exact h.claimNext hclock hok
  | renewLease hclock hok => exact h.renewLease hclock hok
  | replaceChunks hclock hok => exact h.replaceChunks hclock hok
  | completeSuccess _ hok => exact h.completeSuccess hok
  | completeFailure _ hfailure => exact h.completeFailure _ _ _ (failure_message_length hfailure)
  | recoverExpiredLeases hok => exact h.recoverExpiredLeases hok
  | retryIngestionJob hok => exact h.retryIngestionJob hok

/-- In every state reached from uploads, every job is in step with its document and its
claims, and satisfies the CHECK constraints of its table. -/
theorem job_lifecycle {db : Database} (hfresh : FreshDatabase db) {as : List LifecycleAction}
    {s : LifecycleState} (hrun : lifecycle.run (.init db) as = some s) :
    ∀ job ∈ s.db.ingestionJobs, job.Checks ∧ ∃ document,
      s.db.documents.find? job.documentId = some document ∧
        Lifecycle document.status job (s.claims.count job.id) := by
  intro job hjob
  have h : Consistent s := Machine.run_invariant lifecycle_step_consistent (.init hfresh) hrun
  have hfound := Table.find?_of_mem hjob
  obtain ⟨document, hdoc, hl⟩ := h.jobs _ _ hfound
  exact ⟨hl.checks (h.bounded _ _ hfound), document, hdoc, hl⟩

/-- One knowledge base with its owner. -/
def exampleDatabase : Database where
  users := ⟨[⟨1, str "a@b", str "hash", true⟩], by decide⟩
  userSessions := .empty
  knowledgeBases := ⟨[⟨3, str "kb", none, 0⟩], by decide⟩
  memberships := ⟨[⟨3, 1, .owner⟩], by decide⟩
  documents := .empty
  ingestionJobs := .empty
  documentChunks := .empty

theorem exampleDatabase_fresh : FreshDatabase exampleDatabase := ⟨rfl, rfl, rfl⟩

def exampleDocument : Document where
  id := 2
  knowledgeBaseId := 3
  originalFilename := str "a.txt"
  mediaType := "text/plain"
  sizeBytes := 1
  sha256 := List.replicate 64 (ord '0')
  storageKey := str "key"
  status := .pending
  createdAt := 0

/-- A failed attempt, its retry after the delay, an abandoned attempt and a success. -/
def exampleActions : List LifecycleAction :=
  [.upload exampleDocument 5, .claimNext exampleService [] 10,
    .completeFailure exampleService 5 .unexpected 20, .claimNext exampleService [] 50,
    .renewLease exampleService 5 60, .recoverExpiredLeases exampleService [] 32 120,
    .claimNext exampleService [] 150, .completeSuccess exampleService 5 160]

theorem job_lifecycle_example : ∃ s, lifecycle.run (.init exampleDatabase) exampleActions = some s ∧
    ∀ job ∈ s.db.ingestionJobs, job.Checks ∧ ∃ document,
      s.db.documents.find? job.documentId = some document ∧
        Lifecycle document.status job (s.claims.count job.id) := by
  have hsome : (lifecycle.run (.init exampleDatabase) exampleActions).isSome := by decide
  obtain ⟨s, hrun⟩ := Option.isSome_iff_exists.mp hsome
  exact ⟨s, hrun, job_lifecycle exampleDatabase_fresh hrun⟩

end AgenticRag.Services

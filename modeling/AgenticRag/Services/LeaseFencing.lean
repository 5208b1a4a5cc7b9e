import AgenticRag.Services.Advances
import AgenticRag.Services.WorkerMachine

/-! Fencing by the job row. A call writes only in the claim it made, and a completed job, its
document's status and its chunk rows are never written again. -/
namespace AgenticRag.Services
open Lib Python Db Ingestion Security

/-- The job is still in this claim of worker `w`. -/
def InClaim (db : Database) (w : Str) (claim : Claim) : Prop :=
  ∃ job, db.ingestionJobs.find? claim.claimed.jobId = some job ∧ job.status = .processing ∧
    job.claimedBy = some w ∧ job.attemptCount = claim.attempt

instance (db : Database) (w : Str) (claim : Claim) : Decidable (InClaim db w claim) :=
  decidable_of_iff ((db.ingestionJobs.find? claim.claimed.jobId).any fun job =>
      job.status = .processing ∧ job.claimedBy = some w ∧ job.attemptCount = claim.attempt)
    (by simp [InClaim, Option.any_eq_true])

def Stage.claim? : Stage → Option Claim
  | .work held _ => some held
  | .handle held _ => some held
  | _ => none

/-- The rows the call has written, once `_replace_chunks` has committed. -/
def Work.rows? : Work → Option (List DocumentChunk)
  | .embedChunks rows | .deleteVectors rows _ | .upsertVectors rows _ _
  | .completeSuccess rows _ => some rows
  | _ => none

def Stage.rows? : Stage → Option (Claim × List DocumentChunk)
  | .work held statement => statement.rows?.map fun rows => (held, rows)
  | _ => none

theorem Stage.claim?_of_rows? {stage : Stage} {claim : Claim} {rows : List DocumentChunk}
    (h : stage.rows? = some (claim, rows)) : stage.claim? = some claim := by
  cases stage with
  | work held statement =>
    obtain ⟨_, _, heq⟩ := Option.map_eq_some_iff.mp h
    exact congrArg some (Prod.mk.inj heq).1
  | _ => cases h

/-- The job of a claim still belongs to its document; while it is held by the worker that made
the claim, the attempt is still that of the claim. -/
def ClaimKept (db : Database) (w : Str) (claim : Claim) : Prop :=
  ∃ job, db.ingestionJobs.find? claim.claimed.jobId = some job ∧
    job.documentId = claim.claimed.documentId ∧
    (job.status = .processing → job.claimedBy = some w → job.attemptCount = claim.attempt)

/-- The rows of the document are those of the call. -/
def RowsOf (db : Database) (claim : Claim) (rows : List DocumentChunk) : Prop :=
  ∀ c, c ∈ db.documentChunks ∧ c.documentId = claim.claimed.documentId ↔ c ∈ rows

/-- What holds of a call between its steps. -/
structure ValidCall (s : LifecycleState) (replacements : List Commit) (w : Str) (call : Call) :
    Prop where
  worker : call.svc.workerId.value = w
  reading : ∀ now, call.reading = some now → s.clockAllows call.svc now = true
  heartbeat : ∀ now lost, call.heartbeat = some ⟨some now, lost⟩ →
    s.clockAllows call.svc now = true
  claim : ∀ claim, call.stage.claim? = some claim → ClaimKept s.db w claim
  rows : ∀ claim rows, call.stage.rows? = some (claim, rows) →
    (rows.map DocumentChunk.id).Nodup ∧ (∀ c ∈ rows, c.documentId = claim.claimed.documentId) ∧
      ⟨w, claim, rows⟩ ∈ replacements ∧ (InClaim s.db w claim → RowsOf s.db claim rows)

/-- The invariant of the workers. -/
structure Fenced (s : WorkerState) : Prop where
  consistent : Consistent s.lifecycle
  calls : ∀ w call, s.calls w = some call → ValidCall s.lifecycle s.replacements w call
  once : (s.completions.map fun c => c.claim.claimed.jobId).Nodup
  closed : ∀ c ∈ s.completions, c ∈ s.replacements ∧
    ∃ job, s.db.ingestionJobs.find? c.claim.claimed.jobId = some job ∧ job.status = .completed ∧
      job.documentId = c.claim.claimed.documentId ∧ RowsOf s.db c.claim c.rows
  completed : ∀ k job, s.db.ingestionJobs.find? k = some job → job.status = .completed →
    ∃ c ∈ s.completions, c.claim.claimed.jobId = k

section Invariant
variable {writer : Option Str} {done : UUID → Prop} {db db' : Database} {w : Str} {claim : Claim}

theorem ClaimKept.advance (h : ClaimKept db w claim) (hadv : Advances writer done db db')
    (hne : some w ≠ writer) : ClaimKept db' w claim := by
  obtain ⟨job, hjob, hd, hn⟩ := h
  obtain ⟨job', hjob', hd'⟩ := hadv.persists _ _ hjob
  refine ⟨job', hjob', hd'.trans hd, ?_⟩
  intro hp hby
  obtain ⟨old, hold, _, hp', hby', hn', _⟩ := hadv.held _ _ w hjob' hp hby hne
  obtain rfl := Option.some.inj (hold.symm.trans hjob)
  exact hn'.symm.trans (hn hp' hby')

theorem RowsOf.sameChunks {rows : List DocumentChunk} (h : RowsOf db claim rows)
    (hsame : SameChunks db db' claim.claimed.documentId) : RowsOf db' claim rows := by
  intro c
  rw [← h c]
  exact and_congr_left fun hc => hsame c hc

/-- A claim still held was held before, over the same chunk rows. -/
theorem InClaim.before (h : InClaim db' w claim) (hkept : ClaimKept db w claim)
    (hadv : Advances writer done db db') (hne : some w ≠ writer) :
    InClaim db w claim ∧ SameChunks db db' claim.claimed.documentId := by
  obtain ⟨job', hjob', hp, hby, hn⟩ := h
  obtain ⟨old, hold, hd, hp', hby', hn', hsame⟩ := hadv.held _ _ w hjob' hp hby hne
  obtain ⟨job, hjob, hdoc, _⟩ := hkept
  obtain rfl := Option.some.inj (hold.symm.trans hjob)
  exact ⟨⟨old, hold, hp', hby', hn'.trans hn⟩, hdoc ▸ hsame⟩

/-- A call of a worker that did not write stays valid. -/
theorem ValidCall.advance {s t : LifecycleState} {replacements replacements' : List Commit}
    {call : Call} (h : ValidCall s replacements w call) (hadv : Advances writer done s.db t.db)
    (hne : some w ≠ writer) (hreading : t.claimReading w = s.claimReading w)
    (hsub : replacements ⊆ replacements') : ValidCall t replacements' w call where
  worker := h.worker
  reading := by
    intro now hnow
    rw [LifecycleState.clockAllows, h.worker, hreading, ← h.worker]
    exact h.reading now hnow
  heartbeat := by
    intro now lost hnow
    rw [LifecycleState.clockAllows, h.worker, hreading, ← h.worker]
    exact h.heartbeat now lost hnow
  claim := fun claim hclaim => (h.claim claim hclaim).advance hadv hne
  rows := by
    intro claim rows hrows
    have hclaim := Stage.claim?_of_rows? hrows
    obtain ⟨hids, hdocs, hmem, hcur⟩ := h.rows claim rows hrows
    refine ⟨hids, hdocs, hsub hmem, fun hin => ?_⟩
    obtain ⟨hbefore, hsame⟩ := hin.before (h.claim claim hclaim) hadv hne
    exact (hcur hbefore).sameChunks hsame

/-- A step inside the call that neither claims nor writes chunk rows. -/
theorem ValidCall.moved {s : LifecycleState} {replacements : List Commit} {call call' : Call}
    (h : ValidCall s replacements w call) (hsvc : call'.svc = call.svc)
    (hreading : ∀ now, call'.reading = some now → s.clockAllows call.svc now = true)
    (hheartbeat : ∀ now lost, call'.heartbeat = some ⟨some now, lost⟩ →
      s.clockAllows call.svc now = true)
    (hclaim : ∀ claim, call'.stage.claim? = some claim → call.stage.claim? = some claim)
    (hrows : ∀ claim rows, call'.stage.rows? = some (claim, rows) →
      call.stage.rows? = some (claim, rows)) : ValidCall s replacements w call' where
  worker := by rw [hsvc, h.worker]
  reading := by
    rw [hsvc]
    exact hreading
  heartbeat := by
    rw [hsvc]
    exact hheartbeat
  claim := fun claim hc => h.claim claim (hclaim claim hc)
  rows := fun claim rows hr => h.rows claim rows (hrows claim rows hr)

theorem Fenced.advance {s t : WorkerState} (h : Fenced s) (hconsistent : Consistent t.lifecycle)
    (hadv : Advances writer (fun _ => False) s.db t.db) (hreplacements : s.replacements ⊆ t.replacements)
    (hcompletions : t.completions = s.completions)
    (hcalls : ∀ w call, t.calls w = some call → ValidCall t.lifecycle t.replacements w call) :
    Fenced t where
  consistent := hconsistent
  calls := hcalls
  once := hcompletions ▸ h.once
  closed := by
    intro c hc
    obtain ⟨hmem, job, hjob, hcompleted, hd, hrows⟩ := h.closed c (hcompletions ▸ hc)
    obtain ⟨hjob', _, hsame⟩ := hadv.completed _ job hjob hcompleted
    exact ⟨hreplacements hmem, job, hjob', hcompleted, hd, hrows.sameChunks (hd ▸ hsame)⟩
  completed := by
    intro k job hk hc
    rw [hcompletions]
    exact h.completed k job ((hadv.completes k job hk hc).resolve_right id) hc

/-- A step of worker `w`'s call that completes no job. -/
theorem Fenced.step {s t : WorkerState} {next : Option Call} (h : Fenced s)
    (hconsistent : Consistent t.lifecycle) (hadv : Advances writer (fun _ => False) s.db t.db)
    (hwriter : ∀ v, v ≠ w → some v ≠ writer)
    (hreading : ∀ v, v ≠ w → t.lifecycle.claimReading v = s.lifecycle.claimReading v)
    (hcalls : t.calls = s.calls) (hreplacements : s.replacements ⊆ t.replacements)
    (hcompletions : t.completions = s.completions)
    (hnext : ∀ call, next = some call → ValidCall t.lifecycle t.replacements w call) :
    Fenced (t.withCall w next) := by
  refine h.advance hconsistent hadv hreplacements hcompletions ?_
  intro v call hcall
  have hcall : Function.update t.calls w next v = some call := hcall
  by_cases hv : v = w
  · subst hv
    rw [Function.update_self] at hcall
    exact hnext call hcall
  · rw [Function.update_of_ne hv, hcalls] at hcall
    exact (h.calls v call hcall).advance hadv (hwriter v hv) (hreading v hv) hreplacements

/-- Recoveries, user retries and uploads. -/
theorem Fenced.elsewhere {s : WorkerState} (h : Fenced s)
    (hconsistent : Consistent { s.lifecycle with db := db' })
    (hadv : Advances none (fun _ => False) s.db db') : Fenced (s.withDb db') :=
  h.advance hconsistent hadv (fun _ => id) rfl fun w call hcall =>
    (h.calls w call hcall).advance hadv (by simp) rfl fun _ => id

end Invariant

section Steps
variable {sha256 : Sha256} {uuid5 : UUID → Str → UUID} {s t mid : WorkerState} {w : Str}
  {call : Call} {a : CallAction} {next : Option Call}

private theorem WorkNext.rows? {svc : IngestionProcessingService} {claim : Claim}
    {work work' : Work} (h : WorkNext svc claim work work') : work'.rows? = work.rows? := by
  cases h <;> rfl

/-- A step of the call that leaves the rows alone. -/
private theorem Fenced.quiet (h : Fenced s) (index : VectorIndex) {call' : Call}
    (hnext : ValidCall s.lifecycle s.replacements w call') :
    Fenced ({ s with index }.withCall w (some call')) := by
  refine h.step h.consistent (.refl none _ _) (by simp) (fun _ _ => rfl) rfl (fun _ => id) rfl ?_
  rintro _ ⟨⟩
  exact hnext

theorem Fenced.claimed (h : Fenced s) (hvalid : ValidCall s.lifecycle s.replacements w call)
    {locked : List UUID} {now : Time} {job : IngestionJob} {db : Database} {document : Document}
    (hreading : call.reading = some now)
    (hok : call.svc.claimNext s.db locked now = .ok (some (job, db)))
    (hdocument : db.documents.find? job.documentId = some document) :
    Fenced ({ s with lifecycle :=
        { db
          claimReading := Function.update s.lifecycle.claimReading w (some now)
          claims := job.id :: s.lifecycle.claims } }.withCall w (some { call with
      stage := .work ⟨claimedDocument job document, job.attemptCount⟩ .readSource
      reading := none
      heartbeat := some ⟨none, none⟩ })) := by
  have hw := hvalid.worker
  subst hw
  have hcons := h.consistent.claimNext (hvalid.reading now hreading) hok
  have hadv := claimNext_advances h.consistent (fun _ => False) hok
  refine h.step hcons hadv (fun v hv he => hv (Option.some.inj he))
    (fun v hv => Function.update_of_ne hv _ _) rfl (fun _ => id) rfl ?_
  rintro _ ⟨⟩
  refine ⟨rfl, nofun, nofun, ?_, nofun⟩
  rintro claim ⟨⟩
  obtain ⟨old, _, rfl, hw, _⟩ := claimNext_writes hok
  exact ⟨_, (hw.jobs _).trans (if_pos rfl), (Table.find?_key hdocument).symm, fun _ _ => rfl⟩

theorem Fenced.replaced (h : Fenced s) (hvalid : ValidCall s.lifecycle s.replacements w call)
    {claim : Claim} {chunks : List TextChunk} {rows : List DocumentChunk} {now : Time}
    {db : Database} (hstage : call.stage = .work claim (.replaceChunks chunks))
    (hreading : call.reading = some now)
    (hok : call.svc.replaceChunks s.db claim.claimed rows now = .ok db) :
    Fenced ({ s.withDb db with
        replacements := ⟨w, claim, rows⟩ :: s.replacements }.withCall w
      (some { call with stage := .work claim (.embedChunks rows), reading := none })) := by
  have hw := hvalid.worker
  subst hw
  obtain ⟨job, hjob, hd, hn⟩ := hvalid.claim claim (by rw [hstage]; rfl)
  have hcons := h.consistent.replaceChunks (hvalid.reading now hreading) hok
  have hadv := replaceChunks_advances h.consistent (fun _ => False) hok fun row hrow =>
    (Option.some.inj (hrow.symm.trans hjob)) ▸ hd
  refine h.step hcons hadv (fun v hv he => hv (Option.some.inj he)) (fun _ _ => rfl) rfl
    (fun _ => List.mem_cons_of_mem _) rfl ?_
  obtain ⟨row, howned, hw, hdocs, hids, hmem⟩ := replaceChunks_writes hok
  have hid : claim.claimed.jobId = row.id := howned.id.symm
  obtain rfl : row = job := Option.some.inj (hw.found.symm.trans (hid ▸ hjob))
  rintro _ ⟨⟩
  refine ⟨rfl, nofun, ?_, ?_, ?_⟩
  · exact hvalid.heartbeat
  · rintro _ ⟨⟩
    exact ⟨_, (hw.jobs _).trans (if_pos hid), hd, fun hp hby => hn hp hby⟩
  · rintro _ _ ⟨⟩
    refine ⟨hids, hdocs, List.mem_cons_self, fun _ c => ?_⟩
    change c ∈ db.documentChunks ∧ _ ↔ _
    rw [hmem]
    constructor
    · rintro ⟨hc | ⟨_, hne⟩, he⟩
      · exact hc
      · exact absurd he hne
    · intro hc
      exact ⟨.inl hc, hdocs c hc⟩

/-- A success transition runs in the claim of its call, so the rows are still its own. -/
theorem Fenced.succeeded (h : Fenced s) (hvalid : ValidCall s.lifecycle s.replacements w call)
    {claim : Claim} {rows : List DocumentChunk} {records : List VectorRecord} {now : Time}
    {db : Database} (hstage : call.stage = .work claim (.completeSuccess rows records))
    (hok : call.svc.completeSuccess s.db claim.claimed.jobId now = some db) :
    Fenced ({ s.withDb db with
      completions := ⟨w, claim, rows⟩ :: s.completions }.withCall w none) := by
  have hw := hvalid.worker
  subst hw
  have hadv := completeSuccess_advances h.consistent hok
  obtain ⟨job, howned, hw, hchunks⟩ := completeSuccess_writes hok
  obtain ⟨row, hrow, hd, hn⟩ := hvalid.claim claim (by rw [hstage]; rfl)
  have hid : claim.claimed.jobId = job.id := howned.id.symm
  obtain rfl : row = job := Option.some.inj ((hid ▸ hrow).symm.trans hw.found)
  obtain ⟨_, _, hmem, hcur⟩ := hvalid.rows claim rows (by rw [hstage]; rfl)
  have hrows := hcur ⟨row, hrow, howned.processing, howned.claimedBy,
    hn howned.processing howned.claimedBy⟩
  have hsame : SameChunks s.db db claim.claimed.documentId := sameChunks_of_eq hchunks _
  refine ⟨h.consistent.completeSuccess hok, ?_, ?_, ?_, ?_⟩
  · intro v other hother
    have hother : Function.update s.calls call.svc.workerId.value none v = some other := hother
    by_cases hv : v = call.svc.workerId.value
    · subst hv
      rw [Function.update_self] at hother
      cases hother
    · rw [Function.update_of_ne hv] at hother
      exact (h.calls v other hother).advance hadv (by simp) rfl fun _ => id
  · change (_ :: s.completions.map _).Nodup
    rw [List.nodup_cons]
    refine ⟨?_, h.once⟩
    intro hm
    obtain ⟨c, hc, he⟩ := List.mem_map.mp hm
    have hjob : c.claim.claimed.jobId = claim.claimed.jobId := he
    obtain ⟨_, other, hother, hcompleted, _⟩ := h.closed c hc
    rw [hjob] at hother
    obtain rfl := Option.some.inj (hother.symm.trans hrow)
    rw [howned.processing] at hcompleted
    cases hcompleted
  · intro c hc
    rcases List.mem_cons.mp hc with rfl | hc
    · exact ⟨hmem, _, (hw.jobs _).trans (if_pos hid), rfl, hd, hrows.sameChunks hsame⟩
    · obtain ⟨hmem', other, hother, hcompleted, hd', hrows'⟩ := h.closed c hc
      obtain ⟨hother', _, hsame'⟩ := hadv.completed _ other hother hcompleted
      exact ⟨hmem', other, hother', hcompleted, hd', hrows'.sameChunks (hd' ▸ hsame')⟩
  · intro k other hk hc
    rcases hadv.completes k other hk hc with hold | rfl
    · obtain ⟨c, hc, he⟩ := h.completed k other hold hc
      exact ⟨c, List.mem_cons_of_mem _ hc, he⟩
    · exact ⟨_, List.mem_cons_self, rfl⟩

theorem Fenced.call_step (h : Fenced s) (hcall : s.calls w = some call)
    (hstep : CallStep uuid5 s w call a mid next) :
    Fenced (mid.withCall w next) := by
  have hvalid := h.calls w call hcall
  cases hstep with
  | readClock hclock =>
    refine h.quiet s.index (hvalid.moved rfl ?_ hvalid.heartbeat (fun _ => id) fun _ _ => id)
    rintro _ ⟨⟩
    exact hclock
  | ended =>
    refine h.step h.consistent (.refl none _ _) (by simp) (fun _ _ => rfl) rfl (fun _ => id) rfl ?_
    rintro _ ⟨⟩
  | recovered hok =>
    refine h.step (h.consistent.recoverExpiredLeases hok)
      (recoverExpiredLeases_advances h.consistent hok) (by simp) (fun _ _ => rfl) rfl (fun _ => id) rfl
      ?_
    rintro _ ⟨⟩
    exact ⟨hvalid.worker, nofun, hvalid.heartbeat, nofun, nofun⟩
  | claimed _ hreading hok hdocument => exact h.claimed hvalid hreading hok hdocument
  | proceeded hstage hnext =>
    refine h.quiet s.index (hvalid.moved rfl hvalid.reading hvalid.heartbeat ?_ ?_)
    · rw [hstage]
      exact fun _ => id
    · intro claim rows hrows
      rw [hstage]
      rwa [Stage.rows?, hnext.rows?] at hrows
  | raised hstage =>
    refine h.quiet s.index (hvalid.moved rfl nofun nofun ?_ nofun)
    rw [hstage]
    exact fun _ => id
  | deleted hstage =>
    refine h.quiet _ (hvalid.moved rfl hvalid.reading hvalid.heartbeat ?_ ?_)
    all_goals rw [hstage]
    · exact fun _ => id
    · exact fun _ _ => id
  | upserted hstage =>
    refine h.quiet _ (hvalid.moved rfl hvalid.reading hvalid.heartbeat ?_ ?_)
    all_goals rw [hstage]
    · exact fun _ => id
    · exact fun _ _ => id
  | stopped hstage =>
    refine h.quiet s.index (hvalid.moved rfl hvalid.reading nofun ?_ ?_)
    all_goals rw [hstage]
    · exact fun _ => id
    · exact fun _ _ => id
  | replaced hstage hreading hok => exact h.replaced hvalid hstage hreading hok
  | succeeded hstage hok => exact h.succeeded hvalid hstage hok
  | @failed claim _ failure now _ hfailure =>
    have hcons := h.consistent.completeFailure call.svc claim.claimed.jobId now
      (failure_message_length hfailure)
    have hadv := completeFailure_advances h.consistent call.svc claim.claimed.jobId failure now
    refine h.step hcons hadv (by simp) (fun _ _ => rfl) rfl (fun _ => id) rfl ?_
    rintro _ ⟨⟩
  | heartbeatClock hclock =>
    refine h.quiet s.index (hvalid.moved rfl hvalid.reading ?_ (fun _ => id) fun _ _ => id)
    rintro _ _ ⟨⟩
    exact hclock
  | renewed _ hheartbeat hok =>
    have hadv := renewLease_advances h.consistent none (fun _ => False) hok
    have hcons := h.consistent.renewLease (hvalid.heartbeat _ _ hheartbeat) hok
    refine h.step hcons hadv (by simp) (fun _ _ => rfl) rfl (fun _ => id) rfl ?_
    rintro _ ⟨⟩
    have hnext := hvalid.advance (t := { s.lifecycle with db := _ }) hadv (by simp) rfl fun _ => id
    exact ⟨hnext.worker, hnext.reading, nofun, hnext.claim, hnext.rows⟩
  | heartbeatLost =>
    exact h.quiet s.index (hvalid.moved rfl hvalid.reading nofun (fun _ => id) fun _ _ => id)

theorem Fenced.init {db : Database} (hfresh : FreshDatabase db) : Fenced (.init db) where
  consistent := .init hfresh
  calls := by
    intro w call hcall
    cases hcall
  once := List.nodup_nil
  closed := by
    intro c hc
    cases hc
  completed := by
    intro k job hk
    rw [WorkerState.db, WorkerState.init, LifecycleState.init, Table.find?, hfresh.ingestionJobs] at hk
    cases hk

/-- Every step of the workers keeps the invariant. -/
theorem workers_step_fenced (s : WorkerState) (a : WorkerAction) (t : WorkerState) (h : Fenced s)
    (hstep : (workers sha256 uuid5).step s a = some t) : Fenced t := by
  cases workerStep_move hstep with
  | start =>
    refine h.step h.consistent (.refl none _ _) (by simp) (fun _ _ => rfl) rfl (fun _ => id) rfl ?_
    rintro _ ⟨⟩
    refine ⟨rfl, ?_, ?_, ?_, ?_⟩
    · rintro _ ⟨⟩
    · rintro _ _ ⟨⟩
    · rintro _ ⟨⟩
    · rintro _ _ ⟨⟩
  | call hcall hcallStep => exact h.call_step hcall hcallStep
  | recovered hok =>
    exact h.elsewhere (h.consistent.recoverExpiredLeases hok)
      (recoverExpiredLeases_advances h.consistent hok)
  | retried hok =>
    exact h.elsewhere (h.consistent.retryIngestionJob hok)
      (retryIngestionJob_advances h.consistent hok)
  | uploaded hok => exact h.elsewhere (h.consistent.upload rfl hok) (insertUpload_advances hok)

end Steps

/-- Completed jobs, their documents and their chunk rows are as they were. -/
def Frozen (db db' : Database) : Prop :=
  ∀ k job, db.ingestionJobs.find? k = some job → job.status = .completed →
    db'.ingestionJobs.find? k = some job ∧
      db'.documents.find? job.documentId = db.documents.find? job.documentId ∧
      SameChunks db db' job.documentId

theorem Frozen.refl (db : Database) : Frozen db db := fun _ _ hk _ => ⟨hk, rfl, .refl _ _⟩

theorem Frozen.trans {db db' db'' : Database} (h : Frozen db db') (h' : Frozen db' db'') :
    Frozen db db'' := by
  intro k job hk hc
  obtain ⟨hk', hd', hs'⟩ := h k job hk hc
  obtain ⟨hk'', hd'', hs''⟩ := h' k job hk' hc
  exact ⟨hk'', hd''.trans hd', hs'.trans hs''⟩

/-- The transactions of a call that write chunks or end the job. -/
def CallAction.durableWrite : CallAction → Bool
  | .replaceChunks | .completeSuccess | .completeFailure => true
  | _ => false

section Effects
variable {sha256 : Sha256} {uuid5 : UUID → Str → UUID} {s t mid : WorkerState} {w : Str}
  {call : Call} {a : CallAction} {next : Option Call}

theorem Fenced.call_step_frozen (h : Fenced s) (hcall : s.calls w = some call)
    (hstep : CallStep uuid5 s w call a mid next) : Frozen s.db mid.db := by
  have hvalid := h.calls w call hcall
  cases hstep with
  | recovered hok => exact (recoverExpiredLeases_advances h.consistent hok).completed
  | claimed _ _ hok => exact (claimNext_advances h.consistent (fun _ => False) hok).completed
  | replaced hstage _ hok =>
    obtain ⟨job, hjob, hd, _⟩ := hvalid.claim _ (by rw [hstage]; rfl)
    refine (replaceChunks_advances h.consistent (fun _ => False) hok fun row hrow => ?_).completed
    obtain rfl := Option.some.inj (hrow.symm.trans hjob)
    exact hd
  | succeeded _ hok => exact (completeSuccess_advances h.consistent hok).completed
  | failed => exact (completeFailure_advances h.consistent _ _ _ _).completed
  | renewed _ _ hok => exact (renewLease_advances h.consistent none (fun _ => False) hok).completed
  | _ => exact .refl _

theorem workers_step_frozen (s : WorkerState) (a : WorkerAction) (t : WorkerState) (h : Fenced s)
    (hstep : (workers sha256 uuid5).step s a = some t) : Frozen s.db t.db := by
  cases workerStep_move hstep with
  | start => exact .refl _
  | @call w _ _ mid _ hcall hcallStep =>
    have hfrozen : Frozen s.db mid.db := h.call_step_frozen hcall hcallStep
    exact hfrozen
  | recovered hok => exact (recoverExpiredLeases_advances h.consistent hok).completed
  | retried hok => exact (retryIngestionJob_advances h.consistent hok).completed
  | uploaded hok => exact (insertUpload_advances hok).completed

/-- Ownership by worker and lease alone pins the claim: the worker's calls do not overlap, so a
job it holds is held in the claim of its current call. -/
theorem ValidCall.in_claim {job : IngestionJob} {claim : Claim} {now : Time}
    (h : ValidCall s.lifecycle s.replacements w call) (hclaim : call.stage.claim? = some claim)
    (howned : Owned call.svc s.db claim.claimed.jobId now job)
    (hfound : s.db.ingestionJobs.find? job.id = some job) : InClaim s.db w claim := by
  obtain ⟨row, hrow, _, hn⟩ := h.claim claim hclaim
  rw [← howned.id] at hrow
  obtain rfl := Option.some.inj (hrow.symm.trans hfound)
  have hby : row.claimedBy = some w := h.worker ▸ howned.claimedBy
  exact ⟨row, howned.id ▸ hfound, howned.processing, hby, hn howned.processing hby⟩

theorem Fenced.durable_write (h : Fenced s) (hcall : s.calls w = some call)
    (hstep : CallStep uuid5 s w call a mid next) (hwrite : a.durableWrite = true)
    (heffect : mid.db ≠ s.db ∨ mid.replacements ≠ s.replacements ∨ mid.completions ≠ s.completions) :
    ∃ claim, call.stage.claim? = some claim ∧ InClaim s.db w claim := by
  have hvalid := h.calls w call hcall
  have hquiet : ¬(s.db ≠ s.db ∨ s.replacements ≠ s.replacements ∨ s.completions ≠ s.completions) := by
    simp
  cases hstep with
  | @replaced claim _ _ _ hstage _ hok =>
    have hclaim : call.stage.claim? = some claim := by
      rw [hstage]
      rfl
    obtain ⟨job, howned, hw, _⟩ := replaceChunks_writes hok
    exact ⟨claim, hclaim, hvalid.in_claim hclaim howned hw.found⟩
  | @succeeded claim _ _ _ _ hstage hok =>
    have hclaim : call.stage.claim? = some claim := by
      rw [hstage]
      rfl
    obtain ⟨job, howned, hw, _⟩ := completeSuccess_writes hok
    exact ⟨claim, hclaim, hvalid.in_claim hclaim howned hw.found⟩
  | @failed claim _ failure now hstage _ =>
    have hclaim : call.stage.claim? = some claim := by
      rw [hstage]
      rfl
    rcases completeFailure_writes call.svc s.db claim.claimed.jobId failure now with
      heq | ⟨job, howned, hw, _⟩
    · rw [heq] at heffect
      exact absurd heffect hquiet
    · exact ⟨claim, hclaim, hvalid.in_claim hclaim howned hw.found⟩
  | ended => exact absurd heffect hquiet
  | proceeded => exact absurd heffect hquiet
  | raised => exact absurd heffect hquiet
  | heartbeatLost => exact absurd heffect hquiet
  | _ => cases hwrite

end Effects

/-- What fencing promises of a reachable state: a durable write takes effect only in the claim
of its call; a job is completed once, with the chunk rows its call had written; from then on
nothing of it changes. -/
structure LeaseFencing (M : Machine WorkerState WorkerAction) (s : WorkerState) : Prop where
  durable_writes : ∀ w a t, M.step s (.call w a) = some t → a.durableWrite = true →
    t.db ≠ s.db ∨ t.replacements ≠ s.replacements ∨ t.completions ≠ s.completions →
    ∃ call claim, s.calls w = some call ∧ call.stage.claim? = some claim ∧ InClaim s.db w claim
  completed_once : (s.completions.map fun c => c.claim.claimed.jobId).Nodup
  completed_rows : ∀ job ∈ s.db.ingestionJobs, job.status = .completed →
    ∃ c ∈ s.completions, c.claim.claimed.jobId = job.id ∧ c ∈ s.replacements ∧
      ∀ row, row ∈ s.db.chunksOf job.documentId ↔ row ∈ c.rows
  completed_frozen : ∀ job ∈ s.db.ingestionJobs, job.status = .completed → ∀ t, M.Reaches s t →
    job ∈ t.db.ingestionJobs ∧
      t.db.documents.find? job.documentId = s.db.documents.find? job.documentId ∧
      ∀ row, row ∈ t.db.chunksOf job.documentId ↔ row ∈ s.db.chunksOf job.documentId

theorem lease_fencing (sha256 : Sha256) (uuid5 : UUID → Str → UUID) {db : Database}
    (hfresh : FreshDatabase db) {as : List WorkerAction} {s : WorkerState}
    (hrun : (workers sha256 uuid5).run (.init db) as = some s) :
    LeaseFencing (workers sha256 uuid5) s := by
  have h : Fenced s := Machine.run_invariant workers_step_fenced (.init hfresh) hrun
  constructor
  · intro w a t hstep hwrite heffect
    obtain ⟨call, mid, next, hcall, hcallStep, rfl⟩ := workerStep_call hstep
    obtain ⟨claim, hclaim, hin⟩ := h.durable_write hcall hcallStep hwrite heffect
    exact ⟨call, claim, hcall, hclaim, hin⟩
  · exact h.once
  · intro job hjob hcompleted
    have hfound := Table.find?_of_mem hjob
    obtain ⟨c, hc, hid⟩ := h.completed _ job hfound hcompleted
    obtain ⟨hmem, row, hrow, _, hd, hrows⟩ := h.closed c hc
    obtain rfl := Option.some.inj ((hid ▸ hrow).symm.trans hfound)
    refine ⟨c, hc, hid, hmem, fun r => ?_⟩
    rw [Database.mem_chunksOf, hd]
    exact hrows r
  · intro job hjob hcompleted t hreaches
    have hfrozen : Frozen s.db t.db := Machine.reaches_relation
      (R := fun s t => Frozen s.db t.db) workers_step_fenced workers_step_frozen
      (fun _ => .refl _) (fun _ _ _ => .trans) h hreaches
    obtain ⟨hjob', hd, hsame⟩ := hfrozen _ job (Table.find?_of_mem hjob) hcompleted
    refine ⟨Table.mem_of_find? hjob', hd, fun row => ?_⟩
    rw [Database.mem_chunksOf, Database.mem_chunksOf]
    exact and_congr_left fun hc => hsame row hc

theorem lease_fencing_example : ∃ s,
    (workers exampleSha256 exampleUuid5).run (.init exampleDatabase) overtakenActions = some s ∧
      LeaseFencing (workers exampleSha256 exampleUuid5) s := by
  have hsome : ((workers exampleSha256 exampleUuid5).run (.init exampleDatabase)
      overtakenActions).isSome := by decide
  obtain ⟨s, hrun⟩ := Option.isSome_iff_exists.mp hsome
  exact ⟨s, hrun, lease_fencing exampleSha256 exampleUuid5 exampleDatabase_fresh hrun⟩

end AgenticRag.Services

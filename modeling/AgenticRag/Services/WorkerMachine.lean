import AgenticRag.Services.LifecycleMachine
import AgenticRag.Services.Pipeline

/-! `process_next` calls of any number of workers. Each clock reading, transaction and
vector-store request is a step of its own, and a call may wait before any of them. -/
namespace AgenticRag.Services
open Lib Python Db Ingestion Security

/-- What a call keeps of its claim, and the attempt the claim started. -/
structure Claim where
  claimed : ClaimedDocument
  attempt : Nat

/-- The statement of the `try` block that comes next. -/
inductive Work where
  | readSource
  | parseAndChunk (content : Bytes)
  | replaceChunks (chunks : List TextChunk)
  | embedChunks (rows : List DocumentChunk)
  | deleteVectors (rows : List DocumentChunk) (records : List VectorRecord)
  | upsertVectors (rows : List DocumentChunk) (records : List VectorRecord)
      (remaining : List (List VectorRecord))
  | completeSuccess (rows : List DocumentChunk) (records : List VectorRecord)

inductive Stage where
  | recover
  | claim
  | work (claim : Claim) (work : Work)
  | handle (claim : Claim) (raised : Raised)

/-- `_LeaseHeartbeat` between `start` and `stop`: the clock value of a renewal under way, and
what `ensure_owned` raises once `lost` is set. -/
structure Heartbeat where
  reading : Option Time
  lost : Option Raised

/-- One `process_next` call; `reading` is the clock value of its next transaction. -/
structure Call where
  svc : IngestionProcessingService
  stage : Stage
  reading : Option Time
  heartbeat : Option Heartbeat

/-- A committed transaction of the call that made a claim, with the rows of that call. -/
structure Commit where
  workerId : Str
  claim : Claim
  rows : List DocumentChunk

/-- The rows, the index and the calls under way; every chunk replacement and every success
transition is logged. -/
structure WorkerState where
  lifecycle : LifecycleState
  index : VectorIndex
  calls : Str → Option Call
  replacements : List Commit
  completions : List Commit

def WorkerState.db (s : WorkerState) : Database := s.lifecycle.db

def WorkerState.withDb (s : WorkerState) (db : Database) : WorkerState :=
  { s with lifecycle := { s.lifecycle with db } }

def WorkerState.withCall (s : WorkerState) (w : Str) (next : Option Call) : WorkerState :=
  { s with calls := Function.update s.calls w next }

def WorkerState.init (db : Database) : WorkerState := ⟨.init db, .empty, fun _ => none, [], []⟩

/-- The steps of one call, with what its surroundings answer. -/
inductive CallAction where
  | readClock (now : Time)
  | recoverExpiredLeases (locked : List UUID) (limit : Int)
  | claimNext (locked : List UUID)
  | readSource (result : Except ProcessingError Bytes)
  | parseAndChunk (result : Except ParseError ParsedDocument)
  | replaceChunks
  | embedChunks (result : Except EmbeddingError Object)
  | deleteVectors
  | upsertVectors
  | stopHeartbeat
  | completeSuccess
  | completeFailure
  | raise (raised : Raised)
  | exit
  | readHeartbeatClock (now : Time)
  | renewLease
  | failHeartbeat (raised : Raised)

namespace Call
variable (call : Call)

/-- The stages that begin a transaction with a clock reading. -/
def readsClock : Bool :=
  match call.stage with
  | .recover | .claim | .work _ (.replaceChunks _) | .work _ (.completeSuccess _ _)
  | .handle _ _ => true
  | _ => false

/-- `ensure_owned`. -/
def lost : Option Raised := call.heartbeat.bind Heartbeat.lost

/-- An exception reaches its handler, which stops the heartbeat first. -/
def handle (claim : Claim) (raised : Raised) : Call :=
  { call with stage := .handle claim raised, reading := none, heartbeat := none }

/-- The end of `_with_lease`: the operation's own error, else that of `ensure_owned`. -/
def withLease (claim : Claim) (outcome : Except Raised Work) : Call :=
  match outcome, call.lost with
  | .error raised, _ => call.handle claim raised
  | .ok _, some raised => call.handle claim raised
  | .ok work, none => { call with stage := .work claim work }

end Call

section Machine
variable (sha256 : Sha256) (uuid5 : UUID → Str → UUID)

/-- One step of worker `w`'s call; the call that comes back is `none` when it has ended. -/
def callStep (s : WorkerState) (w : Str) (call : Call) :
    CallAction → Option (WorkerState × Option Call)
  | .readClock now =>
    if call.readsClock ∧ call.reading = none ∧ s.lifecycle.clockAllows call.svc now then
      some (s, some { call with reading := some now })
    else none
  | .recoverExpiredLeases locked limit =>
    match call.stage, call.reading with
    | .recover, some now =>
      match call.svc.recoverExpiredLeases s.db locked limit now with
      | .ok (_, db) => some (s.withDb db, some { call with stage := .claim, reading := none })
      | .error _ => some (s, none)
    | _, _ => none
  | .claimNext locked =>
    match call.stage, call.reading with
    | .claim, some now =>
      match call.svc.claimNext s.db locked now with
      | .ok (some (job, db)) =>
        match db.documents.find? job.documentId with
        | some document => some
          ({ s with lifecycle :=
              { db
                claimReading := Function.update s.lifecycle.claimReading w (some now)
                claims := job.id :: s.lifecycle.claims } },
            some { call with
              stage := .work ⟨claimedDocument job document, job.attemptCount⟩ .readSource
              reading := none
              heartbeat := some ⟨none, none⟩ })
        | none => some (s, none)
      | _ => some (s, none)
    | _, _ => none
  | .readSource result =>
    match call.stage with
    | .work claim .readSource => some (s, some (call.withLease claim do
        let content ← result.mapError .expected
        return .parseAndChunk (← verifySource sha256 claim.claimed content)))
    | _ => none
  | .parseAndChunk result =>
    match call.stage with
    | .work claim (.parseAndChunk content) => some (s, some (call.withLease claim do
        let chunks ← parseAndChunk sha256 call.svc.chunkingConfig (fun _ => result) claim.claimed
          content
        return .replaceChunks chunks))
    | _ => none
  | .replaceChunks =>
    match call.stage, call.reading with
    | .work claim (.replaceChunks chunks), some now =>
      let rows := durableChunks uuid5 claim.claimed chunks
      match call.svc.replaceChunks s.db claim.claimed rows now with
      | .ok db => some
          ({ s.withDb db with replacements := ⟨w, claim, rows⟩ :: s.replacements },
            some { call with stage := .work claim (.embedChunks rows), reading := none })
      | .error raised => some (s, some (call.handle claim raised))
    | _, _ => none
  | .embedChunks result =>
    match call.stage with
    | .work claim (.embedChunks rows) => some (s, some (call.withLease claim do
        let records ← embedChunks (fun _ => result) call.svc.embeddingDimension claim.claimed rows
        return .deleteVectors rows records))
    | _ => none
  | .deleteVectors =>
    match call.stage with
    | .work claim (.deleteVectors rows records) => some
      ({ s with index := s.index.deleteByDocument claim.claimed.documentId },
        some { call with
          stage := .work claim (.upsertVectors rows records (call.svc.batches records)) })
    | _ => none
  | .upsertVectors =>
    match call.stage with
    | .work claim (.upsertVectors rows records (batch :: remaining)) =>
      match validateRecords batch call.svc.embeddingDimension with
      | .ok batch => some ({ s with index := s.index.upsert batch },
          some { call with stage := .work claim (.upsertVectors rows records remaining) })
      | .error _ => some (s, some (call.handle claim (.expected .vectorStoreInput)))
    | _ => none
  | .stopHeartbeat =>
    match call.stage with
    | .work claim (.upsertVectors rows records []) =>
      match call.lost with
      | some raised => some (s, some (call.handle claim raised))
      | none => some (s, some { call with
          stage := .work claim (.completeSuccess rows records)
          heartbeat := none })
    | _ => none
  | .completeSuccess =>
    match call.stage, call.reading with
    | .work claim (.completeSuccess rows _), some now =>
      match call.svc.completeSuccess s.db claim.claimed.jobId now with
      | some db => some
          ({ s.withDb db with completions := ⟨w, claim, rows⟩ :: s.completions }, none)
      | none => some (s, some (call.handle claim .leaseLost))
    | _, _ => none
  | .completeFailure =>
    match call.stage, call.reading with
    | .handle claim raised, some now =>
      raised.failure?.map fun failure =>
        (s.withDb (call.svc.completeFailure s.db claim.claimed.jobId failure now), none)
    | _, _ => none
  | .raise raised =>
    match call.stage with
    | .work claim _ => some (s, some (call.handle claim raised))
    | _ => none
  | .exit => some (s, none)
  | .readHeartbeatClock now =>
    match call.heartbeat with
    | some ⟨none, none⟩ =>
      if s.lifecycle.clockAllows call.svc now then
        some (s, some { call with heartbeat := some ⟨some now, none⟩ })
      else none
    | _ => none
  | .renewLease =>
    match call.stage, call.heartbeat with
    | .work claim _, some ⟨some now, none⟩ =>
      match call.svc.renewLease s.db claim.claimed.jobId now with
      | some db => some (s.withDb db, some { call with heartbeat := some ⟨none, none⟩ })
      | none => some (s, some { call with heartbeat := some ⟨none, some .leaseLost⟩ })
    | _, _ => none
  | .failHeartbeat raised =>
    match call.heartbeat with
    | some ⟨some _, none⟩ =>
      if raised = .leaseLost ∨ raised = .unexpected then
        some (s, some { call with heartbeat := some ⟨none, some raised⟩ })
      else none
    | _ => none

/-- A worker starts its next call, steps in it, or something else happens to the jobs. -/
inductive WorkerAction where
  | start (svc : IngestionProcessingService)
  | call (w : Str) (action : CallAction)
  | recoverExpiredLeases (svc : IngestionProcessingService) (locked : List UUID) (limit : Int)
      (now : Time)
  | retryIngestionJob (userId jobId : UUID)
  | upload (document : Document) (jobId : UUID)

def workerStep (s : WorkerState) : WorkerAction → Option WorkerState
  | .start svc =>
    if (s.calls svc.workerId.value).isSome then none
    else some (s.withCall svc.workerId.value (some ⟨svc, .recover, none, none⟩))
  | .call w action => do
    let call ← s.calls w
    let (t, next) ← callStep sha256 uuid5 s w call action
    return t.withCall w next
  | .recoverExpiredLeases svc locked limit now =>
    match svc.recoverExpiredLeases s.db locked limit now with
    | .ok (_, db) => some (s.withDb db)
    | .error _ => none
  | .retryIngestionJob userId jobId =>
    match retryIngestionJob s.db userId jobId with
    | .ok (_, db) => some (s.withDb db)
    | .error _ => none
  | .upload document jobId =>
    match insertUpload s.db { document with status := .pending } jobId with
    | .ok (_, db) => some (s.withDb db)
    | .error _ => none

def workers : Machine WorkerState WorkerAction := ⟨workerStep sha256 uuid5⟩

/-- The statements that touch neither the rows nor the index, by what they compute. -/
inductive WorkNext (svc : IngestionProcessingService) (claim : Claim) : Work → Work → Prop where
  | readSource {content} : WorkNext svc claim .readSource (.parseAndChunk content)
  | parseAndChunk {content chunks} :
      WorkNext svc claim (.parseAndChunk content) (.replaceChunks chunks)
  | embedChunks {rows records result}
      (hok : embedChunks (fun _ => result) svc.embeddingDimension claim.claimed rows = .ok records) :
      WorkNext svc claim (.embedChunks rows) (.deleteVectors rows records)

/-- The steps of a call by their outcome. -/
inductive CallStep (s : WorkerState) (w : Str) (call : Call) :
    CallAction → WorkerState → Option Call → Prop where
  | readClock {now} (hclock : s.lifecycle.clockAllows call.svc now = true) :
      CallStep s w call (.readClock now) s (some { call with reading := some now })
  | ended {a} : CallStep s w call a s none
  | recovered {locked limit now n db}
      (hok : call.svc.recoverExpiredLeases s.db locked limit now = .ok (n, db)) :
      CallStep s w call (.recoverExpiredLeases locked limit) (s.withDb db)
        (some { call with stage := .claim, reading := none })
  | claimed {locked now job db document} (hstage : call.stage = .claim)
      (hreading : call.reading = some now)
      (hok : call.svc.claimNext s.db locked now = .ok (some (job, db)))
      (hdocument : db.documents.find? job.documentId = some document) :
      CallStep s w call (.claimNext locked)
        { s with lifecycle :=
            { db
              claimReading := Function.update s.lifecycle.claimReading w (some now)
              claims := job.id :: s.lifecycle.claims } }
        (some { call with
          stage := .work ⟨claimedDocument job document, job.attemptCount⟩ .readSource
          reading := none
          heartbeat := some ⟨none, none⟩ })
  | proceeded {a claim work work'} (hstage : call.stage = .work claim work)
      (hnext : WorkNext call.svc claim work work') :
      CallStep s w call a s (some { call with stage := .work claim work' })
  | raised {a claim work raised} (hstage : call.stage = .work claim work) :
      CallStep s w call a s (some (call.handle claim raised))
  | replaced {claim chunks now db} (hstage : call.stage = .work claim (.replaceChunks chunks))
      (hreading : call.reading = some now)
      (hok : call.svc.replaceChunks s.db claim.claimed (durableChunks uuid5 claim.claimed chunks)
        now = .ok db) :
      CallStep s w call .replaceChunks
        { s.withDb db with replacements :=
            ⟨w, claim, durableChunks uuid5 claim.claimed chunks⟩ :: s.replacements }
        (some { call with
          stage := .work claim (.embedChunks (durableChunks uuid5 claim.claimed chunks))
          reading := none })
  | deleted {claim rows records} (hstage : call.stage = .work claim (.deleteVectors rows records)) :
      CallStep s w call .deleteVectors
        { s with index := s.index.deleteByDocument claim.claimed.documentId }
        (some { call with
          stage := .work claim (.upsertVectors rows records (call.svc.batches records)) })
  | upserted {claim rows records batch remaining}
      (hstage : call.stage = .work claim (.upsertVectors rows records (batch :: remaining)))
      (hbatch : (batch.map VectorRecord.vectorId).Nodup) :
      CallStep s w call .upsertVectors { s with index := s.index.upsert batch }
        (some { call with stage := .work claim (.upsertVectors rows records remaining) })
  | stopped {claim rows records}
      (hstage : call.stage = .work claim (.upsertVectors rows records [])) :
      CallStep s w call .stopHeartbeat s (some { call with
        stage := .work claim (.completeSuccess rows records)
        heartbeat := none })
  | succeeded {claim rows records now db}
      (hstage : call.stage = .work claim (.completeSuccess rows records))
      (hok : call.svc.completeSuccess s.db claim.claimed.jobId now = some db) :
      CallStep s w call .completeSuccess
        { s.withDb db with completions := ⟨w, claim, rows⟩ :: s.completions } none
  | failed {claim raised failure now} (hstage : call.stage = .handle claim raised)
      (hfailure : raised.failure? = some failure) :
      CallStep s w call .completeFailure
        (s.withDb (call.svc.completeFailure s.db claim.claimed.jobId failure now)) none
  | heartbeatClock {now} (hclock : s.lifecycle.clockAllows call.svc now = true) :
      CallStep s w call (.readHeartbeatClock now) s
        (some { call with heartbeat := some ⟨some now, none⟩ })
  | renewed {claim work now db} (hstage : call.stage = .work claim work)
      (hheartbeat : call.heartbeat = some ⟨some now, none⟩)
      (hok : call.svc.renewLease s.db claim.claimed.jobId now = some db) :
      CallStep s w call .renewLease (s.withDb db)
        (some { call with heartbeat := some ⟨none, none⟩ })
  | heartbeatLost {a raised} :
      CallStep s w call a s (some { call with heartbeat := some ⟨none, some raised⟩ })

end Machine

section Inversion
variable {sha256 : Sha256} {uuid5 : UUID → Str → UUID} {s t : WorkerState} {w : Str} {call : Call}
  {next : Option Call}

theorem withLease_cases (call : Call) (claim : Claim) (outcome : Except Raised Work) :
    (∃ raised, call.withLease claim outcome = call.handle claim raised) ∨
      ∃ work, outcome = .ok work ∧
        call.withLease claim outcome = { call with stage := .work claim work } := by
  unfold Call.withLease
  split
  · exact .inl ⟨_, rfl⟩
  · exact .inl ⟨_, rfl⟩
  · exact .inr ⟨_, rfl, rfl⟩

/-- An operation under the lease either proceeds with its result or raises. -/
private theorem callStep_withLease {claim : Claim} {work : Work} {a : CallAction}
    {outcome : Except Raised Work} (hstage : call.stage = .work claim work)
    (hnext : ∀ work', outcome = .ok work' → WorkNext call.svc claim work work')
    (h : (s, some (call.withLease claim outcome)) = (t, next)) :
    CallStep uuid5 s w call a t next := by
  obtain ⟨rfl, rfl⟩ := Prod.mk.inj h
  rcases withLease_cases call claim outcome with ⟨raised, heq⟩ | ⟨work', hok, heq⟩
  · rw [heq]
    exact .raised hstage
  · rw [heq]
    exact .proceeded hstage (hnext work' hok)

theorem callStep_inv {a : CallAction} (h : callStep sha256 uuid5 s w call a = some (t, next)) :
    CallStep uuid5 s w call a t next := by
  cases a with
  | readClock now =>
    simp only [callStep] at h
    split at h
    · rename_i hc
      obtain ⟨rfl, rfl⟩ := Prod.mk.inj (Option.some.inj h)
      exact .readClock hc.2.2
    · cases h
  | recoverExpiredLeases locked limit =>
    simp only [callStep] at h
    split at h
    · split at h
      · rename_i hok
        obtain ⟨rfl, rfl⟩ := Prod.mk.inj (Option.some.inj h)
        exact .recovered hok
      · obtain ⟨rfl, rfl⟩ := Prod.mk.inj (Option.some.inj h)
        exact .ended
    · cases h
  | claimNext locked =>
    simp only [callStep] at h
    split at h
    · rename_i hstage hreading
      split at h
      · rename_i hok
        split at h
        · rename_i hdocument
          obtain ⟨rfl, rfl⟩ := Prod.mk.inj (Option.some.inj h)
          exact .claimed hstage hreading hok hdocument
        · obtain ⟨rfl, rfl⟩ := Prod.mk.inj (Option.some.inj h)
          exact .ended
      · obtain ⟨rfl, rfl⟩ := Prod.mk.inj (Option.some.inj h)
        exact .ended
    · cases h
  | readSource result =>
    simp only [callStep] at h
    split at h
    · rename_i claim hstage
      refine callStep_withLease hstage ?_ (Option.some.inj h)
      intro work' hok
      obtain ⟨_, _, hok⟩ := bind_eq_ok.mp hok
      obtain ⟨_, _, hok⟩ := bind_eq_ok.mp hok
      obtain rfl := Except.ok.inj hok
      exact .readSource
    · cases h
  | parseAndChunk result =>
    simp only [callStep] at h
    split at h
    · rename_i claim content hstage
      refine callStep_withLease hstage ?_ (Option.some.inj h)
      intro work' hok
      obtain ⟨_, _, hok⟩ := bind_eq_ok.mp hok
      obtain rfl := Except.ok.inj hok
      exact .parseAndChunk
    · cases h
  | replaceChunks =>
    simp only [callStep] at h
    split at h
    · rename_i hstage hreading
      split at h
      · rename_i hok
        obtain ⟨rfl, rfl⟩ := Prod.mk.inj (Option.some.inj h)
        exact .replaced hstage hreading hok
      · obtain ⟨rfl, rfl⟩ := Prod.mk.inj (Option.some.inj h)
        exact .raised hstage
    · cases h
  | embedChunks result =>
    simp only [callStep] at h
    split at h
    · rename_i claim rows hstage
      refine callStep_withLease hstage ?_ (Option.some.inj h)
      intro work' hok
      obtain ⟨records, hrecords, hok⟩ := bind_eq_ok.mp hok
      obtain rfl := Except.ok.inj hok
      exact .embedChunks hrecords
    · cases h
  | deleteVectors =>
    simp only [callStep] at h
    split at h
    · rename_i hstage
      obtain ⟨rfl, rfl⟩ := Prod.mk.inj (Option.some.inj h)
      exact .deleted hstage
    · cases h
  | upsertVectors =>
    simp only [callStep] at h
    split at h
    · rename_i hstage
      split at h
      · rename_i hok
        obtain ⟨rfl, hnodup, _⟩ := validateRecords_eq_ok.mp hok
        obtain ⟨rfl, rfl⟩ := Prod.mk.inj (Option.some.inj h)
        exact .upserted hstage hnodup
      · obtain ⟨rfl, rfl⟩ := Prod.mk.inj (Option.some.inj h)
        exact .raised hstage
    · cases h
  | stopHeartbeat =>
    simp only [callStep] at h
    split at h
    · rename_i hstage
      split at h
      · obtain ⟨rfl, rfl⟩ := Prod.mk.inj (Option.some.inj h)
        exact .raised hstage
      · obtain ⟨rfl, rfl⟩ := Prod.mk.inj (Option.some.inj h)
        exact .stopped hstage
    · cases h
  | completeSuccess =>
    simp only [callStep] at h
    split at h
    · rename_i hstage hreading
      split at h
      · rename_i hok
        obtain ⟨rfl, rfl⟩ := Prod.mk.inj (Option.some.inj h)
        exact .succeeded hstage hok
      · obtain ⟨rfl, rfl⟩ := Prod.mk.inj (Option.some.inj h)
        exact .raised hstage
    · cases h
  | completeFailure =>
    simp only [callStep] at h
    split at h
    · rename_i hstage hreading
      obtain ⟨failure, hfailure, heq⟩ := Option.map_eq_some_iff.mp h
      obtain ⟨rfl, rfl⟩ := Prod.mk.inj heq
      exact .failed hstage hfailure
    · cases h
  | raise raised =>
    simp only [callStep] at h
    split at h
    · rename_i hstage
      obtain ⟨rfl, rfl⟩ := Prod.mk.inj (Option.some.inj h)
      exact .raised hstage
    · cases h
  | exit =>
    obtain ⟨rfl, rfl⟩ := Prod.mk.inj (Option.some.inj h)
    exact .ended
  | readHeartbeatClock now =>
    simp only [callStep] at h
    split at h
    · split at h
      · rename_i hc
        obtain ⟨rfl, rfl⟩ := Prod.mk.inj (Option.some.inj h)
        exact .heartbeatClock hc
      · cases h
    · cases h
  | renewLease =>
    simp only [callStep] at h
    split at h
    · rename_i hstage hheartbeat
      split at h
      · rename_i hok
        obtain ⟨rfl, rfl⟩ := Prod.mk.inj (Option.some.inj h)
        exact .renewed hstage hheartbeat hok
      · obtain ⟨rfl, rfl⟩ := Prod.mk.inj (Option.some.inj h)
        exact .heartbeatLost
    · cases h
  | failHeartbeat raised =>
    simp only [callStep] at h
    split at h
    · split at h
      · obtain ⟨rfl, rfl⟩ := Prod.mk.inj (Option.some.inj h)
        exact .heartbeatLost
      · cases h
    · cases h

theorem workerStep_call {action : CallAction}
    (h : workerStep sha256 uuid5 s (.call w action) = some t) :
    ∃ call mid next, s.calls w = some call ∧ CallStep uuid5 s w call action mid next ∧
      t = mid.withCall w next := by
  simp only [workerStep, bind, Option.bind_eq_some_iff, pure, Option.some.injEq] at h
  obtain ⟨call, hcall, ⟨mid, next⟩, hstep, rfl⟩ := h
  exact ⟨call, mid, next, hcall, callStep_inv hstep, rfl⟩

/-- The steps of the workers by their outcome. -/
inductive WorkerMove (uuid5 : UUID → Str → UUID) (s : WorkerState) : WorkerAction → WorkerState → Prop where
  | start {svc} (hidle : ¬(s.calls svc.workerId.value).isSome) :
      WorkerMove uuid5 s (.start svc)
        (s.withCall svc.workerId.value (some ⟨svc, .recover, none, none⟩))
  | call {w : Str} {action : CallAction} {call : Call} {mid : WorkerState} {next : Option Call}
      (hcall : s.calls w = some call) (hstep : CallStep uuid5 s w call action mid next) :
      WorkerMove uuid5 s (.call w action) (mid.withCall w next)
  | recovered {svc locked limit now n db}
      (hok : svc.recoverExpiredLeases s.db locked limit now = .ok (n, db)) :
      WorkerMove uuid5 s (.recoverExpiredLeases svc locked limit now) (s.withDb db)
  | retried {userId jobId job db} (hok : retryIngestionJob s.db userId jobId = .ok (job, db)) :
      WorkerMove uuid5 s (.retryIngestionJob userId jobId) (s.withDb db)
  | uploaded {document : Document} {jobId job db}
      (hok : insertUpload s.db { document with status := .pending } jobId = .ok (job, db)) :
      WorkerMove uuid5 s (.upload document jobId) (s.withDb db)

theorem workerStep_move {a : WorkerAction} (h : (workers sha256 uuid5).step s a = some t) :
    WorkerMove uuid5 s a t := by
  cases a with
  | start svc =>
    simp only [workers, workerStep] at h
    split at h
    · cases h
    · obtain rfl := Option.some.inj h
      exact .start ‹_›
  | call w action =>
    obtain ⟨call, mid, next, hcall, hstep, rfl⟩ := workerStep_call h
    exact .call hcall hstep
  | recoverExpiredLeases svc locked limit now =>
    simp only [workers, workerStep] at h
    split at h
    · obtain rfl := Option.some.inj h
      exact .recovered ‹_›
    · cases h
  | retryIngestionJob userId jobId =>
    simp only [workers, workerStep] at h
    split at h
    · obtain rfl := Option.some.inj h
      exact .retried ‹_›
    · cases h
  | upload document jobId =>
    simp only [workers, workerStep] at h
    split at h
    · obtain rfl := Option.some.inj h
      exact .uploaded ‹_›
    · cases h

end Inversion

section Example

/-- The digest of `b"a"`. -/
def exampleSha256 : Sha256 := fun _ =>
  ⟨[0xca, 0x97, 0x81, 0x12, 0xca, 0x1b, 0xbd, 0xca, 0xfa, 0xc2, 0x31, 0xb3, 0x9a, 0x23, 0xdc, 0x4d,
    0xa7, 0x86, 0xef, 0xf8, 0x14, 0x7c, 0x4e, 0x72, 0xb9, 0x80, 0x77, 0x85, 0xaf, 0xee, 0x48, 0xbb],
    rfl⟩

/-- The identifier of the first chunk of `exampleUpload`. -/
def exampleUuid5 : UUID → Str → UUID := fun _ _ => 0xf9a89fbb0a8756de80856c8c61eb887e

def secondService : IngestionProcessingService :=
  { exampleService with workerId := ⟨str "worker-2", by decide, by decide⟩ }

/-- A text file that holds the letter a. -/
def exampleUpload : Document := { exampleDocument with sha256 := hexdigest exampleSha256 [0x61] }

/-- A call up to its claim. -/
def claimActions (svc : IngestionProcessingService) (recovered claimed : Time) : List WorkerAction :=
  .start svc :: [.readClock recovered, .recoverExpiredLeases [] 32, .readClock claimed,
    .claimNext []].map (.call svc.workerId.value)

/-- From the claim up to the vector records. -/
def embedActions (svc : IngestionProcessingService) (replaced : Time) : List WorkerAction :=
  [.readSource (.ok [0x61]), .parseAndChunk (.ok ⟨[⟨str "a", none, ParsedSection.unnumbered⟩]⟩),
    .readClock replaced, .replaceChunks, .embedChunks (.ok (.list [.list [.float ⟨0⟩]]))].map
      (.call svc.workerId.value)

def indexActions (svc : IngestionProcessingService) (completed : Time) : List WorkerAction :=
  [.deleteVectors, .upsertVectors, .stopHeartbeat, .readClock completed, .completeSuccess].map
    (.call svc.workerId.value)

/-- The first worker waits before its first vector-store request. Its lease runs out, and the
second worker recovers, claims and completes the job. -/
def overtakenActions : List WorkerAction :=
  .upload exampleUpload 5 :: claimActions exampleService 10 10 ++ embedActions exampleService 20 ++
    claimActions secondService 100 130 ++ embedActions secondService 140 ++
    indexActions secondService 150

end Example
end AgenticRag.Services

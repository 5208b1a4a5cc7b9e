import AgenticRag.Services.ProcessSettled

/-! The one way in which an attempt is not settled: a cancellation that reaches a handler after the
heartbeat has ended is raised at once, and the job keeps its claim. -/
namespace AgenticRag.Services
open Lib Python Db Ingestion

/-- The success transition begins after the heartbeat has ended, so that a handler that stops it has no
committed success behind it. -/
structure HeartbeatStopped (task : ProcessTask) : Prop where
  completing : ∀ now, task.point = .completingSuccess now → task.heartbeat = .done
  stopping : ∀ caller, task.point = .stopping caller → task.succeeded = false
  succeeded : task.succeeded = true → task.heartbeat = .done

section Stopped
variable {sha256 : Sha256} {uuid5 : UUID → Str → UUID} {svc : IngestionProcessingService}
  {claimed : ClaimedDocument} {task next : ProcessTask} {now : Time}

theorem HeartbeatStopped.early (h : HeartbeatStopped task) (hheartbeat : task.heartbeat ≠ .done) :
    task.succeeded = false := by
  rw [← Bool.not_eq_true]
  exact fun hs => hheartbeat (h.succeeded hs)

/-- A step beside the course of the call. -/
theorem HeartbeatStopped.beside (h : HeartbeatStopped task) (hpoint : next.point = task.point)
    (hsucceeded : next.succeeded = task.succeeded)
    (hheartbeat : task.heartbeat = .done → next.heartbeat = .done) : HeartbeatStopped next where
  completing now hp := hheartbeat (h.completing now (hpoint ▸ hp))
  stopping caller hp := hsucceeded.trans (h.stopping caller (hpoint ▸ hp))
  succeeded hs := hheartbeat (h.succeeded (hsucceeded ▸ hs))

theorem HeartbeatStopped.gather (h : HeartbeatStopped task) (result : Except Raised Statement) :
    HeartbeatStopped (task.gather result) := ⟨nofun, nofun, h.succeeded⟩

theorem HeartbeatStopped.settle (h : HeartbeatStopped task) (raised : Raised) :
    HeartbeatStopped (task.settle raised now) := by
  unfold ProcessTask.settle
  split
  · exact ⟨nofun, nofun, h.succeeded⟩
  · exact ⟨nofun, nofun, h.succeeded⟩

theorem HeartbeatStopped.handle (h : HeartbeatStopped task) (raised : Raised) :
    HeartbeatStopped (task.handle raised now) := by
  unfold ProcessTask.handle
  split
  · have hhandled : HeartbeatStopped { task with handled := some raised } :=
      ⟨h.completing, h.stopping, h.succeeded⟩
    exact hhandled.settle raised
  · rename_i hheartbeat
    have hearly := h.early hheartbeat
    exact ⟨nofun, fun _ _ => hearly, fun hs => absurd (hearly.symm.trans hs) Bool.false_ne_true⟩

theorem HeartbeatStopped.completeOwned (h : HeartbeatStopped task) (hheartbeat : task.heartbeat = .done) :
    HeartbeatStopped (task.completeOwned now) := by
  unfold ProcessTask.completeOwned
  split
  · exact h.handle _
  · exact ⟨fun _ _ => hheartbeat, nofun, fun _ => hheartbeat⟩

theorem HeartbeatStopped.withLease (h : HeartbeatStopped task) (operation : Operation) :
    HeartbeatStopped (task.withLease operation) := by
  unfold ProcessTask.withLease
  split
  · exact ⟨nofun, nofun, h.succeeded⟩
  · exact ⟨nofun, nofun, h.succeeded⟩

theorem HeartbeatStopped.begin (h : HeartbeatStopped task) (statement : Statement) :
    HeartbeatStopped (task.begin now statement) := by
  cases statement with
  | withLease operation => exact h.withLease operation
  | replaceChunks chunks => exact ⟨nofun, nofun, h.succeeded⟩
  | completeSuccess =>
    unfold ProcessTask.begin
    dsimp only
    split
    · exact h.completeOwned ‹_›
    · rename_i hheartbeat
      have hearly := h.early hheartbeat
      exact ⟨nofun, fun _ _ => hearly, fun hs => absurd (hearly.symm.trans hs) Bool.false_ne_true⟩

theorem HeartbeatStopped.fail (h : HeartbeatStopped task) (raised : Raised) :
    HeartbeatStopped (task.fail raised now) := by
  unfold ProcessTask.fail
  split
  · exact ⟨nofun, nofun, h.succeeded⟩
  · exact ⟨nofun, nofun, h.succeeded⟩
  · exact h.handle raised

theorem HeartbeatStopped.commit {written : ProcessTask} (h : HeartbeatStopped task)
    (hcommit : task.commit uuid5 svc claimed = some (.ok written)) : HeartbeatStopped written := by
  unfold ProcessTask.commit at hcommit
  split at hcommit
  · rename_i chunks now hp
    cases hreplace : svc.replaceChunks task.db claimed (durableChunks uuid5 claimed chunks) now with
    | error raised =>
      rw [hreplace] at hcommit
      cases hcommit
    | ok db =>
      rw [hreplace] at hcommit
      obtain rfl := Except.ok.inj (Option.some.inj hcommit)
      exact ⟨h.completing, h.stopping, h.succeeded⟩
  · rename_i now hp
    split at hcommit
    · obtain rfl := Except.ok.inj (Option.some.inj hcommit)
      refine ⟨h.completing, fun caller hstopping => ?_, fun _ => h.completing now hp⟩
      cases hp.symm.trans hstopping
    · cases hcommit
  · obtain rfl := Except.ok.inj (Option.some.inj hcommit)
    exact ⟨h.completing, h.stopping, h.succeeded⟩
  · cases hcommit

theorem HeartbeatStopped.proceed (h : HeartbeatStopped task) :
    HeartbeatStopped (task.proceed uuid5 claimed) := by
  unfold ProcessTask.proceed
  split
  · have hfinished : HeartbeatStopped (task.finish .replaceChunks) :=
      ⟨h.completing, h.stopping, h.succeeded⟩
    exact hfinished.withLease _
  · exact ⟨nofun, nofun, h.succeeded⟩
  · exact ⟨nofun, nofun, h.succeeded⟩
  · exact ⟨nofun, nofun, h.succeeded⟩
  · exact h

theorem HeartbeatStopped.written {committed : Bool} {written : ProcessTask} (h : HeartbeatStopped task)
    (hwritten : Written uuid5 svc claimed task committed written) : HeartbeatStopped written := by
  rcases hwritten with ⟨_, rfl, _⟩ | ⟨_, hcommit⟩
  · exact h
  · exact h.commit hcommit

theorem HeartbeatTask.cancel_of_done {heartbeat : HeartbeatTask} (h : heartbeat = .done) :
    heartbeat.cancel = .done := by
  rw [h]
  rfl

theorem processStep_heartbeatStopped {a : ProcessAction} (h : HeartbeatStopped task)
    (hstep : (processing sha256 uuid5 svc claimed).step task a = some next) : HeartbeatStopped next := by
  cases processStep_move hstep with
  | waitInterrupted _ _ => exact h.gather _
  | lostDone _ _ _ _ => exact h.gather _
  | lostJoin _ _ _ _ => exact ⟨nofun, nofun, h.succeeded⟩
  | leaseJoin _ _ _ _ => exact ⟨nofun, nofun, h.succeeded⟩
  | workJoined _ _ _ _ => exact h.gather _
  | leaseJoined _ _ => exact h.gather _
  | @gathered _ operation _ _ _ _ _ =>
    have hfinished : HeartbeatStopped (task.finish operation.stage) :=
      ⟨h.completing, h.stopping, h.succeeded⟩
    exact hfinished.begin _
  | gatherInterrupted _ _ => exact h.handle _
  | gatherRaised _ _ => exact h.handle _
  | stopped _ hheartbeat _ => exact h.completeOwned hheartbeat
  | stopInterrupted _ _ _ => exact h.handle _
  | handlerStopped _ _ _ => exact h.settle _
  | handlerInterrupted _ _ _ => exact ⟨nofun, nofun, h.succeeded⟩
  | cancelled hcancel =>
    obtain ⟨work, throwing, leaseLost, heartbeat, rfl, _, _, hheartbeat, _⟩ := cancel_spec hcancel
    refine h.beside rfl rfl fun hdone => ?_
    rcases hheartbeat with rfl | rfl
    · exact hdone
    · exact HeartbeatTask.cancel_of_done hdone
  | committed _ hcommit => exact (h.commit hcommit).proceed
  | refused _ _ => exact h.handle _
  | interrupted _ hwritten => exact (h.written hwritten).fail _
  | failed _ _ hwritten => exact (h.written hwritten).fail _
  | timedOut hheartbeat =>
    exact h.beside rfl rfl fun hdone => by rw [hheartbeat] at hdone; cases hdone
  | renewed hheartbeat _ =>
    exact h.beside rfl rfl fun hdone => by rw [hheartbeat] at hdone; cases hdone
  | renewalRefused _ _ | renewalFailed _ | heartbeatEnded => exact h.beside rfl rfl fun _ => rfl
  | answered _ _ | workCancelled _ | leaseLostEnded _ | changed => exact h.beside rfl rfl id

end Stopped

/-- A cancellation has reached the handler past the heartbeat: it is raised, or will be, and the job is
held as before. -/
structure Abandoned (svc : IngestionProcessingService) (claimed : ClaimedDocument) (job : IngestionJob)
    (task : ProcessTask) : Prop where
  held : ∃ row, Held svc claimed job row task.db
  point : task.point = .raised .cancelled ∨ task.Exposed ∧ task.throwing = true

section Abandoned
variable {sha256 : Sha256} {uuid5 : UUID → Str → UUID} {svc : IngestionProcessingService}
  {claimed : ClaimedDocument} {job : IngestionJob} {task next : ProcessTask}

/-- The cancellation that is let through. -/
theorem Attempted.abandoned (h : Attempted svc claimed job task) (hstopped : HeartbeatStopped task)
    (hexposed : task.Exposed) (hcancel : task.cancel = some next) : Abandoned svc claimed job next := by
  obtain ⟨hheartbeat, raised, hp⟩ := hexposed
  have hended : ¬task.point.Ended := by
    rw [hp]
    exact not_false
  have hheld := h.held (hstopped.stopping _ hp) (h.settleable hended).failed
  unfold ProcessTask.cancel at hcancel
  rw [hp] at hcancel
  dsimp only at hcancel
  rw [hheartbeat] at hcancel
  obtain rfl := Option.some.inj hcancel
  exact ⟨hheld, .inr ⟨⟨rfl, raised, rfl⟩, rfl⟩⟩

/-- The two points at which an abandoned call can be. -/
theorem Abandoned.at_point {point : AwaitPoint} (h : Abandoned svc claimed job task)
    (hp : task.point = point) : point = .raised .cancelled ∨ ∃ raised, point = .stopping (.handler raised) := by
  subst hp
  exact h.point.imp id fun hexposed => hexposed.1.2

theorem Abandoned.commit_eq_none (h : Abandoned svc claimed job task) :
    task.commit uuid5 svc claimed = none := by
  unfold ProcessTask.commit
  rcases h.at_point rfl with hp | ⟨_, hp⟩
  · rw [hp]
  · rw [hp]

/-- A step that leaves the call where it is. -/
theorem Abandoned.beside (h : Abandoned svc claimed job task) (hpoint : next.point = task.point)
    (hthrowing : task.throwing = true → next.throwing = true)
    (hheartbeat : task.heartbeat = .done → next.heartbeat = .done)
    (hheld : ∀ row, Held svc claimed job row task.db → ∃ row', Held svc claimed job row' next.db) :
    Abandoned svc claimed job next := by
  obtain ⟨row, hrow⟩ := h.held
  refine ⟨hheld row hrow, h.point.imp hpoint.trans ?_⟩
  rintro ⟨⟨hdone, raised, hp⟩, ht⟩
  exact ⟨⟨hheartbeat hdone, raised, hpoint.trans hp⟩, hthrowing ht⟩

/-- An abandoned call writes nothing any more. -/
theorem Abandoned.step {a : ProcessAction} (h : Abandoned svc claimed job task)
    (ha : Provided svc claimed task a)
    (hstep : (processing sha256 uuid5 svc claimed).step task a = some next) :
    Abandoned svc claimed job next := by
  have hsame : ∀ row, Held svc claimed job row task.db → ∃ row', Held svc claimed job row' task.db :=
    fun row hrow => ⟨row, hrow⟩
  cases processStep_move hstep with
  | waitInterrupted hp _ | lostDone hp _ _ _ | lostJoin hp _ _ _ | leaseJoin hp _ _ _
  | workJoined hp _ _ _ | leaseJoined hp _ | gathered hp _ _ | gatherInterrupted hp _
  | gatherRaised hp _ | stopped hp _ _ | stopInterrupted hp _ _ =>
    rcases h.at_point hp with heq | ⟨_, heq⟩
    · cases heq
    · cases heq
  | handlerStopped hp _ hthrowing =>
    rcases h.point with hraised | ⟨_, ht⟩
    · cases hp.symm.trans hraised
    · cases hthrowing.symm.trans ht
  | handlerInterrupted _ _ _ => exact ⟨h.held, .inl rfl⟩
  | cancelled hcancel =>
    obtain ⟨work, throwing, leaseLost, heartbeat, rfl, _, _, hheartbeat, hthrowing⟩ := cancel_spec hcancel
    refine h.beside rfl (fun ht => ?_) (fun hdone => ?_) hsame
    · rcases hthrowing with ⟨_, rfl⟩ | ⟨rfl, _⟩
      · exact ht
      · rfl
    · rcases hheartbeat with rfl | rfl
      · exact hdone
      · exact HeartbeatTask.cancel_of_done hdone
  | committed _ hcommit | refused _ hcommit => cases h.commit_eq_none.symm.trans hcommit
  | interrupted _ hwritten | failed _ _ hwritten =>
    rcases hwritten with ⟨_, _, hcommit⟩ | ⟨_, hcommit⟩
    · rw [h.commit_eq_none] at hcommit
      cases hcommit
    · cases h.commit_eq_none.symm.trans hcommit
  | timedOut hheartbeat =>
    exact h.beside rfl id (fun hdone => by rw [hheartbeat] at hdone; cases hdone) hsame
  | renewed hheartbeat hrenew =>
    exact h.beside rfl id (fun hdone => by rw [hheartbeat] at hdone; cases hdone)
      fun row hrow => hrow.renewed hrenew
  | renewalRefused _ _ | renewalFailed _ | heartbeatEnded => exact h.beside rfl id (fun _ => rfl) hsame
  | answered _ _ | workCancelled _ | leaseLostEnded _ => exact h.beside rfl id id hsame
  | changed => exact h.beside rfl id id fun row hrow => ⟨row, hrow.of_same ha.1 ha.2⟩

/-- An abandoned attempt is not settled: its job is processing. -/
theorem Abandoned.not_settled {document : Document}
    (h : Abandoned svc (claimedDocument job document) job task) : ¬Settled svc job task := by
  rintro ⟨row, _, hsettlement⟩
  obtain ⟨row', hheld⟩ := h.held
  obtain rfl := Option.some.inj (hsettlement.found.symm.trans hheld.found)
  exact hsettlement.left hheld.processing

/-- No exposed handler was cancelled and the attempt is under way, or one was and has abandoned it. -/
theorem attempted_or_abandoned {db : Database} {as : List ProcessAction}
    (hinit : Attempted svc claimed job (.init db))
    (hprovided : (processing sha256 uuid5 svc claimed).Allowed (Provided svc claimed) (.init db) as)
    (hrun : (processing sha256 uuid5 svc claimed).run (.init db) as = some task) :
    (processing sha256 uuid5 svc claimed).Allowed SparesHandlers (.init db) as ∧
        Attempted svc claimed job task ∨
      ¬(processing sha256 uuid5 svc claimed).Allowed SparesHandlers (.init db) as ∧
        Abandoned svc claimed job task := by
  refine (Machine.run_history (I := fun before r => HeartbeatStopped r ∧
    ((processing sha256 uuid5 svc claimed).Allowed SparesHandlers (.init db) before ∧
        Attempted svc claimed job r ∨
      ¬(processing sha256 uuid5 svc claimed).Allowed SparesHandlers (.init db) before ∧
        Abandoned svc claimed job r)) ?_ ?_ hprovided hrun).2
  · rintro before r a q hbefore ⟨hstopped, hattempt⟩ ha hstep
    refine ⟨processStep_heartbeatStopped hstopped hstep, ?_⟩
    rcases hattempt with ⟨hspares, hattempted⟩ | ⟨hcancelled, habandoned⟩
    · by_cases hnow : SparesHandlers r a
      · exact .inl ⟨(Machine.allowed_concat hbefore).mpr ⟨hspares, hnow⟩,
          processStep_attempted hattempted ha hnow hstep⟩
      · refine .inr ⟨fun hall => hnow ((Machine.allowed_concat hbefore).mp hall).2, ?_⟩
        cases a with
        | cancel =>
          have hexposed : r.Exposed := not_not.mp hnow
          exact hattempted.abandoned hstopped hexposed hstep
        | _ => exact absurd trivial hnow
    · exact .inr ⟨fun hall => hcancelled ((Machine.allowed_concat hbefore).mp hall).1,
        habandoned.step ha hstep⟩
  · exact ⟨⟨nofun, nofun, nofun⟩, .inl ⟨trivial, hinit⟩⟩

end Abandoned

section Runs
variable {sha256 : Sha256} {uuid5 : UUID → Str → UUID} {svc : IngestionProcessingService}
  {job : IngestionJob} {document : Document} {db₀ db : Database} {locked : List UUID} {now : Time}
  {as : List ProcessAction} {t : ProcessTask}

/-- Every attempt of a claimed job is settled when its call ends, unless a cancellation reaches a handler
after the heartbeat has ended and before the failure transition has begun. While the heartbeat runs it
takes the cancellation in its place. -/
theorem attempt_settled_iff (hclaim : svc.claimNext db₀ locked now = .ok (some (job, db)))
    (hdocument : db.documents.find? job.documentId = some document)
    (hprovided : (processing sha256 uuid5 svc (claimedDocument job document)).Allowed
      (Provided svc (claimedDocument job document)) (.init db) as)
    (hrun : (processing sha256 uuid5 svc (claimedDocument job document)).run (.init db) as = some t)
    (hended : t.point.Ended) :
    Settled svc job t ↔
      (processing sha256 uuid5 svc (claimedDocument job document)).Allowed SparesHandlers (.init db) as := by
  rcases attempted_or_abandoned (.init hclaim hdocument) hprovided hrun with
    ⟨hspares, hattempted⟩ | ⟨hcancelled, habandoned⟩
  · exact iff_of_true (hattempted.settled (Table.find?_key hdocument) hended) hspares
  · exact iff_of_false habandoned.not_settled hcancelled

/-- The task of the call is cancelled. -/
def ProcessAction.cancels : ProcessAction → Bool
  | .cancel => true
  | _ => false

end Runs

section Example

instance decidableExposed (task : ProcessTask) : Decidable task.Exposed :=
  match hheartbeat : task.heartbeat with
  | .waiting _ | .renewing _ _ => isFalse fun h => nomatch hheartbeat.symm.trans h.1
  | .done =>
    match hp : task.point with
    | .stopping (.handler raised) => isTrue ⟨hheartbeat, raised, hp⟩
    | .stopping .success | .waiting | .joiningWork | .joiningLeaseLost | .gathering _
    | .replacingChunks _ _ | .completingSuccess _ | .completingFailure _ _ _ | .returned | .raised _ =>
      isFalse fun ⟨_, _, h⟩ => nomatch hp.symm.trans h

instance decidableSparesHandlers (task : ProcessTask) : ∀ a, Decidable (SparesHandlers task a)
  | .cancel => inferInstanceAs (Decidable ¬task.Exposed)
  | .resume _ | .transact _ | .interrupt _ _ | .failTransaction _ _ _ | .answer _ | .endCancelled
  | .endLeaseLost | .timeout _ | .renew | .failRenewal _ | .endHeartbeat | .change _ => isTrue trivial

/-- The lease of the job has not expired, and the failure transition is not cancelled. -/
def providedHere (claimed : ClaimedDocument) (task : ProcessTask) : ProcessAction → Bool
  | .cancel => task.point.reading.isNone
  | .transact _ => task.point.reading.all fun now =>
    (task.db.ingestionJobs.find? claimed.jobId).all fun row =>
      row.leaseExpiresAt.all fun lease => decide (now < lease)
  | .resume _ | .answer _ | .endCancelled | .endLeaseLost | .endHeartbeat => true
  | .interrupt _ _ | .failTransaction _ _ _ | .timeout _ | .renew | .failRenewal _ | .change _ => false

theorem provided_of_here {claimed : ClaimedDocument} {task : ProcessTask} {a : ProcessAction}
    (h : providedHere claimed task a = true) : Provided exampleService claimed task a := by
  cases a with
  | cancel =>
    intro raised failure now hp
    unfold providedHere at h
    rw [hp] at h
    cases h
  | transact now =>
    intro reading row lease hreading hrow hlease
    unfold providedHere at h
    simpa [hreading, hrow, hlease] using h
  | resume | answer | endCancelled | endLeaseLost | endHeartbeat => trivial
  | interrupt | failTransaction | timeout | renew | failRenewal | change => cases h

/-- The source is not read, and the job waits for its next attempt. -/
def unreadActions : List ProcessAction :=
  leasedActions (.content (.error .storage)) 11 ++ [.endHeartbeat, .resume 12, .transact 13]

/-- The call is cancelled while it waits for its first operation. -/
def cancelledActions : List ProcessAction :=
  [.cancel, .resume 11, .endCancelled, .endLeaseLost, .resume 12, .endHeartbeat, .resume 13, .transact 14]

/-- The source is not read, and the cancellation comes once the handler has stopped the heartbeat. -/
def abandonedActions : List ProcessAction :=
  leasedActions (.content (.error .storage)) 11 ++ [.endHeartbeat, .cancel, .resume 12]

theorem attempt_settled_iff_example : ∃ job db document,
    exampleService.claimNext queuedDatabase [] 10 = .ok (some (job, db)) ∧
    ∀ as ∈ [completedActions, unreadActions, cancelledActions], ∃ t,
      (processing exampleSha256 exampleUuid5 exampleService (claimedDocument job document)).run (.init db)
        as = some t ∧ Settled exampleService job t := by
  have hany : (exampleService.claimNext queuedDatabase [] 10).toOption.any fun claim =>
      claim.any fun (job, db) => (db.documents.find? job.documentId).any fun document =>
        [completedActions, unreadActions, cancelledActions].all fun as =>
          decide ((processing exampleSha256 exampleUuid5 exampleService (claimedDocument job document)).Allowed
            (fun task a => providedHere (claimedDocument job document) task a = true) (.init db) as) &&
          decide ((processing exampleSha256 exampleUuid5 exampleService (claimedDocument job document)).Allowed
            SparesHandlers (.init db) as) &&
          ((processing exampleSha256 exampleUuid5 exampleService (claimedDocument job document)).run
            (.init db) as).any fun t => decide t.point.Ended := by
    decide +kernel
  obtain ⟨claim, hclaim, hclaimed⟩ := Option.any_eq_true _ _ |>.mp hany
  obtain ⟨⟨job, db⟩, rfl, hread⟩ := Option.any_eq_true _ _ |>.mp hclaimed
  obtain ⟨document, hdocument, hruns⟩ := Option.any_eq_true _ _ |>.mp hread
  have hclaim := toOption_eq_some.mp hclaim
  refine ⟨job, db, document, hclaim, fun as has => ?_⟩
  obtain ⟨hallowed, hfinal⟩ := Bool.and_eq_true_iff.mp (List.all_eq_true.mp hruns as has)
  obtain ⟨hprovided, hspares⟩ := Bool.and_eq_true_iff.mp hallowed
  obtain ⟨t, hrun, hended⟩ := Option.any_eq_true _ _ |>.mp hfinal
  exact ⟨t, hrun, (attempt_settled_iff hclaim hdocument
    ((of_decide_eq_true hprovided).mono fun _ _ => provided_of_here) hrun (of_decide_eq_true hended)).mpr
      (of_decide_eq_true hspares)⟩

/-- A storage error and one cancellation: the job is left processing under its unexpired lease. -/
theorem attempt_not_settled : ¬∀ (sha256 : Sha256) (uuid5 : UUID → Str → UUID)
    (svc : IngestionProcessingService) (db₀ db : Database) (locked : List UUID) (now : Time)
    (job : IngestionJob) (document : Document) (as : List ProcessAction) (t : ProcessTask),
    svc.claimNext db₀ locked now = .ok (some (job, db)) →
    db.documents.find? job.documentId = some document →
    (processing sha256 uuid5 svc (claimedDocument job document)).Allowed
      (Provided svc (claimedDocument job document)) (.init db) as →
    as.countP ProcessAction.cancels ≤ 1 →
    (processing sha256 uuid5 svc (claimedDocument job document)).run (.init db) as = some t →
    t.point.Ended → Settled svc job t := by
  intro h
  have hany : (exampleService.claimNext queuedDatabase [] 10).toOption.any fun claim =>
      claim.any fun (job, db) => (db.documents.find? job.documentId).any fun document =>
        decide ((processing exampleSha256 exampleUuid5 exampleService (claimedDocument job document)).Allowed
          (fun task a => providedHere (claimedDocument job document) task a = true) (.init db)
          abandonedActions) &&
        ((processing exampleSha256 exampleUuid5 exampleService (claimedDocument job document)).run
          (.init db) abandonedActions).any fun t => decide t.point.Ended &&
            (t.db.ingestionJobs.find? job.id).any fun row => decide (row.status = .processing) := by
    decide +kernel
  obtain ⟨claim, hclaim, hclaimed⟩ := Option.any_eq_true _ _ |>.mp hany
  obtain ⟨⟨job, db⟩, rfl, hread⟩ := Option.any_eq_true _ _ |>.mp hclaimed
  obtain ⟨document, hdocument, hruns⟩ := Option.any_eq_true _ _ |>.mp hread
  obtain ⟨hprovided, hfinal⟩ := Bool.and_eq_true_iff.mp hruns
  obtain ⟨t, hrun, hleft⟩ := Option.any_eq_true _ _ |>.mp hfinal
  obtain ⟨hended, hrow⟩ := Bool.and_eq_true_iff.mp hleft
  obtain ⟨row, hfound, hprocessing⟩ := Option.any_eq_true _ _ |>.mp hrow
  obtain ⟨row', _, hsettlement⟩ := h _ _ _ _ db _ _ job document _ t (toOption_eq_some.mp hclaim) hdocument
    ((of_decide_eq_true hprovided).mono fun _ _ => provided_of_here) (le_refl 1) hrun
      (of_decide_eq_true hended)
  obtain rfl := Option.some.inj (hsettlement.found.symm.trans hfound)
  exact hsettlement.left (of_decide_eq_true hprocessing)

end Example

end AgenticRag.Services

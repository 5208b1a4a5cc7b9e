import AgenticRag.Services.ProcessEnds
import AgenticRag.Services.ProcessSettled

/-! Where a cancellation of `process_next` goes: it is raised in the end, unless a task that the
call awaits takes it in its place. -/
namespace AgenticRag.Services
open Lib Python Db Ingestion

/-- The call is on its way to raise `CancelledError`. -/
def ProcessTask.Doomed (task : ProcessTask) : Prop :=
  match task.point with
  | .waiting | .replacingChunks _ _ | .stopping .success | .completingSuccess _ => task.throwing = true
  | .gathering result => task.throwing = true ∨ result = .error .cancelled
  | .stopping (.handler raised) | .completingFailure raised _ _ =>
    task.throwing = true ∨ raised = .cancelled
  | .raised raised => raised = .cancelled
  | .joiningWork | .joiningLeaseLost | .returned => False

/-- A transaction raises something else than `SQLAlchemyError`. -/
def ProcessAction.Escapes : ProcessAction → Prop
  | .failTransaction raised _ _ => raised ≠ .expected .sqlAlchemy
  | _ => False

section Doomed
variable {sha256 : Sha256} {uuid5 : UUID → Str → UUID} {svc : IngestionProcessingService}
  {claimed : ClaimedDocument} {task next : ProcessTask} {now : Time}

/-- A cancelled call begins no stage. -/
def DoomedFrom (task next : ProcessTask) : Prop := next.Doomed ∧ next.started = task.started

theorem doomed_settle (task : ProcessTask) (now : Time) : DoomedFrom task (task.settle .cancelled now) :=
  ⟨.inr rfl, rfl⟩

theorem doomed_handle (task : ProcessTask) (now : Time) : DoomedFrom task (task.handle .cancelled now) := by
  unfold ProcessTask.handle
  split
  · exact doomed_settle { task with handled := some .cancelled } now
  · exact ⟨.inr rfl, rfl⟩

theorem doomed_fail (task : ProcessTask) (now : Time) : DoomedFrom task (task.fail .cancelled now) := by
  unfold ProcessTask.fail
  split
  · exact ⟨rfl, rfl⟩
  · exact ⟨rfl, rfl⟩
  · exact doomed_handle task now

/-- A cancellation that no awaited task takes. -/
theorem doomed_cancel (hcancel : task.cancel = some next) (habsorbs : ¬task.Absorbs) :
    DoomedFrom task next := by
  obtain ⟨work, throwing, leaseLost, heartbeat, rfl, _, _, _, hthrowing⟩ := cancel_spec hcancel
  obtain rfl : throwing = true := (hthrowing.resolve_left fun h => habsorbs h.1).1
  refine ⟨?_, rfl⟩
  unfold ProcessTask.Absorbs at habsorbs
  unfold ProcessTask.Doomed
  cases hp : task.point with
  | joiningWork | joiningLeaseLost =>
    rw [hp] at habsorbs
    exact absurd trivial habsorbs
  | returned | raised =>
    simp only [ProcessTask.cancel, hp] at hcancel
    cases hcancel
  | stopping caller =>
    cases caller with
    | success => rfl
    | handler raised => exact .inl rfl
  | gathering | completingFailure => exact .inl rfl
  | _ => rfl

/-- A step that does not touch the course of a cancelled call. -/
theorem ProcessTask.Doomed.beside (h : task.Doomed) (hpoint : next.point = task.point)
    (hthrowing : task.throwing = true → next.throwing = true) : next.Doomed := by
  unfold ProcessTask.Doomed at h ⊢
  rw [hpoint]
  cases hp : task.point with
  | stopping caller =>
    rw [hp] at h
    cases caller with
    | success => exact hthrowing h
    | handler raised => exact h.imp_left hthrowing
  | gathering | completingFailure =>
    rw [hp] at h
    exact h.imp_left hthrowing
  | raised | joiningWork | joiningLeaseLost | returned =>
    rw [hp] at h
    exact h
  | _ =>
    rw [hp] at h
    exact hthrowing h

theorem ProcessTask.Doomed.cancelled (h : task.Doomed) (hcancel : task.cancel = some next) :
    DoomedFrom task next := by
  obtain ⟨work, throwing, leaseLost, heartbeat, rfl, _, _, _, hthrowing⟩ := cancel_spec hcancel
  refine ⟨h.beside rfl fun ht => ?_, rfl⟩
  rcases hthrowing with ⟨_, rfl⟩ | ⟨rfl, _⟩
  · exact ht
  · rfl

/-- A transaction of a cancelled call that goes on is its failure transition. -/
theorem ProcessTask.Doomed.commits (h : task.Doomed) (hthrowing : task.throwing = false)
    (hcommit : (task.commit uuid5 svc claimed).isSome) :
    ∃ failure now, task.point = .completingFailure .cancelled failure now := by
  unfold ProcessTask.Doomed at h
  unfold ProcessTask.commit at hcommit
  rw [hthrowing] at h
  cases hp : task.point with
  | completingFailure raised failure now =>
    rw [hp] at h
    obtain rfl : raised = .cancelled := h.resolve_left Bool.false_ne_true
    exact ⟨failure, now, rfl⟩
  | replacingChunks | completingSuccess =>
    rw [hp] at h
    cases h
  | _ =>
    rw [hp] at hcommit
    cases hcommit

theorem Written.isSome {committed : Bool} {written : ProcessTask}
    (h : Written uuid5 svc claimed task committed written) : (task.commit uuid5 svc claimed).isSome := by
  rcases h with ⟨_, _, hcommit⟩ | ⟨_, hcommit⟩
  · exact hcommit
  · exact Option.isSome_of_eq_some hcommit

theorem Written.same {committed : Bool} {written : ProcessTask}
    (h : Written uuid5 svc claimed task committed written) :
    written.point = task.point ∧ written.started = task.started ∧ written.lost = task.lost := by
  rcases h with ⟨_, rfl, _⟩ | ⟨_, hcommit⟩
  · exact ⟨rfl, rfl, rfl⟩
  · obtain ⟨_, _, _, rfl⟩ := commit_spec hcommit
    exact ⟨rfl, rfl, rfl⟩

/-- A cancelled call stays on its way. -/
theorem ProcessTask.Doomed.step {a : ProcessAction} (h : task.Doomed) (ha : ¬a.Escapes)
    (hstep : (processing sha256 uuid5 svc claimed).step task a = some next) : DoomedFrom task next := by
  have hpoint := h
  unfold ProcessTask.Doomed at hpoint
  cases processStep_move hstep with
  | waitInterrupted _ _ => exact ⟨.inr rfl, rfl⟩
  | lostDone hp hthrowing _ _ | lostJoin hp hthrowing _ _ | leaseJoin hp hthrowing _ _ =>
    rw [hp, hthrowing] at hpoint
    cases hpoint
  | workJoined hp _ _ _ =>
    rw [hp] at hpoint
    exact hpoint.elim
  | leaseJoined hp _ =>
    rw [hp] at hpoint
    exact hpoint.elim
  | gathered hp hthrowing _ =>
    rw [hp, hthrowing] at hpoint
    rcases hpoint with hfalse | hok
    · cases hfalse
    · cases hok
  | gatherInterrupted _ _ => exact doomed_handle task _
  | gatherRaised hp hthrowing =>
    rw [hp, hthrowing] at hpoint
    obtain rfl := Except.error.inj (hpoint.resolve_left Bool.false_ne_true)
    exact doomed_handle task _
  | stopped hp _ hthrowing =>
    rw [hp, hthrowing] at hpoint
    cases hpoint
  | stopInterrupted _ _ _ => exact doomed_handle task _
  | handlerStopped hp _ hthrowing =>
    rw [hp, hthrowing] at hpoint
    obtain rfl := hpoint.resolve_left Bool.false_ne_true
    exact doomed_settle task _
  | handlerInterrupted _ _ _ => exact ⟨rfl, rfl⟩
  | cancelled hcancel => exact h.cancelled hcancel
  | committed hthrowing hcommit =>
    obtain ⟨failure, now, hp⟩ := h.commits hthrowing (Option.isSome_of_eq_some hcommit)
    obtain ⟨_, _, _, rfl⟩ := commit_spec hcommit
    unfold ProcessTask.proceed
    dsimp only
    rw [hp]
    exact ⟨rfl, rfl⟩
  | refused hthrowing hcommit =>
    obtain ⟨failure, now, hp⟩ := h.commits hthrowing (Option.isSome_of_eq_some hcommit)
    unfold ProcessTask.commit at hcommit
    rw [hp] at hcommit
    cases hcommit
  | @interrupted now _ written _ hwritten =>
    obtain ⟨hdoomed, hstarted⟩ := doomed_fail written now
    exact ⟨hdoomed, hstarted.trans hwritten.same.2.1⟩
  | @failed _ raised _ _ hthrowing _ hwritten =>
    obtain ⟨failure, now, hp⟩ := h.commits hthrowing hwritten.isSome
    obtain rfl : raised = .expected .sqlAlchemy := not_not.mp ha
    unfold ProcessTask.fail
    rw [hwritten.same.1, hp]
    exact ⟨if_pos rfl, hwritten.same.2.1⟩
  | answered _ _ | workCancelled _ | leaseLostEnded _ | timedOut _ | renewed _ _ | renewalRefused _ _
  | renewalFailed _ | heartbeatEnded | changed => exact ⟨h.beside rfl id, rfl⟩

end Doomed

/-- The operation was not cancelled. -/
def WorkTask.Uncancelled : WorkTask → Prop
  | .running _ cancelling => cancelling = false
  | .done _ outcome => outcome ≠ .error .cancelled

/-- No cancellation is on its way; one that `_with_lease` joins is about to be dropped. -/
def ProcessTask.Uncancelled (task : ProcessTask) : Prop :=
  (task.point.Ended ∨ task.lost ≠ some .cancelled) ∧
  match task.point with
  | .waiting => task.throwing = false ∧ task.work.Uncancelled
  | .joiningLeaseLost => ∃ operation outcome, task.work = .done operation outcome ∧ outcome ≠ .error .cancelled
  | .gathering result => task.throwing = false ∧ result ≠ .error .cancelled
  | .stopping (.handler raised) | .completingFailure raised _ _ =>
    task.throwing = false ∧ raised ≠ .cancelled
  | .replacingChunks _ _ | .stopping .success | .completingSuccess _ => task.throwing = false
  | .raised raised => raised ≠ .cancelled
  | .joiningWork | .returned => True

section Uncancelled
variable {sha256 : Sha256} {uuid5 : UUID → Str → UUID} {svc : IngestionProcessingService}
  {claimed : ClaimedDocument} {task next : ProcessTask} {now : Time}

theorem uncancelled_init (db : Database) : (ProcessTask.init db).Uncancelled :=
  ⟨.inr nofun, rfl, rfl⟩

theorem uncancelled_gather {result : Except Raised Statement} (hlost : task.lost ≠ some .cancelled)
    (hresult : result ≠ .error .cancelled) : (task.gather result).Uncancelled :=
  ⟨.inr hlost, rfl, hresult⟩

theorem uncancelled_settle {raised : Raised} (hlost : task.lost ≠ some .cancelled)
    (hraised : raised ≠ .cancelled) : (task.settle raised now).Uncancelled := by
  unfold ProcessTask.settle
  split
  · exact ⟨.inl trivial, trivial⟩
  · exact ⟨.inr hlost, rfl, hraised⟩

theorem uncancelled_handle {raised : Raised} (hlost : task.lost ≠ some .cancelled)
    (hraised : raised ≠ .cancelled) : (task.handle raised now).Uncancelled := by
  unfold ProcessTask.handle
  split
  · exact uncancelled_settle hlost hraised
  · exact ⟨.inr hlost, rfl, hraised⟩

theorem uncancelled_completeOwned (hlost : task.lost ≠ some .cancelled) :
    (task.completeOwned now).Uncancelled := by
  unfold ProcessTask.completeOwned
  split
  · rename_i lost hsome
    refine uncancelled_handle hlost ?_
    rintro rfl
    exact hlost hsome
  · exact ⟨.inr hlost, rfl⟩

theorem uncancelled_withLease (operation : Operation) (hlost : task.lost ≠ some .cancelled) :
    (task.withLease operation).Uncancelled := by
  unfold ProcessTask.withLease
  split
  · rename_i lost hsome
    refine uncancelled_gather hlost ?_
    rintro ⟨⟩
    exact hlost hsome
  · exact ⟨.inr hlost, rfl, rfl⟩

theorem uncancelled_begin (statement : Statement) (hlost : task.lost ≠ some .cancelled) :
    (task.begin now statement).Uncancelled := by
  cases statement with
  | withLease operation => exact uncancelled_withLease operation hlost
  | replaceChunks chunks => exact ⟨.inr hlost, rfl⟩
  | completeSuccess =>
    unfold ProcessTask.begin
    dsimp only
    split
    · exact uncancelled_completeOwned hlost
    · exact ⟨.inr hlost, rfl⟩

theorem joined_ne_cancelled {outcome : Except Raised Statement} {lost : Raised}
    (hlost : lost ≠ .cancelled) : ProcessTask.joined outcome lost ≠ .error .cancelled := by
  unfold ProcessTask.joined
  split
  · exact fun h => hlost (Except.error.inj h)
  · rename_i hraised
    exact fun h => hraised (Except.error.inj h ▸ rfl)
  · exact fun h => hlost (Except.error.inj h)

theorem owned_ne_cancelled {outcome : Except Raised Statement} {lost : Option Raised}
    (houtcome : outcome ≠ .error .cancelled) (hlost : lost ≠ some .cancelled) :
    ProcessTask.owned outcome lost ≠ .error .cancelled := by
  unfold ProcessTask.owned
  split
  · exact houtcome
  · exact fun h => hlost (Except.error.inj h ▸ rfl)
  · exact nofun

/-- A transaction is refused with an exception of its own. -/
theorem commit_refused {raised : Raised} (h : task.commit uuid5 svc claimed = some (.error raised)) :
    raised ≠ .cancelled := by
  unfold ProcessTask.commit at h
  split at h
  · unfold IngestionProcessingService.replaceChunks at h
    split at h
    · cases h
      exact nofun
    · split at h
      · cases h
        exact nofun
      · cases h
        exact nofun
      · cases h
  · split at h
    · cases h
    · cases h
      exact nofun
  · cases h
  · cases h

theorem ProcessTask.Uncancelled.lost_ne (h : task.Uncancelled) (hended : ¬task.point.Ended) :
    task.lost ≠ some .cancelled :=
  h.1.resolve_left hended

/-- A transaction that is under way was not cancelled. -/
theorem ProcessTask.Uncancelled.commits (h : task.Uncancelled)
    (hcommit : (task.commit uuid5 svc claimed).isSome) :
    task.throwing = false ∧ task.lost ≠ some .cancelled ∧
      ∀ failure now, task.point ≠ .completingFailure .cancelled failure now := by
  obtain ⟨hlost, hpoint⟩ := h
  unfold ProcessTask.commit at hcommit
  cases hp : task.point with
  | replacingChunks | completingSuccess =>
    rw [hp] at hpoint hlost
    exact ⟨hpoint, hlost.resolve_left not_false, nofun⟩
  | completingFailure raised failure now =>
    rw [hp] at hpoint hlost
    refine ⟨hpoint.1, hlost.resolve_left not_false, fun failure' now' he => hpoint.2 ?_⟩
    exact (AwaitPoint.completingFailure.inj he).1
  | _ =>
    rw [hp] at hcommit
    cases hcommit

theorem uncancelled_fail {raised : Raised} (hlost : task.lost ≠ some .cancelled)
    (hpoint : ∀ failure now, task.point ≠ .completingFailure .cancelled failure now)
    (hraised : raised ≠ .cancelled) : (task.fail raised now).Uncancelled := by
  unfold ProcessTask.fail
  split
  · rename_i hp
    exact absurd hp (hpoint _ _)
  · exact ⟨.inl trivial, hraised⟩
  · exact uncancelled_handle hlost hraised

theorem uncancelled_proceed {written : ProcessTask} (hlost : task.lost ≠ some .cancelled)
    (hcommit : task.commit uuid5 svc claimed = some (.ok written))
    (hpoint : ∀ failure now, task.point ≠ .completingFailure .cancelled failure now) :
    (written.proceed uuid5 claimed).Uncancelled := by
  obtain ⟨_, _, _, rfl⟩ := commit_spec hcommit
  unfold ProcessTask.commit at hcommit
  unfold ProcessTask.proceed
  dsimp only
  cases hp : task.point with
  | replacingChunks chunks now => exact uncancelled_withLease _ hlost
  | completingSuccess now => exact ⟨.inl trivial, trivial⟩
  | completingFailure raised failure now =>
    cases raised with
    | cancelled => exact absurd hp (hpoint _ _)
    | expected error => exact ⟨.inl trivial, trivial⟩
    | leaseLost => exact ⟨.inl trivial, nofun⟩
    | unexpected => exact ⟨.inl trivial, nofun⟩
  | _ =>
    rw [hp] at hcommit
    cases hcommit

/-- A step beside the course of a call that was not cancelled. -/
theorem ProcessTask.Uncancelled.beside (h : task.Uncancelled) (hpoint : next.point = task.point)
    (hthrowing : next.throwing = task.throwing)
    (hlost : task.lost ≠ some .cancelled → next.lost ≠ some .cancelled)
    (hwork : task.point = .waiting → task.work.Uncancelled → next.work.Uncancelled)
    (hdone : ∀ operation outcome, task.work = .done operation outcome → next.work = task.work) :
    next.Uncancelled := by
  unfold ProcessTask.Uncancelled at h ⊢
  rw [hpoint, hthrowing]
  refine ⟨h.1.imp_right hlost, ?_⟩
  have hold := h.2
  cases hp : task.point with
  | waiting =>
    rw [hp] at hold
    exact ⟨hold.1, hwork hp hold.2⟩
  | joiningLeaseLost =>
    rw [hp] at hold
    obtain ⟨operation, outcome, hw, houtcome⟩ := hold
    exact ⟨operation, outcome, (hdone operation outcome hw).trans hw, houtcome⟩
  | stopping caller =>
    rw [hp] at hold
    cases caller <;> exact hold
  | _ =>
    rw [hp] at hold
    exact hold

/-- A cancellation that an awaited task takes is dropped. -/
theorem ProcessTask.Uncancelled.absorb (h : task.Uncancelled) (habsorbs : task.Absorbs)
    (hcancel : task.cancel = some next) : next.Uncancelled := by
  obtain ⟨work, throwing, leaseLost, heartbeat, rfl, hwork, _, _, hthrowing⟩ := cancel_spec hcancel
  have hold := h
  unfold ProcessTask.Uncancelled at hold ⊢
  unfold ProcessTask.Absorbs at habsorbs
  refine ⟨hold.1, ?_⟩
  cases hp : task.point with
  | joiningWork => trivial
  | joiningLeaseLost =>
    rw [hp] at hold
    obtain ⟨operation, outcome, hw, houtcome⟩ := hold.2
    refine ⟨operation, outcome, ?_, houtcome⟩
    rcases hwork with rfl | rfl
    · exact hw
    · exact WorkTask.cancel_eq_done.mpr hw
  | stopping caller =>
    obtain ⟨_, rfl⟩ | ⟨_, hpoint | hpoint | hnot⟩ := hthrowing
    · rw [hp] at hold
      cases caller <;> exact hold.2
    · rw [hp] at hpoint
      cases hpoint
    · rw [hp] at hpoint
      cases hpoint
    · unfold ProcessTask.Absorbs at hnot
      exact absurd habsorbs hnot
  | _ =>
    rw [hp] at habsorbs
    exact habsorbs.elim

/-- Without a cancellation nothing is on its way. -/
theorem ProcessTask.Uncancelled.step {a : ProcessAction} (h : task.Uncancelled) (ha : a ≠ .cancel)
    (hstep : (processing sha256 uuid5 svc claimed).step task a = some next) : next.Uncancelled := by
  have hpoint := h.2
  cases processStep_move hstep with
  | waitInterrupted hp hthrowing =>
    rw [hp, hthrowing] at hpoint
    cases hpoint.1
  | lostDone hp _ hlost _ =>
    have hne := h.lost_ne (by rw [hp]; exact not_false)
    exact uncancelled_gather hne (joined_ne_cancelled fun he => hne (he ▸ hlost))
  | lostJoin hp _ _ _ => exact ⟨.inr (h.lost_ne (by rw [hp]; exact not_false)), trivial⟩
  | leaseJoin hp _ _ hwork =>
    rw [hp, hwork] at hpoint
    exact ⟨.inr (h.lost_ne (by rw [hp]; exact not_false)), _, _, hwork, hpoint.2⟩
  | workJoined hp hlost _ hresult =>
    have hne := h.lost_ne (by rw [hp]; exact not_false)
    refine uncancelled_gather hne ?_
    rcases hresult with rfl | rfl
    · exact fun he => hne (Except.error.inj he ▸ hlost)
    · exact joined_ne_cancelled fun he => hne (he ▸ hlost)
  | leaseJoined hp hwork =>
    have hne := h.lost_ne (by rw [hp]; exact not_false)
    rw [hp] at hpoint
    obtain ⟨_, _, hdone, houtcome⟩ := hpoint
    rw [hwork] at hdone
    obtain ⟨_, rfl⟩ := WorkTask.done.inj hdone
    exact uncancelled_gather hne (owned_ne_cancelled houtcome hne)
  | gathered hp _ _ => exact uncancelled_begin _ (h.lost_ne (by rw [hp]; exact not_false))
  | gatherInterrupted hp hthrowing =>
    rw [hp, hthrowing] at hpoint
    cases hpoint.1
  | gatherRaised hp _ =>
    rw [hp] at hpoint
    exact uncancelled_handle (h.lost_ne (by rw [hp]; exact not_false)) fun he => hpoint.2 (he ▸ rfl)
  | stopped hp _ _ => exact uncancelled_completeOwned (h.lost_ne (by rw [hp]; exact not_false))
  | stopInterrupted hp _ hthrowing =>
    rw [hp, hthrowing] at hpoint
    cases hpoint
  | handlerStopped hp _ _ =>
    rw [hp] at hpoint
    exact uncancelled_settle (h.lost_ne (by rw [hp]; exact not_false)) hpoint.2
  | handlerInterrupted hp _ hthrowing =>
    rw [hp, hthrowing] at hpoint
    cases hpoint.1
  | cancelled _ => exact absurd rfl ha
  | committed _ hcommit =>
    obtain ⟨_, hlost, hne⟩ := h.commits (Option.isSome_of_eq_some hcommit)
    exact uncancelled_proceed hlost hcommit hne
  | refused _ hcommit =>
    obtain ⟨_, hlost, _⟩ := h.commits (Option.isSome_of_eq_some hcommit)
    exact uncancelled_handle hlost (commit_refused hcommit)
  | interrupted hthrowing hwritten =>
    rw [(h.commits hwritten.isSome).1] at hthrowing
    cases hthrowing
  | failed _ hraised hwritten =>
    obtain ⟨_, hlost, hne⟩ := h.commits hwritten.isSome
    obtain ⟨hsame, _, hlostSame⟩ := hwritten.same
    refine uncancelled_fail (hlostSame ▸ hlost) (by rw [hsame]; exact hne) ?_
    rcases hraised with rfl | rfl <;> exact nofun
  | answered hwork houtcome =>
    refine h.beside rfl rfl id (fun _ _ he => ?_) fun _ _ hdone => ?_
    · exact (Operation.outcome_raises houtcome _ he).ne_cancelled rfl
    · rw [hwork] at hdone
      cases hdone
  | workCancelled hwork =>
    refine h.beside rfl rfl id (fun _ huncancelled => ?_) fun _ _ hdone => ?_
    · rw [hwork] at huncancelled
      cases huncancelled
    · rw [hwork] at hdone
      cases hdone
  | renewalRefused _ _ => exact h.beside rfl rfl (fun _ => nofun) (fun _ => id) fun _ _ _ => rfl
  | renewalFailed hraised =>
    refine h.beside rfl rfl (fun _ => ?_) (fun _ => id) fun _ _ _ => rfl
    rcases hraised with rfl | rfl <;> exact nofun
  | leaseLostEnded _ | timedOut _ | renewed _ _ | heartbeatEnded | changed =>
    exact h.beside rfl rfl id (fun _ => id) fun _ _ _ => rfl

/-- An exception other than `SQLAlchemyError` takes the place of the cancellation. -/
theorem ProcessTask.Doomed.escape {a : ProcessAction} (h : task.Doomed) (ha : a.Escapes)
    (hstep : (processing sha256 uuid5 svc claimed).step task a = some next) : next.Uncancelled := by
  cases a with
  | failTransaction raised committed now =>
    cases processStep_move hstep with
    | failed hthrowing hraised hwritten =>
      obtain ⟨failure, now, hp⟩ := h.commits hthrowing hwritten.isSome
      unfold ProcessTask.fail
      rw [hwritten.same.1, hp]
      refine ⟨.inl trivial, ?_⟩
      dsimp only
      rw [if_neg ha]
      rcases hraised with rfl | rfl <;> exact nofun
  | _ => exact ha.elim

end Uncancelled

section Runs
variable {sha256 : Sha256} {uuid5 : UUID → Str → UUID} {svc : IngestionProcessingService}
  {claimed : ClaimedDocument} {s s' t : ProcessTask} {as pre post : List ProcessAction}

/-- A cancelled call in a run. -/
theorem ProcessTask.Doomed.run (h : s.Doomed) (has : ∀ a ∈ as, ¬a.Escapes)
    (hrun : (processing sha256 uuid5 svc claimed).run s as = some t) : DoomedFrom s t :=
  Machine.run_invariant_of_allowed (I := DoomedFrom s)
    (fun _ _ _ hI ha hstep => (hI.1.step ha hstep).imp_right fun he => he.trans hI.2) ⟨h, rfl⟩
    (Machine.allowed_of_forall fun a ha _ => has a ha) hrun

theorem ProcessTask.Uncancelled.run (h : s.Uncancelled) (has : ∀ a ∈ as, a ≠ .cancel)
    (hrun : (processing sha256 uuid5 svc claimed).run s as = some t) : t.Uncancelled :=
  Machine.run_invariant_of_allowed (I := ProcessTask.Uncancelled) (fun _ _ _ hI ha hstep => hI.step ha hstep)
    h (Machine.allowed_of_forall fun a ha _ => has a ha) hrun

theorem ProcessTask.Uncancelled.not_cancelled (h : t.Uncancelled) : t.point ≠ .raised .cancelled := by
  intro hp
  have hpoint := h.2
  rw [hp] at hpoint
  exact hpoint rfl

/-- The cancellation of a run is lost where an exception escapes. -/
theorem ProcessTask.Doomed.run_escape (h : s.Doomed) (has : ∀ a ∈ as, a ≠ .cancel)
    (hescapes : ∃ a ∈ as, a.Escapes)
    (hrun : (processing sha256 uuid5 svc claimed).run s as = some t) : t.Uncancelled := by
  induction as generalizing s with
  | nil =>
    obtain ⟨_, hmem, _⟩ := hescapes
    cases hmem
  | cons a as ih =>
    obtain ⟨r, hr, hrest⟩ := Machine.run_cons_eq_some.mp hrun
    obtain ⟨_, htail⟩ := List.forall_mem_cons.mp has
    by_cases ha : a.Escapes
    · exact (h.escape ha hr).run htail hrest
    · refine ih (h.step ha hr).1 htail ?_ hrest
      obtain ⟨b, hb, hescapes⟩ := hescapes
      rcases List.mem_cons.mp hb with rfl | hb
      · exact absurd hescapes ha
      · exact ⟨b, hb, hescapes⟩

/-- What is asked of a call that was cancelled in `s`. -/
def CancellationRaised (s t : ProcessTask) : Prop :=
  t.point = .raised .cancelled ∧ t.started = s.started

theorem ProcessTask.Doomed.cancellationRaised (h : DoomedFrom s t) (hended : t.point.Ended) :
    CancellationRaised s t := by
  obtain ⟨hdoomed, hstarted⟩ := h
  refine ⟨?_, hstarted⟩
  unfold ProcessTask.Doomed at hdoomed
  cases hp : t.point with
  | raised raised =>
    rw [hp] at hdoomed
    rw [hdoomed]
  | returned =>
    rw [hp] at hdoomed
    exact hdoomed.elim
  | _ =>
    rw [hp] at hended
    exact hended.elim

/-- A call that is cancelled can always end. It ends with `CancelledError` and begins no further
stage, however often it is cancelled, if no awaited task takes the cancellation in its place and
no exception escapes from the failure transition, and for its only cancellation exactly then. -/
theorem cancellation_propagates {db : Database}
    (hpre : (processing sha256 uuid5 svc claimed).run (.init db) pre = some s)
    (hcancel : (processing sha256 uuid5 svc claimed).step s .cancel = some s')
    (hpost : (processing sha256 uuid5 svc claimed).run s' post = some t) :
    (∃ rest u, (∀ a ∈ rest, a ≠ .cancel) ∧
      (processing sha256 uuid5 svc claimed).run t rest = some u ∧ u.point.Ended) ∧
    (t.point.Ended →
      (¬s.Absorbs ∧ (∀ a ∈ post, ¬a.Escapes) → CancellationRaised s t) ∧
      ((∀ a ∈ pre ++ post, a ≠ .cancel) →
        (CancellationRaised s t ↔ ¬s.Absorbs ∧ ∀ a ∈ post, ¬a.Escapes))) := by
  have hjoins : t.Joins := by
    have hinit : (ProcessTask.init db).Joins := trivial
    have hs : s.Joins := Machine.run_invariant (I := ProcessTask.Joins)
      (fun _ _ _ hI hstep => processStep_joins hI hstep) hinit hpre
    exact Machine.run_invariant (I := ProcessTask.Joins) (fun _ _ _ hI hstep => processStep_joins hI hstep)
      (processStep_joins hs hcancel) hpost
  have hraises : t.point.Ended → ¬s.Absorbs ∧ (∀ a ∈ post, ¬a.Escapes) → CancellationRaised s t := by
    rintro hended ⟨habsorbs, hescapes⟩
    obtain ⟨hdoomed, hstarted⟩ := doomed_cancel hcancel habsorbs
    obtain ⟨hdoomed', hstarted'⟩ := hdoomed.run hescapes hpost
    exact ProcessTask.Doomed.cancellationRaised ⟨hdoomed', hstarted'.trans hstarted⟩ hended
  refine ⟨hjoins.canEnd, fun hended => ⟨hraises hended, fun hcancels => ⟨fun hraised => ?_, hraises hended⟩⟩⟩
  have hlater : ∀ a ∈ post, a ≠ .cancel := fun a ha => hcancels a (List.mem_append_right _ ha)
  have huncancelled : s.Uncancelled := (uncancelled_init db).run
    (fun a ha => hcancels a (List.mem_append_left _ ha)) hpre
  by_cases habsorbs : s.Absorbs
  · exact absurd hraised.1 ((huncancelled.absorb habsorbs hcancel).run hlater hpost).not_cancelled
  · refine ⟨habsorbs, fun a ha hescapes => ?_⟩
    have hdoomed := (doomed_cancel hcancel habsorbs).1
    exact absurd hraised.1 (hdoomed.run_escape hlater ⟨a, ha, hescapes⟩ hpost).not_cancelled

end Runs

section Example

/-- The upload in its first attempt. -/
def claimedDatabase : Database := { exampleDatabase with
  documents := ⟨[{ exampleUpload with status := .processing }], List.nodup_singleton _⟩
  ingestionJobs := ⟨[(IngestionJob.new 5 2 0).claim exampleService.workerId.value 10 70],
    List.nodup_singleton _⟩ }

def attemptedDocument : ClaimedDocument := claimedDocument (.new 5 2 0) exampleUpload

/-- The source is read, and `_with_lease` has cancelled `lost.wait()`. -/
def beforeCancellation : List ProcessAction := [.answer (.content (.ok [0x61])), .resume 11]

/-- The rest of a run in which every stage ends well. -/
def afterCancellation : List ProcessAction := completedActions.drop 2

/-- The call is cancelled while it waits for its first operation. -/
def interruptedActions : List ProcessAction :=
  [.resume 11, .endCancelled, .endLeaseLost, .resume 12, .endHeartbeat, .resume 13, .transact 14]

/-- Neither a cancellation nor a failed transaction. -/
def ProcessAction.plain : ProcessAction → Bool
  | .cancel | .failTransaction _ _ _ => false
  | _ => true

theorem plain_spec {as : List ProcessAction} (h : as.all ProcessAction.plain = true) :
    ∀ a ∈ as, a ≠ .cancel ∧ ¬a.Escapes := by
  intro a ha
  have hplain := List.all_eq_true.mp h a ha
  cases a with
  | cancel => cases hplain
  | failTransaction raised committed now => cases hplain
  | _ => exact ⟨nofun, not_false⟩

theorem cancellation_propagates_example : ∃ s' t,
    (processing exampleSha256 exampleUuid5 exampleService attemptedDocument).step (.init claimedDatabase)
      .cancel = some s' ∧
    (processing exampleSha256 exampleUuid5 exampleService attemptedDocument).run s' interruptedActions =
      some t ∧ CancellationRaised (.init claimedDatabase) t := by
  have hany : ((processing exampleSha256 exampleUuid5 exampleService attemptedDocument).step
      (.init claimedDatabase) .cancel).any fun s' =>
        ((processing exampleSha256 exampleUuid5 exampleService attemptedDocument).run s'
          interruptedActions).any fun t => decide t.point.Ended := by decide +kernel
  obtain ⟨s', hcancel, hlater⟩ := Option.any_eq_true _ _ |>.mp hany
  obtain ⟨t, hrun, hended⟩ := Option.any_eq_true _ _ |>.mp hlater
  have hpre : (processing exampleSha256 exampleUuid5 exampleService attemptedDocument).run
      (.init claimedDatabase) [] = some (.init claimedDatabase) := rfl
  have hraised := (cancellation_propagates hpre hcancel hrun).2 (of_decide_eq_true hended)
  exact ⟨s', t, hcancel, hrun, hraised.1 ⟨not_false, fun a ha => (plain_spec rfl a ha).2⟩⟩

/-- The cancellation arrives at the join of `lost.wait()`, and every stage is run all the same. -/
theorem cancellation_swallowed : ¬∀ (sha256 : Sha256) (uuid5 : UUID → Str → UUID)
    (svc : IngestionProcessingService) (claimed : ClaimedDocument) (db : Database) (s s' t : ProcessTask)
    (pre post : List ProcessAction), (processing sha256 uuid5 svc claimed).run (.init db) pre = some s →
    (processing sha256 uuid5 svc claimed).step s .cancel = some s' →
    (processing sha256 uuid5 svc claimed).run s' post = some t → t.point.Ended →
    (∀ a ∈ pre ++ post, a ≠ .cancel) → CancellationRaised s t := by
  intro h
  have hany : ((processing exampleSha256 exampleUuid5 exampleService attemptedDocument).run
      (.init claimedDatabase) beforeCancellation).any fun s =>
        ((processing exampleSha256 exampleUuid5 exampleService attemptedDocument).step s .cancel).any
          fun s' => ((processing exampleSha256 exampleUuid5 exampleService attemptedDocument).run s'
            afterCancellation).any fun t => t.succeeded && decide t.point.Ended &&
              decide (s.started.length < t.started.length) := by decide +kernel
  obtain ⟨s, hpre, hlater⟩ := Option.any_eq_true _ _ |>.mp hany
  obtain ⟨s', hcancel, hlater⟩ := Option.any_eq_true _ _ |>.mp hlater
  obtain ⟨t, hpost, hfinal⟩ := Option.any_eq_true _ _ |>.mp hlater
  obtain ⟨hfinal, hstarted⟩ := Bool.and_eq_true_iff.mp hfinal
  obtain ⟨_, hended⟩ := Bool.and_eq_true_iff.mp hfinal
  have hraised := h _ _ _ _ _ s s' t _ _ hpre hcancel hpost (of_decide_eq_true hended)
    fun a ha => (plain_spec rfl a ha).1
  have hlt := of_decide_eq_true hstarted
  rw [hraised.2] at hlt
  exact lt_irrefl _ hlt

end Example

end AgenticRag.Services

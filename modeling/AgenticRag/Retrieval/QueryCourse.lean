import AgenticRag.Retrieval.ProbeTasks

/-! What one step of an adapter does to one of its calls, and how a query ends that nobody
cancels. -/
namespace AgenticRag.Retrieval
open Lib Python Ingestion

section Calls

/-- A call is left alone, and is not seen to end. -/
structure Untouched (id : Nat) (s t : AdapterState) : Prop where
  calls : t.calls id = s.calls id
  ended : ∀ outcome, .queryEnded id outcome ∈ t.log → .queryEnded id outcome ∈ s.log

/-- The call that an action begins or goes on with. -/
def AdapterAction.call (s : AdapterState) : AdapterAction → Option Nat
  | .query _ _ _ => some s.issued
  | .cancelQuery id => some id
  | .resumeQuery id => some id
  | .finishQuery id _ => some id
  | _ => none

namespace Untouched
variable {r s t : AdapterState} {id other task : Nat} {payload : QueryPayload}

theorem refl (s : AdapterState) : Untouched id s s := ⟨rfl, fun _ h => h⟩

theorem trans (h : Untouched id r s) (h' : Untouched id s t) : Untouched id r t :=
  ⟨h'.calls.trans h.calls, fun outcome hmem => h.ended outcome (h'.ended outcome hmem)⟩

theorem setCall (hid : id ≠ other) (call : Option QueryCall) : Untouched id s (s.setCall other call) :=
  ⟨Function.update_of_ne hid _ _, fun _ h => h⟩

theorem see {event : AdapterEvent} (h : ∀ outcome, event ≠ .queryEnded id outcome) :
    Untouched id s (s.see event) :=
  ⟨rfl, fun outcome hmem => (List.mem_cons.mp hmem).resolve_left (h outcome).symm⟩

theorem endCall (hid : id ≠ other) (outcome : QueryOutcome) :
    Untouched id s (s.endCall other outcome) := by
  refine (setCall hid none).trans (see ?_)
  rintro _ ⟨⟩
  exact hid rfl

theorem dropProbe : Untouched id s (s.dropProbe task) := by
  unfold AdapterState.dropProbe
  split
  · exact ⟨rfl, fun _ h => h⟩
  · exact refl s

theorem acceptProbe : Untouched id s (s.acceptProbe task) := by
  unfold AdapterState.acceptProbe
  split
  · exact ⟨rfl, fun _ h => h⟩
  · exact refl s

theorem sendQuery (hid : id ≠ other) : Untouched id s (s.sendQuery other payload) := by
  unfold AdapterState.sendQuery
  split
  · exact endCall hid _
  · exact (setCall hid _).trans (see (by rintro _ ⟨⟩))

theorem afterProbe (hid : id ≠ other) (result : TaskResult) :
    Untouched id s (s.afterProbe other payload task result) := by
  cases result with
  | returned => exact acceptProbe.trans (sendQuery hid)
  | raised error =>
    simp only [AdapterState.afterProbe]
    split
    · exact dropProbe.trans (endCall hid _)
    · exact endCall hid _
  | cancelled => exact dropProbe.trans (endCall hid _)

theorem cancelWaiter (hid : id ≠ other) : Untouched id s (s.cancelWaiter other task) := by
  unfold AdapterState.cancelWaiter
  split
  · exact dropProbe.trans (endCall hid _)
  · exact endCall hid _

theorem ensureCompatible (hid : id ≠ other) : Untouched id s (s.ensureCompatible other payload) := by
  unfold AdapterState.ensureCompatible
  split
  · exact endCall hid _
  split
  · exact sendQuery hid
  split
  · have hcreated : Untouched id s s.createProbe := ⟨rfl, fun _ h => h⟩
    exact hcreated.trans (setCall hid _)
  · split
    · exact afterProbe hid _
    · exact setCall hid _

theorem finishTask (result : TaskResult) : Untouched id s (s.finishTask task result) := by
  have hset : Untouched id s (s.setTask task (.done result)) := ⟨rfl, fun _ h => h⟩
  exact hset.trans (see (by rintro _ ⟨⟩))

theorem beginClose (ownsClient : Bool) : Untouched id s (beginClose ownsClient s) := by
  have hclosed {t : AdapterState} (hcalls : t.calls = s.calls) (hlog : t.log = .closeBegun :: s.log) :
      Untouched id s t := by
    refine ⟨congrFun hcalls id, fun outcome hmem => ?_⟩
    rw [hlog] at hmem
    exact (List.mem_cons.mp hmem).resolve_left (by rintro ⟨⟩)
  unfold Retrieval.beginClose
  simp only
  split
  · exact hclosed rfl rfl
  · split
    · exact hclosed rfl rfl
    · exact hclosed rfl rfl

theorem endClose (ownsClient : Bool) (result : TaskResult) :
    Untouched id s (endClose ownsClient s result) := by
  cases result with
  | raised error =>
    simp only [Retrieval.endClose]
    split
    · exact ⟨rfl, fun _ h => h⟩
    · exact ⟨rfl, fun _ h => h⟩
  | returned => exact ⟨rfl, fun _ h => h⟩
  | cancelled => exact ⟨rfl, fun _ h => h⟩

end Untouched

variable {σ : Type} {z : Zlib σ} {ownsClient : Bool} {s t : AdapterState} {action : AdapterAction}

/-- A step about another call, or about none, leaves a call alone. -/
theorem untouched_of_step {id : Nat} (hstep : (chromaAdapter z ownsClient).step s action = some t)
    (hcall : action.call s ≠ some id) : Untouched id s t := by
  have hne : ∀ {other : Nat}, action.call s = some other → id ≠ other := by
    rintro other hother rfl
    exact hcall hother
  cases move_of_step hstep with
  | query embedding knowledgeBaseId candidateCount =>
    have hissued : Untouched id s { s with issued := s.issued + 1 } := ⟨rfl, fun _ h => h⟩
    unfold beginQuery
    simp only
    split
    · exact hissued.trans (.endCall (hne rfl) _)
    · exact hissued.trans (.ensureCompatible (hne rfl))
  | cancelQuery => exact .setCall (hne rfl) _
  | resumeCancelled => exact .cancelWaiter (hne rfl)
  | resumeProbed => exact .afterProbe (hne rfl) _
  | finishQuery => exact .endCall (hne rfl) _
  | startCancelled => exact .finishTask _
  | startClosed => exact .finishTask _
  | @startProbe task =>
    have hset : Untouched id s (s.setTask task (.requesting false)) := ⟨rfl, fun _ h => h⟩
    exact hset.trans (.see (by rintro _ ⟨⟩))
  | finishProbe => exact .finishTask _
  | closeAgain => exact .refl s
  | close => exact .beginClose ownsClient
  | resumeClose result => exact .endClose ownsClient result

/-- No call has the number of a later one. -/
def AdapterState.CallsNumbered (s : AdapterState) : Prop :=
  ∀ id, s.issued ≤ id → s.calls id = none ∧ ∀ outcome, .queryEnded id outcome ∉ s.log

theorem callsNumbered_init : AdapterState.init.CallsNumbered :=
  fun _ _ => ⟨rfl, fun _ => List.not_mem_nil⟩

theorem issued_lt_beginQuery (s : AdapterState) (embedding : EmbeddingVector) (knowledgeBaseId : UUID)
    (candidateCount : Int) :
    s.issued < (beginQuery s embedding knowledgeBaseId candidateCount).issued := by
  unfold beginQuery
  simp only
  split
  · exact Nat.lt_succ_self _
  · rename_i count _
    rcases kept_ensureCompatible { s with issued := s.issued + 1 } s.issued
        (queryPayload embedding knowledgeBaseId count) with h | ⟨_, _, h⟩
    · exact h.issued
    · exact h.issued

theorem closed_beginQuery (s : AdapterState) (embedding : EmbeddingVector) (knowledgeBaseId : UUID)
    (candidateCount : Int) :
    (beginQuery s embedding knowledgeBaseId candidateCount).closed = s.closed := by
  unfold beginQuery
  simp only
  split
  · rfl
  · rename_i count _
    rcases kept_ensureCompatible { s with issued := s.issued + 1 } s.issued
        (queryPayload embedding knowledgeBaseId count) with h | ⟨_, _, h⟩
    · exact h.closed
    · exact h.closed

theorem callsNumbered_of_step (hs : s.CallsNumbered)
    (hstep : (chromaAdapter z ownsClient).step s action = some t) : t.CallsNumbered := by
  intro id hid
  obtain ⟨hnone, hended⟩ := hs id ((issued_of_move (taskMove_of_step hstep)).trans hid)
  have hcall : action.call s ≠ some id := by
    intro h
    cases move_of_step hstep with
    | query embedding knowledgeBaseId candidateCount =>
      obtain rfl := Option.some.inj h
      exact (issued_lt_beginQuery s embedding knowledgeBaseId candidateCount).not_ge hid
    | cancelQuery hcall => cases hcall.symm.trans ((congrArg s.calls (Option.some.inj h)).trans hnone)
    | resumeCancelled hcall => cases hcall.symm.trans ((congrArg s.calls (Option.some.inj h)).trans hnone)
    | resumeProbed hcall => cases hcall.symm.trans ((congrArg s.calls (Option.some.inj h)).trans hnone)
    | finishQuery hcall => cases hcall.symm.trans ((congrArg s.calls (Option.some.inj h)).trans hnone)
    | _ => cases h
  have huntouched := untouched_of_step hstep hcall
  exact ⟨huntouched.calls.trans hnone, fun outcome hmem => hended outcome (huntouched.ended outcome hmem)⟩

/-- How a query ends that passes the probe's failure on. -/
def TaskResult.failure : TaskResult → Option QueryOutcome
  | .returned => none
  | .raised error => some (.raised error)
  | .cancelled => some .cancelled

/-- Why a query ends that was suspended at `stage`. -/
inductive EndReason (z : Zlib σ) (C : Exchange → Prop) (id : Nat) (payload : QueryPayload)
    (stage : QueryStage) (s : AdapterState) : QueryOutcome → Prop
  | answered (exchange : Exchange) (hexchange : C exchange) (hsent : .queryRequested id payload ∈ s.log) :
      EndReason z C id payload stage s (queryOutcome z payload (some exchange))
  | probed (task : Nat) (result : TaskResult) (outcome : QueryOutcome) (hstage : stage = .waiting task)
      (hdone : s.tasks task = some (.done result)) (hfailure : result.failure = some outcome) :
      EndReason z C id payload stage s outcome
  | closed (hclosed : s.closed = true) : EndReason z C id payload stage s (.raised .denseProvider)

/-- How far a query has come that was suspended at `stage` and that nobody cancels. -/
inductive Course (z : Zlib σ) (C : Exchange → Prop) (id : Nat) (payload : QueryPayload)
    (stage : QueryStage) (s : AdapterState) : Prop
  | suspended (task : Nat) (hstage : stage = .waiting task)
      (hcall : s.calls id = some ⟨payload, .waiting task, false⟩)
      (hended : ∀ outcome, .queryEnded id outcome ∉ s.log)
  | sent (hcall : s.calls id = some ⟨payload, .requesting, false⟩)
      (hsent : .queryRequested id payload ∈ s.log) (hended : ∀ outcome, .queryEnded id outcome ∉ s.log)
  | ended (hcall : s.calls id = none) (hseen : ∃ outcome, .queryEnded id outcome ∈ s.log)
      (hreason : ∀ outcome, .queryEnded id outcome ∈ s.log → EndReason z C id payload stage s outcome)

variable {C : Exchange → Prop} {id : Nat} {payload : QueryPayload} {stage : QueryStage}

theorem EndReason.move {outcome : QueryOutcome} (h : EndReason z C id payload stage s outcome)
    (hs : s.Numbered) (hmove : TaskMove z action s t) : EndReason z C id payload stage t outcome := by
  cases h with
  | answered exchange hexchange hsent =>
    exact .answered exchange hexchange ((log_suffix_of_move hmove).subset hsent)
  | probed task result outcome hstage hdone hfailure =>
    exact .probed task result outcome hstage (done_of_move hs hmove hdone) hfailure
  | closed hclosed => exact .closed (closed_of_move hmove hclosed)

/-- The end of a call is seen once. -/
theorem course_endCall {outcome : QueryOutcome} (hended : ∀ outcome, .queryEnded id outcome ∉ s.log)
    (hreason : EndReason z C id payload stage (s.endCall id outcome) outcome) :
    Course z C id payload stage (s.endCall id outcome) := by
  refine .ended (Function.update_self _ _ _) ⟨outcome, List.mem_cons_self⟩ fun outcome' hmem => ?_
  rcases List.mem_cons.mp hmem with heq | hmem
  · obtain ⟨_, rfl⟩ := AdapterEvent.queryEnded.inj heq
    exact hreason
  · exact absurd hmem (hended outcome')

theorem log_dropProbe (s : AdapterState) (task : Nat) : (s.dropProbe task).log = s.log := by
  unfold AdapterState.dropProbe
  split <;> rfl

theorem log_acceptProbe (s : AdapterState) (task : Nat) : (s.acceptProbe task).log = s.log := by
  unfold AdapterState.acceptProbe
  split <;> rfl

theorem course_sendQuery (hended : ∀ outcome, .queryEnded id outcome ∉ s.log) :
    Course z C id payload stage (s.sendQuery id payload) := by
  unfold AdapterState.sendQuery
  split
  · rename_i hclosed
    exact course_endCall hended (.closed hclosed)
  · refine .sent (Function.update_self _ _ _) List.mem_cons_self fun outcome hmem => ?_
    exact hended outcome ((List.mem_cons.mp hmem).resolve_left (by rintro ⟨⟩))

theorem course_afterProbe {task : Nat} {result : TaskResult} (hstage : stage = .waiting task)
    (hdone : s.tasks task = some (.done result)) (hended : ∀ outcome, .queryEnded id outcome ∉ s.log) :
    Course z C id payload stage (s.afterProbe id payload task result) := by
  have hdropped : ∀ outcome, .queryEnded id outcome ∉ (s.dropProbe task).log := by
    rw [log_dropProbe]
    exact hended
  have hdone' : (s.dropProbe task).tasks task = some (.done result) := by
    rw [Kept.dropProbe.tasks]
    exact hdone
  cases result with
  | returned =>
    refine course_sendQuery ?_
    rw [log_acceptProbe]
    exact hended
  | raised error =>
    simp only [AdapterState.afterProbe]
    split
    · exact course_endCall hdropped (.probed task _ _ hstage hdone' rfl)
    · exact course_endCall hended (.probed task _ _ hstage hdone rfl)
  | cancelled => exact course_endCall hdropped (.probed task _ _ hstage hdone' rfl)

/-- One step of a query that is not itself cancelled. -/
theorem course_of_step (hs : s.Numbered) (hid : id < s.issued)
    (hstep : (chromaAdapter z ownsClient).step s action = some t) (hcancel : action ≠ .cancelQuery id)
    (hexchange : ∀ exchange, action = .finishQuery id (some exchange) → C exchange)
    (h : Course z C id payload stage s) : Course z C id payload stage t := by
  have hmove := taskMove_of_step hstep
  by_cases hcall : action.call s = some id
  · cases move_of_step hstep with
    | query => exact absurd (Option.some.inj hcall) hid.ne'
    | cancelQuery => exact absurd (congrArg _ (Option.some.inj hcall)) hcancel
    | resumeCancelled hcalls hwaiting hasked =>
      obtain rfl := Option.some.inj hcall
      cases h with
      | suspended task hstage hsuspended =>
        obtain rfl := Option.some.inj (hcalls.symm.trans hsuspended)
        cases hasked
      | sent hrequesting =>
        obtain rfl := Option.some.inj (hcalls.symm.trans hrequesting)
        cases hwaiting
      | ended hnone => cases hcalls.symm.trans hnone
    | resumeProbed hcalls hwaiting hasked hdone =>
      obtain rfl := Option.some.inj hcall
      cases h with
      | suspended task hstage hsuspended hended =>
        obtain rfl := Option.some.inj (hcalls.symm.trans hsuspended)
        obtain rfl := QueryStage.waiting.inj hwaiting
        exact course_afterProbe hstage hdone hended
      | sent hrequesting =>
        obtain rfl := Option.some.inj (hcalls.symm.trans hrequesting)
        cases hwaiting
      | ended hnone => cases hcalls.symm.trans hnone
    | @finishQuery _ exchange _ hcalls hrequested hallowed =>
      obtain rfl := Option.some.inj hcall
      cases h with
      | suspended task hstage hsuspended =>
        obtain rfl := Option.some.inj (hcalls.symm.trans hsuspended)
        cases hrequested
      | sent hrequesting hsent hended =>
        obtain rfl := Option.some.inj (hcalls.symm.trans hrequesting)
        cases exchange with
        | none => cases hallowed rfl
        | some exchange =>
          exact course_endCall hended
            (.answered exchange (hexchange exchange rfl) (List.mem_cons_of_mem _ hsent))
      | ended hnone => cases hcalls.symm.trans hnone
    | _ => cases hcall
  · have huntouched := untouched_of_step hstep hcall
    have hunended (hended : ∀ outcome, .queryEnded id outcome ∉ s.log) (outcome : QueryOutcome) :
        .queryEnded id outcome ∉ t.log := fun hmem => hended outcome (huntouched.ended outcome hmem)
    cases h with
    | suspended task hstage hsuspended hended =>
      exact .suspended task hstage (huntouched.calls.trans hsuspended) (hunended hended)
    | sent hrequesting hsent hended =>
      exact .sent (huntouched.calls.trans hrequesting) ((log_suffix_of_move hmove).subset hsent)
        (hunended hended)
    | ended hnone hseen hreason =>
      refine .ended (huntouched.calls.trans hnone)
        (hseen.imp fun outcome hmem => (log_suffix_of_move hmove).subset hmem) fun outcome hmem => ?_
      exact (hreason outcome (huntouched.ended outcome hmem)).move hs hmove

theorem numbered_of_run {actions : List AdapterAction} (hs : s.Numbered)
    (hrun : (chromaAdapter z ownsClient).run s actions = some t) : t.Numbered :=
  Machine.run_invariant (fun _ _ _ hs hstep => hs.move (taskMove_of_step hstep)) hs hrun

theorem closed_of_run {actions : List AdapterAction} (hs : s.closed = true)
    (hrun : (chromaAdapter z ownsClient).run s actions = some t) : t.closed = true :=
  Machine.run_invariant (I := fun r => r.closed = true)
    (fun _ _ _ hs hstep => closed_of_move (taskMove_of_step hstep) hs) hs hrun

theorem callsNumbered_of_run {actions : List AdapterAction} (hs : s.CallsNumbered)
    (hrun : (chromaAdapter z ownsClient).run s actions = some t) : t.CallsNumbered :=
  Machine.run_invariant (fun _ _ _ => callsNumbered_of_step) hs hrun

theorem course_of_run {actions : List AdapterAction} (hs : s.Numbered) (hid : id < s.issued)
    (h : Course z C id payload stage s) (hcancel : .cancelQuery id ∉ actions)
    (hexchange : ∀ exchange, .finishQuery id (some exchange) ∈ actions → C exchange)
    (hrun : (chromaAdapter z ownsClient).run s actions = some t) : Course z C id payload stage t := by
  have hinvariant : t.Numbered ∧ id < t.issued ∧ Course z C id payload stage t := by
    refine Machine.run_invariant_of_allowed
      (I := fun r => r.Numbered ∧ id < r.issued ∧ Course z C id payload stage r)
      (C := fun _ action => action ≠ .cancelQuery id ∧
        ∀ exchange, action = .finishQuery id (some exchange) → C exchange) ?_ ⟨hs, hid, h⟩ ?_ hrun
    · rintro r action r' ⟨hr, hid, h⟩ ⟨hcancel, hexchange⟩ hstep
      have hmove := taskMove_of_step hstep
      exact ⟨hr.move hmove, hid.trans_le (issued_of_move hmove),
        course_of_step hr hid hstep hcancel hexchange h⟩
    · refine Machine.allowed_of_forall fun action haction _ => ⟨?_, ?_⟩
      · rintro rfl
        exact hcancel haction
      · rintro exchange rfl
        exact hexchange exchange haction
  exact hinvariant.2.2

theorem done_of_run {actions : List AdapterAction} {task : Nat} {result : TaskResult} (hs : s.Numbered)
    (hdone : s.tasks task = some (.done result))
    (hrun : (chromaAdapter z ownsClient).run s actions = some t) :
    t.tasks task = some (.done result) := by
  have hinvariant : t.Numbered ∧ t.tasks task = some (.done result) := by
    refine Machine.run_invariant (I := fun r => r.Numbered ∧ r.tasks task = some (.done result)) ?_
      ⟨hs, hdone⟩ hrun
    rintro r action r' ⟨hr, hdone⟩ hstep
    have hmove := taskMove_of_step hstep
    exact ⟨hr.move hmove, done_of_move hr hmove hdone⟩
  exact hinvariant.2

theorem watched_of_run {actions : List AdapterAction} {old : List AdapterEvent} {task : Nat}
    (hs : s.Numbered) (h : s.Watched old task)
    (hrun : (chromaAdapter z ownsClient).run s actions = some t) : t.Watched old task := by
  have hinvariant : t.Numbered ∧ t.Watched old task := by
    refine Machine.run_invariant (I := fun r => r.Numbered ∧ r.Watched old task) ?_ ⟨hs, h⟩ hrun
    rintro r action r' ⟨hr, h⟩ hstep
    have hmove := taskMove_of_step hstep
    exact ⟨hr.move hmove, watched_of_move hr hmove h⟩
  exact hinvariant.2

end Calls
end AgenticRag.Retrieval

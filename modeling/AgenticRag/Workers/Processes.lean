import AgenticRag.Lib.Simulation
import AgenticRag.Services.WorkerMachine
import AgenticRag.Workers.RunWorker

/-! A worker process: the loop of `run_worker` over the `process_next` of its service, among the calls
of other workers and everything else that writes the jobs. -/
namespace AgenticRag.Workers
open Lib Python Db Ingestion Services

variable {ε : Type}

structure WorkerProcess (ε : Type) where
  loop : RunWorker ε
  workers : WorkerState
  /-- The coroutine of the newest call of the loop has begun. -/
  begun : Bool

inductive ProcessAction (ε : Type) where
  | loop (action : WorkerAction ε)
  /-- The coroutine of the newest call begins. -/
  | processNext
  | workers (action : Services.WorkerAction)

namespace WorkerProcess

section Machine
variable (svc : IngestionProcessingService) (sha256 : Sha256) (uuid5 : UUID → Str → UUID)

def start (once stopSet : Bool) (workers : WorkerState) : WorkerProcess ε :=
  ⟨.start once stopSet, workers, false⟩

/-- A `process_next` in the name of this worker has begun and not ended. -/
def underWay (p : WorkerProcess ε) : Bool := (p.workers.calls svc.workerId.value).isSome

/-- A task ends with its coroutine, or cancelled before its coroutine begins. -/
def mayHappen (p : WorkerProcess ε) : WorkerAction ε → Bool
  | .operationEnds _ .cancelled => !p.underWay svc
  | .operationEnds _ (.returned _) | .operationEnds _ (.raised _) => p.begun && !p.underWay svc
  | .stopWaitEnds _ | .requestStop | .cancel | .resume => true

def startsCall : Services.WorkerAction → Bool
  | .start other => other.workerId.value == svc.workerId.value
  | _ => false

def step (p : WorkerProcess ε) : ProcessAction ε → Option (WorkerProcess ε)
  | .loop action =>
    if p.mayHappen svc action then
      (p.loop.step action).map fun loop =>
        { p with loop, begun := p.begun && loop.calls.length == p.loop.calls.length }
    else none
  | .processNext =>
    if !p.begun && p.loop.calls.head?.any fun call => !call.processing.isDone then
      ((Services.workers sha256 uuid5).step p.workers (.start svc)).map
        ({ p with workers := ·, begun := true })
    else none
  | .workers action =>
    if startsCall svc action then none
    else ((Services.workers sha256 uuid5).step p.workers action).map ({ p with workers := · })

/-- What an action is to the loop, -/
def loopAction? : ProcessAction ε → Option (WorkerAction ε)
  | .loop action => some action
  | .processNext | .workers _ => none

/-- and to the workers. -/
def workersAction? : ProcessAction ε → Option Services.WorkerAction
  | .loop _ => none
  | .processNext => some (.start svc)
  | .workers action => some action

end Machine
end WorkerProcess

def workerProcess (ε : Type) (svc : IngestionProcessingService) (sha256 : Sha256)
    (uuid5 : UUID → Str → UUID) : Machine (WorkerProcess ε) (ProcessAction ε) :=
  ⟨WorkerProcess.step svc sha256 uuid5⟩

section Running
variable {ρ : Type} {stopped asked : Prop} {stopSet : Bool}

theorem AwaitUntilStopped.running_of_step {call call' : AwaitUntilStopped ε ρ} {action : CallAction ε ρ}
    (hstep : call.step stopSet action = some call') (hne : ∀ outcome, action ≠ .operationEnds outcome)
    (hrunning : call.processing.isDone = false) : call'.processing.isDone = false := by
  cases hprocessing : call'.processing with
  | running cancelling => rfl
  | done outcome =>
    rcases done_of_step hstep hprocessing with hbefore | rfl
    · rw [hbefore] at hrunning
      cases hrunning
    · exact absurd rfl (hne outcome)

theorem AwaitUntilStopped.Sound.not_ended {call : AwaitUntilStopped ε ρ} (h : call.Sound stopped asked)
    (hrunning : call.processing.isDone = false) : ∀ completion, call.point ≠ .ended completion := by
  intro completion hended
  have hpoint := h.point
  rw [hended] at hpoint
  exact absurd (hpoint.1.1.symm.trans hrunning) (by decide)

variable {s t : RunWorker ε} {call : AwaitUntilStopped ε Bool} {action : WorkerAction ε}

theorem RunWorker.callStep_running {index : Nat} {a : CallAction ε Bool} (hcall : call ∈ s.calls.head?)
    (hrunning : call.processing.isDone = false)
    (hne : index = 0 → ∀ outcome, a ≠ .operationEnds outcome) (hstep : s.callStep index a = some t) :
    t.calls.length = s.calls.length ∧ ∃ call' ∈ t.calls.head?, call'.processing.isDone = false := by
  obtain ⟨old, hold, hrest⟩ := Option.bind_eq_some_iff.mp hstep
  obtain ⟨new, hnew, hset⟩ := Option.bind_eq_some_iff.mp hrest
  obtain rfl := Option.some.inj hset
  refine ⟨List.length_set, ?_⟩
  have hcalls := List.eq_cons_of_mem_head? hcall
  cases index with
  | zero =>
    rw [hcalls] at hold
    obtain rfl : call = old := Option.some.inj hold
    refine ⟨new, ?_, AwaitUntilStopped.running_of_step hnew (hne rfl) hrunning⟩
    show new ∈ (s.calls.set 0 new).head?
    rw [hcalls]
    rfl
  | succ index =>
    refine ⟨call, ?_, hrunning⟩
    show call ∈ (s.calls.set (index + 1) new).head?
    rw [hcalls]
    rfl

/-- As long as the task of the newest call runs, the loop starts no other. -/
theorem RunWorker.Sound.running_step (h : s.Sound asked) (hcall : call ∈ s.calls.head?)
    (hrunning : call.processing.isDone = false) (hne : ∀ outcome, action ≠ .operationEnds 0 outcome)
    (hstep : s.step action = some t) :
    t.calls.length = s.calls.length ∧ ∃ call' ∈ t.calls.head?, call'.processing.isDone = false := by
  have hcalls := List.eq_cons_of_mem_head? hcall
  have hsound := h.calls call (List.mem_of_mem_head? hcall)
  cases action with
  | operationEnds index outcome =>
    refine callStep_running hcall hrunning ?_ hstep
    rintro rfl
    exact absurd rfl (hne outcome)
  | stopWaitEnds index => exact callStep_running hcall hrunning (by rintro _ _ ⟨⟩) hstep
  | requestStop =>
    cases hstep
    exact ⟨rfl, call, hcall, hrunning⟩
  | cancel =>
    simp only [RunWorker.step] at hstep
    cases hs : s.point <;> rw [hs] at hstep
    case awaiting => exact callStep_running hcall hrunning (by rintro _ _ ⟨⟩) hstep
    case idle =>
      cases hstep
      exact ⟨rfl, call, hcall, hrunning⟩
    case ended => cases hstep
  | resume =>
    have hpoint := h.point
    simp only [RunWorker.step] at hstep
    cases hs : s.point <;> rw [hs] at hstep hpoint
    case awaiting =>
      obtain ⟨old, hold, hrest⟩ := Option.bind_eq_some_iff.mp hstep
      obtain ⟨new, hnew, hsettled⟩ := Option.bind_eq_some_iff.mp hrest
      obtain rfl : call = old := Option.mem_unique hcall hold
      have hnewRunning := @AwaitUntilStopped.running_of_step _ _ s.stopSet _ _ .resume hnew
        (by rintro _ ⟨⟩) hrunning
      have hopen := (hsound.resume hnew).not_ended hnewRunning
      have hsame : t = { s with calls := new :: s.calls.tail } := by
        rw [← Option.some.inj hsettled]
        unfold settleCall
        split
        case h_1 completion hended => exact absurd hended (hopen completion)
        all_goals rfl
      subst hsame
      exact ⟨by rw [hcalls]; rfl, new, rfl, hnewRunning⟩
    case idle =>
      obtain ⟨⟨other, hother, hended⟩, _⟩ := hpoint
      obtain rfl : call = other := Option.mem_unique hcall hother
      exact absurd hended (hsound.not_ended hrunning _)
    case ended => cases hstep

end Running

namespace WorkerProcess
variable {svc : IngestionProcessingService} {sha256 : Sha256} {uuid5 : UUID → Str → UUID}
  {p q : WorkerProcess ε} {action : ProcessAction ε} {once stopSet : Bool} {workers : WorkerState}
  {actions : List (ProcessAction ε)}

/-- The steps of a worker process by what they do. -/
inductive ProcessStep (svc : IngestionProcessingService) (sha256 : Sha256) (uuid5 : UUID → Str → UUID)
    (p : WorkerProcess ε) : ProcessAction ε → WorkerProcess ε → Prop
  | loop {action : WorkerAction ε} {loop : RunWorker ε} (hmay : p.mayHappen svc action = true)
      (hloop : p.loop.step action = some loop) :
      ProcessStep svc sha256 uuid5 p (.loop action)
        { p with loop, begun := p.begun && loop.calls.length == p.loop.calls.length }
  | processNext {call : AwaitUntilStopped ε Bool} {workers : WorkerState}
      (hcall : call ∈ p.loop.calls.head?) (hrunning : call.processing.isDone = false)
      (hworkers : (Services.workers sha256 uuid5).step p.workers (.start svc) = some workers) :
      ProcessStep svc sha256 uuid5 p .processNext { p with workers, begun := true }
  | workers {action : Services.WorkerAction} {workers : WorkerState}
      (hother : startsCall svc action = false)
      (hworkers : (Services.workers sha256 uuid5).step p.workers action = some workers) :
      ProcessStep svc sha256 uuid5 p (.workers action) { p with workers }

theorem process_step (hstep : p.step svc sha256 uuid5 action = some q) :
    ProcessStep svc sha256 uuid5 p action q := by
  cases action with
  | loop action =>
    simp only [WorkerProcess.step, Option.ite_none_right_eq_some] at hstep
    obtain ⟨hmay, hstep⟩ := hstep
    obtain ⟨loop, hloop, rfl⟩ := Option.map_eq_some_iff.mp hstep
    exact .loop hmay hloop
  | processNext =>
    simp only [WorkerProcess.step, Option.ite_none_right_eq_some, Bool.and_eq_true] at hstep
    obtain ⟨⟨_, hany⟩, hstep⟩ := hstep
    obtain ⟨workers, hworkers, rfl⟩ := Option.map_eq_some_iff.mp hstep
    obtain ⟨call, hcall, hrunning⟩ := (Option.any_eq_true _ _).mp hany
    exact .processNext hcall (by simpa using hrunning) hworkers
  | workers action =>
    simp only [WorkerProcess.step, Option.ite_none_left_eq_some, Bool.not_eq_true] at hstep
    obtain ⟨hother, hstep⟩ := hstep
    obtain ⟨workers, hworkers, rfl⟩ := Option.map_eq_some_iff.mp hstep
    exact .workers hother hworkers

/-- A `process_next` under way is that of the loop's newest call, whose task runs. -/
structure Sound (svc : IngestionProcessingService) (p : WorkerProcess ε) : Prop where
  loop : p.loop.Sound True
  running : p.underWay svc = true →
    p.begun = true ∧ ∃ call ∈ p.loop.calls.head?, call.processing.isDone = false

theorem sound_start (hfresh : workers.calls svc.workerId.value = none) :
    (start once stopSet workers : WorkerProcess ε).Sound svc := by
  refine ⟨RunWorker.sound_start, fun hunder => ?_⟩
  simp only [underWay, start, hfresh] at hunder
  cases hunder

/-- Only the process itself starts its calls. -/
theorem calls_of_step {s t : WorkerState} {a : Services.WorkerAction}
    (hstep : (Services.workers sha256 uuid5).step s a = some t) (hother : startsCall svc a = false)
    (hcall : (t.calls svc.workerId.value).isSome = true) : (s.calls svc.workerId.value).isSome = true := by
  cases workerStep_move hstep with
  | start hidle =>
    have hne : svc.workerId.value ≠ _ := fun heq => absurd (beq_iff_eq.mpr heq.symm) (by
      simpa only [startsCall, beq_eq_false_iff_ne, ne_eq, beq_iff_eq] using hother)
    simpa only [WorkerState.withCall, Function.update_of_ne hne] using hcall
  | @call w action call mid next hfound hmove =>
    by_cases heq : svc.workerId.value = w
    · rw [heq, hfound]
      rfl
    · have hmid : mid.calls = s.calls := by cases hmove <;> rfl
      simpa only [WorkerState.withCall, Function.update_of_ne heq, hmid] using hcall
  | recovered => exact hcall
  | retried => exact hcall
  | uploaded => exact hcall

theorem Sound.step (h : p.Sound svc) (hstep : p.step svc sha256 uuid5 action = some q) : q.Sound svc := by
  cases process_step hstep with
  | @loop action loop hmay hloop =>
    refine ⟨h.loop.step (fun _ => trivial) hloop, fun hunder => ?_⟩
    have hunder : p.underWay svc = true := hunder
    obtain ⟨hbegun, call, hcall, hrunning⟩ := h.running hunder
    have hne : ∀ outcome, action ≠ .operationEnds 0 outcome := by
      rintro outcome rfl
      cases outcome <;> simp [mayHappen, hunder] at hmay
    obtain ⟨hlength, hkept⟩ := h.loop.running_step hcall hrunning hne hloop
    exact ⟨by simp only [hbegun, hlength, beq_self_eq_true, Bool.and_self], hkept⟩
  | processNext hcall hrunning => exact ⟨h.loop, fun _ => ⟨rfl, _, hcall, hrunning⟩⟩
  | workers hother hworkers =>
    exact ⟨h.loop, fun hunder => h.running (calls_of_step hworkers hother hunder)⟩

theorem Sound.run (hfresh : workers.calls svc.workerId.value = none)
    (hrun : (workerProcess ε svc sha256 uuid5).run (start once stopSet workers) actions = some p) :
    p.Sound svc :=
  Machine.run_invariant (fun _ _ _ h hstep => h.step hstep) (sound_start hfresh) hrun

theorem loop_step (hstep : p.step svc sha256 uuid5 action = some q) :
    (∀ a, loopAction? action = some a → (runWorker ε).step p.loop a = some q.loop) ∧
      (loopAction? action = none → q.loop = p.loop) := by
  cases process_step hstep with
  | loop hmay hloop => exact ⟨by rintro a ⟨⟩; exact hloop, by rintro ⟨⟩⟩
  | processNext => exact ⟨by rintro a ⟨⟩, fun _ => rfl⟩
  | workers => exact ⟨by rintro a ⟨⟩, fun _ => rfl⟩

theorem workers_step (hstep : p.step svc sha256 uuid5 action = some q) :
    (∀ a, workersAction? svc action = some a →
        (Services.workers sha256 uuid5).step p.workers a = some q.workers) ∧
      (workersAction? svc action = none → q.workers = p.workers) := by
  cases process_step hstep with
  | loop => exact ⟨by rintro a ⟨⟩, fun _ => rfl⟩
  | processNext _ _ hworkers => exact ⟨by rintro a ⟨⟩; exact hworkers, by rintro ⟨⟩⟩
  | workers _ hworkers => exact ⟨by rintro a ⟨⟩; exact hworkers, by rintro ⟨⟩⟩

/-- A call of the loop whose coroutine has not begun finds no other of this worker under way. -/
theorem Sound.processNext (h : p.Sound svc) {call : AwaitUntilStopped ε Bool}
    (hcall : call ∈ p.loop.calls.head?) (hrunning : call.processing.isDone = false)
    (hbegun : p.begun = false) : (p.step svc sha256 uuid5 .processNext).isSome = true := by
  have hidle : p.underWay svc = false := by
    cases hunder : p.underWay svc with
    | false => rfl
    | true => exact absurd ((h.running hunder).1.symm.trans hbegun) (by decide)
  have hany : (p.loop.calls.head?.any fun call => !call.processing.isDone) = true :=
    (Option.any_eq_true _ _).mpr ⟨call, hcall, by rw [hrunning]; rfl⟩
  unfold underWay at hidle
  simp only [WorkerProcess.step, hbegun, hany, Bool.not_false, Bool.and_self, if_true, Services.workers,
    workerStep, hidle, Bool.false_eq_true, if_false, Option.map_some, Option.isSome_some]

/-- Nothing of this worker is under way where its loop has ended. -/
theorem Sound.ended (h : p.Sound svc) {outcome : Outcome ε Nat} (hended : p.loop.point = .ended outcome) :
    p.workers.calls svc.workerId.value = none := by
  cases hcalls : p.workers.calls svc.workerId.value with
  | none => rfl
  | some call =>
    have hunder : p.underWay svc = true := by rw [underWay, hcalls]; rfl
    obtain ⟨_, newest, hnewest, hrunning⟩ := h.running hunder
    have hjoined := h.loop.joined hended newest (List.mem_of_mem_head? hnewest)
    exact absurd (hjoined.1.symm.trans hrunning) (by decide)

end WorkerProcess

open WorkerProcess in
/-- A worker process is a run of its loop and a run of the workers on the rows. Its calls come in turn:
none finds another of this worker under way, and none is left where the loop has ended. -/
theorem worker_process_in_turn {svc : IngestionProcessingService} {sha256 : Sha256}
    {uuid5 : UUID → Str → UUID} {once stopSet : Bool} {workers : WorkerState}
    {actions : List (ProcessAction ε)} {p : WorkerProcess ε}
    (hfresh : workers.calls svc.workerId.value = none)
    (hrun : (workerProcess ε svc sha256 uuid5).run (start once stopSet workers) actions = some p) :
    (runWorker ε).run (.start once stopSet) (actions.filterMap loopAction?) = some p.loop ∧
    (Services.workers sha256 uuid5).run workers (actions.filterMap (workersAction? svc)) =
      some p.workers ∧
    (∀ call ∈ p.loop.calls.head?, call.processing.isDone = false → p.begun = false →
      (p.step svc sha256 uuid5 .processNext).isSome = true) ∧
    ∀ outcome, p.loop.point = .ended outcome → p.workers.calls svc.workerId.value = none := by
  have hsound := Sound.run hfresh hrun
  refine ⟨?_, ?_, fun call hcall hrunning => hsound.processNext hcall hrunning, fun _ => hsound.ended⟩
  · exact Machine.run_filterMap (f := WorkerProcess.loop) (fun _ _ _ => loop_step) hrun
  · exact Machine.run_filterMap (f := WorkerProcess.workers) (fun _ _ _ => workers_step) hrun

section Example

/-- One call that finds nothing to do, in one-shot mode. -/
def oneShotActions : List (ProcessAction String) :=
  [.processNext, .workers (.call exampleService.workerId.value .exit), .loop (.operationEnds 0 (.returned false)),
    .loop .resume, .loop (.stopWaitEnds 0), .loop .resume]

theorem worker_process_in_turn_once : ∃ p,
    (workerProcess String exampleService exampleSha256 exampleUuid5).run
      (.start true false (.init exampleDatabase)) oneShotActions = some p ∧
    p.loop.point = .ended (.returned 0) ∧ p.workers.calls exampleService.workerId.value = none := by
  have hany : ((workerProcess String exampleService exampleSha256 exampleUuid5).run
      (.start true false (.init exampleDatabase)) oneShotActions).any
        (fun p => decide (p.loop.point = .ended (.returned 0))) = true := by decide +kernel
  obtain ⟨p, hrun, hended⟩ := (Option.any_eq_true _ _).mp hany
  have hended := of_decide_eq_true hended
  exact ⟨p, hrun, hended, (worker_process_in_turn rfl hrun).2.2.2 _ hended⟩

end Example
end AgenticRag.Workers

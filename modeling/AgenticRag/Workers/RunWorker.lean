import AgenticRag.Lib.Machine
import AgenticRag.Workers.AwaitUntilStopped

/-! `run_worker`: the polling loop over `process_next`, with every call of
`_await_until_stopped` that it has made and the tasks that these created. -/
namespace AgenticRag.Workers
open Lib

variable {ε : Type}

/-- The await of `run_worker`: a call, the idle wait, or none. -/
inductive WorkerPoint (ε : Type) where
  | awaiting
  | idle (throwing : Bool)
  | ended (outcome : Outcome ε Nat)
  deriving DecidableEq

structure RunWorker (ε : Type) where
  once : Bool
  stopSet : Bool
  processed : Nat
  /-- The calls of `_await_until_stopped`, the newest first. -/
  calls : List (AwaitUntilStopped ε Bool)
  point : WorkerPoint ε
  deriving DecidableEq

inductive WorkerAction (ε : Type) where
  | operationEnds (index : Nat) (outcome : Outcome ε Bool)
  | stopWaitEnds (index : Nat)
  | requestStop
  | cancel
  | resume
  deriving DecidableEq

namespace RunWorker

/-- `while not stop_event.is_set()`, with the start of the next call. -/
def check (s : RunWorker ε) : RunWorker ε :=
  if s.stopSet then { s with point := .ended (.returned s.processed) }
  else { s with point := .awaiting, calls := .start :: s.calls }

/-- `run_worker` up to its first await, for a `poll_interval_seconds` that is positive: it refuses
any other before its loop. -/
def start (once stopSet : Bool) : RunWorker ε :=
  check { once, stopSet, processed := 0, calls := [], point := .idle false }

/-- The loop's body after its call has ended. -/
def settle (s : RunWorker ε) : Outcome ε (Option Bool) → RunWorker ε
  | .returned none => { s with point := .ended (.returned s.processed) }
  | .returned (some didProcess) =>
    let processed := s.processed + didProcess.toNat
    if s.once then { s with processed, point := .ended (.returned processed) }
    else if didProcess then check { s with processed }
    else { s with processed, point := .idle false }
  | .raised error => { s with point := .ended (.raised error) }
  | .cancelled => { s with point := .ended .cancelled }

def settleCall (s : RunWorker ε) (call : AwaitUntilStopped ε Bool) : RunWorker ε :=
  match call.point with
  | .ended completion => s.settle completion
  | .wait | .join | .handler | .stopWait _ => s

/-- One step of the call at `index`. -/
def callStep (s : RunWorker ε) (index : Nat) (action : CallAction ε Bool) : Option (RunWorker ε) := do
  let call ← s.calls[index]?
  let call ← call.step s.stopSet action
  return { s with calls := s.calls.set index call }

/-- The newest call resumes, and the loop goes on if it has ended. -/
def resumeCall (s : RunWorker ε) : Option (RunWorker ε) := do
  let call ← s.calls.head?
  let call ← call.resume
  return settleCall { s with calls := call :: s.calls.tail } call

def step (s : RunWorker ε) : WorkerAction ε → Option (RunWorker ε)
  | .operationEnds index outcome => s.callStep index (.operationEnds outcome)
  | .stopWaitEnds index => s.callStep index .stopWaitEnds
  | .requestStop => some { s with stopSet := true }
  | .cancel => match s.point with
    | .awaiting => s.callStep 0 .cancel
    | .idle _ => some { s with point := .idle true }
    | .ended _ => none
  | .resume => match s.point with
    | .awaiting => s.resumeCall
    -- the timeout of `_wait_for_next_poll` can always come
    | .idle throwing => some (if throwing then { s with point := .ended .cancelled } else s.check)
    | .ended _ => none

end RunWorker

def runWorker (ε : Type) : Machine (RunWorker ε) (WorkerAction ε) := ⟨RunWorker.step⟩

namespace RunWorker

/-- The calls that were counted. -/
def counted (calls : List (AwaitUntilStopped ε Bool)) : Nat :=
  calls.countP fun call => match call.point with
    | .ended (.returned (some didProcess)) => didProcess
    | _ => false

/-- What the worker may end with, `asked` saying that it was cancelled. -/
def Ends (asked : Prop) (s : RunWorker ε) : Outcome ε Nat → Prop
  | .returned n => n = s.processed ∧ (s.once = true ∨ s.stopSet = true) ∧
      ∀ call ∈ s.calls.head?, ∃ value, call.point = .ended (.returned value)
  | .raised error => ∃ call ∈ s.calls.head?, call.point = .ended (.raised error)
  | .cancelled => asked ∨ ∃ call ∈ s.calls.head?, call.point = .ended .cancelled

def PointSound (asked : Prop) (s : RunWorker ε) : WorkerPoint ε → Prop
  | .awaiting => ∃ call ∈ s.calls.head?, ∀ completion, call.point ≠ .ended completion
  | .idle throwing => (∃ call ∈ s.calls.head?, call.point = .ended (.returned (some false))) ∧
      s.once = false ∧ (throwing = true → asked)
  | .ended outcome => (∀ call ∈ s.calls.head?, ∃ completion, call.point = .ended completion) ∧
      s.Ends asked outcome

structure Sound (asked : Prop) (s : RunWorker ε) : Prop where
  calls : ∀ call ∈ s.calls, call.Sound (s.stopSet = true) asked
  earlier : ∀ call ∈ s.calls.tail, ∃ didProcess, call.point = .ended (.returned (some didProcess))
  processed : s.processed = counted s.calls
  once : s.once = true → s.calls.length ≤ 1
  point : s.PointSound asked s.point

variable {asked : Prop} {s t : RunWorker ε} {call call' : AwaitUntilStopped ε Bool}
  {calls : List (AwaitUntilStopped ε Bool)} {completion : Outcome ε (Option Bool)}
  {action : WorkerAction ε}

@[simp] theorem counted_nil : counted ([] : List (AwaitUntilStopped ε Bool)) = 0 := rfl

theorem counted_cons_ended {didProcess : Bool}
    (h : call.point = .ended (.returned (some didProcess))) :
    counted (call :: calls) = counted calls + didProcess.toNat := by
  cases didProcess <;> simp [counted, h]

theorem counted_cons (h : ∀ didProcess, call.point ≠ .ended (.returned (some didProcess))) :
    counted (call :: calls) = counted calls := by
  rw [counted, List.countP_cons_of_neg]
  · rfl
  · split <;> simp_all

theorem sound_check (hcalls : ∀ call ∈ s.calls, call.Sound (s.stopSet = true) asked)
    (hearlier : ∀ call ∈ s.calls, ∃ didProcess, call.point = .ended (.returned (some didProcess)))
    (hprocessed : s.processed = counted s.calls) (honce : s.once = true → s.calls = []) :
    s.check.Sound asked := by
  unfold check
  split
  case isTrue hstop =>
    refine ⟨hcalls, fun c hc => hearlier c (List.mem_of_mem_tail hc), hprocessed,
      fun h => by simp [honce h], fun c hc => ?_, rfl, .inr hstop, fun c hc => ?_⟩
    all_goals
      obtain ⟨didProcess, hended⟩ := hearlier c (List.mem_of_mem_head? hc)
      exact ⟨_, hended⟩
  case isFalse =>
    refine ⟨List.forall_mem_cons.mpr ⟨AwaitUntilStopped.sound_start, hcalls⟩, hearlier, ?_,
      fun h => by simp [honce h], ⟨_, rfl, by rintro _ ⟨⟩⟩⟩
    exact hprocessed.trans (counted_cons (by rintro _ ⟨⟩)).symm

/-- The loop goes on from a call that has ended. -/
theorem sound_settle (hhead : s.calls = call :: calls) (hended : call.point = .ended completion)
    (hcalls : ∀ call ∈ s.calls, call.Sound (s.stopSet = true) asked)
    (hearlier : ∀ call ∈ calls, ∃ didProcess, call.point = .ended (.returned (some didProcess)))
    (hprocessed : s.processed = counted calls) (honce : s.once = true → s.calls.length ≤ 1) :
    (s.settle completion).Sound asked := by
  have hmem : call ∈ s.calls.head? := by rw [hhead]; rfl
  have htail : ∀ c ∈ s.calls.tail, ∃ didProcess, c.point = .ended (.returned (some didProcess)) := by
    rw [hhead]; exact hearlier
  have hall : ∀ c ∈ s.calls.head?, ∃ completion, c.point = .ended completion := by
    rw [hhead]; rintro _ ⟨⟩; exact ⟨_, hended⟩
  have hvalue {value : Option Bool} (h : completion = .returned value) :
      ∀ c ∈ s.calls.head?, ∃ value, c.point = .ended (.returned value) := by
    rw [hhead]; rintro _ ⟨⟩; exact ⟨_, h ▸ hended⟩
  have hsound : call.Sound (s.stopSet = true) asked := hcalls call (List.mem_of_mem_head? hmem)
  have hpoint := hsound.point
  rw [hended] at hpoint
  have hsame (h : ∀ didProcess, completion ≠ .returned (some didProcess)) :
      s.processed = counted s.calls := by
    rw [hhead, counted_cons (by rw [hended]; rintro didProcess ⟨⟩; exact h _ rfl), hprocessed]
  match completion with
  | .returned none =>
    exact ⟨hcalls, htail, hsame (by rintro _ ⟨⟩), honce, hall, rfl, .inr hpoint.2, hvalue rfl⟩
  | .raised error => exact ⟨hcalls, htail, hsame (by rintro _ ⟨⟩), honce, hall, call, hmem, hended⟩
  | .cancelled => exact ⟨hcalls, htail, hsame (by rintro _ ⟨⟩), honce, hall, .inr ⟨call, hmem, hended⟩⟩
  | .returned (some didProcess) =>
    have hcounted : s.processed + didProcess.toNat = counted s.calls := by
      rw [hhead, counted_cons_ended hended, hprocessed]
    simp only [settle]
    split
    case isTrue hone => exact ⟨hcalls, htail, hcounted, honce, hall, rfl, .inl hone, hvalue rfl⟩
    case isFalse hone =>
      cases didProcess
      · exact ⟨hcalls, htail, hcounted, honce, ⟨call, hmem, hended⟩, by simpa using hone, by rintro ⟨⟩⟩
      · refine sound_check hcalls ?_ hcounted fun h => absurd h hone
        show ∀ c ∈ s.calls, _
        rw [hhead]
        exact List.forall_mem_cons.mpr ⟨⟨_, hended⟩, hearlier⟩

/-- Only the newest call has steps left, and the worker awaits it. -/
theorem Sound.callStep_eq {index : Nat} {action : CallAction ε Bool} (h : s.Sound asked)
    (hstep : s.callStep index action = some t) : ∃ call call' calls,
      s.calls = call :: calls ∧ index = 0 ∧ s.point = .awaiting ∧
      call.step s.stopSet action = some call' ∧ t = { s with calls := call' :: calls } := by
  simp only [callStep, Option.bind_eq_bind, Option.bind_eq_some_iff, Option.pure_def,
    Option.some.injEq] at hstep
  obtain ⟨call, hcall, call', hcall', rfl⟩ := hstep
  have hopen := (h.calls call (List.mem_of_getElem? hcall)).open_of_step hcall'
  match hcalls : s.calls, index, hcall with
  | head :: calls, 0, hcall =>
    obtain rfl : head = call := Option.some.inj hcall
    refine ⟨head, call', calls, rfl, rfl, ?_, hcall', rfl⟩
    have hpoint := h.point
    cases hs : s.point with
    | awaiting => rfl
    | idle throwing =>
      rw [hs] at hpoint
      obtain ⟨c, hc, hended⟩ := hpoint.1
      rw [hcalls] at hc
      cases hc
      exact absurd hended (hopen _)
    | ended outcome =>
      rw [hs] at hpoint
      obtain ⟨completion, hended⟩ := hpoint.1 head (by rw [hcalls]; rfl)
      exact absurd hended (hopen _)
  | head :: calls, index + 1, hcall =>
    obtain ⟨didProcess, hended⟩ := h.earlier call (by rw [hcalls]; exact List.mem_of_getElem? hcall)
    exact absurd hended (hopen _)

theorem Sound.callStep {index : Nat} {action : CallAction ε Bool} (h : s.Sound asked)
    (hne : action ≠ .resume) (hask : action = .cancel → asked)
    (hstep : s.callStep index action = some t) : t.Sound asked := by
  obtain ⟨call, call', calls, hcalls, -, hawait, hcall, rfl⟩ := h.callStep_eq hstep
  have hall := h.calls
  have hearlier := h.earlier
  have honce := h.once
  have hprocessed := h.processed
  rw [hcalls] at hall hearlier honce hprocessed
  obtain ⟨hhead, htail⟩ := List.forall_mem_cons.mp hall
  have hopen := hhead.open_of_step hcall
  have hopen' : ∀ completion, call'.point ≠ .ended completion := by
    rw [AwaitUntilStopped.point_step hne hcall]
    exact hopen
  refine ⟨List.forall_mem_cons.mpr ⟨hhead.step id hask hcall, htail⟩, hearlier, ?_, honce, ?_⟩
  · rw [counted_cons fun _ => hopen _] at hprocessed
    exact hprocessed.trans (counted_cons fun _ => hopen' _).symm
  · show PointSound asked _ s.point
    rw [hawait]
    exact ⟨call', rfl, hopen'⟩

theorem resumeCall_eq (hstep : s.resumeCall = some t) : ∃ call call' calls,
    s.calls = call :: calls ∧ call.resume = some call' ∧
      t = settleCall { s with calls := call' :: calls } call' := by
  simp only [resumeCall, Option.bind_eq_bind, Option.bind_eq_some_iff, Option.pure_def,
    Option.some.injEq, List.head?_eq_some_iff] at hstep
  obtain ⟨call, ⟨calls, hcalls⟩, call', hcall', rfl⟩ := hstep
  exact ⟨call, call', calls, hcalls, hcall', by rw [hcalls]; rfl⟩

theorem Sound.resumeCall (h : s.Sound asked) (hawait : s.point = .awaiting)
    (hstep : s.resumeCall = some t) : t.Sound asked := by
  obtain ⟨call, call', calls, hcalls, hcall, rfl⟩ := resumeCall_eq hstep
  have hall := h.calls
  have hearlier := h.earlier
  have honce := h.once
  have hprocessed := h.processed
  rw [hcalls] at hall hearlier honce hprocessed
  obtain ⟨hhead, htail⟩ := List.forall_mem_cons.mp hall
  have hresume : call.step s.stopSet .resume = some call' := hcall
  have hopen := hhead.open_of_step hresume
  rw [counted_cons fun _ => hopen _] at hprocessed
  have hall' : ∀ c ∈ call' :: calls, c.Sound (s.stopSet = true) asked :=
    List.forall_mem_cons.mpr ⟨hhead.resume hcall, htail⟩
  by_cases hended : ∃ completion, call'.point = .ended completion
  · obtain ⟨completion, hended⟩ := hended
    simp only [settleCall, hended]
    exact sound_settle rfl hended hall' hearlier hprocessed honce
  · have hopen' : ∀ completion, call'.point ≠ .ended completion :=
      fun completion hc => hended ⟨completion, hc⟩
    have hsame : settleCall { s with calls := call' :: calls } call' =
        { s with calls := call' :: calls } := by
      unfold settleCall
      split <;> simp_all
    rw [hsame]
    refine ⟨hall', hearlier, hprocessed.trans (counted_cons fun _ => hopen' _).symm, honce, ?_⟩
    show PointSound asked _ s.point
    rw [hawait]
    exact ⟨call', rfl, hopen'⟩

theorem Sound.requestStop (h : s.Sound asked) : ({ s with stopSet := true } : RunWorker ε).Sound asked := by
  refine ⟨fun c hc => (h.calls c hc).mono (fun _ => rfl) id, h.earlier, h.processed, h.once, ?_⟩
  have hpoint := h.point
  show PointSound asked _ s.point
  cases hs : s.point <;> rw [hs] at hpoint
  case ended outcome =>
    refine ⟨hpoint.1, ?_⟩
    match outcome, hpoint.2 with
    | .returned n, hends => exact ⟨hends.1, .inr rfl, hends.2.2⟩
    | .raised error, hends => exact hends
    | .cancelled, hends => exact hends
  all_goals exact hpoint

theorem Sound.step (h : s.Sound asked) (hask : action = .cancel → asked)
    (hstep : s.step action = some t) : t.Sound asked := by
  have hpoint := h.point
  cases action with
  | operationEnds index outcome => exact h.callStep (by rintro ⟨⟩) (by rintro ⟨⟩) hstep
  | stopWaitEnds index => exact h.callStep (by rintro ⟨⟩) (by rintro ⟨⟩) hstep
  | requestStop =>
    cases hstep
    exact h.requestStop
  | cancel =>
    simp only [RunWorker.step] at hstep
    cases hs : s.point <;> rw [hs] at hstep hpoint
    case awaiting => exact h.callStep (by rintro ⟨⟩) (fun _ => hask rfl) hstep
    case idle =>
      cases hstep
      exact ⟨h.calls, h.earlier, h.processed, h.once, hpoint.1, hpoint.2.1, fun _ => hask rfl⟩
    case ended => cases hstep
  | resume =>
    simp only [RunWorker.step] at hstep
    cases hs : s.point <;> rw [hs] at hstep hpoint
    case awaiting => exact h.resumeCall hs hstep
    case idle throwing =>
      cases hstep
      obtain ⟨⟨call, hcall, hended⟩, hone, hthrow⟩ := hpoint
      have hcalls := List.eq_cons_of_mem_head? hcall
      cases throwing
      · refine sound_check h.calls ?_ h.processed (by simp [hone])
        rw [hcalls]
        exact List.forall_mem_cons.mpr ⟨⟨_, hended⟩, h.earlier⟩
      · refine ⟨h.calls, h.earlier, h.processed, h.once, ?_, .inl (hthrow rfl)⟩
        intro c hc
        cases Option.mem_unique hc hcall
        exact ⟨_, hended⟩
    case ended => cases hstep

theorem sound_start {once stopSet : Bool} : (start once stopSet : RunWorker ε).Sound asked :=
  sound_check (by rintro _ ⟨⟩) (by rintro _ ⟨⟩) rfl fun _ => rfl

theorem Sound.mono {asked' : Prop} (h : s.Sound asked) (hask : asked → asked') : s.Sound asked' := by
  refine ⟨fun c hc => (h.calls c hc).mono id hask, h.earlier, h.processed, h.once, ?_⟩
  have hpoint := h.point
  cases hs : s.point <;> rw [hs] at hpoint
  case awaiting => exact hpoint
  case idle => exact ⟨hpoint.1, hpoint.2.1, hask ∘ hpoint.2.2⟩
  case ended outcome =>
    refine ⟨hpoint.1, ?_⟩
    match outcome, hpoint.2 with
    | .returned n, hends => exact hends
    | .raised error, hends => exact hends
    | .cancelled, hends => exact hends.imp_left hask

theorem Sound.run {actions : List (WorkerAction ε)} (h : s.Sound (.cancel ∈ actions))
    (hrun : (runWorker ε).run s actions = some t) : t.Sound (.cancel ∈ actions) := by
  refine Machine.run_invariant_of_allowed (C := fun _ action => action ∈ actions)
    (fun r action q hr hmem hstep => hr.step ?_ hstep) h ?_ hrun
  · rintro rfl
    exact hmem
  · exact Machine.allowed_of_forall fun _ hmem _ => hmem

/-- The operations that returned `True`. -/
def succeeded (calls : List (AwaitUntilStopped ε Bool)) : Nat :=
  calls.countP fun call => match call.processing with
    | .done (.returned didProcess) => didProcess
    | _ => false

theorem succeeded_cons : succeeded (call :: calls) = succeeded calls ∨
    succeeded (call :: calls) = succeeded calls + 1 ∧ call.processing = .done (.returned true) := by
  by_cases h : (match call.processing with
    | .done (.returned didProcess) => didProcess
    | _ => false) = true
  · refine .inr ⟨List.countP_cons_of_pos h, ?_⟩
    split at h
    case h_1 hproc => rw [hproc, h]
    case h_2 => cases h
  · exact .inl (List.countP_cons_of_neg h)

theorem succeeded_eq_counted (hcalls : ∀ call ∈ calls, call.Sound (s.stopSet = true) asked)
    (hended : ∀ call ∈ calls, ∃ didProcess, call.point = .ended (.returned (some didProcess))) :
    succeeded calls = counted calls := by
  refine List.countP_congr fun call hmem => ?_
  obtain ⟨didProcess, hpoint⟩ := hended call hmem
  have hsound := (hcalls call hmem).point
  rw [hpoint] at hsound
  have hproc : call.processing = .done (.returned didProcess) := hsound.2
  rw [hpoint, hproc]

/-- A stop was requested among `actions`, run from `r`, while the newest call of `s` was under way. -/
def StoppedDuring (r : RunWorker ε) (actions : List (WorkerAction ε)) (s : RunWorker ε) : Prop :=
  ∃ before after q, actions = before ++ .requestStop :: after ∧
    (runWorker ε).run r before = some q ∧ q.point = .awaiting ∧ q.calls.length = s.calls.length

/-- The worker's outcome in terms of its operations: it returns when told to stop, or in one-shot
mode, and its count leaves out at most one operation, the one of the call that a stop `told` to
end. -/
def Explains (asked told : Prop) (s : RunWorker ε) : Outcome ε Nat → Prop
  | .returned n => (s.once = true ∨ s.stopSet = true) ∧
      (succeeded s.calls = n ∨ told ∧ succeeded s.calls = n + 1 ∧
        ∃ call ∈ s.calls.head?, call.processing = .done (.returned true))
  | .raised error => ∃ call ∈ s.calls.head?, call.processing = .done (.raised error)
  | .cancelled => asked ∨ ∃ call ∈ s.calls.head?, call.processing = .done .cancelled

/-- The newest call is under way, or a stop has ended it. -/
def Stoppable (s : RunWorker ε) : Prop :=
  s.point = .awaiting ∨ ∃ call ∈ s.calls.head?, call.point = .ended (.returned none)

variable {r : RunWorker ε} {actions : List (WorkerAction ε)}

theorem StoppedDuring.concat (h : StoppedDuring r actions s) (hcalls : t.calls.length = s.calls.length) :
    StoppedDuring r (actions ++ [action]) t := by
  obtain ⟨before, after, q, rfl, hq, hawait, hlength⟩ := h
  exact ⟨before, after ++ [action], q, by simp, hq, hawait, hlength.trans hcalls.symm⟩

theorem check_of_stopSet (h : s.stopSet = true) :
    s.check = { s with point := .ended (.returned s.processed) } := if_pos h

theorem check_calls_of_stopSet (h : s.stopSet = true) : s.check.calls = s.calls := by
  rw [check_of_stopSet h]

theorem check_stopSet : s.check.stopSet = s.stopSet := by
  unfold check
  split <;> rfl

theorem settle_stopSet : (s.settle completion).stopSet = s.stopSet := by
  match completion with
  | .returned none | .raised _ | .cancelled => rfl
  | .returned (some didProcess) =>
    simp only [settle]
    split
    · rfl
    · split
      · exact check_stopSet
      · rfl

/-- A worker whose stop event is set makes no further call. -/
theorem settle_calls_of_stopSet (h : s.stopSet = true) : (s.settle completion).calls = s.calls := by
  match completion with
  | .returned none | .raised _ | .cancelled => rfl
  | .returned (some didProcess) =>
    simp only [settle]
    split
    · rfl
    · split
      · exact check_calls_of_stopSet h
      · rfl

theorem settleCall_stopSet : (s.settleCall call).stopSet = s.stopSet := by
  unfold settleCall
  split
  · exact settle_stopSet
  all_goals rfl

theorem settleCall_calls_of_stopSet (h : s.stopSet = true) : (s.settleCall call).calls = s.calls := by
  unfold settleCall
  split
  · exact settle_calls_of_stopSet h
  all_goals rfl

/-- A stop event that is set was set by a request; where the newest call can still end by it, or
has, the request came while that call was under way. -/
theorem Sound.stoppedDuring_step (h : s.Sound asked) (hrun : (runWorker ε).run r actions = some s)
    (hstopped : s.stopSet = true → s.Stoppable → StoppedDuring r actions s)
    (hstep : s.step action = some t) (hset : t.stopSet = true) (hstop : t.Stoppable) :
    StoppedDuring r (actions ++ [action]) t := by
  have hcall {index : Nat} {action' : CallAction ε Bool} (hstep : s.callStep index action' = some t) :
      StoppedDuring r (actions ++ [action]) t := by
    obtain ⟨call, call', calls, hcalls, -, hawait, -, rfl⟩ := h.callStep_eq hstep
    exact (hstopped hset (.inl hawait)).concat (by simp [hcalls])
  have hended {q : RunWorker ε} (hpoint : q.point ≠ .awaiting) (hcalls : q.calls = s.calls)
      (hset : s.stopSet = true) (hstop : q.Stoppable) : StoppedDuring r (actions ++ [action]) q := by
    have hnewest := hstop.resolve_left hpoint
    rw [hcalls] at hnewest
    exact (hstopped hset (.inr hnewest)).concat (by rw [hcalls])
  cases action with
  | operationEnds index outcome => exact hcall hstep
  | stopWaitEnds index => exact hcall hstep
  | requestStop =>
    cases hstep
    rcases hstop with hawait | ⟨call, hmem, hpoint⟩
    · exact ⟨actions, [], s, rfl, hrun, hawait, rfl⟩
    · -- the call that ended so had its stop already
      have hsound := (h.calls call (List.mem_of_mem_head? hmem)).point
      rw [hpoint] at hsound
      exact (hstopped hsound.2 (.inr ⟨call, hmem, hpoint⟩)).concat rfl
  | cancel =>
    simp only [RunWorker.step] at hstep
    cases hs : s.point <;> rw [hs] at hstep
    case awaiting => exact hcall hstep
    case idle =>
      cases hstep
      exact hended (by rintro ⟨⟩) rfl hset hstop
    case ended => cases hstep
  | resume =>
    simp only [RunWorker.step] at hstep
    cases hs : s.point <;> rw [hs] at hstep
    case awaiting =>
      obtain ⟨call, call', calls, hcalls, -, rfl⟩ := resumeCall_eq hstep
      rw [settleCall_stopSet] at hset
      refine (hstopped hset (.inl hs)).concat ?_
      rw [settleCall_calls_of_stopSet hset, hcalls]
      rfl
    case idle throwing =>
      cases hstep
      cases throwing
      · simp only [Bool.false_eq_true, if_false, check_stopSet] at hset
        simp only [Bool.false_eq_true, if_false, check_of_stopSet hset] at hstop ⊢
        exact hended (by rintro ⟨⟩) rfl hset hstop
      · exact hended (by rintro ⟨⟩) rfl hset hstop
    case ended => cases hstep

theorem stoppedDuring_run {once stopSet : Bool}
    (hrun : (runWorker ε).run (start once stopSet) actions = some s) (hset : s.stopSet = true)
    (hstop : s.Stoppable) : StoppedDuring (start once stopSet) actions s := by
  refine Machine.run_history (C := fun _ _ => True)
    (I := fun actions s => s.stopSet = true → s.Stoppable → StoppedDuring (start once stopSet) actions s)
    (fun as q a t hq hI _ hstep => ?_) ?_ Machine.allowed_true hrun hset hstop
  · have hsound : q.Sound (.cancel ∈ as) := sound_start.run hq
    exact hsound.stoppedDuring_step hq hI hstep
  · rintro hset (hawait | ⟨call, hmem, -⟩)
    · cases stopSet
      · cases hset
      · cases hawait
    · cases stopSet
      · cases hset
      · cases hmem

/-- Everything that `_await_until_stopped` started has ended where the worker ends. -/
theorem Sound.joined (h : s.Sound asked) {outcome : Outcome ε Nat} (hs : s.point = .ended outcome) :
    ∀ call ∈ s.calls, call.Joined := by
  have hpoint := h.point
  rw [hs] at hpoint
  intro call hmem
  obtain ⟨completion, hended⟩ : ∃ completion, call.point = .ended completion := by
    cases hcalls : s.calls with
    | nil => rw [hcalls] at hmem; cases hmem
    | cons head calls =>
      rw [hcalls] at hmem
      rcases List.mem_cons.mp hmem with rfl | hmem
      · exact hpoint.1 call (by rw [hcalls]; rfl)
      · obtain ⟨didProcess, hended⟩ := h.earlier call (by rw [hcalls]; exact hmem)
        exact ⟨_, hended⟩
  have hsound := (h.calls call hmem).point
  rw [hended] at hsound
  exact hsound.1

theorem Sound.explains {told : Prop} (h : s.Sound asked)
    (htold : s.stopSet = true → s.Stoppable → told) {outcome : Outcome ε Nat}
    (hs : s.point = .ended outcome) : s.Explains asked told outcome := by
  have hpoint := h.point
  rw [hs] at hpoint
  have hcall {call : AwaitUntilStopped ε Bool} {completion} (hmem : call ∈ s.calls.head?)
      (hended : call.point = .ended completion) :
      call.Explains (s.stopSet = true) asked completion := by
    have hsound := (h.calls call (List.mem_of_mem_head? hmem)).point
    rw [hended] at hsound
    exact hsound.2
  match outcome, hpoint.2 with
  | .raised error, ⟨call, hmem, hended⟩ => exact ⟨call, hmem, hcall hmem hended⟩
  | .cancelled, .inl hask => exact .inl hask
  | .cancelled, .inr ⟨call, hmem, hended⟩ =>
    exact (hcall hmem hended).imp_right fun hproc => ⟨call, hmem, hproc⟩
  | .returned n, ⟨hn, hwhy, hvalue⟩ =>
    refine ⟨hwhy, ?_⟩
    obtain rfl := hn
    rw [h.processed]
    cases hcalls : s.calls with
    | nil => exact .inl rfl
    | cons head calls =>
      obtain ⟨value, hended⟩ := hvalue head (by rw [hcalls]; rfl)
      have hexplains := hcall (by rw [hcalls]; rfl) hended
      have hall := h.calls
      have hearlier := h.earlier
      rw [hcalls] at hall hearlier
      have htail : succeeded calls = counted calls :=
        succeeded_eq_counted (List.forall_mem_cons.mp hall).2 hearlier
      match value with
      | some didProcess =>
        left
        refine succeeded_eq_counted (s := s) hall ?_
        exact List.forall_mem_cons.mpr ⟨⟨_, hended⟩, hearlier⟩
      | none =>
        -- what an operation returned after the stop is dropped
        rw [counted_cons (by rw [hended]; rintro _ ⟨⟩), ← htail]
        refine succeeded_cons.imp_right fun ⟨hmore, hproc⟩ => ?_
        exact ⟨htold hexplains (.inr ⟨head, by rw [hcalls]; rfl, hended⟩), hmore, head, rfl, hproc⟩

end RunWorker

open RunWorker in
/-- However stops, cancellations and the ends of the tasks interleave, no task outlives the worker,
no two operations run at once, and the worker ends with what its operations did. -/
theorem every_call_joined {once stopSet : Bool} {actions : List (WorkerAction ε)} {s : RunWorker ε}
    (hrun : (runWorker ε).run (start once stopSet) actions = some s) :
    (∀ call ∈ s.calls.tail, call.Joined ∧ ∃ didProcess, call.processing = .done (.returned didProcess)) ∧
    (s.once = true → s.calls.length ≤ 1) ∧
    ∀ outcome, s.point = .ended outcome →
      (∀ call ∈ s.calls, call.Joined) ∧
        s.Explains (.cancel ∈ actions) (StoppedDuring (start once stopSet) actions s) outcome := by
  have hsound : s.Sound (.cancel ∈ actions) := sound_start.run hrun
  refine ⟨fun call hmem => ?_, hsound.once, fun outcome hs =>
    ⟨hsound.joined hs, hsound.explains (stoppedDuring_run hrun) hs⟩⟩
  obtain ⟨didProcess, hended⟩ := hsound.earlier call hmem
  have hcall := (hsound.calls call (List.mem_of_mem_tail hmem)).point
  rw [hended] at hcall
  exact ⟨hcall.1, didProcess, hcall.2⟩

section Example

/-- Two jobs; the second one finishes while it is being cancelled. -/
def stoppedActions : List (WorkerAction String) :=
  [.operationEnds 0 (.returned true), .resume, .stopWaitEnds 0, .resume, .requestStop, .stopWaitEnds 0,
    .resume, .operationEnds 0 (.returned true), .resume]

def stoppedWorker : RunWorker String where
  once := false
  stopSet := true
  processed := 1
  calls := [⟨.done (.returned true), .done (.returned ()), .ended (.returned none), false⟩,
    ⟨.done (.returned true), .done .cancelled, .ended (.returned (some true)), false⟩]
  point := .ended (.returned 1)

theorem stopped_run :
    (runWorker String).run (RunWorker.start false false) stoppedActions = some stoppedWorker := by decide

theorem every_call_joined_stopped :
    stoppedWorker.point = .ended (.returned 1) ∧ RunWorker.succeeded stoppedWorker.calls = 2 ∧
      stoppedWorker.Explains (.cancel ∈ stoppedActions)
        (RunWorker.StoppedDuring (.start false false) stoppedActions stoppedWorker) (.returned 1) :=
  ⟨rfl, by decide, ((every_call_joined stopped_run).2.2 _ rfl).2⟩

end Example

end AgenticRag.Workers

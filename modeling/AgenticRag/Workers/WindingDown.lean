import AgenticRag.Workers.RunWorker

/-! How `run_worker` ends once it was told to: by a set stop event, or by a cancellation that
reaches it while it waits. -/
namespace AgenticRag.Workers
open Lib

variable {ε : Type}

namespace RunWorker

/-- The worker's cancellation is on its way out of the loop. -/
def Cancelled (s : RunWorker ε) : Prop :=
  match s.point with
  | .awaiting => ∃ call ∈ s.calls.head?, call.Unwinding
  | .idle throwing => throwing = true
  | .ended outcome => ∀ n, outcome ≠ .returned n

/-- The worker was told to end. -/
def Told (s : RunWorker ε) : Prop := s.stopSet = true ∨ s.Cancelled

/-- How many events of the event loop a worker that was told to end has still before it. -/
def rank (s : RunWorker ε) : Nat :=
  match s.point with
  | .awaiting => (s.calls.head?.map (·.rank)).getD 0
  | .idle _ => 1
  | .ended _ => 0

end RunWorker

/-- An event of the event loop, as against a stop or a cancellation from outside. -/
def WorkerAction.isEvent : WorkerAction ε → Bool
  | .operationEnds .. | .stopWaitEnds _ | .resume => true
  | .requestStop | .cancel => false

namespace RunWorker

/-- An event that can happen now and needs nothing of an operation but that it ends once it was
cancelled. -/
def Due (s : RunWorker ε) (action : WorkerAction ε) : Prop :=
  (s.step action).isSome = true ∧ action.isEvent = true ∧
    ∀ index outcome, action = .operationEnds index outcome →
      ∃ call ∈ s.calls[index]?, call.processing = .running true

variable {asked : Prop} {s t : RunWorker ε} {call call' : AwaitUntilStopped ε Bool}
  {calls : List (AwaitUntilStopped ε Bool)} {completion : Outcome ε (Option Bool)}
  {action : WorkerAction ε}

/-- What one step of a worker that was told to end does. -/
structure Winds (s t : RunWorker ε) (events : Nat) : Prop where
  calls : t.calls.length = s.calls.length
  stopSet : s.stopSet = true → t.stopSet = true
  cancelled : s.Cancelled → t.Cancelled
  rank : t.rank + events ≤ s.rank

theorem Winds.told {events : Nat} (h : Winds s t events) (htold : s.Told) : t.Told :=
  htold.imp h.stopSet h.cancelled

theorem Winds.trans {r : RunWorker ε} {events more : Nat} (h : Winds s t events) (h' : Winds t r more) :
    Winds s r (events + more) where
  calls := h'.calls.trans h.calls
  stopSet := h'.stopSet ∘ h.stopSet
  cancelled := h'.cancelled ∘ h.cancelled
  rank := by have := h.rank; have := h'.rank; omega

theorem Sound.winds_callStep {index events : Nat} {action : CallAction ε Bool} (h : s.Sound asked)
    (hrank : ∀ {call call' : AwaitUntilStopped ε Bool}, call.step s.stopSet action = some call' →
      call'.rank + events ≤ call.rank)
    (hstep : s.callStep index action = some t) : Winds s t events := by
  obtain ⟨call, call', calls, hcalls, -, hawait, hcall, rfl⟩ := h.callStep_eq hstep
  refine ⟨by simp [hcalls], id, ?_, ?_⟩
  · simp only [Cancelled, hawait, hcalls]
    rintro ⟨c, hc, hunwind⟩
    cases hc
    exact ⟨call', rfl, hunwind.step hcall⟩
  · simpa only [RunWorker.rank, hawait, hcalls, List.head?_cons, Option.map_some, Option.getD_some]
      using hrank hcall

/-- A worker with its stop event set makes no further call. -/
theorem settle_calls (hstop : ∀ value, completion = .returned value → s.stopSet = true) :
    (s.settle completion).calls = s.calls ∧ (s.settle completion).stopSet = s.stopSet ∧
      (s.settle completion).rank ≤ AwaitUntilStopped.weight completion := by
  match completion with
  | .returned none => exact ⟨rfl, rfl, Nat.le_refl _⟩
  | .raised error => exact ⟨rfl, rfl, Nat.le_refl _⟩
  | .cancelled => exact ⟨rfl, rfl, Nat.le_refl _⟩
  | .returned (some didProcess) =>
    simp only [settle]
    split
    case isTrue => exact ⟨rfl, rfl, Nat.zero_le _⟩
    case isFalse =>
      split
      case isTrue =>
        rw [check_of_stopSet]
        · exact ⟨rfl, rfl, Nat.zero_le _⟩
        · exact hstop _ rfl
      case isFalse => exact ⟨rfl, rfl, Nat.le_refl _⟩

theorem settle_cancelled (h : ∀ value, completion ≠ .returned value) : (s.settle completion).Cancelled := by
  match completion with
  | .returned value => exact absurd rfl (h value)
  | .raised error => rintro _ ⟨⟩
  | .cancelled => rintro _ ⟨⟩

theorem winds_resumeCall (htold : s.Told) (hawait : s.point = .awaiting)
    (hstep : s.resumeCall = some t) : Winds s t 1 := by
  obtain ⟨call, call', calls, hcalls, hcall, rfl⟩ := resumeCall_eq hstep
  have hrank : call'.rank < call.rank := AwaitUntilStopped.rank_resume hcall
  have hs : s.rank = call.rank := by simp [RunWorker.rank, hawait, hcalls]
  have hunwinding : s.Cancelled → call'.Unwinding := by
    simp only [Cancelled, hawait, hcalls]
    rintro ⟨c, hc, hunwind⟩
    cases hc
    have hresume : call.step s.stopSet .resume = some call' := hcall
    exact hunwind.step hresume
  cases hpoint : call'.point <;> simp only [settleCall, hpoint]
  case ended completion =>
    have hcancelled : s.Cancelled → ∀ value, completion ≠ .returned value := by
      intro hc
      simpa only [AwaitUntilStopped.Unwinding, hpoint] using hunwinding hc
    have hstop : ∀ value, completion = .returned value → s.stopSet = true := fun value heq =>
      htold.resolve_right fun hc => hcancelled hc value heq
    obtain ⟨hsame, hset, hweight⟩ := settle_calls (s := { s with calls := call' :: calls }) hstop
    refine ⟨by rw [hsame, hcalls]; rfl, fun hs => hset.trans hs, fun hc => settle_cancelled (hcancelled hc), ?_⟩
    have hleast : AwaitUntilStopped.weight completion ≤ call'.rank := by
      simp only [AwaitUntilStopped.rank, AwaitUntilStopped.Suspension.rank, hpoint]
      omega
    omega
  all_goals
    refine ⟨by rw [hcalls]; rfl, id, ?_, ?_⟩
    · intro hc
      simp only [Cancelled, hawait]
      exact ⟨call', rfl, hunwinding hc⟩
    · rw [hs]
      simp only [RunWorker.rank, hawait, List.head?_cons, Option.map_some, Option.getD_some]
      exact hrank

/-- A worker that was told to end only winds down. -/
theorem Sound.winds (h : s.Sound asked) (htold : s.Told) (hstep : s.step action = some t) :
    Winds s t action.isEvent.toNat := by
  cases action with
  | operationEnds index outcome =>
    exact h.winds_callStep (fun hcall => AwaitUntilStopped.rank_step hcall (by rintro ⟨⟩)) hstep
  | stopWaitEnds index =>
    exact h.winds_callStep (fun hcall => AwaitUntilStopped.rank_step hcall (by rintro ⟨⟩)) hstep
  | requestStop =>
    cases hstep
    exact ⟨rfl, fun _ => rfl, id, Nat.le_refl _⟩
  | cancel =>
    simp only [RunWorker.step] at hstep
    cases hs : s.point <;> rw [hs] at hstep
    case awaiting => exact h.winds_callStep (fun hcall => Nat.le_of_eq (AwaitUntilStopped.rank_cancel hcall)) hstep
    case idle =>
      cases hstep
      exact ⟨rfl, id, fun _ => rfl, by simp [RunWorker.rank, hs, WorkerAction.isEvent]⟩
    case ended => cases hstep
  | resume =>
    simp only [RunWorker.step] at hstep
    cases hs : s.point <;> rw [hs] at hstep
    case awaiting => exact winds_resumeCall htold hs hstep
    case idle throwing =>
      cases hstep
      have hrank : s.rank = 1 := by simp [RunWorker.rank, hs]
      cases throwing
      · have hstop : s.stopSet = true := htold.resolve_right fun hc => by simp [Cancelled, hs] at hc
        simp only [Bool.false_eq_true, if_false, check, if_pos hstop]
        exact ⟨rfl, id, fun hc => by simp [Cancelled, hs] at hc, Nat.le_of_eq hrank.symm⟩
      · exact ⟨rfl, id, fun _ => by rintro _ ⟨⟩, Nat.le_of_eq hrank.symm⟩
    case ended => cases hstep

theorem Sound.winds_run {actions : List (WorkerAction ε)} (h : s.Sound True) (htold : s.Told)
    (hrun : (runWorker ε).run s actions = some t) :
    t.Sound True ∧ Winds s t (actions.countP WorkerAction.isEvent) := by
  induction actions generalizing s with
  | nil =>
    obtain rfl := Option.some.inj hrun
    exact ⟨h, rfl, id, id, Nat.le_refl _⟩
  | cons action actions ih =>
    obtain ⟨r, hstep, hrest⟩ := Machine.run_cons_eq_some.mp hrun
    have hwinds := h.winds htold hstep
    obtain ⟨ht, hmore⟩ := ih (h.step (fun _ => trivial) hstep) (hwinds.told htold) hrest
    refine ⟨ht, ?_⟩
    have hcount : (action :: actions).countP WorkerAction.isEvent =
        action.isEvent.toNat + actions.countP WorkerAction.isEvent := by
      rw [List.countP_cons, Nat.add_comm]
      cases action.isEvent <;> rfl
    rw [hcount]
    exact hwinds.trans hmore

theorem rank_le (s : RunWorker ε) : s.rank ≤ 5 := by
  unfold rank
  split
  case h_1 =>
    cases s.calls.head? with
    | none => exact Nat.zero_le _
    | some call => exact call.rank_le
  case h_2 => decide
  case h_3 => decide

/-- A worker that was told to end is never left waiting. -/
theorem Sound.due (h : s.Sound asked) (htold : s.Told) :
    (∃ outcome, s.point = .ended outcome) ∨ ∃ action, s.Due action := by
  have hpoint := h.point
  cases hs : s.point <;> rw [hs] at hpoint
  case ended outcome => exact .inl ⟨outcome, rfl⟩
  case idle throwing =>
    exact .inr ⟨.resume, by simp [RunWorker.step, hs], rfl, by rintro _ _ ⟨⟩⟩
  case awaiting =>
    obtain ⟨call, hcall, hopen⟩ := hpoint
    have hcalls := List.eq_cons_of_mem_head? hcall
    have htold : s.stopSet = true ∨ call.Unwinding := htold.imp_right fun hc => by
      simp only [Cancelled, hs] at hc
      obtain ⟨c, hc, hunwind⟩ := hc
      cases Option.mem_unique hc hcall
      exact hunwind
    obtain ⟨action, henabled, hne, hasked⟩ :=
      (h.calls call (List.mem_of_mem_head? hcall)).due htold hopen
    have hzero : s.calls[0]? = some call := by rw [hcalls]; rfl
    have hstep (hresume : action ≠ .resume) : (s.callStep 0 action).isSome = true := by
      obtain ⟨call', hcall'⟩ := Option.isSome_iff_exists.mp henabled
      simp [RunWorker.callStep, hzero, hcall']
    right
    cases action with
    | operationEnds outcome =>
      refine ⟨.operationEnds 0 outcome, hstep (by rintro ⟨⟩), rfl, ?_⟩
      rintro _ _ ⟨⟩
      exact ⟨call, hzero, hasked outcome rfl⟩
    | stopWaitEnds => exact ⟨.stopWaitEnds 0, hstep (by rintro ⟨⟩), rfl, by rintro _ _ ⟨⟩⟩
    | cancel => exact absurd rfl hne
    | resume =>
      refine ⟨.resume, ?_, rfl, by rintro _ _ ⟨⟩⟩
      obtain ⟨call', hcall'⟩ := Option.isSome_iff_exists.mp henabled
      have hresume : call.resume = some call' := hcall'
      simp only [RunWorker.step, hs, RunWorker.resumeCall]
      rw [show s.calls.head? = some call from hcall]
      simp [hresume]

/-- What follows once the worker was told to end: no further call, at most five more events, and
always one that can happen, until the worker has ended. -/
def WindsDown (s t : RunWorker ε) (actions : List (WorkerAction ε)) : Prop :=
  t.calls.length = s.calls.length ∧ actions.countP WorkerAction.isEvent ≤ 5 ∧
    ((∃ outcome, t.point = .ended outcome) ∨ ∃ action, t.Due action)

theorem Sound.windsDown {actions : List (WorkerAction ε)} (h : s.Sound True) (htold : s.Told)
    (hrun : (runWorker ε).run s actions = some t) : s.WindsDown t actions := by
  obtain ⟨ht, hwinds⟩ := h.winds_run htold hrun
  have hrank := hwinds.rank
  have hbound := s.rank_le
  exact ⟨hwinds.calls, by omega, ht.due (hwinds.told htold)⟩

/-- The worker waits for its operation, or for the next poll. -/
def Interruptible (s : RunWorker ε) : Prop :=
  match s.point with
  | .awaiting => ∃ call ∈ s.calls.head?, call.point = .wait
  | .idle _ => True
  | .ended _ => False

theorem cancelled_of_interruptible (h : s.Interruptible) (hstep : s.step .cancel = some t) :
    t.Cancelled := by
  simp only [RunWorker.step] at hstep
  cases hs : s.point <;> rw [hs] at hstep <;> simp only [Interruptible, hs] at h
  case awaiting =>
    obtain ⟨call, hcall, hwait⟩ := h
    have hcalls := List.eq_cons_of_mem_head? hcall
    rw [callStep, hcalls] at hstep
    simp only [List.getElem?_cons_zero, AwaitUntilStopped.step, AwaitUntilStopped.cancel, hwait,
      Option.bind_eq_bind, Option.bind_some, Option.pure_def, Option.some.injEq] at hstep
    subst hstep
    simp only [Cancelled, hs]
    exact ⟨_, rfl, by simp [AwaitUntilStopped.Unwinding]⟩
  case idle =>
    cases hstep
    rfl

end RunWorker

open RunWorker in
/-- Once the stop event is set, the worker winds down, whatever it is doing. -/
theorem stop_winds_down {once stopSet : Bool} {before actions : List (WorkerAction ε)} {s t : RunWorker ε}
    (hbefore : (runWorker ε).run (start once stopSet) before = some s) (hstop : s.stopSet = true)
    (hrun : (runWorker ε).run s actions = some t) : s.WindsDown t actions := by
  have hsound : s.Sound True := (sound_start.run hbefore).mono fun _ => trivial
  exact hsound.windsDown (.inl hstop) hrun

open RunWorker in
/-- A cancellation that finds the worker waiting is never lost: the worker winds down and ends with
it, or with an exception of the operation that it cancelled. -/
theorem cancel_winds_down {once stopSet : Bool} {before actions : List (WorkerAction ε)} {s r t : RunWorker ε}
    (hbefore : (runWorker ε).run (start once stopSet) before = some s) (hwaits : s.Interruptible)
    (hcancel : s.step .cancel = some r) (hrun : (runWorker ε).run r actions = some t) :
    r.WindsDown t actions ∧ ∀ n, t.point ≠ .ended (.returned n) := by
  have hsound : s.Sound True := (sound_start.run hbefore).mono fun _ => trivial
  have hr : r.Sound True := hsound.step (fun _ => trivial) hcancel
  have htold : r.Cancelled := cancelled_of_interruptible hwaits hcancel
  refine ⟨hr.windsDown (.inr htold) hrun, fun n hn => ?_⟩
  have hcancelled := (hr.winds_run (.inr htold) hrun).2.cancelled htold
  simp only [Cancelled, hn] at hcancelled
  exact hcancelled n rfl

section Example

def windingActions : List (WorkerAction String) :=
  [.stopWaitEnds 0, .resume, .operationEnds 0 .cancelled, .resume]

def unwindingActions : List (WorkerAction String) :=
  [.resume, .operationEnds 0 .cancelled, .resume, .stopWaitEnds 0, .resume]

theorem stop_winds_down_idle : ∃ s t : RunWorker String,
    (runWorker String).run (.start false false) [.requestStop] = some s ∧
      (runWorker String).run s windingActions = some t ∧ t.point = .ended (.returned 0) ∧
      s.WindsDown t windingActions := by
  have hrequested : (runWorker String).run (.start false false) [.requestStop] =
      some { RunWorker.start false false with stopSet := true } := rfl
  exact ⟨_, _, hrequested, rfl, rfl, stop_winds_down hrequested rfl rfl⟩

theorem cancel_winds_down_waiting : ∃ r t : RunWorker String,
    (RunWorker.start false false).step .cancel = some r ∧
      (runWorker String).run r unwindingActions = some t ∧ t.point = .ended .cancelled ∧
      r.WindsDown t unwindingActions ∧ ∀ n, t.point ≠ .ended (.returned n) := by
  have hstart : (runWorker String).run (.start false false) [] = some (.start false false) := rfl
  exact ⟨_, _, rfl, rfl, rfl, cancel_winds_down hstart ⟨_, rfl, rfl⟩ rfl rfl⟩

end Example

end AgenticRag.Workers

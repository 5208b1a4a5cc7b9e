import Mathlib.Data.List.Basic

/-! `_await_until_stopped` from one await to the next: the task of the operation, the task that
waits for the stop event, and where a cancellation of the caller goes. -/
namespace AgenticRag.Workers

variable {ε ρ : Type}

inductive Outcome (ε ρ : Type) where
  | returned (value : ρ)
  | raised (error : ε)
  | cancelled
  deriving DecidableEq

/-- A task of the event loop; `cancelling` once its `cancel` was called. -/
inductive AsyncTask (ε ρ : Type) where
  | running (cancelling : Bool)
  | done (outcome : Outcome ε ρ)
  deriving DecidableEq

namespace AsyncTask

def cancel : AsyncTask ε ρ → AsyncTask ε ρ
  | .running _ => .running true
  | .done outcome => .done outcome

def finish (outcome : Outcome ε ρ) : AsyncTask ε ρ → Option (AsyncTask ε ρ)
  | .running _ => some (.done outcome)
  | .done _ => none

/-- `stop_event.wait()` returns once the event is set; its cancellation goes through. -/
def finishWait (stopSet : Bool) : AsyncTask ε Unit → Option (AsyncTask ε Unit)
  | .running true => some (.done .cancelled)
  | .running false => if stopSet then some (.done (.returned ())) else none
  | .done _ => none

def isDone : AsyncTask ε ρ → Bool
  | .running _ => false
  | .done _ => true

/-- What is left to happen to the task itself. -/
def left : AsyncTask ε ρ → Nat
  | .running _ => 1
  | .done _ => 0

theorem left_le (task : AsyncTask ε ρ) : task.left ≤ 1 := by
  cases task <;> simp [left]

theorem isDone_finishWait {stopSet : Bool} {task task' : AsyncTask ε Unit}
    (h : task.finishWait stopSet = some task') : task'.isDone = true := by
  match task, stopSet, h with
  | .running true, _, h => cases h; rfl
  | .running false, true, h => cases h; rfl

theorem ne_of_isDone {task : AsyncTask ε ρ} (h : task.isDone = true) : task ≠ .running false := by
  rintro rfl
  cases h

end AsyncTask

/-- The await at which the call is suspended, or what it ended with. -/
inductive Suspension (ε ρ : Type) where
  | wait
  | join
  | handler
  | stopWait (completion : Outcome ε (Option ρ))
  | ended (completion : Outcome ε (Option ρ))
  deriving DecidableEq

structure AwaitUntilStopped (ε ρ : Type) where
  processing : AsyncTask ε ρ
  stopping : AsyncTask ε Unit
  point : Suspension ε ρ
  /-- `CancelledError` is thrown at the await when the call resumes. -/
  throwing : Bool
  deriving DecidableEq

inductive CallAction (ε ρ : Type) where
  | operationEnds (outcome : Outcome ε ρ)
  | stopWaitEnds
  | cancel
  | resume
  deriving DecidableEq

namespace AwaitUntilStopped

def start : AwaitUntilStopped ε ρ := ⟨.running false, .running false, .wait, false⟩

/-- The `finally` block, left with `completion`. -/
def finish (s : AwaitUntilStopped ε ρ) (completion : Outcome ε (Option ρ)) : AwaitUntilStopped ε ρ :=
  match s.stopping with
  | .running _ => { s with stopping := .running true, point := .stopWait completion, throwing := false }
  | .done _ => { s with point := .ended completion, throwing := false }

/-- `with suppress(CancelledError): await processing`, once the task is done. -/
def afterJoin (s : AwaitUntilStopped ε ρ) (outcome : Outcome ε ρ) (next : Outcome ε (Option ρ)) :
    AwaitUntilStopped ε ρ :=
  match outcome with
  | .raised error => s.finish (.raised error)
  | .returned _ | .cancelled => s.finish next

/-- The `except asyncio.CancelledError` block. -/
def handleCancelled (s : AwaitUntilStopped ε ρ) : AwaitUntilStopped ε ρ :=
  match s.processing with
  | .running _ => { s with processing := .running true, point := .handler, throwing := false }
  | .done outcome => s.afterJoin outcome .cancelled

def afterWait (s : AwaitUntilStopped ε ρ) : Option (AwaitUntilStopped ε ρ) :=
  match s.processing, s.stopping with
  | .done (.returned value), _ => some (s.finish (.returned (some value)))
  | .done (.raised error), _ => some (s.finish (.raised error))
  | .done .cancelled, _ => some s.handleCancelled
  | .running _, .done _ => some { s with processing := .running true, point := .join }
  | .running _, .running _ => none

/-- The await on `processing`: a cancellation thrown there is suppressed with the task's own. -/
def join (s : AwaitUntilStopped ε ρ) (next : Outcome ε (Option ρ)) : Option (AwaitUntilStopped ε ρ) :=
  if s.throwing then some (s.finish next)
  else match s.processing with
    | .running _ => none
    | .done outcome => some (s.afterJoin outcome next)

def resume (s : AwaitUntilStopped ε ρ) : Option (AwaitUntilStopped ε ρ) :=
  match s.point with
  | .wait => if s.throwing then some s.handleCancelled else s.afterWait
  | .join => s.join (.returned none)
  | .handler => s.join .cancelled
  | .stopWait completion =>
    if s.throwing || s.stopping.isDone then some { s with point := .ended completion, throwing := false }
    else none
  | .ended _ => none

/-- `Task.cancel` on the caller goes to the task it awaits, or is thrown if that one is done. -/
def cancel (s : AwaitUntilStopped ε ρ) : Option (AwaitUntilStopped ε ρ) :=
  match s.point with
  | .wait => some { s with throwing := true }
  | .join | .handler =>
    if s.processing.isDone then some { s with throwing := true }
    else some { s with processing := s.processing.cancel }
  | .stopWait _ =>
    if s.stopping.isDone then some { s with throwing := true }
    else some { s with stopping := s.stopping.cancel }
  | .ended _ => none

def step (stopSet : Bool) (s : AwaitUntilStopped ε ρ) :
    CallAction ε ρ → Option (AwaitUntilStopped ε ρ)
  | .operationEnds outcome => (s.processing.finish outcome).map ({ s with processing := · })
  | .stopWaitEnds => (s.stopping.finishWait stopSet).map ({ s with stopping := · })
  | .cancel => s.cancel
  | .resume => s.resume

/-- Neither task of the call is running any more. -/
def Joined (s : AwaitUntilStopped ε ρ) : Prop := s.processing.isDone = true ∧ s.stopping.isDone = true

instance (s : AwaitUntilStopped ε ρ) : Decidable s.Joined := inferInstanceAs (Decidable (_ ∧ _))

/-- What a call may end with: `stopped` says that the stop event was set and `asked` that the
caller was cancelled. -/
def Explains (s : AwaitUntilStopped ε ρ) (stopped asked : Prop) : Outcome ε (Option ρ) → Prop
  | .returned (some value) => s.processing = .done (.returned value)
  | .returned none => stopped
  | .raised error => s.processing = .done (.raised error)
  | .cancelled => asked ∨ s.processing = .done .cancelled

/-- The awaited task was asked to cancel, and a cancellation of the caller is thrown at the
await only if the task is done. -/
def Joining {ρ' : Type} (s : AwaitUntilStopped ε ρ) (task : AsyncTask ε ρ') : Prop :=
  task ≠ .running false ∧ (s.throwing = true → task.isDone = true)

/-- What holds of a call at the await at which it is suspended. -/
def PointSound (stopped asked : Prop) (s : AwaitUntilStopped ε ρ) : Suspension ε ρ → Prop
  | .wait => s.stopping ≠ .running false → s.stopping.isDone = true ∧ stopped
  | .join => stopped ∧ s.stopping.isDone = true ∧ s.Joining s.processing
  | .handler => asked ∧ s.Joining s.processing
  | .stopWait completion =>
    s.processing.isDone = true ∧ s.Joining s.stopping ∧ s.Explains stopped asked completion
  | .ended completion => s.Joined ∧ s.Explains stopped asked completion

structure Sound (stopped asked : Prop) (s : AwaitUntilStopped ε ρ) : Prop where
  throwing : s.throwing = true → asked
  point : s.PointSound stopped asked s.point

variable {stopped asked : Prop} {stopSet : Bool} {s t : AwaitUntilStopped ε ρ}
  {completion next : Outcome ε (Option ρ)} {outcome : Outcome ε ρ} {action : CallAction ε ρ}

theorem sound_start : (start : AwaitUntilStopped ε ρ).Sound stopped asked :=
  ⟨by rintro ⟨⟩, fun h => absurd rfl h⟩

theorem Explains.mono {stopped' asked' : Prop} (h : s.Explains stopped asked completion)
    (hstop : stopped → stopped') (hask : asked → asked') : s.Explains stopped' asked' completion := by
  match completion, h with
  | .returned (some _), h => exact h
  | .returned none, h => exact hstop h
  | .raised _, h => exact h
  | .cancelled, h => exact h.imp_left hask

theorem Sound.mono {stopped' asked' : Prop} (h : s.Sound stopped asked)
    (hstop : stopped → stopped') (hask : asked → asked') : s.Sound stopped' asked' := by
  refine ⟨fun hthrow => hask (h.throwing hthrow), ?_⟩
  have hpoint := h.point
  cases hs : s.point <;> rw [hs] at hpoint
  case wait => exact fun hne => ⟨(hpoint hne).1, hstop (hpoint hne).2⟩
  case join => exact ⟨hstop hpoint.1, hpoint.2⟩
  case handler => exact ⟨hask hpoint.1, hpoint.2⟩
  case stopWait => exact ⟨hpoint.1, hpoint.2.1, hpoint.2.2.mono hstop hask⟩
  case ended => exact ⟨hpoint.1, hpoint.2.mono hstop hask⟩

theorem Explains.congr (h : s.Explains stopped asked completion) (hproc : t.processing = s.processing) :
    t.Explains stopped asked completion := by
  match completion, h with
  | .returned (some _), h => exact hproc.trans h
  | .returned none, h => exact h
  | .raised _, h => exact hproc.trans h
  | .cancelled, h => exact h.imp_right hproc.trans

/-- The `finally` block is entered only with the operation done. -/
theorem sound_finish (hdone : s.processing.isDone = true) (h : s.Explains stopped asked completion) :
    (s.finish completion).Sound stopped asked := by
  unfold finish
  split
  case h_1 => exact ⟨by rintro ⟨⟩, hdone, ⟨by rintro ⟨⟩, by rintro ⟨⟩⟩, h.congr rfl⟩
  case h_2 outcome hstopping =>
    exact ⟨by rintro ⟨⟩, ⟨hdone, by simp [hstopping, AsyncTask.isDone]⟩, h.congr rfl⟩

theorem sound_afterJoin (hproc : s.processing = .done outcome)
    (h : s.Explains stopped asked next) : (s.afterJoin outcome next).Sound stopped asked := by
  have hdone : s.processing.isDone = true := by rw [hproc]; rfl
  cases outcome with
  | raised error => exact sound_finish hdone hproc
  | returned value => exact sound_finish hdone h
  | cancelled => exact sound_finish hdone h

theorem sound_handleCancelled (h : asked ∨ s.processing = .done .cancelled) :
    s.handleCancelled.Sound stopped asked := by
  unfold handleCancelled
  split
  case h_1 _ cancelling hproc =>
    have hasked : asked := h.resolve_right (by rw [hproc]; rintro ⟨⟩)
    exact ⟨by rintro ⟨⟩, hasked, by rintro ⟨⟩, by rintro ⟨⟩⟩
  case h_2 outcome hproc => exact sound_afterJoin hproc h

theorem Sound.afterWait (h : s.Sound stopped asked) (hwait : s.point = .wait)
    (hthrow : s.throwing = false) (hstep : s.afterWait = some t) : t.Sound stopped asked := by
  unfold AwaitUntilStopped.afterWait at hstep
  split at hstep <;> cases hstep
  case h_1 value hproc => exact sound_finish (by rw [hproc]; rfl) hproc
  case h_2 error hproc => exact sound_finish (by rw [hproc]; rfl) hproc
  case h_3 hproc => exact sound_handleCancelled (.inr hproc)
  case h_4 cancelling outcome hproc hstopping =>
    have hpoint := h.point
    rw [hwait] at hpoint
    obtain ⟨hdone, hstop⟩ := hpoint (by rw [hstopping]; rintro ⟨⟩)
    exact ⟨h.throwing, hstop, hdone, by rintro ⟨⟩, fun hthrows => absurd hthrows (by simp [hthrow])⟩

/-- A cancellation that is thrown at the join finds the operation done. -/
theorem Sound.joined (hthrow : s.throwing = true → s.processing.isDone = true)
    (hnext : s.Explains stopped asked next) (hstep : s.join next = some t) :
    t.Sound stopped asked := by
  unfold AwaitUntilStopped.join at hstep
  split at hstep
  case isTrue h =>
    cases hstep
    exact sound_finish (hthrow h) hnext
  case isFalse =>
    split at hstep <;> cases hstep
    case h_2 outcome hproc => exact sound_afterJoin hproc hnext

theorem Sound.resume (h : s.Sound stopped asked) (hstep : s.resume = some t) :
    t.Sound stopped asked := by
  have hpoint := h.point
  unfold AwaitUntilStopped.resume at hstep
  cases hs : s.point <;> rw [hs] at hpoint hstep
  case wait =>
    cases hthrow : s.throwing <;> simp only [hthrow, Bool.false_eq_true, if_false, if_true] at hstep
    case false => exact h.afterWait hs hthrow hstep
    case true =>
      cases hstep
      exact sound_handleCancelled (.inl (h.throwing hthrow))
  case join =>
    have hnone : s.Explains stopped asked (.returned none) := hpoint.1
    exact Sound.joined hpoint.2.2.2 hnone hstep
  case handler =>
    have hcancelled : s.Explains stopped asked .cancelled := .inl hpoint.1
    exact Sound.joined hpoint.2.2 hcancelled hstep
  case stopWait completion =>
    simp only [Option.ite_none_right_eq_some, Option.some.injEq, Bool.or_eq_true] at hstep
    obtain ⟨hready, rfl⟩ := hstep
    exact ⟨by rintro ⟨⟩, ⟨hpoint.1, hready.elim hpoint.2.1.2 id⟩, hpoint.2.2.congr rfl⟩
  case ended => cases hstep

theorem Sound.cancel (h : s.Sound stopped asked) (hask : asked) (hstep : s.cancel = some t) :
    t.Sound stopped asked := by
  obtain ⟨processing, stopping, point, throwing⟩ := s
  obtain ⟨hthrow, hpoint⟩ := h
  cases point <;> simp only [AwaitUntilStopped.cancel] at hstep
  case wait =>
    cases hstep
    exact ⟨fun _ => hask, hpoint⟩
  case join =>
    cases processing <;> cases hstep
    case running => exact ⟨fun _ => hask, hpoint.1, hpoint.2.1, by rintro ⟨⟩, hpoint.2.2.2⟩
    case done => exact ⟨fun _ => hask, hpoint.1, hpoint.2.1, hpoint.2.2.1, fun _ => rfl⟩
  case handler =>
    cases processing <;> cases hstep
    case running => exact ⟨fun _ => hask, hask, by rintro ⟨⟩, hpoint.2.2⟩
    case done => exact ⟨fun _ => hask, hask, hpoint.2.1, fun _ => rfl⟩
  case stopWait completion =>
    cases stopping <;> cases hstep
    case running =>
      exact ⟨fun _ => hask, hpoint.1, ⟨by rintro ⟨⟩, hpoint.2.1.2⟩, hpoint.2.2.congr rfl⟩
    case done =>
      exact ⟨fun _ => hask, hpoint.1, ⟨hpoint.2.1.1, fun _ => rfl⟩, hpoint.2.2.congr rfl⟩
  case ended => cases hstep

theorem Sound.operationEnds (h : s.Sound stopped asked)
    (hstep : s.step stopSet (.operationEnds outcome) = some t) : t.Sound stopped asked := by
  obtain ⟨processing, stopping, point, throwing⟩ := s
  obtain ⟨hthrow, hpoint⟩ := h
  cases processing <;> cases hstep
  case running cancelling =>
    cases point
    case wait => exact ⟨hthrow, hpoint⟩
    case join => exact ⟨hthrow, hpoint.1, hpoint.2.1, by rintro ⟨⟩, fun _ => rfl⟩
    case handler => exact ⟨hthrow, hpoint.1, by rintro ⟨⟩, fun _ => rfl⟩
    case stopWait => cases hpoint.1
    case ended => cases hpoint.1.1

theorem Sound.stopWaitEnds (h : s.Sound stopped asked) (hstop : stopSet = true → stopped)
    (hstep : s.step stopSet .stopWaitEnds = some t) : t.Sound stopped asked := by
  obtain ⟨processing, stopping, point, throwing⟩ := s
  obtain ⟨hthrow, hpoint⟩ := h
  obtain ⟨task, htask, rfl⟩ := Option.map_eq_some_iff.mp hstep
  cases point
  case wait =>
    refine ⟨hthrow, fun _ => ?_⟩
    match stopping, stopSet, htask with
    | .running true, _, htask => exact ⟨by cases htask; rfl, (hpoint (by rintro ⟨⟩)).2⟩
    | .running false, true, htask => exact ⟨by cases htask; rfl, hstop rfl⟩
  case join =>
    cases stopping with
    | running => cases hpoint.2.1
    | done => cases htask
  case handler => exact ⟨hthrow, hpoint⟩
  case stopWait completion =>
    have hdone : task.isDone = true := AsyncTask.isDone_finishWait htask
    exact ⟨hthrow, hpoint.1, ⟨AsyncTask.ne_of_isDone hdone, fun _ => hdone⟩, hpoint.2.2.congr rfl⟩
  case ended completion =>
    cases stopping with
    | running => cases hpoint.1.2
    | done => cases htask

theorem Sound.step (h : s.Sound stopped asked) (hstop : stopSet = true → stopped)
    (hask : action = .cancel → asked) (hstep : s.step stopSet action = some t) :
    t.Sound stopped asked := by
  cases action with
  | operationEnds outcome => exact h.operationEnds hstep
  | stopWaitEnds => exact h.stopWaitEnds hstop hstep
  | cancel => exact h.cancel (hask rfl) hstep
  | resume => exact h.resume hstep

/-- Nothing happens to a call that has ended. -/
theorem Sound.open_of_step (h : s.Sound stopped asked) (hstep : s.step stopSet action = some t) :
    ∀ completion, s.point ≠ .ended completion := by
  obtain ⟨processing, stopping, point, throwing⟩ := s
  rintro completion rfl
  have hjoined : (⟨processing, stopping, .ended completion, throwing⟩ : AwaitUntilStopped ε ρ).Joined :=
    h.point.1
  cases action with
  | operationEnds outcome =>
    cases processing with
    | running => cases hjoined.1
    | done => cases hstep
  | stopWaitEnds =>
    cases stopping with
    | running => cases hjoined.2
    | done => cases hstep
  | cancel => cases hstep
  | resume => cases hstep

theorem point_step (hne : action ≠ .resume) (hstep : s.step stopSet action = some t) :
    t.point = s.point := by
  obtain ⟨processing, stopping, point, throwing⟩ := s
  cases action with
  | operationEnds outcome =>
    obtain ⟨_, -, rfl⟩ := Option.map_eq_some_iff.mp hstep
    rfl
  | stopWaitEnds =>
    obtain ⟨_, -, rfl⟩ := Option.map_eq_some_iff.mp hstep
    rfl
  | cancel =>
    cases point <;> simp only [AwaitUntilStopped.step, AwaitUntilStopped.cancel] at hstep
    case wait => cases hstep; rfl
    case ended => cases hstep
    case stopWait => cases stopping <;> cases hstep <;> rfl
    all_goals cases processing <;> cases hstep <;> rfl
  | resume => exact absurd rfl hne

/-- A call that returned a value may be followed by one more await of its caller. -/
def weight : Outcome ε (Option ρ) → Nat
  | .returned (some _) => 1
  | .returned none | .raised _ | .cancelled => 0

def Suspension.rank : Suspension ε ρ → Nat
  | .wait => 3
  | .join | .handler => 2
  | .stopWait completion => 1 + weight completion
  | .ended completion => weight completion

/-- How many events of the event loop the call has still before it. -/
def rank (s : AwaitUntilStopped ε ρ) : Nat :=
  Suspension.rank s.point + s.processing.left + s.stopping.left

theorem weight_le (completion : Outcome ε (Option ρ)) : weight completion ≤ 1 := by
  unfold weight
  split <;> omega

theorem rank_le (s : AwaitUntilStopped ε ρ) : s.rank ≤ 5 := by
  have hpoint : Suspension.rank s.point ≤ 3 := by
    unfold Suspension.rank
    split
    case h_4 _ completion _ => have := weight_le completion; omega
    case h_5 _ completion _ => have := weight_le completion; omega
    all_goals omega
  have hprocessing := s.processing.left_le
  have hstopping := s.stopping.left_le
  unfold rank
  omega

theorem rank_finish (s : AwaitUntilStopped ε ρ) (completion : Outcome ε (Option ρ)) : (s.finish completion).rank ≤ 1 + weight completion + s.processing.left + s.stopping.left := by
  unfold finish
  split <;> simp only [rank, Suspension.rank, AsyncTask.left, *] <;> omega

theorem rank_afterJoin (hnext : weight next = 0) :
    (s.afterJoin outcome next).rank ≤ 1 + s.processing.left + s.stopping.left := by
  cases outcome with
  | raised error => simpa [afterJoin, weight] using rank_finish s (.raised error)
  | returned value => simpa [afterJoin, hnext] using rank_finish s next
  | cancelled => simpa [afterJoin, hnext] using rank_finish s next

theorem rank_handleCancelled :
    s.handleCancelled.rank ≤ 2 + s.processing.left + s.stopping.left := by
  unfold handleCancelled
  split
  case h_1 _ _ hproc => simp [rank, Suspension.rank, hproc, AsyncTask.left]
  case h_2 outcome hproc =>
    have hrank : (s.afterJoin outcome .cancelled).rank ≤ 1 + s.processing.left + s.stopping.left :=
      rank_afterJoin rfl
    omega

theorem rank_resume (hstep : s.resume = some t) : t.rank < s.rank := by
  unfold resume at hstep
  cases hs : s.point <;> rw [hs] at hstep <;> simp only at hstep
  case wait =>
    have hrank : s.rank = 3 + s.processing.left + s.stopping.left := by rw [rank, hs]; rfl
    split at hstep
    case isTrue =>
      cases hstep
      exact Nat.lt_of_le_of_lt rank_handleCancelled (by omega)
    case isFalse =>
      unfold afterWait at hstep
      split at hstep <;> cases hstep
      case h_1 => exact Nat.lt_of_le_of_lt (rank_finish _ _) (by simp only [weight]; omega)
      case h_2 => exact Nat.lt_of_le_of_lt (rank_finish _ _) (by simp only [weight]; omega)
      case h_3 => exact Nat.lt_of_le_of_lt rank_handleCancelled (by omega)
      case h_4 hproc _ => simp [rank, Suspension.rank, hproc, hs, AsyncTask.left]
  case stopWait =>
    simp only [Option.ite_none_right_eq_some, Option.some.injEq] at hstep
    obtain ⟨-, rfl⟩ := hstep
    simp only [rank, Suspension.rank, hs]
    omega
  case ended => cases hstep
  all_goals
    have hrank : s.rank = 2 + s.processing.left + s.stopping.left := by rw [rank, hs]; rfl
    unfold join at hstep
    split at hstep
    case isTrue =>
      cases hstep
      exact Nat.lt_of_le_of_lt (rank_finish _ _) (by simp only [weight]; omega)
    case isFalse =>
      split at hstep <;> cases hstep
      exact Nat.lt_of_le_of_lt (rank_afterJoin rfl) (by omega)

theorem rank_cancel (hstep : s.step stopSet .cancel = some t) : t.rank = s.rank := by
  obtain ⟨processing, stopping, point, throwing⟩ := s
  cases point <;> simp only [AwaitUntilStopped.step, cancel] at hstep
  case wait => cases hstep; rfl
  case ended => cases hstep
  case stopWait => cases stopping <;> cases hstep <;> rfl
  all_goals cases processing <;> cases hstep <;> rfl

/-- Every event but a cancellation of the caller brings the call closer to its end. -/
theorem rank_step (hstep : s.step stopSet action = some t) (hne : action ≠ .cancel) :
    t.rank < s.rank := by
  cases action with
  | operationEnds outcome =>
    obtain ⟨processing, stopping, point, throwing⟩ := s
    cases processing <;> cases hstep
    simp [rank, AsyncTask.left]
  | stopWaitEnds =>
    obtain ⟨task, htask, rfl⟩ := Option.map_eq_some_iff.mp hstep
    have hdone := AsyncTask.isDone_finishWait htask
    obtain ⟨processing, stopping, point, throwing⟩ := s
    cases stopping with
    | running => cases task with
      | running => cases hdone
      | done => simp [rank, AsyncTask.left]
    | done => cases htask
  | cancel => exact absurd rfl hne
  | resume => exact rank_resume hstep

/-- The caller's cancellation is on its way out of the call. -/
def Unwinding (s : AwaitUntilStopped ε ρ) : Prop :=
  match s.point with
  | .wait => s.throwing = true
  | .join => False
  | .handler => True
  | .stopWait completion | .ended completion => ∀ value, completion ≠ .returned value

theorem unwinding_finish (h : ∀ value, completion ≠ .returned value) :
    (s.finish completion).Unwinding := by
  unfold finish
  split <;> exact h

theorem unwinding_afterJoin (h : ∀ value, next ≠ .returned value) :
    (s.afterJoin outcome next).Unwinding := by
  cases outcome with
  | raised error => exact unwinding_finish (by rintro _ ⟨⟩)
  | returned value => exact unwinding_finish h
  | cancelled => exact unwinding_finish h

theorem unwinding_handleCancelled : s.handleCancelled.Unwinding := by
  unfold handleCancelled
  split
  case h_1 => trivial
  case h_2 => exact unwinding_afterJoin (by rintro _ ⟨⟩)

theorem Unwinding.step (h : s.Unwinding) (hstep : s.step stopSet action = some t) : t.Unwinding := by
  obtain ⟨processing, stopping, point, throwing⟩ := s
  cases action with
  | operationEnds outcome =>
    obtain ⟨_, -, rfl⟩ := Option.map_eq_some_iff.mp hstep
    exact h
  | stopWaitEnds =>
    obtain ⟨_, -, rfl⟩ := Option.map_eq_some_iff.mp hstep
    exact h
  | cancel =>
    cases point <;> simp only [AwaitUntilStopped.step, cancel] at hstep
    case wait => cases hstep; rfl
    case join => exact h.elim
    case handler => cases processing <;> cases hstep <;> trivial
    case stopWait => cases stopping <;> cases hstep <;> exact h
    case ended => cases hstep
  | resume =>
    cases point <;> simp only [AwaitUntilStopped.step, resume] at hstep
    case wait =>
      obtain rfl : throwing = true := h
      cases hstep
      exact unwinding_handleCancelled
    case join => exact h.elim
    case handler =>
      unfold join at hstep
      split at hstep
      case isTrue => cases hstep; exact unwinding_finish (by rintro _ ⟨⟩)
      case isFalse => split at hstep <;> cases hstep; exact unwinding_afterJoin (by rintro _ ⟨⟩)
    case stopWait =>
      simp only [Option.ite_none_right_eq_some, Option.some.injEq] at hstep
      obtain ⟨-, rfl⟩ := hstep
      exact h
    case ended => cases hstep

/-- An event that needs nothing of the operation but that it ends once it was cancelled. -/
def Due (stopSet : Bool) (s : AwaitUntilStopped ε ρ) (action : CallAction ε ρ) : Prop :=
  (s.step stopSet action).isSome = true ∧ action ≠ .cancel ∧
    ∀ outcome, action = .operationEnds outcome → s.processing = .running true

theorem due_operationEnds (h : s.processing = .running true) :
    s.Due stopSet (.operationEnds .cancelled) :=
  ⟨by simp [AwaitUntilStopped.step, h, AsyncTask.finish], by rintro ⟨⟩, fun _ _ => h⟩

theorem due_resume (h : s.resume.isSome = true) : s.Due stopSet .resume :=
  ⟨h, by rintro ⟨⟩, by rintro _ ⟨⟩⟩

theorem due_stopWaitEnds (h : (s.stopping.finishWait stopSet).isSome = true) :
    s.Due stopSet .stopWaitEnds :=
  ⟨by simpa [AwaitUntilStopped.step] using h, by rintro ⟨⟩, by rintro _ ⟨⟩⟩

theorem join_isSome (h : s.processing.isDone = true) : (s.join next).isSome = true := by
  unfold join
  split
  · rfl
  · split
    case h_1 hproc => rw [hproc] at h; cases h
    case h_2 => rfl

theorem due_join (hasked : s.processing ≠ .running false)
    (hresume : s.resume = s.join next) : ∃ action, s.Due stopSet action := by
  cases hproc : s.processing with
  | done outcome => exact ⟨.resume, due_resume (hresume ▸ join_isSome (by rw [hproc]; rfl))⟩
  | running cancelling =>
    cases cancelling
    · exact absurd hproc hasked
    · exact ⟨_, due_operationEnds hproc⟩

/-- Once a stop is set or a cancellation thrown, the call waits for nothing that was not told
to end. -/
theorem Sound.due (h : s.Sound stopped asked) (hwind : stopSet = true ∨ s.Unwinding)
    (hopen : ∀ completion, s.point ≠ .ended completion) : ∃ action, s.Due stopSet action := by
  have hpoint := h.point
  cases hs : s.point <;> rw [hs] at hpoint
  case wait =>
    cases hthrow : s.throwing
    case true => exact ⟨.resume, due_resume (by simp [AwaitUntilStopped.resume, hs, hthrow])⟩
    case false =>
      have hset : stopSet = true := hwind.resolve_right fun hunwind => by
        simp [Unwinding, hs, hthrow] at hunwind
      cases hstopping : s.stopping with
      | done outcome =>
        refine ⟨.resume, due_resume ?_⟩
        simp only [AwaitUntilStopped.resume, hs, hthrow, Bool.false_eq_true, if_false,
          AwaitUntilStopped.afterWait, hstopping]
        split <;> simp_all
      | running cancelling =>
        exact ⟨.stopWaitEnds, due_stopWaitEnds (by cases cancelling <;> simp [hstopping, AsyncTask.finishWait, hset])⟩
  case join =>
    have hresume : s.resume = s.join (.returned none) := by simp [AwaitUntilStopped.resume, hs]
    exact due_join hpoint.2.2.1 hresume
  case handler =>
    have hresume : s.resume = s.join .cancelled := by simp [AwaitUntilStopped.resume, hs]
    exact due_join hpoint.2.1 hresume
  case stopWait completion =>
    cases hstopping : s.stopping with
    | done outcome => exact ⟨.resume, due_resume (by simp [AwaitUntilStopped.resume, hs, hstopping, AsyncTask.isDone])⟩
    | running cancelling =>
      cases cancelling
      · exact absurd hstopping hpoint.2.1.1
      · exact ⟨.stopWaitEnds, due_stopWaitEnds (by simp [hstopping, AsyncTask.finishWait])⟩
  case ended completion => exact absurd hs (hopen completion)

@[simp] theorem processing_finish : (s.finish next).processing = s.processing := by
  unfold finish
  split <;> rfl

@[simp] theorem processing_afterJoin : (s.afterJoin outcome next).processing = s.processing := by
  cases outcome <;> simp [afterJoin]

theorem done_of_handleCancelled (hdone : s.handleCancelled.processing = .done outcome) :
    s.processing = .done outcome := by
  unfold handleCancelled at hdone
  split at hdone
  · cases hdone
  · simpa using hdone

theorem done_of_join (hstep : s.join next = some t) (hdone : t.processing = .done outcome) :
    s.processing = .done outcome := by
  unfold join at hstep
  split at hstep
  · cases hstep
    simpa using hdone
  · split at hstep <;> cases hstep
    simpa using hdone

theorem done_of_afterWait (hstep : s.afterWait = some t) (hdone : t.processing = .done outcome) :
    s.processing = .done outcome := by
  unfold afterWait at hstep
  split at hstep <;> cases hstep
  · simpa using hdone
  · simpa using hdone
  · exact done_of_handleCancelled hdone
  · cases hdone

theorem done_of_resume (hstep : s.resume = some t) (hdone : t.processing = .done outcome) :
    s.processing = .done outcome := by
  unfold resume at hstep
  split at hstep
  case h_1 =>
    split at hstep
    · cases hstep
      exact done_of_handleCancelled hdone
    · exact done_of_afterWait hstep hdone
  case h_2 => exact done_of_join hstep hdone
  case h_3 => exact done_of_join hstep hdone
  case h_4 =>
    split at hstep <;> cases hstep
    exact hdone
  case h_5 => cases hstep

theorem done_of_cancel (hstep : s.cancel = some t) (hdone : t.processing = .done outcome) :
    s.processing = .done outcome := by
  obtain ⟨processing, stopping, point, throwing⟩ := s
  cases point <;> simp only [AwaitUntilStopped.cancel] at hstep
  case wait => cases hstep; exact hdone
  case ended => cases hstep
  case stopWait => cases stopping <;> cases hstep <;> exact hdone
  all_goals
    cases processing <;> cases hstep
    · cases hdone
    · exact hdone

/-- The task of the operation is done with what it ended with. -/
theorem done_of_step (hstep : s.step stopSet action = some t) (hdone : t.processing = .done outcome) :
    s.processing = .done outcome ∨ action = .operationEnds outcome := by
  cases action with
  | operationEnds outcome' =>
    obtain ⟨task, htask, rfl⟩ := Option.map_eq_some_iff.mp hstep
    obtain rfl : task = .done outcome := hdone
    cases hs : s.processing with
    | running cancelling =>
      rw [hs] at htask
      cases htask
      exact .inr rfl
    | done =>
      rw [hs] at htask
      cases htask
  | stopWaitEnds =>
    obtain ⟨_, _, rfl⟩ := Option.map_eq_some_iff.mp hstep
    exact .inl hdone
  | cancel => exact .inl (done_of_cancel hstep hdone)
  | resume => exact .inl (done_of_resume hstep hdone)

end AwaitUntilStopped

end AgenticRag.Workers

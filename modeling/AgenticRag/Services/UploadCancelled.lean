import AgenticRag.Services.UploadInterrupted

/-! An upload that is cancelled before its rows are looked up leaves no file, unless the effect
of a thread comes when no cleanup of it is ahead any more. -/
namespace AgenticRag.Services
open Lib Python Db Ingestion Security

section Stages

/-- The temporary file may be there, and its `unlink` is ahead. -/
def TaskStage.holdsTemporary : TaskStage → Bool
  | .read => true
  | .awaiting .open status => status == .finished false
  | .awaiting (.write _) _ | .awaiting .flush _ | .awaiting .fsync _ | .awaiting (.close _) _ => true
  | .awaiting .replace status => status != .finished false
  | .awaiting (.unlink _) status => status == .queued || status == .running
  | _ => false

/-- The published file may be there, as a committed one or with its `unlink` ahead. -/
def TaskStage.holdsTarget : TaskStage → Bool
  | .awaiting .replace status => status == .finished false
  | .awaiting (.deleteDuplicate _) status | .awaiting .deleteConflict status
  | .awaiting (.cleanup _) status => status == .queued || status == .running
  | .select | .digest | .flush | .commit _ _ => true
  | .ended (.ok _) => true
  | _ => false

variable {stage stage' : TaskStage}

theorem Quiet.holdsTemporary (h : Quiet stage stage') (hstage : stage.holdsTemporary = true) :
    stage'.holdsTemporary = true := by
  cases h with
  | start point => cases point <;> exact hstage
  | returned h => cases h <;> first | rfl | cases hstage
  | raised h => cases h <;> first | rfl | cases hstage
  | _ => first | rfl | cases hstage

theorem Quiet.holdsTarget (h : Quiet stage stage') (hstage : stage.holdsTarget = true) :
    stage'.holdsTarget = true := by
  cases h with
  | start point => cases point <;> exact hstage
  | returned h => cases h <;> first | rfl | cases hstage
  | raised h => cases h <;> first | rfl | cases hstage
  | _ => first | rfl | cases hstage

end Stages

section Conditions

/-- A cancellation here forgets a file: `replace` has taken effect, or the `unlink` of the
cleanup has no thread yet and is withdrawn. -/
def UploadTask.forgets (task : UploadTask) : Bool :=
  match task.stage with
  | .awaiting .replace status => status == .finished false
  | .awaiting (.unlink _) status => status == .queued && task.temporary.isSome
  | .awaiting (.cleanup _) status => status == .queued
  | _ => false

def TaskStage.willUnlink : TaskStage → Bool
  | .awaiting (.unlink _) status => status == .queued || status == .running
  | _ => false

def TaskStage.removes : TaskStage → Bool
  | .awaiting point _ => point.function == .unlink || point.function == .delete
  | _ => false

/-- No file is forgotten: neither by a cancellation before the transaction begins, nor by an
effect that comes late, `open` after the `unlink` or `replace` before it; and no `unlink` fails. -/
def Orderly (task : UploadTask) : TaskAction → Prop
  | .cancel _ => task.began = true ∨ task.forgets = false
  | .landThread fails => task.stage.removes = true → fails = false
  | .landLate .open fails => fails = true ∨ task.stage.willUnlink = true
  | .landLate .replace fails => fails = true ∨ task.temporary = none
  | .landLate .unlink fails => fails = false
  | .landLate .delete fails => fails = false
  | _ => True

instance decidableOrderly (task : UploadTask) (action : TaskAction) :
    Decidable (Orderly task action) := by
  unfold Orderly
  split <;> infer_instance

end Conditions

section Invariant

/-- A file of a call that is there has its `unlink` ahead, or is the file of a committed row. -/
structure UploadTask.Tidy (task : UploadTask) : Prop extends task.Sound where
  temporary : task.began = false ∨ task.cancelled = false → task.temporary.isSome →
    task.stage.holdsTemporary = true ∨ .unlink ∈ task.late
  target : task.began = false ∨ task.cancelled = false → task.target.isSome →
    task.stage.holdsTarget = true ∨ .delete ∈ task.late

namespace UploadTask.Tidy
variable {db db' : Database} {task task' : UploadTask} {action : TaskAction}

theorem begin (request : UploadRequest) (documentId : UUID) :
    (UploadTask.begin request documentId).Tidy := by
  refine ⟨Sound.begin request documentId, ?_, ?_⟩
  · unfold UploadTask.begin
    simp only
    split <;> rintro _ ⟨⟩
  · unfold UploadTask.begin
    simp only
    split <;> rintro _ ⟨⟩

/-- Files and threads stay, and the cleanup that is ahead of a file stays ahead. -/
theorem of_monotone (h : task.Tidy) (hsound : task'.Sound) (htemporary : task'.temporary = task.temporary)
    (htarget : task'.target = task.target) (hlate : task'.late = task.late)
    (hscope : task'.began = false ∨ task'.cancelled = false → task.began = false ∨ task.cancelled = false)
    (hmono : task.stage.holdsTemporary = true → task'.stage.holdsTemporary = true)
    (hmono' : task.stage.holdsTarget = true → task'.stage.holdsTarget = true) : task'.Tidy where
  toSound := hsound
  temporary := by
    intro hs ht
    rw [htemporary] at ht
    rw [hlate]
    exact (h.temporary (hscope hs) ht).imp_left hmono
  target := by
    intro hs ht
    rw [htarget] at ht
    rw [hlate]
    exact (h.target (hscope hs) ht).imp_left hmono'

/-- The effect of a thread that the call awaits. -/
theorem of_landed {point : ThreadPoint} {landed : UploadTask} (h : task.Tidy)
    (hstage : task.stage = .awaiting point .running) (heffect : point.function.land task = some landed)
    (hsound : (landed.goto (.awaiting point (.finished false))).Sound) :
    (landed.goto (.awaiting point (.finished false))).Tidy := by
  have hold := h.temporary
  have hold' := h.target
  rw [hstage] at hold hold'
  cases point with
  | «open» =>
    simp only [ThreadPoint.function, ThreadFunction.land] at heffect
    split at heffect <;> cases heffect
    exact ⟨hsound, fun _ _ => .inl rfl, hold'⟩
  | write chunk =>
    cases heffect
    exact ⟨hsound, fun _ _ => .inl rfl, hold'⟩
  | replace =>
    obtain ⟨content, _, rfl⟩ := Option.map_eq_some_iff.mp heffect
    exact ⟨hsound, by rintro _ ⟨⟩, fun _ _ => .inl rfl⟩
  | unlink r =>
    cases heffect
    exact ⟨hsound, by rintro _ ⟨⟩, hold'⟩
  | deleteDuplicate | deleteConflict | cleanup =>
    cases heffect
    exact ⟨hsound, hold, by rintro _ ⟨⟩⟩
  | mkdir | resolve | flush | fsync | close =>
    cases heffect
    exact ⟨hsound, hold, hold'⟩

/-- A late effect that leaves a temporary file finds it, or has its `unlink` ahead. -/
private theorem late_temporary {function : ThreadFunction} {fails : Bool}
    (horderly : Orderly task (.landLate function fails))
    (h : (task.landLate function fails).temporary.isSome) :
    .unlink ≠ function ∧ (task.temporary.isSome ∨ task.stage.holdsTemporary = true) := by
  cases fails with
  | true =>
    refine ⟨?_, .inl h⟩
    rintro rfl
    cases horderly
  | false =>
    cases function with
    | «open» =>
      refine ⟨by rintro ⟨⟩, .inr ?_⟩
      have hunlink := horderly.resolve_left Bool.false_ne_true
      cases hstage : task.stage with
      | awaiting point status =>
        rw [hstage] at hunlink
        cases point <;> first | exact hunlink | cases hunlink
      | _ =>
        rw [hstage] at hunlink
        cases hunlink
    | write chunk =>
      refine ⟨by rintro ⟨⟩, .inl ?_⟩
      simpa [UploadTask.landLate, ThreadFunction.land] using h
    | replace =>
      refine ⟨by rintro ⟨⟩, .inl ?_⟩
      cases ht : task.temporary with
      | none => simp [UploadTask.landLate, ThreadFunction.land, ht] at h
      | some => rfl
    | unlink => cases h
    | _ => exact ⟨by rintro ⟨⟩, .inl h⟩

/-- A late effect that leaves a published file finds it. -/
private theorem late_target {function : ThreadFunction} {fails : Bool}
    (horderly : Orderly task (.landLate function fails))
    (h : (task.landLate function fails).target.isSome) :
    .delete ≠ function ∧ task.target.isSome := by
  cases fails with
  | true =>
    refine ⟨?_, h⟩
    rintro rfl
    cases horderly
  | false =>
    cases function with
    | «open» =>
      refine ⟨by rintro ⟨⟩, ?_⟩
      cases ht : task.temporary <;> simpa [UploadTask.landLate, ThreadFunction.land, ht] using h
    | replace =>
      refine ⟨by rintro ⟨⟩, ?_⟩
      have hnone := horderly.resolve_left Bool.false_ne_true
      simpa [UploadTask.landLate, ThreadFunction.land, hnone] using h
    | delete => cases h
    | _ => exact ⟨by rintro ⟨⟩, h⟩

/-- The effect of a thread that is no longer awaited. -/
theorem of_late {function : ThreadFunction} {fails : Bool} (h : task.Tidy)
    (horderly : Orderly task (.landLate function fails))
    (hsound : (task.landLate function fails).Sound) : (task.landLate function fails).Tidy := by
  have hsame := landLate_same task function fails
  have hstage : (task.landLate function fails).stage = task.stage := by rw [hsame]
  have hlate : (task.landLate function fails).late = task.late.erase function := by rw [hsame]
  have hscope (hs : (task.landLate function fails).began = false ∨
      (task.landLate function fails).cancelled = false) : task.began = false ∨ task.cancelled = false := by
    rwa [hsame] at hs
  refine ⟨hsound, fun hs ht => ?_, fun hs ht => ?_⟩
  · obtain ⟨hne, hfound⟩ := late_temporary horderly ht
    rw [hstage, hlate]
    rcases hfound with hfound | hunlink
    · exact (h.temporary (hscope hs) hfound).imp_right (List.mem_erase_of_ne hne).mpr
    · exact .inl hunlink
  · obtain ⟨hne, hfound⟩ := late_target horderly ht
    rw [hstage, hlate]
    exact (h.target (hscope hs) hfound).imp_right (List.mem_erase_of_ne hne).mpr

/-- The call is cancelled while it awaits a thread. -/
theorem of_cancelled {point : ThreadPoint} {status : ThreadStatus} {stage : TaskStage} (h : task.Tidy)
    (hawaiting : task.stage = .awaiting point status) (hnext : RaisesTo point stage)
    (horderly : Orderly task (.cancel false))
    (hsound : ({ task with
      late := if status = ThreadStatus.running then point.function :: task.late else task.late
      cancelled := true }.goto stage).Sound) :
    ({ task with
      late := if status = ThreadStatus.running then point.function :: task.late else task.late
      cancelled := true }.goto stage).Tidy := by
  have hlate {function : ThreadFunction} (hmem : function ∈ task.late) : function ∈
      (if status = ThreadStatus.running then point.function :: task.late else task.late) := by
    split
    · exact List.mem_cons_of_mem _ hmem
    · exact hmem
  have hunbegun (hs : task.began = false ∨ true = false) : task.began = false ∧ task.forgets = false := by
    have hbegan := hs.resolve_right Bool.noConfusion
    refine ⟨hbegan, horderly.resolve_left ?_⟩
    rw [hbegan]
    exact Bool.false_ne_true
  have hold (hs : task.began = false ∨ true = false) := h.temporary (.inl (hunbegun hs).1)
  have hold' (hs : task.began = false ∨ true = false) := h.target (.inl (hunbegun hs).1)
  have hforgets (hs : task.began = false ∨ true = false) := (hunbegun hs).2
  unfold UploadTask.forgets at hforgets
  rw [hawaiting] at hold hold' hforgets
  refine ⟨hsound, fun hs ht => ?_, fun hs ht => ?_⟩
  · replace hold := hold hs ht
    replace hforgets := hforgets hs
    cases hnext with
    | unlink raising r =>
      cases status with
      | queued => exact absurd (hforgets.symm.trans ht) Bool.false_ne_true
      | running => exact .inr List.mem_cons_self
      | finished raised => exact .inr (hold.resolve_left Bool.false_ne_true)
    | opening | write | flush | fsync | close | replace => exact .inl rfl
    | _ => exact hold.imp_right hlate
  · replace hold' := hold' hs ht
    replace hforgets := hforgets hs
    cases hnext with
    | replace r => exact .inr (hlate (hold'.resolve_left (ne_true_of_eq_false hforgets)))
    | cleanup raising r =>
      cases status with
      | queued => cases hforgets
      | running => exact .inr List.mem_cons_self
      | finished raised => exact .inr (hold'.resolve_left Bool.false_ne_true)
    | deleteDuplicate | deleteConflict => exact .inl rfl
    | _ => exact hold'.imp_right hlate

theorem step (h : task.Tidy) (horderly : Orderly task action)
    (hmove : Moves db task action db' task') : task'.Tidy := by
  have hsound : task'.Sound := h.toSound.step hmove
  cases hmove with
  | quiet same move _ =>
    exact h.of_monotone hsound same.temporary same.target same.late
      (by rw [same.began, same.cancelled]; exact fun hs => hs) move.holdsTemporary move.holdsTarget
  | landed hstage heffect => exact h.of_landed hstage heffect hsound
  | @failed point fails hstage heffect =>
    have hremoves : task.stage.removes = false := by
      by_contra hr
      rw [horderly (Bool.eq_true_of_not_eq_false hr)] at heffect
      rw [hstage] at hr
      cases point <;> first | cases heffect.resolve_left Bool.false_ne_true | exact hr rfl
    rw [hstage] at hremoves
    refine h.of_monotone hsound rfl rfl rfl (fun hs => hs) ?_ ?_
    · rw [hstage]
      cases point <;> first | exact fun hs => hs | exact fun _ => rfl | cases hremoves
    · rw [hstage]
      cases point <;> first | exact fun hs => hs | exact fun _ => rfl | cases hremoves
  | late fails running => exact h.of_late horderly hsound
  | began selecting next =>
    have hcancelled := h.uncancelled (by rw [selecting]; rfl)
    refine h.of_monotone hsound rfl rfl rfl (fun _ => .inr hcancelled) ?_ ?_
    · rw [selecting]
      rintro ⟨⟩
    · rcases next with ⟨rfl, _⟩ | ⟨_, rfl⟩ <;> exact fun _ => rfl
  | flushed jobId flushing _ _ =>
    refine h.of_monotone hsound rfl rfl rfl (fun hs => hs) ?_ (fun _ => rfl)
    rw [flushing]
    rintro ⟨⟩
  | resolving selecting _ =>
    refine h.of_monotone hsound rfl rfl rfl (fun hs => hs) ?_ ?_
    · rw [selecting]
      rintro ⟨⟩
    · rw [selecting]
      rintro ⟨⟩
  | committed committing rows next flag =>
    have hcancelled := h.uncancelled (by rw [committing]; rfl)
    refine h.of_monotone hsound rfl rfl rfl (fun _ => .inr hcancelled) ?_ ?_
    · rw [committing]
      rintro ⟨⟩
    · rcases next with ⟨rfl, _⟩ | ⟨_, _, rfl⟩ <;> exact fun _ => rfl
  | cancelledThread awaiting next => exact h.of_cancelled awaiting next horderly hsound
  | cancelled next raising =>
    have hbegan (hs : task.began = false ∨ true = false) : task.began = false ∨ task.cancelled = false :=
      hs.imp_right Bool.noConfusion
    exact h.of_monotone hsound rfl rfl rfl hbegan next.holdsTemporary next.holdsTarget

end UploadTask.Tidy

/-- A call that ended with an exception has no file left, once its threads have ended. -/
theorem UploadTask.Tidy.nothing_left {task : UploadTask} (h : task.Tidy)
    (hscope : task.began = false ∨ task.cancelled = false) {raising : Raising}
    (hended : task.stage = .ended (.error raising)) (hlate : task.late = []) :
    task.target = none ∧ task.temporary = none := by
  have htarget := h.target hscope
  have htemporary := h.temporary hscope
  rw [hended, hlate] at htarget htemporary
  constructor
  · cases ht : task.target with
    | none => rfl
    | some =>
      rcases htarget (by rw [ht]; rfl) with hholds | hmem
      · cases hholds
      · cases hmem
  · cases ht : task.temporary with
    | none => rfl
    | some =>
      rcases htemporary (by rw [ht]; rfl) with hholds | hmem
      · cases hholds
      · cases hmem

/-- In every orderly run, a call that was cancelled before its transaction began has, once it
has ended and its threads have, left neither of its files and no row. -/
theorem cancelled_upload_leaves_no_file (sha256 : Sha256) (maxUploadSizeBytes : Nat) {db : Database}
    {actions : List IntakeAction} {s : IntakeState}
    (horderly : (intake sha256 maxUploadSizeBytes).Allowed (Taken Orderly) (.init db) actions)
    (hrun : (intake sha256 maxUploadSizeBytes).run (.init db) actions = some s) :
    ∀ task ∈ s.tasks, task.cancelled = true → task.began = false → task.stage.isEnded = true →
      task.late = [] → task.target = none ∧ task.temporary = none ∧ task.committed = none := by
  intro task htask hcancelled hbegan hended hlate
  have htidy := tasks_invariant (P := UploadTask.Tidy) UploadTask.Tidy.begin
    (fun _ _ _ _ _ h horderly hmove => h.step horderly hmove) horderly hrun task htask
  have hunwinding := htidy.unwinding hcancelled
  obtain ⟨raising, hraising⟩ : ∃ raising, task.stage = .ended (.error raising) := by
    cases hstage : task.stage with
    | ended outcome =>
      rw [hstage] at hunwinding
      cases outcome with
      | ok => cases hunwinding
      | error raising => exact ⟨raising, rfl⟩
    | _ =>
      rw [hstage] at hended
      cases hended
  obtain ⟨htarget, htemporary⟩ := htidy.nothing_left (.inl hbegan) hraising hlate
  refine ⟨htarget, htemporary, ?_⟩
  cases hcommitted : task.committed with
  | none => rfl
  | some document =>
    rw [(htidy.committed document hcommitted).1] at hbegan
    cases hbegan

/-- The task is cancelled while `open` runs, which takes effect before the `unlink` does. -/
def cancelledOpening : List IntakeAction :=
  [.start ownerUpload 9, .step 0 (.statement 7 5)] ++ threadSteps 0 ++ threadSteps 0 ++
    [.step 0 .startThread, .step 0 (.cancel false), .step 0 (.landLate .open false)] ++ threadSteps 0

theorem cancelled_upload_leaves_no_file_example : ∃ s,
    (intake constantSha256 100).run (.init ownerDatabase) cancelledOpening = some s ∧
    ∀ task ∈ s.tasks, task.cancelled = true → task.began = false → task.stage.isEnded = true →
      task.late = [] → task.target = none ∧ task.temporary = none ∧ task.committed = none := by
  have hsome : ((intake constantSha256 100).run (.init ownerDatabase) cancelledOpening).isSome := by
    decide +kernel
  obtain ⟨s, hs⟩ := Option.isSome_iff_exists.mp hsome
  exact ⟨s, hs, cancelled_upload_leaves_no_file constantSha256 100 (by decide +kernel) hs⟩

/-- The same with the effect of `open` after that of the `unlink`. -/
def openedLate : List IntakeAction :=
  [.start ownerUpload 9, .step 0 (.statement 7 5)] ++ threadSteps 0 ++ threadSteps 0 ++
    [.step 0 .startThread, .step 0 (.cancel false)] ++ threadSteps 0 ++ [.step 0 (.landLate .open false)]

/-- The task is cancelled while `replace` runs, which takes effect before the `unlink` does. -/
def replacedLate : List IntakeAction :=
  untilReplace ++ [.step 0 .startThread, .step 0 (.cancel false), .step 0 (.landLate .replace false)] ++
    threadSteps 0

/-- Either file can be left. -/
theorem cancelled_upload_leaves_files :
    (∃ s, (intake constantSha256 100).run (.init ownerDatabase) openedLate = some s ∧
      ∃ task ∈ s.tasks, task.cancelled = true ∧ task.began = false ∧ task.stage.isEnded = true ∧
        task.late = [] ∧ task.temporary ≠ none) ∧
    ∃ s, (intake constantSha256 100).run (.init ownerDatabase) replacedLate = some s ∧
      ∃ task ∈ s.tasks, task.cancelled = true ∧ task.began = false ∧ task.stage.isEnded = true ∧
        task.late = [] ∧ task.target ≠ none := by
  constructor
  · have hrun : ((intake constantSha256 100).run (.init ownerDatabase) openedLate).any fun s =>
        s.tasks.any fun task => decide (task.cancelled = true ∧ task.began = false ∧
          task.stage.isEnded = true ∧ task.late = [] ∧ task.temporary ≠ none) := by decide +kernel
    obtain ⟨s, hs, htasks⟩ := (Option.any_eq_true _ _).mp hrun
    obtain ⟨task, htask, hleft⟩ := List.any_eq_true.mp htasks
    exact ⟨s, hs, task, htask, of_decide_eq_true hleft⟩
  · have hrun : ((intake constantSha256 100).run (.init ownerDatabase) replacedLate).any fun s =>
        s.tasks.any fun task => decide (task.cancelled = true ∧ task.began = false ∧
          task.stage.isEnded = true ∧ task.late = [] ∧ task.target ≠ none) := by decide +kernel
    obtain ⟨s, hs, htasks⟩ := (Option.any_eq_true _ _).mp hrun
    obtain ⟨task, htask, hleft⟩ := List.any_eq_true.mp htasks
    exact ⟨s, hs, task, htask, of_decide_eq_true hleft⟩

end Invariant
end AgenticRag.Services

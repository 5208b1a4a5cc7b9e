import AgenticRag.Retrieval.ProbeSafety

/-! What one step of an adapter does to its probe tasks: which of them can be shared, and
what becomes of one that was unfinished. -/
namespace AgenticRag.Retrieval
open Lib Python Ingestion

section Tasks

/-- The task has been asked to cancel, or has done so. -/
def ProbeTask.Asked : ProbeTask → Prop
  | .created cancelRequested => cancelRequested = true
  | .requesting cancelRequested => cancelRequested = true
  | .done result => result = .cancelled

/-- The probe tasks stay as they are, and at most a success of the shared one is accepted. -/
structure Kept (s t : AdapterState) : Prop where
  tasks : t.tasks = s.tasks
  created : t.created = s.created
  closed : t.closed = s.closed
  issued : s.issued ≤ t.issued
  log : s.log <:+ t.log
  slot : ∀ i, t.probeTask = some i → s.probeTask = some i
  compatible : t.compatible = true →
    s.compatible = true ∨ ∃ i, s.probeTask = some i ∧ s.tasks i = some (.done .returned)

namespace Kept
variable {r s t : AdapterState} {id task : Nat} {payload : QueryPayload}

theorem refl (s : AdapterState) : Kept s s := ⟨rfl, rfl, rfl, le_rfl, List.suffix_rfl, fun _ => id, .inl⟩

theorem trans (h : Kept r s) (h' : Kept s t) : Kept r t where
  tasks := h'.tasks.trans h.tasks
  created := h'.created.trans h.created
  closed := h'.closed.trans h.closed
  issued := h.issued.trans h'.issued
  log := h.log.trans h'.log
  slot i hi := h.slot i (h'.slot i hi)
  compatible hc := by
    rcases h'.compatible hc with hc | ⟨i, hslot, hdone⟩
    · exact h.compatible hc
    · rw [h.tasks] at hdone
      exact .inr ⟨i, h.slot i hslot, hdone⟩

theorem setCall (call : Option QueryCall) : Kept s (s.setCall id call) :=
  ⟨rfl, rfl, rfl, le_rfl, List.suffix_rfl, fun _ h => h, .inl⟩

theorem endCall (outcome : QueryOutcome) : Kept s (s.endCall id outcome) :=
  ⟨rfl, rfl, rfl, le_rfl, List.suffix_cons _ _, fun _ h => h, .inl⟩

theorem dropProbe : Kept s (s.dropProbe task) := by
  unfold AdapterState.dropProbe
  split
  · exact ⟨rfl, rfl, rfl, le_rfl, List.suffix_rfl, by rintro _ ⟨⟩, .inl⟩
  · exact refl s

theorem acceptProbe (hdone : s.tasks task = some (.done .returned)) : Kept s (s.acceptProbe task) := by
  unfold AdapterState.acceptProbe
  split
  · rename_i hslot
    exact ⟨rfl, rfl, rfl, le_rfl, List.suffix_rfl, by rintro _ ⟨⟩, fun _ => .inr ⟨task, hslot, hdone⟩⟩
  · exact refl s

theorem sendQuery : Kept s (s.sendQuery id payload) := by
  unfold AdapterState.sendQuery
  split
  · exact endCall _
  · exact ⟨rfl, rfl, rfl, le_rfl, List.suffix_cons _ _, fun _ h => h, .inl⟩

theorem afterProbe {result : TaskResult} (hdone : s.tasks task = some (.done result)) :
    Kept s (s.afterProbe id payload task result) := by
  cases result with
  | returned => exact (acceptProbe hdone).trans sendQuery
  | raised error =>
    simp only [AdapterState.afterProbe]
    split
    · exact dropProbe.trans (endCall _)
    · exact endCall _
  | cancelled => exact dropProbe.trans (endCall _)

theorem cancelWaiter : Kept s (s.cancelWaiter id task) := by
  unfold AdapterState.cancelWaiter
  split
  · exact dropProbe.trans (endCall _)
  · exact endCall _

end Kept

variable {σ : Type} {z : Zlib σ} {ownsClient : Bool} {action : AdapterAction}

/-- What a probe ends with by itself, or by an exchange of its own. -/
def ProbeOrigin (z : Zlib σ) (action : AdapterAction) (id : Nat) (result : TaskResult) : Prop :=
  result = .cancelled ∨ result = .raised .denseProvider ∨
    ∃ exchange, action = .finishProbe id (some exchange) ∧ result = probeResult z (some exchange)

/-- What one step does to the probe tasks. -/
inductive TaskMove (z : Zlib σ) (action : AdapterAction) (s t : AdapterState) : Prop
  | kept (h : Kept s t)
  | begun (hclosed : s.closed = false) (hcompatible : s.compatible = false) (h : Kept s.createProbe t)
  | sent (id : Nat) (hclosed : s.closed = false) (htask : s.tasks id = some (.created false))
      (h : t = (s.setTask id (.requesting false)).see (.probeRequested id))
  | finished (id : Nat) (task : ProbeTask) (result : TaskResult) (htask : s.tasks id = some task)
      (hdone : task.isDone = false) (hasked : result = .cancelled → task.Asked)
      (horigin : ProbeOrigin z action id result) (h : t = s.finishTask id result)
  | closed (htasks : t.tasks = s.tasks ∨ ∃ id task, s.tasks id = some task ∧ task.isDone = false ∧
        t.tasks = Function.update s.tasks id (some task.cancel))
      (hcreated : t.created = s.created) (hissued : t.issued = s.issued) (hslot : t.probeTask = none)
      (hcompatible : t.compatible = false) (hclosed : t.closed = true)
      (hlog : t.log = .closeBegun :: s.log)

variable {s t : AdapterState}

theorem kept_ensureCompatible (s : AdapterState) (id : Nat) (payload : QueryPayload) :
    Kept s (s.ensureCompatible id payload) ∨
      s.closed = false ∧ s.compatible = false ∧ Kept s.createProbe (s.ensureCompatible id payload) := by
  unfold AdapterState.ensureCompatible
  split
  · exact .inl (.endCall _)
  rename_i hclosed
  split
  · exact .inl .sendQuery
  rename_i hcompatible
  split
  · exact .inr ⟨Bool.eq_false_of_not_eq_true hclosed, Bool.eq_false_of_not_eq_true hcompatible, .setCall _⟩
  · split
    · rename_i hdone
      exact .inl (.afterProbe hdone)
    · exact .inl (.setCall _)

/-- Numbering another call changes nothing here. -/
theorem Kept.of_issued {s t : AdapterState} {issued : Nat} (h : Kept { s with issued } t)
    (hissued : s.issued ≤ issued) : Kept s t :=
  ⟨h.tasks, h.created, h.closed, hissued.trans h.issued, h.log, h.slot, h.compatible⟩

theorem taskMove_beginQuery (s : AdapterState) (embedding : EmbeddingVector) (knowledgeBaseId : UUID)
    (candidateCount : Int) :
    TaskMove z action s (beginQuery s embedding knowledgeBaseId candidateCount) := by
  unfold beginQuery
  simp only
  split
  · exact .kept ((Kept.endCall _).of_issued (Nat.le_succ _))
  · rename_i count _
    rcases kept_ensureCompatible { s with issued := s.issued + 1 } s.issued
        (queryPayload embedding knowledgeBaseId count) with h | ⟨hclosed, hcompatible, h⟩
    · exact .kept (h.of_issued (Nat.le_succ _))
    · exact .begun hclosed hcompatible
        (Kept.of_issued (s := s.createProbe) h (Nat.le_succ _))

theorem taskMove_beginClose (s : AdapterState) : TaskMove z action s (beginClose ownsClient s) := by
  unfold beginClose
  simp only
  split
  · exact .closed (.inl rfl) rfl rfl rfl rfl rfl rfl
  · rename_i id task htask
    obtain ⟨_, _, hslot⟩ := Option.bind_eq_some_iff.mp htask
    obtain ⟨_, htasks, heq⟩ := Option.map_eq_some_iff.mp hslot
    obtain ⟨rfl, rfl⟩ := Prod.mk.inj heq
    split
    · exact .closed (.inl rfl) rfl rfl rfl rfl rfl rfl
    · rename_i hdone
      exact .closed (.inr ⟨_, _, htasks, Bool.eq_false_of_not_eq_true hdone, rfl⟩) rfl rfl rfl rfl rfl rfl

theorem kept_endClose (s : AdapterState) (result : TaskResult) :
    Kept s (endClose ownsClient s result) := by
  have hkept (closing : Option Nat) (clientClosed : Bool) :
      Kept s { s with closing, clientClosed } :=
    ⟨rfl, rfl, rfl, le_rfl, List.suffix_rfl, fun _ h => h, .inl⟩
  cases result with
  | raised error =>
    simp only [endClose]
    split
    · exact hkept _ _
    · exact hkept _ _
  | returned => exact hkept _ _
  | cancelled => exact hkept _ _

theorem taskMove_of_step {s t : AdapterState} {action : AdapterAction}
    (hstep : (chromaAdapter z ownsClient).step s action = some t) : TaskMove z action s t := by
  cases move_of_step hstep with
  | query embedding knowledgeBaseId candidateCount =>
    exact taskMove_beginQuery s embedding knowledgeBaseId candidateCount
  | cancelQuery => exact .kept (.setCall _)
  | resumeCancelled => exact .kept .cancelWaiter
  | resumeProbed _ _ _ hdone => exact .kept (.afterProbe hdone)
  | finishQuery => exact .kept (.endCall _)
  | startCancelled htask => exact .finished _ _ _ htask rfl (fun _ => rfl) (.inl rfl) rfl
  | startClosed htask => exact .finished _ _ _ htask rfl (by rintro ⟨⟩) (.inr (.inl rfl)) rfl
  | startProbe htask hclosed => exact .sent _ hclosed htask rfl
  | @finishProbe id exchange cancelRequested htask hallowed =>
    cases exchange with
    | none => exact .finished id _ _ htask rfl (fun _ => hallowed rfl) (.inl rfl) rfl
    | some exchange =>
      refine .finished id _ _ htask rfl (fun hcancelled => ?_) (.inr (.inr ⟨exchange, rfl, rfl⟩)) rfl
      simp only [probeResult] at hcancelled
      split at hcancelled <;> cases hcancelled
  | closeAgain => exact .kept (.refl s)
  | close => exact taskMove_beginClose s
  | resumeClose result => exact .kept (kept_endClose s result)

/-- The tasks are numbered as they are created, and only the last one can be shared. -/
structure AdapterState.Numbered (s : AdapterState) : Prop where
  tasks : ∀ i task, s.tasks i = some task → i < s.created
  present : ∀ i, i < s.created → ∃ task, s.tasks i = some task
  slot : ∀ i, s.probeTask = some i → i + 1 = s.created
  compatible : s.compatible = true → ∃ i, i + 1 = s.created ∧ s.tasks i = some (.done .returned)
  unasked : s.closed = false → ∀ i task, s.tasks i = some task → ¬task.Asked

namespace AdapterState.Numbered
variable {s t : AdapterState}

theorem init : AdapterState.init.Numbered where
  tasks := by
    intro _ _ h
    cases h
  present := by
    intro _ h
    cases h
  slot := by
    intro _ h
    cases h
  compatible := by
    intro h
    cases h
  unasked := by
    intro _ _ _ h
    cases h

theorem kept (hs : s.Numbered) (h : Kept s t) : t.Numbered where
  tasks i task htask := by
    rw [h.tasks] at htask
    rw [h.created]
    exact hs.tasks i task htask
  present := by
    rw [h.tasks, h.created]
    exact hs.present
  slot i hslot := by
    rw [h.created]
    exact hs.slot i (h.slot i hslot)
  compatible hc := by
    rw [h.tasks, h.created]
    rcases h.compatible hc with hc | ⟨i, hslot, hdone⟩
    · exact hs.compatible hc
    · exact ⟨i, hs.slot i hslot, hdone⟩
  unasked hclosed := by
    rw [h.tasks]
    exact hs.unasked (h.closed.symm.trans hclosed)

theorem createProbe (hs : s.Numbered) (hcompatible : s.compatible = false) : s.createProbe.Numbered where
  tasks i task htask := by
    rcases of_update_eq_some htask with ⟨rfl, _⟩ | htask
    · exact Nat.lt_succ_self _
    · exact Nat.lt_succ_of_lt (hs.tasks i task htask)
  present i hi := by
    rcases Nat.lt_succ_iff_lt_or_eq.mp hi with hi | rfl
    · obtain ⟨task, htask⟩ := hs.present i hi
      exact ⟨task, update_eq_some.mpr (.inr ⟨hi.ne, htask⟩)⟩
    · exact ⟨_, update_eq_some.mpr (.inl ⟨rfl, rfl⟩)⟩
  slot i hslot := by
    obtain rfl := Option.some.inj hslot
    rfl
  compatible hc := absurd (hcompatible.symm.trans hc) Bool.false_ne_true
  unasked hclosed i task htask := by
    rcases of_update_eq_some htask with ⟨_, htask⟩ | htask
    · obtain rfl := Option.some.inj htask
      exact Bool.false_ne_true
    · exact hs.unasked hclosed i task htask

private theorem present_update {id i : Nat} {task : ProbeTask}
    (h : ∀ i, i < s.created → ∃ task, s.tasks i = some task) (hi : i < s.created) :
    ∃ next, Function.update s.tasks id (some task) i = some next := by
  by_cases hid : i = id
  · exact ⟨task, update_eq_some.mpr (.inl ⟨hid, rfl⟩)⟩
  · obtain ⟨next, hnext⟩ := h i hi
    exact ⟨next, update_eq_some.mpr (.inr ⟨hid, hnext⟩)⟩

/-- An unfinished task goes on. -/
theorem setTask (hs : s.Numbered) {id : Nat} {task task' : ProbeTask} (htask : s.tasks id = some task)
    (hdone : task.isDone = false) (hasked : task'.Asked → task.Asked) :
    (s.setTask id task').Numbered where
  tasks i next hnext := by
    rcases of_update_eq_some hnext with ⟨rfl, _⟩ | hnext
    · exact hs.tasks i task htask
    · exact hs.tasks i next hnext
  present i hi := present_update hs.present hi
  slot := hs.slot
  compatible hc := by
    obtain ⟨i, hi, hreturned⟩ := hs.compatible hc
    refine ⟨i, hi, ?_⟩
    have hne : i ≠ id := by
      rintro rfl
      obtain rfl := Option.some.inj (htask.symm.trans hreturned)
      cases hdone
    exact update_eq_some.mpr (.inr ⟨hne, hreturned⟩)
  unasked hclosed i next hnext := by
    rcases of_update_eq_some hnext with ⟨rfl, heq⟩ | hnext
    · obtain rfl := Option.some.inj heq
      exact fun h => hs.unasked hclosed i task htask (hasked h)
    · exact hs.unasked hclosed i next hnext

theorem see (hs : s.Numbered) (event : AdapterEvent) : (s.see event).Numbered :=
  ⟨hs.tasks, hs.present, hs.slot, hs.compatible, hs.unasked⟩

theorem move (hs : s.Numbered) (h : TaskMove z action s t) : t.Numbered := by
  cases h with
  | kept h => exact hs.kept h
  | begun _ hcompatible h => exact (hs.createProbe hcompatible).kept h
  | sent id hclosed htask h =>
    have hsent : (s.setTask id (.requesting false)).Numbered :=
      hs.setTask htask rfl fun hasked => hasked
    rw [h]
    exact hsent.see _
  | finished id task result htask hdone hasked _ h =>
    have hfinished : (s.setTask id (.done result)).Numbered := hs.setTask htask hdone hasked
    rw [h]
    exact hfinished.see _
  | closed htasks hcreated _ hslot hcompatible hclosed _ =>
    refine ⟨fun i next hnext => ?_, fun i hi => ?_, fun i hi => ?_, fun hc => ?_, fun hc => ?_⟩
    · rw [hcreated]
      rcases htasks with htasks | ⟨id, task, htask, _, htasks⟩
      · rw [htasks] at hnext
        exact hs.tasks i next hnext
      · rw [htasks] at hnext
        rcases of_update_eq_some hnext with ⟨rfl, _⟩ | hnext
        · exact hs.tasks i task htask
        · exact hs.tasks i next hnext
    · rw [hcreated] at hi
      rcases htasks with htasks | ⟨id, task, htask, _, htasks⟩
      · rw [htasks]
        exact hs.present i hi
      · rw [htasks]
        exact present_update hs.present hi
    · rw [hslot] at hi
      cases hi
    · rw [hcompatible] at hc
      cases hc
    · rw [hclosed] at hc
      cases hc

end AdapterState.Numbered

variable {s t : AdapterState}

theorem log_suffix_of_move (h : TaskMove z action s t) : s.log <:+ t.log := by
  cases h with
  | kept h => exact h.log
  | begun _ _ h => exact h.log
  | sent id _ _ h =>
    rw [h]
    exact List.suffix_cons _ _
  | finished id _ result _ _ _ _ h =>
    rw [h]
    exact List.suffix_cons _ _
  | closed _ _ _ _ _ _ hlog =>
    rw [hlog]
    exact List.suffix_cons _ _

theorem closed_of_move (h : TaskMove z action s t) (hs : s.closed = true) : t.closed = true := by
  cases h with
  | kept h => exact h.closed.trans hs
  | begun _ _ h => exact h.closed.trans hs
  | sent id _ _ h =>
    rw [h]
    exact hs
  | finished id _ _ _ _ _ _ h =>
    rw [h]
    exact hs
  | closed _ _ _ _ _ hclosed _ => exact hclosed

theorem issued_of_move (h : TaskMove z action s t) : s.issued ≤ t.issued := by
  cases h with
  | kept h => exact h.issued
  | begun _ _ h => exact h.issued
  | sent id _ _ h =>
    rw [h]
    exact le_rfl
  | finished id _ _ _ _ _ _ h =>
    rw [h]
    exact le_rfl
  | closed _ _ hissued => exact hissued.ge

/-- What became of a task by one step. -/
inductive TaskStep (z : Zlib σ) (action : AdapterAction) (id : Nat) (task : ProbeTask)
    (s t : AdapterState) : ProbeTask → Prop
  | same : TaskStep z action id task s t task
  | sent (htask : task = .created false) : TaskStep z action id task s t (.requesting false)
  | asked (hdone : task.isDone = false) (hlog : t.log = .closeBegun :: s.log) :
      TaskStep z action id task s t task.cancel
  | finished (result : TaskResult) (hdone : task.isDone = false)
      (hasked : result = .cancelled → task.Asked) (horigin : ProbeOrigin z action id result)
      (hlog : t.log = .probeFinished id result :: s.log) :
      TaskStep z action id task s t (.done result)

theorem taskStep_of_move (hs : s.Numbered) (h : TaskMove z action s t) {id : Nat} {task : ProbeTask}
    (htask : s.tasks id = some task) :
    ∃ task', t.tasks id = some task' ∧ TaskStep z action id task s t task' := by
  cases h with
  | kept h => exact ⟨task, by rw [h.tasks]; exact htask, .same⟩
  | begun _ _ h =>
    refine ⟨task, ?_, .same⟩
    rw [h.tasks]
    exact update_eq_some.mpr (.inr ⟨(hs.tasks id task htask).ne, htask⟩)
  | sent i _ hsent h =>
    subst h
    by_cases hid : id = i
    · subst hid
      exact ⟨_, update_eq_some.mpr (.inl ⟨rfl, rfl⟩), .sent (Option.some.inj (htask.symm.trans hsent))⟩
    · exact ⟨task, update_eq_some.mpr (.inr ⟨hid, htask⟩), .same⟩
  | finished i _ result hfinished hdone hasked horigin h =>
    subst h
    by_cases hid : id = i
    · subst hid
      obtain rfl := Option.some.inj (htask.symm.trans hfinished)
      exact ⟨_, update_eq_some.mpr (.inl ⟨rfl, rfl⟩), .finished result hdone hasked horigin rfl⟩
    · exact ⟨task, update_eq_some.mpr (.inr ⟨hid, htask⟩), .same⟩
  | closed htasks _ _ _ _ _ hlog =>
    rcases htasks with htasks | ⟨i, _, hi, hdone, htasks⟩
    · exact ⟨task, by rw [htasks]; exact htask, .same⟩
    · rw [htasks]
      by_cases hid : id = i
      · subst hid
        obtain rfl := Option.some.inj (htask.symm.trans hi)
        exact ⟨_, update_eq_some.mpr (.inl ⟨rfl, rfl⟩), .asked hdone hlog⟩
      · exact ⟨task, update_eq_some.mpr (.inr ⟨hid, htask⟩), .same⟩

theorem done_of_move (hs : s.Numbered) (h : TaskMove z action s t) {id : Nat} {result : TaskResult}
    (hdone : s.tasks id = some (.done result)) : t.tasks id = some (.done result) := by
  obtain ⟨task', htask', hstep⟩ := taskStep_of_move hs h hdone
  cases hstep with
  | same => exact htask'
  | sent htask => cases htask
  | asked hdone => cases hdone
  | finished _ hdone => cases hdone

/-- A probe that was unfinished when only `old` had been seen. -/
def AdapterState.Watched (s : AdapterState) (old : List AdapterEvent) (id : Nat) : Prop :=
  ∃ recent task, s.log = recent ++ old ∧ s.tasks id = some task ∧
    (task.Asked → .closeBegun ∈ recent) ∧
    ∀ result, task = .done result → .probeFinished id result ∈ recent ∧
      (result = .cancelled → [.probeFinished id .cancelled, .closeBegun].Sublist recent)

theorem watched_of_move {old : List AdapterEvent} {id : Nat} (hs : s.Numbered) (h : TaskMove z action s t)
    (hwatched : s.Watched old id) : t.Watched old id := by
  obtain ⟨recent, task, hlog, htask, hasked, hdone⟩ := hwatched
  obtain ⟨newer, hnewer⟩ := log_suffix_of_move h
  obtain ⟨task', htask', hstep⟩ := taskStep_of_move hs h htask
  have hlog' : t.log = (newer ++ recent) ++ old := by
    rw [← hnewer, hlog, List.append_assoc]
  refine ⟨newer ++ recent, task', hlog', htask', ?_⟩
  have hrecent {event : AdapterEvent} (hevent : t.log = event :: s.log) : newer = [event] := by
    rw [← hnewer] at hevent
    exact List.append_cancel_right (hevent : newer ++ s.log = [event] ++ s.log)
  cases hstep with
  | same =>
    refine ⟨fun h => List.mem_append_right _ (hasked h), fun result hresult => ?_⟩
    obtain ⟨hmem, hcancelled⟩ := hdone result hresult
    exact ⟨List.mem_append_right _ hmem, fun hc => (hcancelled hc).trans (List.sublist_append_right _ _)⟩
  | sent htask =>
    refine ⟨?_, by rintro _ ⟨⟩⟩
    rintro ⟨⟩
  | asked hunfinished hevent =>
    rw [hrecent hevent]
    refine ⟨fun _ => List.mem_cons_self, fun result hresult => ?_⟩
    cases task with
    | created => cases hresult
    | requesting => cases hresult
    | done => cases hunfinished
  | finished result _ hcancelled _ hevent =>
    rw [hrecent hevent]
    refine ⟨fun h => List.mem_cons_of_mem _ (hasked (hcancelled h)), fun result' hresult => ?_⟩
    obtain rfl := ProbeTask.done.inj hresult
    refine ⟨List.mem_cons_self, ?_⟩
    rintro rfl
    exact (List.singleton_sublist.mpr (hasked (hcancelled rfl))).cons_cons _

end Tasks

end AgenticRag.Retrieval

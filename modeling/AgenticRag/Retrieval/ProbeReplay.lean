import AgenticRag.Retrieval.QueryCourse

/-! The failure of a probe that nobody has observed is passed on to a later query, and this
is the only way in which an old failure reaches one. -/
namespace AgenticRag.Retrieval
open Lib Python Ingestion

variable {σ : Type} {z : Zlib σ} {ownsClient : Bool}

section Beginning

/-- The probe that was created last has finished in failure. -/
def AdapterState.LastProbeFailed (s : AdapterState) : Prop :=
  ∃ id result, id + 1 = s.created ∧ s.tasks id = some (.done result) ∧ result ≠ .returned

/-- `_probe_task` is not a probe that has finished in failure. -/
def AdapterState.ProbeSettled (s : AdapterState) : Prop :=
  ∀ id result, s.probeTask = some id → s.tasks id = some (.done result) → result = .returned

/-- The query that `s` begins waits for a probe that it starts itself. -/
def StartsProbe (s t : AdapterState) : Prop :=
  t.created = s.created + 1 ∧ t.Unfinished s.created ∧
    ∃ payload, t.calls s.issued = some ⟨payload, .waiting s.created, false⟩

/-- A query that nobody cancels fails only by its own request, or by a probe that finishes
once the query has begun. -/
def FailsOnlySince (z : Zlib σ) (ownsClient : Bool) (s t : AdapterState) : Prop :=
  ∀ actions u, (chromaAdapter z ownsClient).run t actions = some u → u.closed = false →
    .cancelQuery s.issued ∉ actions → ∀ outcome, .queryEnded s.issued outcome ∈ u.log →
      (∃ result, outcome = .returned result) ∨
      (∃ payload, .queryRequested s.issued payload ∈ u.log) ∨
      ∃ recent task result, u.log = recent ++ s.log ∧ .probeFinished task result ∈ recent ∧
        result ≠ .returned

variable {s : AdapterState}

/-- A valid query of an open adapter begins in one of four ways. -/
inductive Beginning (s t : AdapterState) (payload : QueryPayload) : Prop
  | sent (hcall : t.calls s.issued = some ⟨payload, .requesting, false⟩)
      (hready : s.compatible = true ∨ ∃ i, s.probeTask = some i ∧ s.tasks i = some (.done .returned))
      (hlog : t.log = .queryRequested s.issued payload :: s.log)
  | joined (task : Nat) (hcall : t.calls s.issued = some ⟨payload, .waiting task, false⟩)
      (hunfinished : s.Unfinished task) (htasks : t.tasks = s.tasks) (hslot : s.probeTask = some task)
      (hlog : t.log = s.log)
  | created (hstarts : StartsProbe s t)
      (hcall : t.calls s.issued = some ⟨payload, .waiting s.created, false⟩)
      (hslot : s.probeTask = none) (hlog : t.log = s.log)
  | replayed (task : Nat) (result : TaskResult) (outcome : QueryOutcome) (hslot : s.probeTask = some task)
      (hdone : s.tasks task = some (.done result)) (hfailure : result.failure = some outcome)
      (htasks : t.tasks = s.tasks) (hcall : t.calls s.issued = none)
      (hlog : t.log = .queryEnded s.issued outcome :: s.log)

private theorem begins_afterProbe {s t : AdapterState} {payload : QueryPayload} {task : Nat}
    {result : TaskResult} (hopen : s.closed = false) (hslot : s.probeTask = some task)
    (hdone : s.tasks task = some (.done result))
    (ht : t = { s with issued := s.issued + 1 }.afterProbe s.issued payload task result) :
    Beginning s t payload := by
  subst ht
  have hlog : ({ s with issued := s.issued + 1 }.dropProbe task).log = s.log := log_dropProbe _ _
  have htasks : ({ s with issued := s.issued + 1 }.dropProbe task).tasks = s.tasks := Kept.dropProbe.tasks
  cases result with
  | returned =>
    have hkept := Kept.acceptProbe (s := { s with issued := s.issued + 1 }) hdone
    rw [AdapterState.afterProbe, AdapterState.sendQuery,
      if_neg (Bool.eq_false_iff.mp (hkept.closed.trans hopen))]
    refine .sent (Function.update_self _ _ _) (.inr ⟨task, hslot, hdone⟩) ?_
    exact congrArg _ (log_acceptProbe { s with issued := s.issued + 1 } task)
  | raised error =>
    simp only [AdapterState.afterProbe]
    split
    · exact .replayed task _ _ hslot hdone rfl htasks (Function.update_self _ _ _) (congrArg _ hlog)
    · exact .replayed task _ _ hslot hdone rfl rfl (Function.update_self _ _ _) rfl
  | cancelled =>
    exact .replayed task _ _ hslot hdone rfl htasks (Function.update_self _ _ _) (congrArg _ hlog)

/-- The first step of a valid query. -/
theorem beginning_beginQuery (hs : s.Numbered) (hopen : s.closed = false) {embedding : EmbeddingVector}
    {knowledgeBaseId : UUID} {candidateCount : Int} {count : Nat}
    (hvalid : validateQuery embedding candidateCount = .ok count) :
    Beginning s (beginQuery s embedding knowledgeBaseId candidateCount)
      (queryPayload embedding knowledgeBaseId count) := by
  have hclosed : ¬s.closed = true := by
    rw [hopen]
    exact Bool.false_ne_true
  simp only [beginQuery, hvalid, AdapterState.ensureCompatible]
  rw [if_neg hclosed]
  split
  · rename_i hcompatible
    rw [AdapterState.sendQuery, if_neg hclosed]
    exact .sent (Function.update_self _ _ _) (.inl hcompatible) rfl
  split
  · rename_i hslot
    refine .created ⟨rfl, ⟨.created false, Function.update_self _ _ _, rfl⟩,
      queryPayload embedding knowledgeBaseId count, ?_⟩ ?_ hslot rfl
    · exact Function.update_self _ _ _
    · exact Function.update_self _ _ _
  · rename_i task hslot
    split
    · rename_i hdone
      exact begins_afterProbe hopen hslot hdone rfl
    · rename_i hunfinished
      obtain ⟨probe, hprobe⟩ := hs.present task (by rw [← hs.slot task hslot]; exact Nat.lt_succ_self _)
      refine .joined task (Function.update_self _ _ _) ⟨probe, hprobe, ?_⟩ rfl hslot rfl
      cases probe with
      | created => rfl
      | requesting => rfl
      | done result => exact absurd hprobe (hunfinished result)

end Beginning

section Replay
variable {s t : AdapterState} {payload : QueryPayload}

theorem Beginning.startsProbe (h : Beginning s t payload) (hs : s.Numbered) (hsettled : s.ProbeSettled)
    (hfailed : s.LastProbeFailed) : StartsProbe s t := by
  obtain ⟨id, result, hid, hdone, hresult⟩ := hfailed
  have hlast {i : Nat} (hi : i + 1 = s.created) : i = id := Nat.succ.inj (hi.trans hid.symm)
  have hreturned {i : Nat} (hi : i + 1 = s.created) (htask : s.tasks i = some (.done .returned)) :
      False := by
    obtain rfl := hlast hi
    exact hresult (ProbeTask.done.inj (Option.some.inj (hdone.symm.trans htask)))
  cases h with
  | sent _ hready =>
    rcases hready with hcompatible | ⟨i, hslot, htask⟩
    · obtain ⟨i, hi, htask⟩ := hs.compatible hcompatible
      exact (hreturned hi htask).elim
    · exact (hreturned (hs.slot i hslot) htask).elim
  | joined task _ hunfinished _ hslot =>
    obtain rfl := hlast (hs.slot task hslot)
    exact absurd hunfinished (AdapterState.not_unfinished hdone)
  | created hstarts => exact hstarts
  | replayed task result' outcome hslot htask hfailure =>
    obtain rfl := hsettled task result' hslot htask
    cases hfailure

/-- A query is followed to its end: a probe that it waits for is watched from the beginning
of the query on, unless the query begins with an old failure. -/
theorem Beginning.course (h : Beginning s t payload) (ht : t.Numbered) (hopen : t.closed = false)
    (hs : s.CallsNumbered) {C : Exchange → Prop} :
    ∃ stage, Course z C s.issued payload stage t ∧ ∀ task, stage = .waiting task →
      t.calls s.issued = some ⟨payload, .waiting task, false⟩ ∧ t.Watched s.log task ∨
      ∃ result, s.probeTask = some task ∧ s.tasks task = some (.done result) ∧ result ≠ .returned ∧
        t.tasks = s.tasks := by
  have hunended (outcome : QueryOutcome) : .queryEnded s.issued outcome ∉ s.log :=
    (hs s.issued le_rfl).2 outcome
  have hwatched {task : Nat} (hlog : t.log = s.log) (hunfinished : t.Unfinished task) :
      t.Watched s.log task := by
    obtain ⟨probe, hprobe, hdone⟩ := hunfinished
    refine ⟨[], probe, hlog, hprobe, fun hasked => absurd hasked (ht.unasked hopen task probe hprobe), ?_⟩
    rintro result rfl
    cases hdone
  cases h with
  | sent hcall _ hlog =>
    refine ⟨.requesting, .sent hcall ?_ ?_, by rintro _ ⟨⟩⟩
    · rw [hlog]
      exact List.mem_cons_self
    · rw [hlog]
      exact fun outcome hmem => hunended outcome ((List.mem_cons.mp hmem).resolve_left (by rintro ⟨⟩))
  | joined task hcall hunfinished htasks _ hlog =>
    refine ⟨.waiting task, .suspended task rfl hcall (hlog ▸ hunended), ?_⟩
    rintro _ ⟨⟩
    refine .inl ⟨hcall, hwatched hlog ?_⟩
    rw [AdapterState.Unfinished, htasks]
    exact hunfinished
  | created hstarts hcall _ hlog =>
    refine ⟨.waiting s.created, .suspended s.created rfl hcall (hlog ▸ hunended), ?_⟩
    rintro _ ⟨⟩
    exact .inl ⟨hcall, hwatched hlog hstarts.2.1⟩
  | replayed task result outcome hslot hdone hfailure htasks hcall hlog =>
    refine ⟨.waiting task, .ended hcall ⟨outcome, hlog ▸ List.mem_cons_self⟩ fun outcome' hended => ?_, ?_⟩
    · rw [hlog] at hended
      rcases List.mem_cons.mp hended with heq | hended
      · obtain ⟨_, rfl⟩ := AdapterEvent.queryEnded.inj heq
        exact .probed task result outcome' rfl (htasks ▸ hdone) hfailure
      · exact absurd hended (hunended outcome')
    · rintro _ ⟨⟩
      refine .inr ⟨result, hslot, hdone, ?_, htasks⟩
      rintro rfl
      cases hfailure

/-- A failed probe that is still shared ends the query at once. -/
theorem Beginning.not_startsProbe (h : Beginning s t payload) (hs : s.Numbered) {id : Nat}
    {result : TaskResult} (hslot : s.probeTask = some id) (hdone : s.tasks id = some (.done result))
    (hresult : result ≠ .returned) : ¬StartsProbe s t := by
  rintro ⟨_, _, _, hwaits⟩
  have hreturned {i : Nat} (hi : i + 1 = s.created) (htask : s.tasks i = some (.done .returned)) :
      False := by
    obtain rfl : i = id := Nat.succ.inj (hi.trans (hs.slot id hslot).symm)
    exact hresult (ProbeTask.done.inj (Option.some.inj (hdone.symm.trans htask)))
  cases h with
  | sent _ hready =>
    rcases hready with hcompatible | ⟨i, hshared, htask⟩
    · obtain ⟨i, hi, htask⟩ := hs.compatible hcompatible
      exact hreturned hi htask
    · exact hreturned (hs.slot i hshared) htask
  | joined task _ hunfinished _ hshared =>
    obtain rfl := Option.some.inj (hslot.symm.trans hshared)
    exact AdapterState.not_unfinished hdone hunfinished
  | created _ _ hnone => cases hslot.symm.trans hnone
  | replayed _ _ _ _ _ _ _ hended => cases hended.symm.trans hwaits

/-- A valid query of an open adapter starts a fresh probe after a failed one, and fails only
by what happens once it has begun, exactly when `_probe_task` is no failed probe. -/
theorem probe_failure_not_replayed (z : Zlib σ) (ownsClient : Bool) {actions : List AdapterAction}
    (hrun : (chromaAdapter z ownsClient).run .init actions = some s) (hopen : s.closed = false)
    {embedding : EmbeddingVector} {knowledgeBaseId : UUID} {candidateCount : Int} {count : Nat}
    (hvalid : validateQuery embedding candidateCount = .ok count)
    (hstep : (chromaAdapter z ownsClient).step s (.query embedding knowledgeBaseId candidateCount) =
      some t) :
    ((s.LastProbeFailed → StartsProbe s t) ∧ FailsOnlySince z ownsClient s t) ↔ s.ProbeSettled := by
  have hs : s.Numbered := numbered_of_run .init hrun
  have hcalls : s.CallsNumbered := callsNumbered_of_run callsNumbered_init hrun
  have ht : t.Numbered := hs.move (taskMove_of_step hstep)
  have hissued : s.issued < t.issued := by
    obtain rfl := Option.some.inj hstep
    exact issued_lt_beginQuery s embedding knowledgeBaseId candidateCount
  have hbegins : Beginning s t (queryPayload embedding knowledgeBaseId count) := by
    obtain rfl := Option.some.inj hstep
    exact beginning_beginQuery hs hopen hvalid
  constructor
  · rintro ⟨hfresh, _⟩ id result hslot hdone
    by_contra hresult
    refine hbegins.not_startsProbe hs hslot hdone hresult ?_
    exact hfresh ⟨id, result, hs.slot id hslot, hdone, hresult⟩
  · intro hsettled
    refine ⟨hbegins.startsProbe hs hsettled, ?_⟩
    intro later u hlater hu hcancel outcome hended
    have htopen : t.closed = false := by
      refine Bool.eq_false_of_not_eq_true fun hclosed => ?_
      exact absurd (hu.symm.trans (closed_of_run hclosed hlater)) Bool.false_ne_true
    obtain ⟨stage, hcourse, hwatched⟩ := hbegins.course (z := z) (C := fun _ => True) ht htopen hcalls
    have hu' := course_of_run ht hissued hcourse hcancel (fun _ _ => trivial) hlater
    cases hu' with
    | suspended _ _ _ hunended => exact absurd hended (hunended outcome)
    | sent _ _ hunended => exact absurd hended (hunended outcome)
    | ended _ _ hreason =>
      cases hreason outcome hended with
      | answered exchange _ hsent => exact .inr (.inl ⟨_, hsent⟩)
      | probed task result _ hstage hdone hfailure =>
        rcases hwatched task hstage with ⟨_, hwatched⟩ | ⟨old, hslot, hold, hfailed, _⟩
        · obtain ⟨recent, probe, hlog, hprobe, _, hseen⟩ := watched_of_run ht hwatched hlater
          obtain rfl := Option.some.inj (hdone.symm.trans hprobe)
          refine .inr (.inr ⟨recent, task, result, hlog, (hseen result rfl).1, ?_⟩)
          rintro rfl
          cases hfailure
        · exact absurd (hsettled task old hslot hold) hfailed
      | closed hclosed => exact absurd (hu.symm.trans hclosed) Bool.false_ne_true

theorem not_failsOnlySince {outcome : QueryOutcome} (hopen : t.closed = false)
    (hlog : t.log = .queryEnded s.issued outcome :: s.log) (hfailed : ∀ result, outcome ≠ .returned result)
    (hunsent : ∀ payload, .queryRequested s.issued payload ∉ s.log) :
    ¬FailsOnlySince z ownsClient s t := by
  intro h
  have hended : .queryEnded s.issued outcome ∈ t.log := by
    rw [hlog]
    exact List.mem_cons_self
  rcases h [] t rfl hopen List.not_mem_nil outcome hended with
    ⟨result, hreturned⟩ | ⟨payload', hsent⟩ | ⟨recent, task, result, hrecent, hfinished, _⟩
  · exact hfailed result hreturned
  · rw [hlog] at hsent
    exact hunsent payload' ((List.mem_cons.mp hsent).resolve_left (by rintro ⟨⟩))
  · obtain rfl : [.queryEnded s.issued outcome] = recent :=
      List.append_cancel_right (hlog.symm.trans hrecent : [_] ++ s.log = recent ++ s.log)
    rcases List.mem_singleton.mp hfinished with ⟨⟩

/-- The only waiter of a probe is cancelled before the probe fails. -/
private def unobserved : List AdapterAction :=
  [.query [⟨0⟩] 3 4, .startProbe 0, .cancelQuery 0, .resumeQuery 0, .finishProbe 0 (some (.raised .http))]

/-- The next query starts no probe and ends with the failure of the old one. -/
theorem probe_failure_not_replayed_fails : ∃ s t : AdapterState,
    (chromaAdapter exampleZlib true).run .init unobserved = some s ∧ s.closed = false ∧
    (chromaAdapter exampleZlib true).step s (.query [⟨0⟩] 3 4) = some t ∧
    s.LastProbeFailed ∧ ¬StartsProbe s t ∧ ¬FailsOnlySince exampleZlib true s t ∧
    t.log = .queryEnded 1 (.raised .denseProvider) :: s.log := by
  refine ⟨_, _, rfl, rfl, rfl, ⟨0, .raised .denseProvider, rfl, rfl, by rintro ⟨⟩⟩, ?_, ?_, rfl⟩
  · rintro ⟨hcreated, _⟩
    cases hcreated
  · refine not_failsOnlySince rfl rfl (by rintro _ ⟨⟩) fun payload h => ?_
    rcases h with _ | ⟨_, _ | ⟨_, _ | ⟨_, h⟩⟩⟩
    cases h

theorem probe_failure_not_replayed_example : ∃ s t : AdapterState,
    (chromaAdapter exampleZlib true).run .init unobserved = some s ∧
    (chromaAdapter exampleZlib true).step s (.query [⟨0⟩] 3 4) = some t ∧
    (((s.LastProbeFailed → StartsProbe s t) ∧ FailsOnlySince exampleZlib true s t) ↔ s.ProbeSettled) := by
  have hvalid : validateQuery [⟨0⟩] 4 = .ok 4 := rfl
  have hsome : ((chromaAdapter exampleZlib true).run .init unobserved).isSome := rfl
  obtain ⟨s, hs⟩ := Option.isSome_iff_exists.mp hsome
  have hopen : s.closed = false := by
    obtain rfl := Option.some.inj hs
    rfl
  exact ⟨s, _, hs, rfl, probe_failure_not_replayed exampleZlib true hs hopen hvalid rfl⟩

end Replay
end AgenticRag.Retrieval

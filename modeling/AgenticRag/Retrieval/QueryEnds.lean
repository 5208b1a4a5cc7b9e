import AgenticRag.Retrieval.ProbeReplay

/-! How the queries end that nobody cancels: `close` cancels the probe that some of them
wait for, and so them; every other one returns or raises the provider error. -/
namespace AgenticRag.Retrieval
open Lib Python Ingestion

variable {σ : Type} {z : Zlib σ} {ownsClient : Bool}

section Requests

/-- A failing client raises `httpx.HTTPError`, or the deadline expires. -/
def Exchange.Documented : Exchange → Prop
  | .raised error => isTransportError error = true
  | .response _ _ => True

def AdapterAction.Documented : AdapterAction → Prop
  | .finishQuery _ exchange => ∀ e, exchange = some e → e.Documented
  | .finishProbe _ exchange => ∀ e, exchange = some e → e.Documented
  | _ => True

/-- Decoding the response to a query meets an unpaired surrogate. -/
def Exchange.SurrogateMet (z : Zlib σ) (candidateCount : Nat) (exchange : Exchange) : Prop :=
  ∃ response deadlineExpired body, exchange = .response response deadlineExpired ∧
    boundedJsonBody z response = .ok body ∧ SurrogateReached body candidateCount

/-- A request raises the provider error, or what the validation of its body raises. -/
theorem raises_requestJson {α : Type} {validate : Json → Except RetrievalException α}
    {exchange : Exchange} (hdocumented : exchange.Documented) :
    Raises (fun e => e = .denseProvider ∨ ∃ response deadlineExpired body,
        exchange = .response response deadlineExpired ∧ boundedJsonBody z response = .ok body ∧
        validate body = .error e)
      (requestJson z validate exchange) := by
  intro e he
  rw [requestJson] at he
  cases hread : readExchange z validate exchange with
  | ok result =>
    rw [hread] at he
    cases he
  | error error =>
    rw [hread, rescue] at he
    obtain rfl := Except.error.inj he
    cases hcaught : isTransportError error with
    | true => exact .inl rfl
    | false =>
      cases exchange with
      | raised raised =>
        obtain rfl := Except.error.inj hread
        exact absurd (hcaught.symm.trans hdocumented) Bool.false_ne_true
      | response response deadlineExpired =>
        simp only [readExchange] at hread
        split at hread
        · obtain rfl := Except.error.inj hread
          exact .inl rfl
        rcases bind_eq_error.mp hread with hbody | ⟨body, hbody, hread⟩
        · exact .inl (closed_boundedJsonBody response error hbody)
        rcases bind_eq_error.mp hread with hvalidate | ⟨result, _, hread⟩
        · exact .inr ⟨response, deadlineExpired, body, rfl, hbody, hvalidate⟩
        · split at hread
          · obtain rfl := Except.error.inj hread
            cases hcaught
          · cases hread

/-- A probe that is answered succeeds or fails with the provider error. -/
theorem probeResult_documented {exchange : Exchange} (hdocumented : exchange.Documented) :
    probeResult z (some exchange) = .returned ∨
      probeResult z (some exchange) = .raised .denseProvider := by
  simp only [probeResult]
  split
  · exact .inl rfl
  · rename_i error herror
    rcases raises_requestJson hdocumented error herror with rfl | ⟨_, _, body, _, _, hvalidate⟩
    · exact .inr rfl
    · unfold validateVersion at hvalidate
      split at hvalidate
      · split at hvalidate
        · obtain rfl := Except.error.inj hvalidate
          exact .inr rfl
        · cases hvalidate
      · obtain rfl := Except.error.inj hvalidate
        exact .inr rfl

/-- How a query's own request ends. -/
theorem queryOutcome_documented {exchange : Exchange} (hdocumented : exchange.Documented)
    (payload : QueryPayload) :
    (∃ result, queryOutcome z payload (some exchange) = .returned result) ∨
    queryOutcome z payload (some exchange) = .raised .denseProvider ∨
    queryOutcome z payload (some exchange) = .raised .unicodeEncode ∧
      exchange.SurrogateMet z payload.nResults := by
  simp only [queryOutcome]
  split
  · rename_i result _
    exact .inl ⟨result, rfl⟩
  · rename_i error herror
    rcases raises_requestJson hdocumented error herror with
      rfl | ⟨response, deadlineExpired, body, rfl, hbody, hvalidate⟩
    · exact .inr (.inl rfl)
    · rcases raises_typedResult body payload.nResults error hvalidate with rfl | rfl
      · exact .inr (.inl rfl)
      · exact .inr (.inr ⟨rfl, response, deadlineExpired, body, rfl, hbody,
          typedResult_unicodeEncode.mp hvalidate⟩)

end Requests

section Probes
variable {s t : AdapterState}

/-- A probe that is done has succeeded, failed with the provider error, or been cancelled. -/
def AdapterState.ProbesDocumented (s : AdapterState) : Prop :=
  ∀ id result, s.tasks id = some (.done result) →
    result = .returned ∨ result = .raised .denseProvider ∨ result = .cancelled

theorem ProbeOrigin.documented {action : AdapterAction} (haction : action.Documented) {id : Nat}
    {result : TaskResult} (h : ProbeOrigin z action id result) :
    result = .returned ∨ result = .raised .denseProvider ∨ result = .cancelled := by
  rcases h with rfl | rfl | ⟨exchange, rfl, rfl⟩
  · exact .inr (.inr rfl)
  · exact .inr (.inl rfl)
  · rcases probeResult_documented (z := z) (haction exchange rfl) with h | h
    · exact .inl h
    · exact .inr (.inl h)

theorem probesDocumented_of_move {action : AdapterAction} (haction : action.Documented)
    (hs : s.ProbesDocumented) (h : TaskMove z action s t) : t.ProbesDocumented := by
  intro i result hdone
  cases h with
  | kept h =>
    rw [h.tasks] at hdone
    exact hs i result hdone
  | begun _ _ h =>
    rw [h.tasks] at hdone
    rcases of_update_eq_some hdone with ⟨_, hcreated⟩ | hdone
    · cases hcreated
    · exact hs i result hdone
  | sent id _ _ h =>
    rw [h] at hdone
    rcases of_update_eq_some hdone with ⟨_, hrequesting⟩ | hdone
    · cases hrequesting
    · exact hs i result hdone
  | finished id task finished _ _ _ horigin h =>
    rw [h] at hdone
    rcases of_update_eq_some hdone with ⟨_, heq⟩ | hdone
    · obtain rfl := ProbeTask.done.inj (Option.some.inj heq)
      exact horigin.documented haction
    · exact hs i result hdone
  | closed htasks =>
    rcases htasks with htasks | ⟨id, task, _, hunfinished, htasks⟩
    · rw [htasks] at hdone
      exact hs i result hdone
    · rw [htasks] at hdone
      rcases of_update_eq_some hdone with ⟨_, heq⟩ | hdone
      · cases task with
        | created => cases Option.some.inj heq
        | requesting => cases Option.some.inj heq
        | done => cases hunfinished
      · exact hs i result hdone

theorem probesDocumented_of_run {actions : List AdapterAction}
    (hactions : ∀ action ∈ actions, action.Documented)
    (hs : s.ProbesDocumented) (hrun : (chromaAdapter z ownsClient).run s actions = some t) :
    t.ProbesDocumented :=
  Machine.run_invariant_of_allowed (C := fun _ action => action.Documented)
    (fun _ _ _ hs haction hstep => probesDocumented_of_move haction hs (taskMove_of_step hstep)) hs
    (Machine.allowed_of_forall fun action haction _ => hactions action haction) hrun

end Probes

section Progress

/-- Steps by which the deadlines of a query and of its probe expire. -/
def AdapterAction.Expires (id : Nat) : AdapterAction → Prop
  | .startProbe _ => True
  | .finishProbe _ exchange => exchange = some (.raised .timeout)
  | .resumeQuery other => other = id
  | .finishQuery other exchange => other = id ∧ exchange = some (.raised .timeout)
  | _ => False

/-- The call can be brought to an end. -/
def CanEnd (z : Zlib σ) (ownsClient : Bool) (id : Nat) (s : AdapterState) : Prop :=
  ∃ actions t, (chromaAdapter z ownsClient).run s actions = some t ∧
    (∀ action ∈ actions, action.Expires id) ∧ t.calls id = none ∧
    ∃ outcome, .queryEnded id outcome ∈ t.log

variable {s t : AdapterState} {id : Nat} {payload : QueryPayload}

theorem CanEnd.cons {action : AdapterAction} (hstep : (chromaAdapter z ownsClient).step s action = some t)
    (haction : action.Expires id) (h : CanEnd z ownsClient id t) : CanEnd z ownsClient id s := by
  obtain ⟨actions, u, hrun, hactions, hend⟩ := h
  refine ⟨action :: actions, u, Machine.run_cons_eq_some.mpr ⟨t, hstep, hrun⟩, ?_, hend⟩
  intro other hother
  rcases List.mem_cons.mp hother with rfl | hother
  · exact haction
  · exact hactions other hother

theorem canEnd_endCall (outcome : QueryOutcome) : CanEnd z ownsClient id (s.endCall id outcome) :=
  ⟨[], _, rfl, fun _ h => absurd h List.not_mem_nil, Function.update_self _ _ _, outcome,
    List.mem_cons_self⟩

theorem canEnd_requesting {cancelRequested : Bool}
    (hcall : s.calls id = some ⟨payload, .requesting, cancelRequested⟩) : CanEnd z ownsClient id s := by
  have hstep : (chromaAdapter z ownsClient).step s (.finishQuery id (some (.raised .timeout))) =
      some (s.endCall id (queryOutcome z payload (some (.raised .timeout)))) := by
    simp [chromaAdapter, adapterStep, finishQuery, hcall]
  exact .cons hstep ⟨rfl, rfl⟩ (canEnd_endCall _)

theorem canEnd_sendQuery : CanEnd z ownsClient id (s.sendQuery id payload) := by
  unfold AdapterState.sendQuery
  split
  · exact canEnd_endCall _
  · exact canEnd_requesting (Function.update_self _ _ _)

theorem canEnd_afterProbe (task : Nat) (result : TaskResult) :
    CanEnd z ownsClient id (s.afterProbe id payload task result) := by
  cases result with
  | returned => exact canEnd_sendQuery
  | raised error =>
    simp only [AdapterState.afterProbe]
    split
    · exact canEnd_endCall _
    · exact canEnd_endCall _
  | cancelled => exact canEnd_endCall _

theorem canEnd_answered {task : Nat} {result : TaskResult} {cancelRequested : Bool}
    (hcall : s.calls id = some ⟨payload, .waiting task, cancelRequested⟩)
    (hdone : s.tasks task = some (.done result)) : CanEnd z ownsClient id s := by
  cases cancelRequested with
  | true =>
    have hstep : (chromaAdapter z ownsClient).step s (.resumeQuery id) = some (s.cancelWaiter id task) := by
      simp [chromaAdapter, adapterStep, resumeQuery, hcall]
    refine .cons hstep rfl ?_
    unfold AdapterState.cancelWaiter
    split
    · exact canEnd_endCall _
    · exact canEnd_endCall _
  | false =>
    have hstep : (chromaAdapter z ownsClient).step s (.resumeQuery id) =
        some (s.afterProbe id payload task result) := by
      simp [chromaAdapter, adapterStep, resumeQuery, hcall, hdone]
    exact .cons hstep rfl (canEnd_afterProbe task result)

theorem canEnd_finishTask {task : Nat} {cancelRequested : Bool} (result : TaskResult)
    (hcall : s.calls id = some ⟨payload, .waiting task, cancelRequested⟩) :
    CanEnd z ownsClient id (s.finishTask task result) :=
  canEnd_answered (s := s.finishTask task result) hcall (Function.update_self _ _ _)

theorem canEnd_probing {task : Nat} {cancelRequested asked : Bool}
    (hcall : s.calls id = some ⟨payload, .waiting task, cancelRequested⟩)
    (hprobe : s.tasks task = some (.requesting asked)) : CanEnd z ownsClient id s := by
  have hstep : (chromaAdapter z ownsClient).step s (.finishProbe task (some (.raised .timeout))) =
      some (s.finishTask task (probeResult z (some (.raised .timeout)))) := by
    simp [chromaAdapter, adapterStep, finishProbe, hprobe]
  exact .cons hstep rfl (canEnd_finishTask _ hcall)

/-- A call that waits for a probe can be brought to an end, whatever the probe has done. -/
theorem canEnd_waiting {task : Nat} {cancelRequested : Bool} {probe : ProbeTask}
    (hcall : s.calls id = some ⟨payload, .waiting task, cancelRequested⟩)
    (hprobe : s.tasks task = some probe) : CanEnd z ownsClient id s := by
  cases probe with
  | created asked =>
    have hstep : (chromaAdapter z ownsClient).step s (.startProbe task) =
        startProbe s task (.created asked) := by
      simp [chromaAdapter, adapterStep, hprobe]
    cases asked with
    | true => exact .cons hstep trivial (canEnd_finishTask _ hcall)
    | false =>
      cases hclosed : s.closed with
      | true =>
        simp only [startProbe, hclosed, Bool.false_eq_true, if_false, if_true] at hstep
        exact .cons hstep trivial (canEnd_finishTask _ hcall)
      | false =>
        simp only [startProbe, hclosed, Bool.false_eq_true, if_false] at hstep
        refine .cons hstep trivial ?_
        exact canEnd_probing (s := (s.setTask task (.requesting false)).see (.probeRequested task)) hcall
          (Function.update_self _ _ _)
  | requesting asked => exact canEnd_probing hcall hprobe
  | done result => exact canEnd_answered hcall hprobe

end Progress

section Ends
variable {s t u : AdapterState}

/-- A retrieval whose query raises the error ends as unavailable. -/
def MadeUnavailable (error : RetrievalException) (candidateCount : Nat) : Prop :=
  ∀ (service : HybridRetrievalService) (proof : SessionAuthenticationProof) (knowledgeBaseId : UUID)
    (payload : Payload), Querying service proof knowledgeBaseId payload candidateCount →
    (∀ embedding, service.denseRetrieval.query embedding knowledgeBaseId candidateCount = .error error) →
    (service.retrieve proof knowledgeBaseId payload).outcome = .error .unavailable

theorem madeUnavailable_denseProvider (candidateCount : Nat) :
    MadeUnavailable .denseProvider candidateCount :=
  fun _ _ _ _ hquerying hquery => retrieve_query_error hquerying hquery

/-- A query of a closed adapter ends at once. -/
theorem course_of_closed {C : Exchange → Prop} {embedding : EmbeddingVector} {knowledgeBaseId : UUID}
    {candidateCount : Int} {count : Nat} (hs : s.CallsNumbered) (hclosed : s.closed = true)
    (hvalid : validateQuery embedding candidateCount = .ok count) (payload : QueryPayload) :
    Course z C s.issued payload .requesting (beginQuery s embedding knowledgeBaseId candidateCount) := by
  simp only [beginQuery, hvalid, AdapterState.ensureCompatible]
  rw [if_pos hclosed]
  exact course_endCall (hs s.issued le_rfl).2 (.closed hclosed)

/-- Why a query that nobody cancels ends, in terms of what its observer sees. -/
inductive Ending (z : Zlib σ) (id : Nat) (payload : QueryPayload) (s t u : AdapterState)
    (after : List AdapterAction) : QueryOutcome → Prop
  | returned (result : DenseProviderResult) : Ending z id payload s t u after (.returned result)
  | unavailable (h : MadeUnavailable .denseProvider payload.nResults) :
      Ending z id payload s t u after (.raised .denseProvider)
  | surrogate (exchange : Exchange) (hexchange : .finishQuery id (some exchange) ∈ after)
      (h : exchange.SurrogateMet z payload.nResults) :
      Ending z id payload s t u after (.raised .unicodeEncode)
  | closed (task : Nat) (hwaited : t.calls id = some ⟨payload, .waiting task, false⟩)
      (hclosed : ∃ recent, u.log = recent ++ s.log ∧
        [.probeFinished task .cancelled, .closeBegun].Sublist recent) :
      Ending z id payload s t u after .cancelled

theorem ending_of_result {result : TaskResult} {outcome : QueryOutcome} {id : Nat} {payload : QueryPayload}
    {after : List AdapterAction}
    (hresult : result = .returned ∨ result = .raised .denseProvider ∨ result = .cancelled)
    (hfailure : result.failure = some outcome)
    (hcancelled : result = .cancelled → Ending z id payload s t u after .cancelled) :
    Ending z id payload s t u after outcome := by
  rcases hresult with rfl | rfl | rfl
  · cases hfailure
  · obtain rfl := Option.some.inj hfailure
    exact .unavailable (madeUnavailable_denseProvider _)
  · obtain rfl := Option.some.inj hfailure
    exact hcancelled rfl

/-- A query is followed from its first step on, whether the adapter is closed or not. -/
theorem course_beginQuery {C : Exchange → Prop} {embedding : EmbeddingVector} {knowledgeBaseId : UUID}
    {candidateCount : Int} {count : Nat} (hs : s.Numbered) (hcalls : s.CallsNumbered)
    (hvalid : validateQuery embedding candidateCount = .ok count)
    (hbegins : beginQuery s embedding knowledgeBaseId candidateCount = t) (ht : t.Numbered) :
    ∃ stage, Course z C s.issued (queryPayload embedding knowledgeBaseId count) stage t ∧
      ∀ task, stage = .waiting task →
        t.calls s.issued = some ⟨queryPayload embedding knowledgeBaseId count, .waiting task, false⟩ ∧
          t.Watched s.log task ∨
        ∃ result, t.tasks task = some (.done result) ∧ result ≠ .cancelled := by
  cases hclosed : s.closed with
  | true =>
    refine ⟨.requesting, ?_, by rintro _ ⟨⟩⟩
    rw [← hbegins]
    exact course_of_closed hcalls hclosed hvalid _
  | false =>
    subst hbegins
    have hopen : (beginQuery s embedding knowledgeBaseId candidateCount).closed = false :=
      (closed_beginQuery s embedding knowledgeBaseId candidateCount).trans hclosed
    obtain ⟨stage, hcourse, hwatched⟩ :=
      (beginning_beginQuery hs hclosed hvalid).course (z := z) (C := C) ht hopen hcalls
    refine ⟨stage, hcourse, fun task hstage => (hwatched task hstage).imp_right ?_⟩
    rintro ⟨result, _, hdone, _, htasks⟩
    refine ⟨result, htasks ▸ hdone, ?_⟩
    rintro rfl
    exact hs.unasked hclosed task _ hdone rfl

/-- Every query that nobody cancels ends, or can still end: it returns, it raises the
provider error, or `close` has cancelled the probe that it waited for. -/
theorem uncancelled_query_ends (z : Zlib σ) (ownsClient : Bool) {before after : List AdapterAction}
    (hrun : (chromaAdapter z ownsClient).run .init before = some s)
    {embedding : EmbeddingVector} {knowledgeBaseId : UUID} {candidateCount : Int} {count : Nat}
    (hvalid : validateQuery embedding candidateCount = .ok count)
    (hstep : (chromaAdapter z ownsClient).step s (.query embedding knowledgeBaseId candidateCount) =
      some t)
    (hlater : (chromaAdapter z ownsClient).run t after = some u)
    (hcancel : .cancelQuery s.issued ∉ after)
    (hdocumented : ∀ action ∈ before ++ after, action.Documented) :
    (∀ outcome, .queryEnded s.issued outcome ∈ u.log →
      Ending z s.issued (queryPayload embedding knowledgeBaseId count) s t u after outcome) ∧
    ((∃ outcome, .queryEnded s.issued outcome ∈ u.log) ∨ CanEnd z ownsClient s.issued u) := by
  have hs : s.Numbered := numbered_of_run .init hrun
  have hcalls : s.CallsNumbered := callsNumbered_of_run callsNumbered_init hrun
  have ht : t.Numbered := hs.move (taskMove_of_step hstep)
  have hu : u.ProbesDocumented := by
    have hrun' : (chromaAdapter z ownsClient).run .init
        (before ++ .query embedding knowledgeBaseId candidateCount :: after) = some u := by
      rw [Machine.run_append, hrun]
      exact Machine.run_cons_eq_some.mpr ⟨t, hstep, hlater⟩
    refine probesDocumented_of_run (fun action haction => ?_) (by rintro _ _ ⟨⟩) hrun'
    rw [List.mem_append, List.mem_cons] at haction
    rcases haction with haction | rfl | haction
    · exact hdocumented action (List.mem_append_left _ haction)
    · trivial
    · exact hdocumented action (List.mem_append_right _ haction)
  have hissued : s.issued < t.issued := by
    obtain rfl := Option.some.inj hstep
    exact issued_lt_beginQuery s embedding knowledgeBaseId candidateCount
  obtain ⟨stage, hcourse, hwatched⟩ := course_beginQuery (z := z)
    (C := fun exchange => exchange.Documented ∧ .finishQuery s.issued (some exchange) ∈ after)
    hs hcalls hvalid (Option.some.inj hstep) ht
  have hended := course_of_run ht hissued hcourse hcancel
    (fun exchange hexchange => ⟨hdocumented _ (List.mem_append_right _ hexchange) exchange rfl, hexchange⟩)
    hlater
  constructor
  · intro outcome hmem
    cases hended with
    | suspended _ _ _ hunended => exact absurd hmem (hunended outcome)
    | sent _ _ hunended => exact absurd hmem (hunended outcome)
    | ended _ _ hreason =>
      cases hreason outcome hmem with
      | answered exchange hexchange =>
        rcases queryOutcome_documented (z := z) hexchange.1
            (queryPayload embedding knowledgeBaseId count) with
          ⟨result, h⟩ | h | ⟨h, hmet⟩
        · rw [h]
          exact .returned result
        · rw [h]
          exact .unavailable (madeUnavailable_denseProvider _)
        · rw [h]
          exact .surrogate exchange hexchange.2 hmet
      | probed task result _ hstage hdone hfailure =>
        refine ending_of_result (hu task result hdone) hfailure ?_
        rintro rfl
        rcases hwatched task hstage with ⟨hcall, hwatched⟩ | ⟨old, hold, hne⟩
        · obtain ⟨recent, probe, hlog, hprobe, _, hseen⟩ := watched_of_run ht hwatched hlater
          obtain rfl := Option.some.inj (hdone.symm.trans hprobe)
          exact .closed task hcall ⟨recent, hlog, (hseen _ rfl).2 rfl⟩
        · have hkept := done_of_run ht hold hlater
          exact absurd (ProbeTask.done.inj (Option.some.inj (hkept.symm.trans hdone))) hne
      | closed => exact .unavailable (madeUnavailable_denseProvider _)
  · cases hended with
    | suspended task hstage hcall =>
      rcases hwatched task hstage with ⟨_, hwatched⟩ | ⟨old, hold, _⟩
      · obtain ⟨_, probe, _, hprobe, _⟩ := watched_of_run ht hwatched hlater
        exact .inr (canEnd_waiting hcall hprobe)
      · exact .inr (canEnd_waiting hcall (done_of_run ht hold hlater))
    | sent hcall => exact .inr (canEnd_requesting hcall)
    | ended _ hseen => exact .inl hseen

/-- The adapter is closed while its first query waits for the probe. -/
private def closedWhileProbing : List AdapterAction :=
  [.startProbe 0, .close, .finishProbe 0 none, .resumeQuery 0]

/-- Nobody cancels the query, and it ends in cancellation. -/
theorem uncancelled_query_ends_fails : ∃ s : AdapterState,
    (chromaAdapter exampleZlib true).run .init (.query [⟨0⟩] 3 4 :: closedWhileProbing) = some s ∧
    .cancelQuery 0 ∉ closedWhileProbing ∧ .queryEnded 0 .cancelled ∈ s.log := by
  refine ⟨_, rfl, ?_, List.mem_cons_self⟩
  simp [closedWhileProbing]

theorem uncancelled_query_ends_example : ∃ t u : AdapterState,
    (chromaAdapter exampleZlib true).run t closedWhileProbing = some u ∧
    ∀ outcome, .queryEnded 0 outcome ∈ u.log →
      Ending exampleZlib 0 (queryPayload [⟨0⟩] 3 4) .init t u closedWhileProbing outcome := by
  have hcancel : .cancelQuery 0 ∉ closedWhileProbing := by simp [closedWhileProbing]
  have hdocumented : ∀ action ∈ [] ++ closedWhileProbing, action.Documented := by
    intro action haction
    rcases haction with _ | ⟨_, _ | ⟨_, _ | ⟨_, _ | ⟨_, h⟩⟩⟩⟩
    · trivial
    · trivial
    · rintro _ ⟨⟩
    · trivial
    · cases h
  have hvalid : validateQuery [⟨0⟩] 4 = .ok 4 := rfl
  exact ⟨_, _, rfl, (uncancelled_query_ends exampleZlib true rfl hvalid rfl rfl hcancel hdocumented).1⟩

end Ends
end AgenticRag.Retrieval

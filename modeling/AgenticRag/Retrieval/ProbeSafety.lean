import AgenticRag.Retrieval.ChromaAdapter
import AgenticRag.Retrieval.ChromaClosed

/-! Over every run of an adapter, one probe at a time is unfinished, a query is sent only
once a probe has succeeded, and nothing is sent once the adapter is closed. -/
namespace AgenticRag.Retrieval
open Lib Python Ingestion

section Moves
variable {σ : Type} {z : Zlib σ} {ownsClient : Bool} {s t : AdapterState}

/-- All that a step of the adapter can do. -/
inductive AdapterMove (z : Zlib σ) (ownsClient : Bool) (s : AdapterState) :
    AdapterAction → AdapterState → Prop
  | query (embedding : EmbeddingVector) (knowledgeBaseId : UUID) (candidateCount : Int) :
    AdapterMove z ownsClient s (.query embedding knowledgeBaseId candidateCount)
      (beginQuery s embedding knowledgeBaseId candidateCount)
  | cancelQuery {id : Nat} {call : QueryCall} (hcall : s.calls id = some call) :
    AdapterMove z ownsClient s (.cancelQuery id) (s.setCall id (some { call with cancelRequested := true }))
  | resumeCancelled {id task : Nat} {call : QueryCall} (hcall : s.calls id = some call)
    (hstage : call.stage = .waiting task) (hasked : call.cancelRequested = true) :
    AdapterMove z ownsClient s (.resumeQuery id) (s.cancelWaiter id task)
  | resumeProbed {id task : Nat} {call : QueryCall} {result : TaskResult} (hcall : s.calls id = some call)
    (hstage : call.stage = .waiting task) (hasked : call.cancelRequested = false)
    (hdone : s.tasks task = some (.done result)) :
    AdapterMove z ownsClient s (.resumeQuery id) (s.afterProbe id call.payload task result)
  | finishQuery {id : Nat} {exchange : Option Exchange} {call : QueryCall} (hcall : s.calls id = some call)
    (hstage : call.stage = .requesting) (hallowed : exchange = none → call.cancelRequested = true) :
    AdapterMove z ownsClient s (.finishQuery id exchange)
      (s.endCall id (queryOutcome z call.payload exchange))
  | startCancelled {id : Nat} (htask : s.tasks id = some (.created true)) :
    AdapterMove z ownsClient s (.startProbe id) (s.finishTask id .cancelled)
  | startClosed {id : Nat} (htask : s.tasks id = some (.created false)) (hclosed : s.closed = true) :
    AdapterMove z ownsClient s (.startProbe id) (s.finishTask id (.raised .denseProvider))
  | startProbe {id : Nat} (htask : s.tasks id = some (.created false)) (hclosed : s.closed = false) :
    AdapterMove z ownsClient s (.startProbe id) ((s.setTask id (.requesting false)).see (.probeRequested id))
  | finishProbe {id : Nat} {exchange : Option Exchange} {cancelRequested : Bool}
    (htask : s.tasks id = some (.requesting cancelRequested))
    (hallowed : exchange = none → cancelRequested = true) :
    AdapterMove z ownsClient s (.finishProbe id exchange) (s.finishTask id (probeResult z exchange))
  | closeAgain (hclosed : s.closed = true) : AdapterMove z ownsClient s .close s
  | close (hclosed : s.closed = false) : AdapterMove z ownsClient s .close (beginClose ownsClient s)
  | resumeClose (result : TaskResult) : AdapterMove z ownsClient s .resumeClose (endClose ownsClient s result)

private theorem resumeQuery_move {id : Nat} {call : QueryCall} (hcall : s.calls id = some call)
    (hstep : resumeQuery s id call = some t) : AdapterMove z ownsClient s (.resumeQuery id) t := by
  unfold resumeQuery at hstep
  split at hstep
  · cases hstep
  rename_i hstage
  split at hstep
  · rename_i hasked
    obtain rfl := Option.some.inj hstep
    exact .resumeCancelled hcall hstage hasked
  rename_i hasked
  split at hstep
  · rename_i hdone
    obtain rfl := Option.some.inj hstep
    exact .resumeProbed hcall hstage (Bool.eq_false_of_not_eq_true hasked) hdone
  · cases hstep

private theorem finishQuery_move {id : Nat} {exchange : Option Exchange} {call : QueryCall}
    (hcall : s.calls id = some call) (hstep : finishQuery z s id exchange call = some t) :
    AdapterMove z ownsClient s (.finishQuery id exchange) t := by
  unfold finishQuery at hstep
  split at hstep
  · cases hstep
  rename_i hstage
  split at hstep
  · cases hstep
  rename_i hallowed
  obtain rfl := Option.some.inj hstep
  refine .finishQuery hcall hstage ?_
  rintro rfl
  simpa using hallowed

private theorem startProbe_move {id : Nat} {task : ProbeTask} (htask : s.tasks id = some task)
    (hstep : startProbe s id task = some t) : AdapterMove z ownsClient s (.startProbe id) t := by
  cases task with
  | created cancelRequested =>
    cases cancelRequested with
    | true =>
      obtain rfl := Option.some.inj hstep
      exact .startCancelled htask
    | false =>
      simp only [startProbe, Bool.false_eq_true, if_false] at hstep
      split at hstep
      · rename_i hclosed
        obtain rfl := Option.some.inj hstep
        exact .startClosed htask hclosed
      · rename_i hclosed
        obtain rfl := Option.some.inj hstep
        exact .startProbe htask (Bool.eq_false_of_not_eq_true hclosed)
  | requesting => cases hstep
  | done => cases hstep

private theorem finishProbe_move {id : Nat} {exchange : Option Exchange} {task : ProbeTask}
    (htask : s.tasks id = some task) (hstep : finishProbe z s id exchange task = some t) :
    AdapterMove z ownsClient s (.finishProbe id exchange) t := by
  cases task with
  | requesting cancelRequested =>
    simp only [finishProbe] at hstep
    split at hstep
    · cases hstep
    rename_i hallowed
    obtain rfl := Option.some.inj hstep
    refine .finishProbe htask ?_
    rintro rfl
    simpa using hallowed
  | created => cases hstep
  | done => cases hstep

theorem move_of_step {action : AdapterAction} (hstep : (chromaAdapter z ownsClient).step s action = some t) :
    AdapterMove z ownsClient s action t := by
  cases action with
  | query embedding knowledgeBaseId candidateCount =>
    obtain rfl := Option.some.inj hstep
    exact .query embedding knowledgeBaseId candidateCount
  | cancelQuery id =>
    obtain ⟨call, hcall, rfl⟩ := Option.map_eq_some_iff.mp hstep
    exact .cancelQuery hcall
  | resumeQuery id =>
    obtain ⟨call, hcall, hstep⟩ := Option.bind_eq_some_iff.mp hstep
    exact resumeQuery_move hcall hstep
  | finishQuery id exchange =>
    obtain ⟨call, hcall, hstep⟩ := Option.bind_eq_some_iff.mp hstep
    exact finishQuery_move hcall hstep
  | startProbe id =>
    obtain ⟨task, htask, hstep⟩ := Option.bind_eq_some_iff.mp hstep
    exact startProbe_move htask hstep
  | finishProbe id exchange =>
    obtain ⟨task, htask, hstep⟩ := Option.bind_eq_some_iff.mp hstep
    exact finishProbe_move htask hstep
  | close =>
    obtain rfl := Option.some.inj hstep
    split
    · exact .closeAgain ‹_›
    · exact .close (Bool.eq_false_of_not_eq_true ‹_›)
  | resumeClose =>
    simp only [chromaAdapter, adapterStep] at hstep
    split at hstep
    · obtain rfl := Option.some.inj hstep
      exact .resumeClose _
    · cases hstep

end Moves

section Invariant

/-- The task has been created and is not done. -/
def AdapterState.Unfinished (s : AdapterState) (id : Nat) : Prop :=
  ∃ task, s.tasks id = some task ∧ task.isDone = false

/-- Some probe of the adapter has succeeded. -/
def ProbeSucceeded (log : List AdapterEvent) : Prop := ∃ task, .probeFinished task .returned ∈ log

/-- An event may follow what was seen before it. -/
structure Justified (event : AdapterEvent) (before : List AdapterEvent) : Prop where
  unclosed : event.isRequest = true → .closeBegun ∉ before
  succeeded : ∀ call payload, event = .queryRequested call payload → ProbeSucceeded before

structure AdapterState.Safe (s : AdapterState) : Prop where
  single : ∀ i j, s.Unfinished i → s.Unfinished j → i = j
  slot : s.closed = false → ∀ i, s.Unfinished i → s.probeTask = some i
  emptied : s.closed = true → s.probeTask = none
  compatible : s.compatible = true → s.closed = false ∧ ProbeSucceeded s.log
  finished : ∀ i result, s.tasks i = some (.done result) → .probeFinished i result ∈ s.log
  closed : s.closed = true ↔ .closeBegun ∈ s.log
  ordered : ∀ event before, event :: before <:+ s.log → Justified event before

variable {s : AdapterState}

theorem ProbeSucceeded.cons {log : List AdapterEvent} (h : ProbeSucceeded log) (event : AdapterEvent) :
    ProbeSucceeded (event :: log) := h.imp fun _ => List.mem_cons_of_mem event

theorem AdapterState.not_unfinished {id : Nat} {result : TaskResult}
    (h : s.tasks id = some (.done result)) : ¬s.Unfinished id := by
  rintro ⟨_, htask, hdone⟩
  obtain rfl := Option.some.inj (h.symm.trans htask)
  cases hdone

theorem AdapterState.Safe.init : AdapterState.init.Safe where
  single := by
    rintro _ _ ⟨_, h, _⟩
    cases h
  slot := by
    rintro _ _ ⟨_, h, _⟩
    cases h
  emptied := fun _ => rfl
  compatible := by
    intro h
    cases h
  finished := by
    intro _ _ h
    cases h
  closed := by
    constructor
    · intro h
      cases h
    · intro h
      cases h
  ordered := by
    intro _ _ h
    cases List.suffix_nil.mp h

end Invariant

section Preservation
variable {s : AdapterState}
namespace AdapterState.Safe

/-- An event other than a close is seen. -/
theorem see {event : AdapterEvent} (h : s.Safe) (hclose : event ≠ .closeBegun)
    (hevent : Justified event s.log) : (s.see event).Safe where
  single := h.single
  slot := h.slot
  emptied := h.emptied
  compatible hc := ⟨(h.compatible hc).1, (h.compatible hc).2.cons event⟩
  finished i result hi := List.mem_cons_of_mem event (h.finished i result hi)
  closed := by
    rw [AdapterState.see, List.mem_cons, or_iff_right hclose.symm]
    exact h.closed
  ordered := by
    intro e before hsuffix
    rcases List.suffix_cons_iff.mp hsuffix with heq | hsuffix
    · obtain ⟨rfl, rfl⟩ := List.cons.inj heq
      exact hevent
    · exact h.ordered e before hsuffix

/-- The invariant does not read the other fields. -/
theorem record (h : s.Safe) (calls : Nat → Option QueryCall) (issued : Nat) (closing : Option Nat)
    (clientClosed : Bool) : { s with calls, issued, closing, clientClosed : AdapterState }.Safe :=
  ⟨h.single, h.slot, h.emptied, h.compatible, h.finished, h.closed, h.ordered⟩

theorem setCall (h : s.Safe) (id : Nat) (call : Option QueryCall) : (s.setCall id call).Safe :=
  h.record _ _ _ _

theorem endCall (h : s.Safe) (id : Nat) (outcome : QueryOutcome) : (s.endCall id outcome).Safe := by
  refine (h.setCall id none).see (by rintro ⟨⟩) ⟨?_, ?_⟩
  · intro hrequest
    cases hrequest
  · rintro _ _ ⟨⟩

/-- The slot is emptied of a task that is done. -/
theorem dropProbe (h : s.Safe) {task : Nat} (hdone : ¬s.Unfinished task) : (s.dropProbe task).Safe := by
  unfold AdapterState.dropProbe
  split
  · rename_i hslot
    refine ⟨h.single, fun hclosed i hi => ?_, fun _ => rfl, h.compatible, h.finished, h.closed,
      h.ordered⟩
    obtain rfl := Option.some.inj (hslot.symm.trans (h.slot hclosed i hi))
    exact absurd hi hdone
  · exact h

theorem acceptProbe (h : s.Safe) {task : Nat} (hdone : s.tasks task = some (.done .returned)) :
    (s.acceptProbe task).Safe := by
  unfold AdapterState.acceptProbe
  split
  · rename_i hslot
    have hopen : s.closed = false := by
      cases hclosed : s.closed with
      | false => rfl
      | true =>
        rw [h.emptied hclosed] at hslot
        cases hslot
    refine ⟨h.single, fun hclosed i hi => ?_, fun _ => rfl, fun _ => ⟨hopen, task, ?_⟩, h.finished,
      h.closed, h.ordered⟩
    · obtain rfl := Option.some.inj (hslot.symm.trans (h.slot hclosed i hi))
      exact absurd hi (not_unfinished hdone)
    · exact h.finished task .returned hdone
  · exact h

theorem sendQuery (h : s.Safe) (hsucceeded : ProbeSucceeded s.log) (id : Nat) (payload : QueryPayload) :
    (s.sendQuery id payload).Safe := by
  unfold AdapterState.sendQuery
  split
  · exact h.endCall id _
  · rename_i hclosed
    refine (h.setCall id _).see (by rintro ⟨⟩) ⟨fun _ hmem => hclosed (h.closed.mpr hmem), ?_⟩
    exact fun _ _ _ => hsucceeded

theorem afterProbe (h : s.Safe) {task : Nat} {result : TaskResult}
    (hdone : s.tasks task = some (.done result)) (id : Nat) (payload : QueryPayload) :
    (s.afterProbe id payload task result).Safe := by
  have hunfinished := not_unfinished hdone
  cases result with
  | returned =>
    have hlog : (s.acceptProbe task).log = s.log := by
      unfold AdapterState.acceptProbe
      split <;> rfl
    refine (h.acceptProbe hdone).sendQuery ?_ id payload
    rw [hlog]
    exact ⟨task, h.finished task .returned hdone⟩
  | raised error =>
    simp only [AdapterState.afterProbe]
    split
    · exact (h.dropProbe hunfinished).endCall id _
    · exact h.endCall id _
  | cancelled => exact (h.dropProbe hunfinished).endCall id _

theorem cancelWaiter (h : s.Safe) (id task : Nat) : (s.cancelWaiter id task).Safe := by
  unfold AdapterState.cancelWaiter
  split
  · rename_i hdone
    exact (h.dropProbe (not_unfinished hdone)).endCall id _
  · exact h.endCall id _

/-- A probe is created only while none is unfinished. -/
theorem createProbe (h : s.Safe) (hclosed : s.closed = false) (hslot : s.probeTask = none) :
    s.createProbe.Safe := by
  have hunfinished (i : Nat) (hi : s.createProbe.Unfinished i) : i = s.created := by
    obtain ⟨task, htask, hdone⟩ := hi
    rcases of_update_eq_some htask with ⟨rfl, _⟩ | htask
    · rfl
    · have hnone := h.slot hclosed i ⟨task, htask, hdone⟩
      rw [hslot] at hnone
      cases hnone
  refine ⟨fun i j hi hj => ?_, fun _ i hi => ?_, fun hc => ?_, h.compatible, fun i result hi => ?_,
    h.closed, h.ordered⟩
  · rw [hunfinished i hi, hunfinished j hj]
  · rw [hunfinished i hi]
    rfl
  · exact absurd (hclosed.symm.trans hc) Bool.false_ne_true
  · rcases of_update_eq_some hi with ⟨_, htask⟩ | htask
    · cases htask
    · exact h.finished i result htask

theorem ensureCompatible (h : s.Safe) (id : Nat) (payload : QueryPayload) :
    (s.ensureCompatible id payload).Safe := by
  unfold AdapterState.ensureCompatible
  split
  · exact h.endCall id _
  rename_i hclosed
  split
  · rename_i hcompatible
    exact h.sendQuery (h.compatible hcompatible).2 id payload
  split
  · rename_i hslot
    exact (h.createProbe (Bool.eq_false_of_not_eq_true hclosed) hslot).setCall id _
  · split
    · rename_i hdone
      exact h.afterProbe hdone id payload
    · exact h.setCall id _

/-- An unfinished task goes on. -/
theorem setTask (h : s.Safe) {id : Nat} (hid : s.Unfinished id) {task : ProbeTask}
    (hdone : ∀ result, task = .done result → .probeFinished id result ∈ s.log) :
    (s.setTask id task).Safe := by
  have hunfinished (i : Nat) (hi : (s.setTask id task).Unfinished i) : s.Unfinished i := by
    obtain ⟨task', htask, hdone'⟩ := hi
    rcases of_update_eq_some htask with ⟨rfl, _⟩ | htask
    · exact hid
    · exact ⟨task', htask, hdone'⟩
  refine ⟨fun i j hi hj => ?_, fun hclosed i hi => ?_, h.emptied, h.compatible, fun i result hi => ?_,
    h.closed, h.ordered⟩
  · exact h.single i j (hunfinished i hi) (hunfinished j hj)
  · exact h.slot hclosed i (hunfinished i hi)
  · rcases of_update_eq_some hi with ⟨rfl, htask⟩ | htask
    · exact hdone result (Option.some.inj htask)
    · exact h.finished i result htask

theorem finishTask (h : s.Safe) {id : Nat} (hid : s.Unfinished id) (result : TaskResult) :
    (s.finishTask id result).Safe := by
  have hseen : (s.see (.probeFinished id result)).Safe := by
    refine h.see (by rintro ⟨⟩) ⟨fun hrequest => ?_, fun _ _ hquery => ?_⟩
    · cases hrequest
    · cases hquery
  refine hseen.setTask hid fun result' hresult => ?_
  obtain rfl := ProbeTask.done.inj hresult
  exact List.mem_cons_self

/-- Closing empties the slot, so that no waiter accepts its probe afterwards. -/
theorem closeBegun (h : s.Safe) : AdapterState.Safe
    ({ s with closed := true, compatible := false, probeTask := none }.see .closeBegun) where
  single := h.single
  slot hc := absurd hc Bool.noConfusion
  emptied _ := rfl
  compatible hc := absurd hc Bool.noConfusion
  finished i result hi := List.mem_cons_of_mem _ (h.finished i result hi)
  closed := ⟨fun _ => List.mem_cons_self, fun _ => rfl⟩
  ordered := by
    intro event before hsuffix
    rcases List.suffix_cons_iff.mp hsuffix with heq | hsuffix
    · obtain ⟨rfl, rfl⟩ := List.cons.inj heq
      refine ⟨fun hrequest => ?_, fun _ _ hquery => ?_⟩
      · cases hrequest
      · cases hquery
    · exact h.ordered event before hsuffix

theorem beginClose (h : s.Safe) (ownsClient : Bool) : (beginClose ownsClient s).Safe := by
  unfold Retrieval.beginClose
  simp only
  split
  · exact h.closeBegun.record _ _ _ _
  · rename_i id task htask
    obtain ⟨_, _, hslot⟩ := Option.bind_eq_some_iff.mp htask
    obtain ⟨_, htasks, heq⟩ := Option.map_eq_some_iff.mp hslot
    obtain ⟨rfl, rfl⟩ := Prod.mk.inj heq
    split
    · exact h.closeBegun.record _ _ _ _
    · rename_i hdone
      refine (h.closeBegun.setTask ⟨_, htasks, Bool.eq_false_of_not_eq_true hdone⟩ ?_).record _ _ _ _
      rintro result hresult
      rw [ProbeTask.cancel.eq_def] at hresult
      split at hresult
      · cases hresult
      · cases hresult
      · exact absurd rfl hdone

end AdapterState.Safe
end Preservation

section Runs
variable {σ : Type} {z : Zlib σ} {ownsClient : Bool}

theorem beginQuery_safe {s : AdapterState} (h : s.Safe) (embedding : EmbeddingVector)
    (knowledgeBaseId : UUID) (candidateCount : Int) :
    (beginQuery s embedding knowledgeBaseId candidateCount).Safe := by
  have hissued : { s with issued := s.issued + 1 }.Safe := h.record _ _ _ _
  unfold beginQuery
  simp only
  split
  · exact hissued.endCall _ _
  · exact hissued.ensureCompatible _ _

theorem endClose_safe {s : AdapterState} (h : s.Safe) (result : TaskResult) :
    (endClose ownsClient s result).Safe := by
  cases result with
  | raised error =>
    simp only [endClose]
    split <;> exact h.record _ _ _ _
  | returned => exact h.record _ _ _ _
  | cancelled => exact h.record _ _ _ _

theorem adapterStep_safe (s : AdapterState) (action : AdapterAction) (t : AdapterState) (h : s.Safe)
    (hstep : (chromaAdapter z ownsClient).step s action = some t) : t.Safe := by
  cases move_of_step hstep with
  | query embedding knowledgeBaseId candidateCount =>
    exact beginQuery_safe h embedding knowledgeBaseId candidateCount
  | cancelQuery => exact h.setCall _ _
  | resumeCancelled => exact h.cancelWaiter _ _
  | resumeProbed _ _ _ hdone => exact h.afterProbe hdone _ _
  | finishQuery => exact h.endCall _ _
  | startCancelled htask => exact h.finishTask ⟨_, htask, rfl⟩ _
  | startClosed htask => exact h.finishTask ⟨_, htask, rfl⟩ _
  | @startProbe id htask hclosed =>
    have hstarted : (s.setTask id (.requesting false)).Safe :=
      h.setTask ⟨_, htask, rfl⟩ (by rintro _ ⟨⟩)
    refine hstarted.see (by rintro ⟨⟩) ⟨fun _ hmem => ?_, by rintro _ _ ⟨⟩⟩
    cases hclosed.symm.trans (h.closed.mpr hmem)
  | finishProbe htask => exact h.finishTask ⟨_, htask, rfl⟩ _
  | closeAgain => exact h
  | close => exact h.beginClose ownsClient
  | resumeClose result => exact endClose_safe h result

/-- Over every run of one adapter: at most one probe task is unfinished; a query request
follows the success of a probe; the adapter is compatible only while it is open and once a
probe has succeeded; and no request follows the closing of the adapter. -/
theorem version_probe_safety (z : Zlib σ) (ownsClient : Bool) {actions : List AdapterAction}
    {s : AdapterState} (h : (chromaAdapter z ownsClient).run .init actions = some s) :
    (∀ i j, s.Unfinished i → s.Unfinished j → i = j) ∧
    (∀ call payload before, .queryRequested call payload :: before <:+ s.log → ProbeSucceeded before) ∧
    (s.compatible = true → .closeBegun ∉ s.log ∧ ProbeSucceeded s.log) ∧
    (s.closed = true ↔ .closeBegun ∈ s.log) ∧
    (∀ event before, event :: before <:+ s.log → event.isRequest = true → .closeBegun ∉ before) := by
  have hsafe : s.Safe := Machine.run_invariant adapterStep_safe .init h
  refine ⟨hsafe.single, fun call payload before hsuffix => ?_, fun hcompatible => ?_, hsafe.closed,
    fun event before hsuffix => (hsafe.ordered event before hsuffix).unclosed⟩
  · exact (hsafe.ordered _ before hsuffix).succeeded call payload rfl
  · obtain ⟨hclosed, hsucceeded⟩ := hsafe.compatible hcompatible
    refine ⟨fun hmem => ?_, hsucceeded⟩
    rw [hsafe.closed.mpr hmem] at hclosed
    cases hclosed

private def versionResponse : ProviderResponse where
  statusCode := 200
  headers name := if name = "content-type" then some (str "application/json") else none
  rawParts := [(str "\"1.5.9\"").map fun c => UInt8.ofNat c.val]
  broken := false

/-- Two queries share a probe; one of them is cancelled before the probe succeeds. -/
private def sharedProbe : List AdapterAction :=
  [.query [⟨0⟩] 3 4, .query [⟨0⟩] 3 4, .startProbe 0, .cancelQuery 0,
    .finishProbe 0 (some (.response versionResponse false)), .resumeQuery 0, .resumeQuery 1, .close]

theorem version_probe_safety_example : ∃ s : AdapterState,
    (chromaAdapter exampleZlib true).run .init sharedProbe = some s ∧
    (s.closed = true ↔ .closeBegun ∈ s.log) ∧
    ∀ call payload before, .queryRequested call payload :: before <:+ s.log → ProbeSucceeded before := by
  have hsome : ((chromaAdapter exampleZlib true).run .init sharedProbe).isSome := by decide +kernel
  obtain ⟨s, hs⟩ := Option.isSome_iff_exists.mp hsome
  have hsafety := version_probe_safety exampleZlib true hs
  exact ⟨s, hs, hsafety.2.2.2.1, hsafety.2.1⟩

example : ((chromaAdapter exampleZlib true).run .init sharedProbe).map
    (fun s => (s.log.filter AdapterEvent.isRequest).length) = some 2 := by decide +kernel

end Runs
end AgenticRag.Retrieval

import AgenticRag.Lib.Machine
import AgenticRag.Lib.Slots
import AgenticRag.Retrieval.ChromaDecoding

/-! One dense retrieval adapter under concurrent queries, cancellations and `close`. No
coroutine awaits while it holds the probe lock, so that acquiring the lock never suspends
and each step runs from one suspension to the next. -/
namespace AgenticRag.Retrieval
open Lib Python Ingestion

/-- `CHROMA_VERSION`. -/
def chromaVersion : Str := str "1.5.9"

/-- What comes of a request: an exception of the client, which is `http` for
`httpx.HTTPError`, or a response and whether the deadline has expired once it is validated. -/
inductive Exchange where
  | raised (error : RetrievalException)
  | response (response : ProviderResponse) (deadlineExpired : Bool)

section Requests
variable {σ : Type} (z : Zlib σ)

/-- `except (TimeoutError, httpx.HTTPError)`. -/
def isTransportError (e : RetrievalException) : Bool := e = .timeout ∨ e = .http

/-- The `try` block of `_request_json`. -/
def readExchange {α : Type} (validate : Json → Except RetrievalException α) :
    Exchange → Except RetrievalException α
  | .raised error => .error error
  | .response response deadlineExpired => do
    if response.statusCode ≠ 200 then .error .denseProvider
    else
      let body ← boundedJsonBody z response
      let result ← validate body
      if deadlineExpired then .error .timeout else .ok result

/-- `_request_json` of an adapter that is not closed. -/
def requestJson {α : Type} (validate : Json → Except RetrievalException α) (exchange : Exchange) :
    Except RetrievalException α :=
  rescue isTransportError .denseProvider (readExchange z validate exchange)

def validateVersion : Json → Except RetrievalException Unit
  | .string version => if version ≠ chromaVersion then .error .denseProvider else .ok ()
  | _ => .error .denseProvider

/-- The argument checks of `query`. -/
def validateQuery (embedding : EmbeddingVector) (candidateCount : Int) :
    Except RetrievalException Nat :=
  if ¬(1 ≤ candidateCount ∧ candidateCount ≤ maxProviderCandidates) then .error .value
  else if embedding = [] ∨ ¬embedding.all Float64.isFinite then .error .value
  else .ok candidateCount.toNat

/-- The body of a query request. -/
structure QueryPayload where
  queryEmbeddings : List EmbeddingVector
  nResults : Nat
  knowledgeBaseId : UUID
  included : List String

def queryPayload (embedding : EmbeddingVector) (knowledgeBaseId : UUID) (candidateCount : Nat) :
    QueryPayload := ⟨[embedding], candidateCount, knowledgeBaseId, ["distances"]⟩

end Requests

section States

inductive TaskResult where
  | returned
  | raised (error : RetrievalException)
  | cancelled
  deriving DecidableEq

/-- A probe task; `cancelRequested` is what `close` asked for. -/
inductive ProbeTask where
  | created (cancelRequested : Bool)
  | requesting (cancelRequested : Bool)
  | done (result : TaskResult)
  deriving DecidableEq

def ProbeTask.isDone : ProbeTask → Bool
  | .done _ => true
  | _ => false

/-- `task.cancel()`. -/
def ProbeTask.cancel : ProbeTask → ProbeTask
  | .created _ => .created true
  | .requesting _ => .requesting true
  | .done result => .done result

/-- Where a query is suspended: at `await asyncio.shield(task)`, or in its own request. -/
inductive QueryStage where
  | waiting (task : Nat)
  | requesting

structure QueryCall where
  payload : QueryPayload
  stage : QueryStage
  cancelRequested : Bool

inductive QueryOutcome where
  | returned (result : DenseProviderResult)
  | raised (error : RetrievalException)
  | cancelled

/-- What an observer of the adapter sees. -/
inductive AdapterEvent where
  | probeRequested (task : Nat)
  | probeFinished (task : Nat) (result : TaskResult)
  | queryRequested (call : Nat) (payload : QueryPayload)
  | queryEnded (call : Nat) (outcome : QueryOutcome)
  | closeBegun

def AdapterEvent.isRequest : AdapterEvent → Bool
  | .probeRequested _ => true
  | .queryRequested _ _ => true
  | _ => false

/-- The adapter's fields, the tasks and calls, the task that `close` awaits, and what was
seen so far, latest first. -/
structure AdapterState where
  closed : Bool
  compatible : Bool
  probeTask : Option Nat
  tasks : Nat → Option ProbeTask
  created : Nat
  calls : Nat → Option QueryCall
  issued : Nat
  closing : Option Nat
  clientClosed : Bool
  log : List AdapterEvent

def AdapterState.init : AdapterState :=
  ⟨false, false, none, fun _ => none, 0, fun _ => none, 0, none, false, []⟩

end States

namespace AdapterState

def see (s : AdapterState) (event : AdapterEvent) : AdapterState := { s with log := event :: s.log }

def setTask (s : AdapterState) (id : Nat) (task : ProbeTask) : AdapterState :=
  { s with tasks := Function.update s.tasks id (some task) }

def setCall (s : AdapterState) (id : Nat) (call : Option QueryCall) : AdapterState :=
  { s with calls := Function.update s.calls id call }

def finishTask (s : AdapterState) (id : Nat) (result : TaskResult) : AdapterState :=
  (s.setTask id (.done result)).see (.probeFinished id result)

def endCall (s : AdapterState) (id : Nat) (outcome : QueryOutcome) : AdapterState :=
  (s.setCall id none).see (.queryEnded id outcome)

/-- `self._probe_task = asyncio.create_task(self._probe())`. -/
def createProbe (s : AdapterState) : AdapterState :=
  { s.setTask s.created (.created false) with probeTask := some s.created, created := s.created + 1 }

/-- `if self._probe_task is task: self._probe_task = None`. -/
def dropProbe (s : AdapterState) (task : Nat) : AdapterState :=
  if s.probeTask = some task then { s with probeTask := none } else s

/-- The `else` branch of `_ensure_compatible`. -/
def acceptProbe (s : AdapterState) (task : Nat) : AdapterState :=
  if s.probeTask = some task then { s with probeTask := none, compatible := true } else s

/-- A query suspends on the shared probe. -/
def await (s : AdapterState) (id : Nat) (payload : QueryPayload) (task : Nat) : AdapterState :=
  s.setCall id (some ⟨payload, .waiting task, false⟩)

/-- `query` once the adapter is compatible, up to its request. -/
def sendQuery (s : AdapterState) (id : Nat) (payload : QueryPayload) : AdapterState :=
  if s.closed then s.endCall id (.raised .denseProvider)
  else (s.setCall id (some ⟨payload, .requesting, false⟩)).see (.queryRequested id payload)

/-- A query goes on with the result of the probe that it shares. -/
def afterProbe (s : AdapterState) (id : Nat) (payload : QueryPayload) (task : Nat) :
    TaskResult → AdapterState
  | .returned => (s.acceptProbe task).sendQuery id payload
  | .raised error =>
    if error = .denseProvider then (s.dropProbe task).endCall id (.raised error)
    else s.endCall id (.raised error)
  | .cancelled => (s.dropProbe task).endCall id .cancelled

/-- A waiting query is cancelled itself. -/
def cancelWaiter (s : AdapterState) (id task : Nat) : AdapterState :=
  if s.tasks task = some (.done .cancelled) then (s.dropProbe task).endCall id .cancelled
  else s.endCall id .cancelled

/-- `_ensure_compatible` and what follows, up to the next suspension; a task that is done
is not waited for. -/
def ensureCompatible (s : AdapterState) (id : Nat) (payload : QueryPayload) : AdapterState :=
  if s.closed then s.endCall id (.raised .denseProvider)
  else if s.compatible then s.sendQuery id payload
  else match s.probeTask with
    | none => s.createProbe.await id payload s.created
    | some task =>
      match s.tasks task with
      | some (.done result) => s.afterProbe id payload task result
      | _ => s.await id payload task

end AdapterState

inductive AdapterAction where
  | query (embedding : EmbeddingVector) (knowledgeBaseId : UUID) (candidateCount : Int)
  | cancelQuery (id : Nat)
  | resumeQuery (id : Nat)
  | finishQuery (id : Nat) (exchange : Option Exchange)
  | startProbe (task : Nat)
  | finishProbe (task : Nat) (exchange : Option Exchange)
  | close
  | resumeClose

section Machine
variable {σ : Type} (z : Zlib σ)

/-- The result of a probe; `none` is its `CancelledError`. -/
def probeResult : Option Exchange → TaskResult
  | none => .cancelled
  | some exchange =>
    match requestJson z validateVersion exchange with
    | .ok () => .returned
    | .error error => .raised error

/-- The outcome of a query's own request; `none` is its `CancelledError`. -/
def queryOutcome (payload : QueryPayload) : Option Exchange → QueryOutcome
  | none => .cancelled
  | some exchange =>
    match requestJson z (typedResult · payload.nResults) exchange with
    | .ok result => .returned result
    | .error error => .raised error

/-- `close` up to its first suspension. -/
def beginClose (ownsClient : Bool) (s : AdapterState) : AdapterState :=
  let s' := { s with closed := true, compatible := false, probeTask := none }.see .closeBegun
  match s.probeTask.bind fun id => (s.tasks id).map fun task => (id, task) with
  | none => { s' with clientClosed := ownsClient }
  | some (id, task) =>
    if task.isDone then { s' with clientClosed := ownsClient }
    else { s'.setTask id task.cancel with closing := some id }

/-- `close` after the task that it awaited, whose exceptions other than two are not
suppressed. -/
def endClose (ownsClient : Bool) (s : AdapterState) : TaskResult → AdapterState
  | .returned => { s with closing := none, clientClosed := ownsClient }
  | .cancelled => { s with closing := none, clientClosed := ownsClient }
  | .raised error =>
    if error = .denseProvider then { s with closing := none, clientClosed := ownsClient }
    else { s with closing := none }

/-- The first step of a probe task. -/
def startProbe (s : AdapterState) (id : Nat) : ProbeTask → Option AdapterState
  | .created cancelRequested =>
    if cancelRequested then some (s.finishTask id .cancelled)
    else if s.closed then some (s.finishTask id (.raised .denseProvider))
    else some ((s.setTask id (.requesting false)).see (.probeRequested id))
  | .requesting _ => none
  | .done _ => none

/-- The last step of a probe task; only a cancelled one can end without an exchange. -/
def finishProbe (s : AdapterState) (id : Nat) (exchange : Option Exchange) :
    ProbeTask → Option AdapterState
  | .requesting cancelRequested =>
    if exchange.isNone && !cancelRequested then none
    else some (s.finishTask id (probeResult z exchange))
  | .created _ => none
  | .done _ => none

/-- A waiting query wakes up when it is cancelled or when its probe is done. -/
def resumeQuery (s : AdapterState) (id : Nat) (call : QueryCall) : Option AdapterState :=
  match call.stage with
  | .requesting => none
  | .waiting task =>
    if call.cancelRequested then some (s.cancelWaiter id task)
    else match s.tasks task with
      | some (.done result) => some (s.afterProbe id call.payload task result)
      | _ => none

/-- The end of a query's own request. -/
def finishQuery (s : AdapterState) (id : Nat) (exchange : Option Exchange) (call : QueryCall) :
    Option AdapterState :=
  match call.stage with
  | .waiting _ => none
  | .requesting =>
    if exchange.isNone && !call.cancelRequested then none
    else some (s.endCall id (queryOutcome z call.payload exchange))

/-- A query up to its first suspension. -/
def beginQuery (s : AdapterState) (embedding : EmbeddingVector) (knowledgeBaseId : UUID)
    (candidateCount : Int) : AdapterState :=
  let s' := { s with issued := s.issued + 1 }
  match validateQuery embedding candidateCount with
  | .error error => s'.endCall s.issued (.raised error)
  | .ok count => s'.ensureCompatible s.issued (queryPayload embedding knowledgeBaseId count)

def adapterStep (ownsClient : Bool) (s : AdapterState) : AdapterAction → Option AdapterState
  | .query embedding knowledgeBaseId candidateCount =>
    some (beginQuery s embedding knowledgeBaseId candidateCount)
  | .cancelQuery id =>
    (s.calls id).map fun call => s.setCall id (some { call with cancelRequested := true })
  | .resumeQuery id => (s.calls id).bind (resumeQuery s id)
  | .finishQuery id exchange => (s.calls id).bind (finishQuery z s id exchange)
  | .startProbe id => (s.tasks id).bind (startProbe s id)
  | .finishProbe id exchange => (s.tasks id).bind (finishProbe z s id exchange)
  | .close => some (if s.closed then s else beginClose ownsClient s)
  | .resumeClose =>
    match s.closing.bind s.tasks with
    | some (.done result) => some (endClose ownsClient s result)
    | _ => none

/-- `ChromaDenseRetrievalAdapter`. -/
def chromaAdapter (ownsClient : Bool) : Machine AdapterState AdapterAction :=
  ⟨adapterStep z ownsClient⟩

end Machine
end AgenticRag.Retrieval

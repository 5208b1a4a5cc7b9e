import AgenticRag.Ingestion.Embeddings
import AgenticRag.Lib.Slices
import AgenticRag.Python.JsonLoads
import AgenticRag.Retrieval.ChromaDecoding

/-! The Ollama embedding adapter: bounded decoding of a response, and the loop over the
batches of a request. -/
namespace AgenticRag.Ingestion
open Lib Python Retrieval

def maxEmbeddingWireBytes : Nat := 2097152
def maxEmbeddingDecodedBytes : Nat := 2097152

/-- The exceptions that cross `embed`; `httpTimeout` is `httpx.TimeoutException`. -/
inductive OllamaException where
  | embedding (error : EmbeddingError)
  | timeout
  | httpTimeout
  | http
  | unicodeDecode
  | unicodeEncode
  | value
  | zlib
  | recursion
  deriving DecidableEq

/-- An exception of `json.loads`. -/
def OllamaException.ofJson : JsonError → OllamaException
  | .value => .value
  | .recursion => .recursion

section Body

def validateEmbeddingLength (response : ProviderResponse) : Except OllamaException Unit :=
  match response.headers "content-length" with
  | none => .ok ()
  | some raw =>
    match declaredLength raw with
    | none => .error (.embedding .response)
    | some parsedLength =>
      if parsedLength < 0 ∨ parsedLength > maxEmbeddingWireBytes then .error (.embedding .response)
      else .ok ()

/-- `_embedding_content_encoding`. -/
def embeddingContentEncoding (response : ProviderResponse) : Except OllamaException ContentEncoding :=
  match response.headers "content-encoding" with
  | none => .ok .identity
  | some raw =>
    let encoding := lower (strip raw)
    if strip raw = [] then .ok .identity
    else if encoding.contains (ord ',') then .error (.embedding .response)
    else if encoding = str "identity" then .ok .identity
    else if encoding = str "gzip" then .ok .gzip
    else .error (.embedding .response)

/-- The state of the loop over the raw parts; the decoded parts are joined. -/
structure EmbeddingReader (σ : Type) where
  wireCount : Nat
  decompressor : Option σ
  decoded : List UInt8

variable {σ : Type} (z : Zlib σ)

set_option linter.unusedVariables false in
/-- The inner loop over one compressed part. -/
def inflateEmbedding (s : σ) (decoded compressedPart : List UInt8) :
    Except OllamaException (σ × List UInt8) :=
  if compressedPart = [] then .ok (s, decoded)
  else
    let remaining := maxEmbeddingDecodedBytes - decoded.length
    match hout : z.decompress s compressedPart (remaining + 1) with
    | none => .error .zlib
    | some (decodedPart, s') =>
      if hlen : decodedPart.length > remaining then .error (.embedding .response)
      else
        let nextPart := z.unconsumedTail s'
        if hstall : nextPart = compressedPart ∧ decodedPart = [] then .error (.embedding .response)
        else inflateEmbedding s' (decoded ++ decodedPart) nextPart
termination_by (maxEmbeddingDecodedBytes - decoded.length, compressedPart.length)
decreasing_by
  have hsuffix := z.tail_suffix _ _ _ _ _ hout
  by_cases hempty : decodedPart = []
  · subst hempty
    have hne : z.unconsumedTail s' ≠ compressedPart := fun he => hstall ⟨he, rfl⟩
    have hlt : (z.unconsumedTail s').length < compressedPart.length :=
      lt_of_le_of_ne hsuffix.length_le fun he => hne (hsuffix.eq_of_length he)
    rw [List.append_nil]
    exact Prod.Lex.right _ hlt
  · have hpos := List.length_pos_iff.mpr hempty
    apply Prod.Lex.left
    rw [List.length_append]
    omega

/-- One turn of the loop over the raw parts. -/
def readEmbeddingPart (reader : EmbeddingReader σ) (rawPart : List UInt8) :
    Except OllamaException (EmbeddingReader σ) :=
  let wireCount := reader.wireCount + rawPart.length
  if wireCount > maxEmbeddingWireBytes then .error (.embedding .response)
  else match reader.decompressor with
    | none =>
      if reader.decoded.length + rawPart.length > maxEmbeddingDecodedBytes then
        .error (.embedding .response)
      else .ok ⟨wireCount, none, reader.decoded ++ rawPart⟩
    | some s => do
      let (s, decoded) ← inflateEmbedding z s reader.decoded rawPart
      .ok ⟨wireCount, some s, decoded⟩

/-- What follows the loop for a decompressor. -/
def flushEmbedding (reader : EmbeddingReader σ) : Except OllamaException (List UInt8) :=
  match reader.decompressor with
  | none => .ok reader.decoded
  | some s =>
    let remaining := maxEmbeddingDecodedBytes - reader.decoded.length
    match z.flush s (remaining + 1) with
    | none => .error .zlib
    | some (decodedPart, s) =>
      if decodedPart.length > remaining then .error (.embedding .response)
      else if !z.eof s || z.unusedData s != [] then .error (.embedding .response)
      else .ok (reader.decoded ++ decodedPart)

/-- The text of the body, which `json.loads` is given. -/
def embeddingText (response : ProviderResponse) (encoding : ContentEncoding) :
    Except OllamaException Str := do
  let reader ← response.rawParts.foldlM (readEmbeddingPart z)
    ⟨0, if encoding = .gzip then some z.decompressobj else none, []⟩
  if response.broken then .error .http
  else do
    let decoded ← flushEmbedding z reader
    match decodeUtf8 decoded with
    | none => .error .unicodeDecode
    | some text => .ok text

/-- `except (UnicodeDecodeError, json.JSONDecodeError, ValueError, zlib.error)`. -/
def isMalformed (e : OllamaException) : Bool := e = .unicodeDecode ∨ e = .value ∨ e = .zlib

/-- `_bounded_embedding_json`. -/
def boundedEmbeddingJson (recursionLimit : Nat) (response : ProviderResponse) :
    Except OllamaException Json := do
  validateEmbeddingLength response
  let encoding ← embeddingContentEncoding response
  rescue isMalformed (.embedding .response) do
    let text ← embeddingText z response encoding
    (jsonLoadsWithin recursionLimit text).mapError .ofJson

end Body

section Batches

/-- What `embed` relies on: the decompressor, how many calls of the JSON scanner may nest,
`float` of a number, and whether the client can encode a request body, which otherwise
raises `UnicodeEncodeError`. -/
structure EmbeddingRuntime (σ : Type) where
  zlib : Zlib σ
  recursionLimit : Nat
  float : Numeral → Float64
  encodes : Str → List Str → Bool

structure OllamaEmbeddingModel where
  modelId : Str
  dimension : Int
  batchSize : Nat
  closed : Bool
  modelId_nonblank : strip modelId ≠ []
  dimension_pos : 0 < dimension
  batchSize_pos : 0 < batchSize

/-- What comes of the request for a batch: an exception of the client, or a response and
whether the deadline has expired once it is validated. -/
inductive EmbeddingExchange where
  | raised (error : OllamaException)
  | response (response : ProviderResponse) (deadlineExpired : Bool)

/-- `response.is_error`. -/
def isErrorStatus (statusCode : Nat) : Bool := 400 ≤ statusCode && statusCode ≤ 599

/-- `body.get(key)`: the last member of a name counts. -/
def lastMember? (members : List (Str × Json)) (key : Str) : Option Json :=
  (members.reverse.find? fun p => p.1 = key).map Prod.snd

mutual

/-- The value that `json.loads` makes. -/
def jsonObject (float : Numeral → Float64) : Json → Object
  | .null => .none
  | .bool b => .bool b
  | .number lexeme =>
    if lexeme.isIntegral then .int ((intBase10 lexeme.text).getD 0) else .float (float lexeme)
  | .string s => .str s
  | .array items => .list (jsonObjects float items)
  | .object _ => .other "dict"

def jsonObjects (float : Numeral → Float64) : List Json → List Object
  | [] => []
  | item :: items => jsonObject float item :: jsonObjects float items

end

variable {σ : Type} (runtime : EmbeddingRuntime σ) (model : OllamaEmbeddingModel)

/-- The checks of a decoded body. -/
def readEmbeddings (batch : List Str) : Json → Except OllamaException (List EmbeddingVector)
  | .object members =>
    match lastMember? members (str "model") with
    | some (.string responseModel) =>
      if responseModel ≠ model.modelId then .error (.embedding .response)
      else
        let vectors := ((lastMember? members (str "embeddings")).map (jsonObject runtime.float)).getD .none
        (validateEmbeddingBatch batch vectors model.dimension).mapError .embedding
    | _ => .error (.embedding .response)
  | _ => .error (.embedding .response)

/-- The `try` block of `embed`. -/
def requestEmbeddings (batch : List Str) (exchange : EmbeddingExchange) :
    Except OllamaException (List EmbeddingVector) :=
  if !runtime.encodes model.modelId batch then .error .unicodeEncode
  else match exchange with
    | .raised error => .error error
    | .response response deadlineExpired =>
      if isErrorStatus response.statusCode then .error (.embedding .request)
      else do
        let body ← boundedEmbeddingJson runtime.zlib runtime.recursionLimit response
        let batchVectors ← readEmbeddings runtime model batch body
        if deadlineExpired then .error .timeout else .ok batchVectors

/-- `except TimeoutError`, `except httpx.TimeoutException` and `except httpx.HTTPError`. -/
def isTransportFailure (e : OllamaException) : Bool := e = .timeout ∨ e = .httpTimeout ∨ e = .http

/-- One turn of the loop of `embed`. -/
def embedBatch (batch : List Str) (exchange : EmbeddingExchange) :
    Except OllamaException (List EmbeddingVector) :=
  rescue isTransportFailure (.embedding .request) (requestEmbeddings runtime model batch exchange)

/-- `embed`, where `exchanges` says what comes of the request for each batch. -/
def embed (texts : List Str) (exchanges : Nat → EmbeddingExchange) :
    Except OllamaException (List EmbeddingVector) :=
  if model.closed then .error (.embedding .request)
  else do
    let validated ← (validateTexts texts).mapError .embedding
    (slices model.batchSize validated).zipIdx.foldlM (fun vectors batch => do
      let batchVectors ← embedBatch runtime model batch.1 (exchanges batch.2)
      .ok (vectors ++ batchVectors)) []

end Batches
end AgenticRag.Ingestion

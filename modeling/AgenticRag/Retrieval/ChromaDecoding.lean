import AgenticRag.Python.Json
import AgenticRag.Python.Utf8
import AgenticRag.Retrieval.DenseResult

/-! Decoding an untrusted provider response: headers, bounded body, JSON, and the
typed result. -/
namespace AgenticRag.Retrieval
open Lib Python

def maxProviderWireBytes : Nat := 1048576
def maxProviderDecodedBytes : Nat := 2097152
def maxUntrustedStringBytes : Nat := 4096
def maxMetadataEntries : Nat := 32
def maxMetadataKeyBytes : Nat := 128
def maxMetadataValueBytes : Nat := 1024
def maxJsonDepth : Nat := 16

/-- A response: its status, its headers by name, the parts that the stream yields, and
whether the transport fails (`httpx.HTTPError`) after them. -/
structure ProviderResponse where
  statusCode : Nat
  headers : String → Option Str
  rawParts : List (List UInt8)
  broken : Bool

/-- A gzip decompressor: `zlib.decompressobj(16 + zlib.MAX_WBITS)` and its methods;
`none` is `zlib.error`. What is not consumed is the end of what was given. -/
structure Zlib (σ : Type) where
  decompressobj : σ
  decompress : σ → List UInt8 → Nat → Option (List UInt8 × σ)
  unconsumedTail : σ → List UInt8
  flush : σ → Nat → Option (List UInt8 × σ)
  eof : σ → Bool
  unusedData : σ → List UInt8
  tail_suffix : ∀ s part limit out s', decompress s part limit = some (out, s') →
    unconsumedTail s' <:+ part

/-- A decompressor that rejects everything. -/
def exampleZlib : Zlib Unit where
  decompressobj := ()
  decompress := fun _ _ _ => none
  unconsumedTail := fun _ => []
  flush := fun _ _ => none
  eof := fun _ => false
  unusedData := fun _ => []
  tail_suffix := by simp

/-- `str.lower` of one character, exact in comparisons with ASCII text. -/
def lowerChar (c : CodePoint) : CodePoint :=
  if 0x41 ≤ c.val ∧ c.val ≤ 0x5A then Fin.ofNat _ (c.val + 0x20)
  else if c.val = 0x212A then ord 'k'
  else c

def lower (s : Str) : Str := s.map lowerChar

/-- `s.split("=", 1)`, when there is a separator. -/
def splitOnce (s : Str) : Option (Str × Str) :=
  match s.dropWhile (· ≠ ord '=') with
  | [] => none
  | _ :: rest => some (s.takeWhile (· ≠ ord '='), rest)

def validateContentType (response : ProviderResponse) : Except RetrievalException Unit :=
  match response.headers "content-type" with
  | none => .error .denseProvider
  | some raw =>
    let parts := (raw.splitOn (ord ';')).map strip
    if (parts.head?.map lower) ≠ some (str "application/json") ∨ parts.length > 2 then
      .error .denseProvider
    else match parts with
      | [_, parameter] =>
        match splitOnce parameter with
        | none => .error .denseProvider
        | some (name, value) =>
          if lower (strip name) ≠ str "charset" then .error .denseProvider
          else if lower (stripWhile (· == ord '"') (strip value)) ≠ str "utf-8" then
            .error .denseProvider
          else .ok ()
      | _ => .ok ()

inductive ContentEncoding where
  | identity | gzip
  deriving DecidableEq

def contentEncoding (response : ProviderResponse) : Except RetrievalException ContentEncoding :=
  match response.headers "content-encoding" with
  | none => .ok .identity
  | some raw =>
    let encoding := lower (strip raw)
    if strip raw = [] then .ok .identity
    else if encoding = str "identity" then .ok .identity
    else if encoding = str "gzip" then .ok .gzip
    else .error .denseProvider

/-- The most digits that `int` reads in base 10. -/
def maxIntDigits : Nat := 4300

/-- `int(raw, 10)`; `none` is its `ValueError`. -/
def declaredLength (raw : Str) : Option Int :=
  if ((intLiteral raw).2.filter (· ≠ underscore)).length > maxIntDigits then none
  else intBase10 raw

def validateContentLength (response : ProviderResponse) : Except RetrievalException Unit :=
  match response.headers "content-length" with
  | none => .ok ()
  | some raw =>
    match declaredLength raw with
    | none => .error .denseProvider
    | some declared =>
      if declared < 0 ∨ declared > maxProviderWireBytes then .error .denseProvider else .ok ()

/-- `_JsonDepthScanner`; the innermost container comes first. -/
structure JsonDepthScanner where
  containers : Str
  inString : Bool
  escaped : Bool
  deriving DecidableEq

namespace JsonDepthScanner

def empty : JsonDepthScanner := ⟨[], false, false⟩

/-- One turn of the loop of `feed`. -/
def read (scanner : JsonDepthScanner) (c : CodePoint) : Except RetrievalException JsonDepthScanner :=
  if scanner.inString then
    if scanner.escaped then .ok { scanner with escaped := false }
    else if c = ord '\\' then .ok { scanner with escaped := true }
    else if c = ord '"' then .ok { scanner with inString := false }
    else .ok scanner
  else if c = ord '"' then .ok { scanner with inString := true }
  else if c = ord '[' ∨ c = ord '{' then
    if scanner.containers.length ≥ maxJsonDepth then .error .denseProvider
    else .ok { scanner with containers := c :: scanner.containers }
  else if c = ord ']' ∨ c = ord '}' then
    let expectedOpener := if c = ord ']' then ord '[' else ord '{'
    match scanner.containers with
    | [] => .error .denseProvider
    | opener :: rest =>
      if opener ≠ expectedOpener then .error .denseProvider
      else .ok { scanner with containers := rest }
  else .ok scanner

def feed (scanner : JsonDepthScanner) (text : Str) : Except RetrievalException JsonDepthScanner :=
  text.foldlM read scanner

def finish (scanner : JsonDepthScanner) : Except RetrievalException Unit :=
  if scanner.containers ≠ [] ∨ scanner.inString then .error .denseProvider else .ok ()

end JsonDepthScanner

def validateJsonDepth (text : Str) : Except RetrievalException Unit := do
  let scanner ← JsonDepthScanner.empty.feed text
  scanner.finish

/-- `b"\xef\xbb\xbf"`. -/
def byteOrderMark : List UInt8 := [0xEF, 0xBB, 0xBF]

/-- `except (UnicodeDecodeError, json.JSONDecodeError, ValueError)`. -/
def isJsonError (e : RetrievalException) : Bool := e = .unicodeDecode ∨ e = .value

/-- `_strict_json`. -/
def strictJson (body : List UInt8) : Except RetrievalException Json :=
  if byteOrderMark.isPrefixOf body then .error .denseProvider
  else rescue isJsonError .denseProvider do
    match decodeUtf8 body with
    | none => .error .unicodeDecode
    | some text => do
      validateJsonDepth text
      match jsonLoads text with
      | none => .error .value
      | some value => .ok value

/-- The decoded parts so far, joined, with the decoder and the scanner that read them. -/
structure AcceptedParts where
  decoded : List UInt8
  utf8Decoder : Utf8State
  depthScanner : JsonDepthScanner

/-- `accept_decoded_part`. -/
def AcceptedParts.accept (accepted : AcceptedParts) (decodedPart : List UInt8) :
    Except RetrievalException AcceptedParts :=
  match utf8Feed accepted.utf8Decoder decodedPart with
  | none => .error .unicodeDecode
  | some (text, utf8Decoder) => do
    let depthScanner ← accepted.depthScanner.feed text
    .ok ⟨accepted.decoded ++ decodedPart, utf8Decoder, depthScanner⟩

/-- The state of the loop over the raw parts. -/
structure BodyReader (σ : Type) where
  wireCount : Nat
  decodedCount : Nat
  decompressor : Option σ
  accepted : AcceptedParts

section Body
variable {σ : Type} (z : Zlib σ)

set_option linter.unusedVariables false in
/-- The inner loop over one compressed part. -/
def inflatePart (s : σ) (accepted : AcceptedParts) (decodedCount : Nat) (compressedPart : List UInt8) :
    Except RetrievalException (σ × AcceptedParts × Nat) :=
  if compressedPart = [] then .ok (s, accepted, decodedCount)
  else
    let remaining := maxProviderDecodedBytes - decodedCount
    match hout : z.decompress s compressedPart (remaining + 1) with
    | none => .error .zlib
    | some (decodedPart, s') =>
      if hlen : decodedPart.length > remaining then .error .denseProvider
      else match accepted.accept decodedPart with
        | .error e => .error e
        | .ok accepted' =>
          let nextPart := z.unconsumedTail s'
          if hstall : nextPart = compressedPart ∧ decodedPart = [] then .error .denseProvider
          else inflatePart s' accepted' (decodedCount + decodedPart.length) nextPart
termination_by (maxProviderDecodedBytes - decodedCount, compressedPart.length)
decreasing_by
  have hsuffix := z.tail_suffix _ _ _ _ _ hout
  have hle := hsuffix.length_le
  by_cases hempty : decodedPart = []
  · -- Nothing was produced, so a proper suffix is left.
    subst hempty
    have hne : z.unconsumedTail s' ≠ compressedPart := fun he => hstall ⟨he, rfl⟩
    have hlt : (z.unconsumedTail s').length < compressedPart.length :=
      lt_of_le_of_ne hle fun he => hne (hsuffix.eq_of_length he)
    exact Prod.Lex.right _ hlt
  · -- Output uses up the budget.
    have hpos := List.length_pos_iff.mpr hempty
    apply Prod.Lex.left
    omega

/-- One turn of the loop over the raw parts. -/
def readRawPart (reader : BodyReader σ) (rawPart : List UInt8) :
    Except RetrievalException (BodyReader σ) :=
  let wireCount := reader.wireCount + rawPart.length
  if wireCount > maxProviderWireBytes then .error .denseProvider
  else match reader.decompressor with
    | none =>
      let decodedCount := reader.decodedCount + rawPart.length
      if decodedCount > maxProviderDecodedBytes then .error .denseProvider
      else do
        let accepted ← reader.accepted.accept rawPart
        .ok ⟨wireCount, decodedCount, none, accepted⟩
    | some s => do
      let (s, accepted, decodedCount) ← inflatePart z s reader.accepted reader.decodedCount rawPart
      .ok ⟨wireCount, decodedCount, some s, accepted⟩

/-- What follows the loop for a decompressor. -/
def flushBody (reader : BodyReader σ) : Except RetrievalException AcceptedParts :=
  match reader.decompressor with
  | none => .ok reader.accepted
  | some s =>
    let remaining := maxProviderDecodedBytes - reader.decodedCount
    match z.flush s (remaining + 1) with
    | none => .error .zlib
    | some (decodedPart, s) =>
      if decodedPart.length > remaining then .error .denseProvider
      else if !z.eof s || z.unusedData s != [] then .error .denseProvider
      else reader.accepted.accept decodedPart

/-- `utf8_decoder.decode(b"", final=True)`. -/
def finishUtf8 (accepted : AcceptedParts) : Except RetrievalException Unit :=
  if accepted.utf8Decoder = .ready then .ok () else .error .unicodeDecode

def openReader (encoding : ContentEncoding) : BodyReader σ where
  wireCount := 0
  decodedCount := 0
  decompressor := if encoding = .gzip then some z.decompressobj else none
  accepted := ⟨[], .ready, .empty⟩

/-- The `try` block of `_bounded_json_body`: the decoded bytes. -/
def readBody (response : ProviderResponse) (encoding : ContentEncoding) :
    Except RetrievalException (List UInt8) := do
  let reader ← response.rawParts.foldlM (readRawPart z) (openReader z encoding)
  if response.broken then .error .http
  else do
    let accepted ← flushBody z reader
    finishUtf8 accepted
    accepted.depthScanner.finish
    .ok accepted.decoded

/-- `except (UnicodeDecodeError, zlib.error, httpx.HTTPError)`. -/
def isBodyError (e : RetrievalException) : Bool := e = .unicodeDecode ∨ e = .zlib ∨ e = .http

/-- `_bounded_json_body`. -/
def boundedJsonBody (response : ProviderResponse) : Except RetrievalException Json := do
  validateContentType response
  let encoding ← contentEncoding response
  validateContentLength response
  let body ← rescue isBodyError .denseProvider (readBody z response encoding)
  strictJson body

end Body

section Numbers

/-- The value of a digit string. -/
def digitsNat (s : Str) : Nat := s.foldl (fun n c => n * 10 + (c.val - 0x30)) 0

/-- A decimal lexeme as `mantissa * 10 ^ exponent`, its sign left out. -/
def decimalOf (lexeme : Str) : Nat × Int :=
  let magnitude := match lexeme with
    | c :: rest => if c = ord '-' then rest else lexeme
    | [] => []
  let isMark := fun c => JsonScanner.isExponentMark c
  let (whole, tail) := magnitude.span fun c => !isMark c
  let exponent := match tail.drop 1 with
    | [] => (0 : Int)
    | c :: rest =>
      if c = ord '-' then -(digitsNat rest : Int)
      else if c = ord '+' then digitsNat rest
      else digitsNat (c :: rest)
  let (integer, fraction) := whole.span (· ≠ ord '.')
  (digitsNat (integer ++ fraction.drop 1), exponent - (fraction.drop 1).length)

/-- Halfway between the largest binary64 and the next power of two: from here on
`float(lexeme)` is infinite. -/
def binary64Overflow : Nat := 2 ^ 1024 - 2 ^ 970

def isFiniteBinary64 (lexeme : Numeral) : Bool :=
  let (mantissa, exponent) := decimalOf lexeme.text
  if 0 ≤ exponent then mantissa * 10 ^ exponent.toNat < binary64Overflow
  else mantissa < binary64Overflow * 10 ^ (-exponent).toNat

/-- `_finite_binary64` of a number lexeme, up to the value. -/
def finiteBinary64 (lexeme : Numeral) : Except RetrievalException Unit :=
  if isFiniteBinary64 lexeme then .ok () else .error .denseProvider

end Numbers

section Typed

/-- The loop of `_validate_optional_documents` and `_validate_optional_metadatas`: a
single row of one entry for each position, where `None` stands for no entry. -/
def validateOptional (validate : Json → Except RetrievalException Unit) (value : Json)
    (positionCount : Nat) : Except RetrievalException Unit :=
  match value with
  | .null => .ok ()
  | .array [.array entries] =>
    if entries.length ≠ positionCount then .error .denseProvider
    else entries.forM fun entry => match entry with
      | .null => .ok ()
      | entry => validate entry
  | _ => .error .denseProvider

def validateDocument : Json → Except RetrievalException Unit
  | .string document => checkEncodedLength maxUntrustedStringBytes document
  | _ => .error .denseProvider

def validateOptionalDocuments (value : Json) (positionCount : Nat) : Except RetrievalException Unit :=
  validateOptional validateDocument value positionCount

/-- One turn of the loop over the items of a metadata object. -/
def validateMetadataItem (item : Str × Json) : Except RetrievalException Unit := do
  checkEncodedLength maxMetadataKeyBytes item.1
  match item.2 with
  | .string scalar => checkEncodedLength maxMetadataValueBytes scalar
  | .bool _ => .ok ()
  | .number lexeme => do
    checkEncodedLength maxMetadataValueBytes lexeme.text
    finiteBinary64 lexeme
  | _ => .error .denseProvider

def validateMetadata : Json → Except RetrievalException Unit
  | .object members =>
    if members.length > maxMetadataEntries then .error .denseProvider
    else members.forM validateMetadataItem
  | _ => .error .denseProvider

def validateOptionalMetadatas (value : Json) (positionCount : Nat) : Except RetrievalException Unit :=
  validateOptional validateMetadata value positionCount

/-- `_CANONICAL_RESPONSE_KEYS`. -/
def canonicalResponseKeys : List Str :=
  [str "ids", str "embeddings", str "documents", str "uris", str "data", str "metadatas",
    str "distances", str "include"]

def member? (members : List (Str × Json)) (key : Str) : Option Json :=
  (members.find? fun p => p.1 = key).map Prod.snd

/-- The part of a canonical response that is read on: the rows of ids and distances,
and the optional documents and metadata. -/
structure CanonicalEnvelope where
  ids : List Json
  distances : List Json
  documents : Json
  metadatas : Json

/-- The shape checks of `_typed_result` up to the position count. -/
def canonicalEnvelope (body : Json) (configuredCount : Nat) : Except RetrievalException CanonicalEnvelope :=
  match body with
  | .object members =>
    let keys := members.map Prod.fst
    if ¬keys ⊆ canonicalResponseKeys ∨ ¬canonicalResponseKeys ⊆ keys then .error .denseProvider
    else match member? members (str "embeddings"), member? members (str "uris"),
        member? members (str "data"), member? members (str "include"), member? members (str "ids"),
        member? members (str "distances"), member? members (str "documents"),
        member? members (str "metadatas") with
      | some .null, some .null, some .null, some (.array [.string included]),
          some (.array [.array ids]), some (.array [.array distances]), some documents,
          some metadatas =>
        if included ≠ str "distances" then .error .denseProvider
        else if distances.length ≠ ids.length ∨ ids.length > configuredCount ∨
            ids.length > maxProviderCandidates then .error .denseProvider
        else .ok ⟨ids, distances, documents, metadatas⟩
      | _, _, _, _, _, _, _, _ => .error .denseProvider
  | _ => .error .denseProvider

/-- One turn of the loop that normalizes the distances. -/
def normalizeDistance : Json → Except RetrievalException ProviderScore
  | .number lexeme => do
    finiteBinary64 lexeme
    .ok .finite
  | _ => .ok .invalid

/-- An id as `type(vector_id) is str` sees it. -/
def vectorIdOf : Json → Option Str
  | .string s => some s
  | _ => none

/-- `tuple((vector_id, normalized_distances[position], position) for ... in enumerate(ids))`. -/
def denseCandidates (ids : List Json) (scores : List ProviderScore) : List DenseCandidate :=
  ((ids.map vectorIdOf).zip scores).zipIdx.map fun p => ⟨p.1.1, p.1.2, p.2⟩

/-- `_typed_result`. -/
def typedResult (body : Json) (configuredCount : Nat) : Except RetrievalException DenseProviderResult := do
  let envelope ← canonicalEnvelope body configuredCount
  let positionCount := envelope.ids.length
  validateOptionalDocuments envelope.documents positionCount
  validateOptionalMetadatas envelope.metadatas positionCount
  let scores ← envelope.distances.mapM normalizeDistance
  (envelope.ids.map vectorIdOf).forM checkVectorId
  DenseProviderResult.mk? positionCount (denseCandidates envelope.ids scores)

end Typed

/-- The decoding of a response to a query. -/
def decodeResponse {σ : Type} (z : Zlib σ) (response : ProviderResponse) (candidateCount : Nat) :
    Except RetrievalException DenseProviderResult := do
  let body ← boundedJsonBody z response
  typedResult body candidateCount

end AgenticRag.Retrieval

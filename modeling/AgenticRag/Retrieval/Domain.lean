import AgenticRag.Lib.Results
import AgenticRag.Ingestion.Embeddings

/-! The request a retrieval accepts, and the exception classes that cross the
retrieval package. -/
namespace AgenticRag.Retrieval
open Lib Python Ingestion

inductive RetrievalException where
  | requestValidation
  | authentication
  | targetNotFound
  | unavailable
  | finalCandidateLimit
  | denseProvider
  | embedding (error : EmbeddingError)
  | sqlAlchemy
  | unicodeDecode
  | unicodeEncode
  | zlib
  | http
  | timeout
  | value
  | type
  | runtime
  deriving DecidableEq

def defaultRequestedCount : Int := 10
def minRequestedCount : Int := 1
def maxRequestedCount : Int := 50
def minQueryScalars : Nat := 1
def maxQueryScalars : Nat := 2048
def minQueryUtf8Bytes : Nat := 1
def maxQueryUtf8Bytes : Nat := 4096

/-- `_ADR_008_WHITESPACE`. -/
def isAdr008Whitespace (c : CodePoint) : Bool :=
  (0x09 ≤ c.val && c.val ≤ 0x0D) || c.val == 0x20 || c.val == 0x85 || c.val == 0xA0 ||
  c.val == 0x1680 || (0x2000 ≤ c.val && c.val ≤ 0x200A) || c.val == 0x2028 || c.val == 0x2029 ||
  c.val == 0x202F || c.val == 0x205F || c.val == 0x3000

/-- A validated request; only `parseRetrievalRequest` builds one. -/
structure RetrievalRequest where
  normalizedQuery : Str
  requestedCount : Nat
  scalars_pos : minQueryScalars ≤ normalizedQuery.length
  scalars_le : normalizedQuery.length ≤ maxQueryScalars
  count_pos : 1 ≤ requestedCount
  count_le : requestedCount ≤ 50

def validateQueryScalarDomain (query : Str) : Except RetrievalException Unit :=
  if query.any isSurrogate then .error .requestValidation
  else match encodeUtf8 query with
    | none => .error .requestValidation
    | some _ => .ok ()

/-- The loop of `_normalize_adr_008_whitespace`: whether `output` is nonempty, and
whether an interior space is pending. -/
def normalizeAdr008From : Bool → Bool → Str → Str
  | _, _, [] => []
  | started, pending, c :: rest =>
    if isAdr008Whitespace c then normalizeAdr008From started (pending || started) rest
    else if pending then space :: c :: normalizeAdr008From true false rest
    else c :: normalizeAdr008From true false rest

def normalizeAdr008Whitespace (query : Str) : Str := normalizeAdr008From false false query

/-- The items of a payload for which `isinstance(payload, Mapping)` holds. -/
abbrev Payload := Option (List (Object × Object))

/-- The items under keys of type `str`; `none` when another key is there. -/
def stringItems : List (Object × Object) → Option (List (Str × Object))
  | [] => some []
  | (.str key, value) :: rest => (stringItems rest).map fun items => (key, value) :: items
  | _ :: _ => none

def queryField : Str := str "query"
def requestedCountField : Str := str "requested_count"
def allowedFields : List Str := [queryField, requestedCountField]

def lookup (items : List (Str × Object)) (key : Str) : Option Object :=
  (items.find? fun item => item.1 = key).map Prod.snd

/-- `unicodedata.normalize("NFC", ...)`, as far as it is relied on. -/
structure Nfc where
  normalize : Str → Str
  scalar : ∀ s, s.any isSurrogate = false → (normalize s).any isSurrogate = false
  idempotent : ∀ s, normalize (normalize s) = normalize s

/-- Exact on texts that are in normal form. -/
def exampleNfc : Nfc := ⟨id, fun _ h => h, fun _ => rfl⟩

section
variable (nfc : Nfc)

/-- `parse_retrieval_request` once the mapping's keys are strings. -/
def parseFields (query : Str) (requestedCount : Int) : Except RetrievalException RetrievalRequest :=
  if hcount : minRequestedCount ≤ requestedCount ∧ requestedCount ≤ maxRequestedCount then
    match validateQueryScalarDomain query with
    | .error e => .error e
    | .ok () =>
      if query.any fun c => c.val == 0 then .error .requestValidation
      else
        let normalizedQuery := normalizeAdr008Whitespace (nfc.normalize query)
        if hscalars : minQueryScalars ≤ normalizedQuery.length ∧
            normalizedQuery.length ≤ maxQueryScalars then
          match encodeUtf8 normalizedQuery with
          | none => .error .unicodeEncode
          | some bytes =>
            if minQueryUtf8Bytes ≤ bytes.length ∧ bytes.length ≤ maxQueryUtf8Bytes then
              .ok {
                normalizedQuery := normalizedQuery
                requestedCount := requestedCount.toNat
                scalars_pos := hscalars.1
                scalars_le := hscalars.2
                count_pos := by simp only [minRequestedCount, maxRequestedCount] at hcount; omega
                count_le := by simp only [minRequestedCount, maxRequestedCount] at hcount; omega }
            else .error .requestValidation
        else .error .requestValidation
  else .error .requestValidation

def parseRetrievalRequest (payload : Payload) : Except RetrievalException RetrievalRequest :=
  match payload with
  | none => .error .requestValidation
  | some items =>
    match stringItems items with
    | none => .error .requestValidation
    | some items =>
      let keys := items.map Prod.fst
      if ¬keys.Nodup ∨ queryField ∉ keys ∨ ¬keys ⊆ allowedFields then .error .requestValidation
      else match lookup items queryField,
          (lookup items requestedCountField).getD (.int defaultRequestedCount) with
        | some (.str query), .int requestedCount => parseFields nfc query requestedCount
        | _, _ => .error .requestValidation

end

theorem mem_normalizeAdr008From {started pending : Bool} {s : Str} {c : CodePoint}
    (h : c ∈ normalizeAdr008From started pending s) : c = space ∨ c ∈ s := by
  induction s generalizing started pending with
  | nil => cases h
  | cons d rest ih =>
    rw [normalizeAdr008From] at h
    split at h
    · exact (ih h).imp_right (List.mem_cons_of_mem d)
    · have hd : c ∈ d :: normalizeAdr008From true false rest → c = space ∨ c ∈ d :: rest := by
        intro h
        rcases List.mem_cons.mp h with rfl | h
        · exact .inr List.mem_cons_self
        · exact (ih h).imp_right (List.mem_cons_of_mem d)
      split at h
      · rcases List.mem_cons.mp h with rfl | h
        · exact .inl rfl
        · exact hd h
      · exact hd h

private theorem normalized_scalar {nfc : Nfc} {query : Str} (h : query.any isSurrogate = false) :
    (normalizeAdr008Whitespace (nfc.normalize query)).any isSurrogate = false := by
  rw [List.any_eq_false]
  intro c hc
  rcases mem_normalizeAdr008From hc with rfl | hc
  · decide
  · exact List.any_eq_false.mp (nfc.scalar query h) c hc

/-- Whatever the payload is, the one exception is the validation error. -/
theorem raises_parseRetrievalRequest (nfc : Nfc) (payload : Payload) :
    Raises (· = .requestValidation) (parseRetrievalRequest nfc payload) := by
  have invalid {α : Type} : Raises (· = .requestValidation)
      (.error .requestValidation : Except RetrievalException α) := raises_error rfl
  unfold parseRetrievalRequest
  split
  · exact invalid
  split
  · exact invalid
  dsimp only
  split
  · exact invalid
  split
  · rename_i query count _ _
    unfold parseFields
    split
    · unfold validateQueryScalarDomain
      cases hs : query.any isSurrogate with
      | true => exact invalid
      | false =>
        have hq : encodeUtf8 query = some (query.flatMap encodeChar) := by
          rw [encodeUtf8, hs]
          rfl
        have hn : encodeUtf8 (normalizeAdr008Whitespace (nfc.normalize query)) ≠ none := by
          rw [Ne, encodeUtf8_eq_none, normalized_scalar hs]
          exact Bool.false_ne_true
        rw [if_neg Bool.false_ne_true, hq]
        dsimp only
        split
        · exact invalid
        split
        · split
          · rename_i h
            exact (hn h).elim
          · split
            · exact raises_ok _
            · exact invalid
        · exact invalid
    · exact invalid
  · exact invalid

end AgenticRag.Retrieval

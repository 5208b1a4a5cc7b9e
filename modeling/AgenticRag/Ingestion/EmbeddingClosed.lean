import AgenticRag.Ingestion.OllamaEmbeddings

/-! What the embedding adapter returns and raises: one vector for each text or an embedding
error, unless a request cannot be encoded or a body nests too deep. -/
namespace AgenticRag.Ingestion
open Lib Python Retrieval

section Body
variable {σ : Type} {z : Zlib σ}

/-- The exceptions of reading a body, before `json.loads`. -/
private def IsReadException (e : OllamaException) : Prop :=
  e = .embedding .response ∨ e = .zlib ∨ e = .unicodeDecode ∨ e = .http

private theorem responseError {α : Type} :
    Raises IsReadException (.error (.embedding .response) : Except OllamaException α) :=
  raises_error (.inl rfl)

private theorem raises_inflateEmbedding (s : σ) (decoded compressedPart : List UInt8) :
    Raises IsReadException (inflateEmbedding z s decoded compressedPart) := by
  fun_induction inflateEmbedding z s decoded compressedPart with
  | case1 => exact raises_ok _
  | case2 => exact raises_error (.inr (.inl rfl))
  | case3 => exact responseError
  | case4 => exact responseError
  | case5 _ _ _ _ _ _ _ _ _ _ _ ih => exact ih

private theorem raises_readEmbeddingPart (reader : EmbeddingReader σ) (part : List UInt8) :
    Raises IsReadException (readEmbeddingPart z reader part) := by
  unfold readEmbeddingPart
  dsimp only
  split
  · exact responseError
  split
  · split
    · exact responseError
    · exact raises_ok _
  · exact raises_bind (raises_inflateEmbedding _ _ _) fun _ _ => raises_ok _

private theorem raises_flushEmbedding (reader : EmbeddingReader σ) :
    Raises IsReadException (flushEmbedding z reader) := by
  unfold flushEmbedding
  dsimp only
  split
  · exact raises_ok _
  split
  · exact raises_error (.inr (.inl rfl))
  split
  · exact responseError
  split
  · exact responseError
  · exact raises_ok _

private theorem raises_embeddingText (response : ProviderResponse) (encoding : ContentEncoding) :
    Raises IsReadException (embeddingText z response encoding) := by
  refine raises_bind (raises_foldlM raises_readEmbeddingPart _ _) fun reader _ => ?_
  split
  · exact raises_error (.inr (.inr (.inr rfl)))
  refine raises_bind (raises_flushEmbedding reader) fun decoded _ => ?_
  split
  · exact raises_error (.inr (.inr (.inl rfl)))
  · exact raises_ok _

private theorem raises_validateEmbeddingLength (response : ProviderResponse) :
    Raises (· = .embedding .response) (validateEmbeddingLength response) := by
  unfold validateEmbeddingLength
  split
  · exact raises_ok _
  split
  · exact raises_error rfl
  · split
    · exact raises_error rfl
    · exact raises_ok _

private theorem raises_embeddingContentEncoding (response : ProviderResponse) :
    Raises (· = .embedding .response) (embeddingContentEncoding response) := by
  unfold embeddingContentEncoding
  split
  · exact raises_ok _
  dsimp only
  split
  · exact raises_ok _
  split
  · exact raises_error rfl
  split
  · exact raises_ok _
  split
  · exact raises_ok _
  · exact raises_error rfl

/-- The body of a response comes to `json.loads` as the text. -/
def BodyText (z : Zlib σ) (response : ProviderResponse) (text : Str) : Prop :=
  validateEmbeddingLength response = .ok () ∧ ∃ encoding,
    embeddingContentEncoding response = .ok encoding ∧ embeddingText z response encoding = .ok text

/-- A body in one part, without a content encoding. -/
theorem bodyText_identity {bytes : List UInt8} {text : Str} (hlimit : bytes.length ≤ maxEmbeddingWireBytes)
    (htext : decodeUtf8 bytes = some text) : BodyText z ⟨200, fun _ => none, [bytes], false⟩ text := by
  have hread : readEmbeddingPart z ⟨0, none, []⟩ bytes = .ok ⟨bytes.length, none, bytes⟩ := by
    have hwire : ¬0 + bytes.length > maxEmbeddingWireBytes := by omega
    have hdecoded : ¬0 + bytes.length > maxEmbeddingDecodedBytes := hwire
    simp only [readEmbeddingPart, List.length_nil, List.nil_append]
    rw [if_neg hwire, if_neg hdecoded, Nat.zero_add]
  refine ⟨rfl, .identity, rfl, ?_⟩
  refine bind_eq_ok.mpr ⟨_, bind_eq_ok.mpr ⟨_, hread, rfl⟩, bind_eq_ok.mpr ⟨_, rfl, ?_⟩⟩
  rw [htext]

/-- A body is decoded when its text is read. -/
theorem boundedEmbeddingJson_of_bodyText {recursionLimit : Nat} {response : ProviderResponse} {text : Str}
    (htext : BodyText z response text) {body : Json} (hbody : jsonLoadsWithin recursionLimit text = .ok body) :
    boundedEmbeddingJson z recursionLimit response = .ok body := by
  obtain ⟨hlength, encoding, hencoding, htext⟩ := htext
  refine bind_eq_ok.mpr ⟨(), hlength, bind_eq_ok.mpr ⟨encoding, hencoding, rescue_eq_ok.mpr ?_⟩⟩
  exact bind_eq_ok.mpr ⟨text, htext, mapError_eq_ok.mpr hbody⟩

theorem ofJson_eq_recursion {e : JsonError} : OllamaException.ofJson e = .recursion ↔ e = .recursion := by
  cases e <;> simp [OllamaException.ofJson]

/-- Decoding a body raises `RecursionError` exactly when its text nests too deep. -/
theorem boundedEmbeddingJson_recursion {recursionLimit : Nat} {response : ProviderResponse} :
    boundedEmbeddingJson z recursionLimit response = .error .recursion ↔
      ∃ text, BodyText z response text ∧ NestsBeyond recursionLimit text := by
  rw [boundedEmbeddingJson]
  constructor
  · intro h
    rcases bind_eq_error.mp h with h | ⟨_, hlength, h⟩
    · cases raises_validateEmbeddingLength response _ h
    rcases bind_eq_error.mp h with h | ⟨encoding, hencoding, h⟩
    · cases raises_embeddingContentEncoding response _ h
    obtain ⟨e, he, hrecursion⟩ := rescue_eq_error.mp h
    split at hrecursion
    · cases hrecursion
    subst hrecursion
    rcases bind_eq_error.mp he with he | ⟨text, htext, he⟩
    · rcases raises_embeddingText response encoding _ he with h | h | h | h <;> cases h
    · obtain ⟨error, herror, hof⟩ := mapError_eq_error.mp he
      rw [ofJson_eq_recursion.mp hof] at herror
      exact ⟨text, ⟨hlength, encoding, hencoding, htext⟩, jsonLoadsWithin_recursion.mp herror⟩
  · rintro ⟨text, ⟨hlength, encoding, hencoding, htext⟩, hdeep⟩
    refine bind_eq_error.mpr (.inr ⟨(), hlength, bind_eq_error.mpr (.inr ⟨encoding, hencoding, ?_⟩)⟩)
    refine rescue_eq_error.mpr ⟨.recursion, bind_eq_error.mpr (.inr ⟨text, htext, ?_⟩), rfl⟩
    exact mapError_eq_error.mpr ⟨.recursion, jsonLoadsWithin_recursion.mpr hdeep, rfl⟩

theorem raises_boundedEmbeddingJson (recursionLimit : Nat) (response : ProviderResponse) :
    Raises (fun e => e = .embedding .response ∨ e = .http ∨ e = .recursion)
      (boundedEmbeddingJson z recursionLimit response) := by
  refine raises_bind ((raises_validateEmbeddingLength response).mono fun _ => .inl) fun _ _ => ?_
  refine raises_bind ((raises_embeddingContentEncoding response).mono fun _ => .inl) fun encoding _ => ?_
  refine raises_rescue (C := fun e => IsReadException e ∨ e = .value ∨ e = .recursion) ?_ ?_ (.inl rfl)
  · refine raises_bind ((raises_embeddingText response encoding).mono fun _ => .inl) fun text _ => ?_
    intro e he
    obtain ⟨error, _, rfl⟩ := mapError_eq_error.mp he
    cases error with
    | value => exact .inr (.inl rfl)
    | recursion => exact .inr (.inr rfl)
  · rintro e ((rfl | rfl | rfl | rfl) | rfl | rfl) hcaught
    · exact .inl rfl
    · cases hcaught
    · cases hcaught
    · exact .inr (.inl rfl)
    · cases hcaught
    · exact .inr (.inr rfl)

end Body

section Batches
variable {σ : Type} {runtime : EmbeddingRuntime σ} {model : OllamaEmbeddingModel}

/-- A client that fails raises a timeout or `httpx.HTTPError`. -/
def EmbeddingExchange.Documented : EmbeddingExchange → Prop
  | .raised error => isTransportFailure error = true
  | .response _ _ => True

/-- The exchange brings a body that nests deeper than the interpreter allows. -/
def EmbeddingExchange.TooDeep (runtime : EmbeddingRuntime σ) (exchange : EmbeddingExchange) : Prop :=
  ∃ response deadlineExpired text, exchange = .response response deadlineExpired ∧
    isErrorStatus response.statusCode = false ∧ BodyText runtime.zlib response text ∧
    NestsBeyond runtime.recursionLimit text

/-- A body that is not accepted is an embedding error, and an accepted one has a vector
for each text. -/
theorem raises_readEmbeddings (batch : List Str) (body : Json) :
    Raises (fun e => ∃ error, e = .embedding error) (readEmbeddings runtime model batch body) := by
  unfold readEmbeddings
  split
  · split
    · split
      · exact raises_error ⟨_, rfl⟩
      · intro e he
        obtain ⟨error, _, rfl⟩ := mapError_eq_error.mp he
        exact ⟨error, rfl⟩
    · exact raises_error ⟨_, rfl⟩
  · exact raises_error ⟨_, rfl⟩

theorem readEmbeddings_ok {batch : List Str} {body : Json} {vectors : List EmbeddingVector}
    (h : readEmbeddings runtime model batch body = .ok vectors) :
    vectors.length = batch.length ∧
      ∀ vector ∈ vectors, vector.length = model.dimension ∧ ∀ x ∈ vector, x.isFinite = true := by
  unfold readEmbeddings at h
  split at h
  · split at h
    · split at h
      · cases h
      · exact (validateEmbeddingBatch_ok (mapError_eq_ok.mp h)).2
    · cases h
  · cases h

/-- What a batch raises. -/
theorem embedBatch_error {batch : List Str} {exchange : EmbeddingExchange} {e : OllamaException}
    (hdocumented : exchange.Documented) (h : embedBatch runtime model batch exchange = .error e) :
    (∃ error, e = .embedding error) ∨
      runtime.encodes model.modelId batch = false ∨ exchange.TooDeep runtime := by
  obtain ⟨e', he, rfl⟩ := rescue_eq_error.mp h
  split
  · exact .inl ⟨_, rfl⟩
  rename_i hcaught
  unfold requestEmbeddings at he
  split at he
  · rename_i hencodes
    rw [Bool.not_eq_true'] at hencodes
    exact .inr (.inl hencodes)
  split at he
  · obtain rfl := Except.error.inj he
    exact absurd hdocumented hcaught
  split at he
  · obtain rfl := Except.error.inj he
    exact .inl ⟨_, rfl⟩
  rename_i response deadlineExpired hstatus
  rcases bind_eq_error.mp he with he | ⟨body, _, he⟩
  · rcases raises_boundedEmbeddingJson _ _ _ he with rfl | rfl | rfl
    · exact .inl ⟨_, rfl⟩
    · exact absurd rfl hcaught
    · obtain ⟨text, htext, hdeep⟩ := boundedEmbeddingJson_recursion.mp he
      exact .inr (.inr ⟨response, deadlineExpired, text, rfl, Bool.eq_false_of_not_eq_true hstatus,
        htext, hdeep⟩)
  rcases bind_eq_error.mp he with he | ⟨vectors, _, he⟩
  · exact .inl (raises_readEmbeddings batch body _ he)
  · split at he
    · obtain rfl := Except.error.inj he
      exact absurd rfl hcaught
    · cases he

theorem embedBatch_unencodable {batch : List Str} (exchange : EmbeddingExchange)
    (h : runtime.encodes model.modelId batch = false) :
    embedBatch runtime model batch exchange = .error .unicodeEncode := by
  simp only [embedBatch, requestEmbeddings, h, Bool.not_false, if_true]
  rfl

theorem embedBatch_tooDeep {batch : List Str} {exchange : EmbeddingExchange}
    (hencodes : runtime.encodes model.modelId batch = true) (h : exchange.TooDeep runtime) :
    embedBatch runtime model batch exchange = .error .recursion := by
  obtain ⟨response, deadlineExpired, text, rfl, hstatus, htext, hdeep⟩ := h
  have hbody := boundedEmbeddingJson_recursion.mpr ⟨text, htext, hdeep⟩
  simp only [embedBatch, requestEmbeddings, hencodes, hstatus, hbody, Bool.not_true, Bool.false_eq_true,
    if_false]
  rfl

theorem embedBatch_ok {batch : List Str} {exchange : EmbeddingExchange} {vectors : List EmbeddingVector}
    (h : embedBatch runtime model batch exchange = .ok vectors) :
    vectors.length = batch.length ∧
      ∀ vector ∈ vectors, vector.length = model.dimension ∧ ∀ x ∈ vector, x.isFinite = true := by
  rw [embedBatch, rescue_eq_ok] at h
  unfold requestEmbeddings at h
  split at h
  · cases h
  split at h
  · cases h
  split at h
  · cases h
  obtain ⟨body, _, h⟩ := bind_eq_ok.mp h
  obtain ⟨accepted, haccepted, h⟩ := bind_eq_ok.mp h
  split at h
  · cases h
  · obtain rfl := Except.ok.inj h
    exact readEmbeddings_ok haccepted

/-- What `embed` returns: for each batch the vectors of its response, in order. -/
structure Embedded (runtime : EmbeddingRuntime σ) (model : OllamaEmbeddingModel) (texts : List Str)
    (exchanges : Nat → EmbeddingExchange) (vectors : List EmbeddingVector) : Prop where
  length : vectors.length = texts.length
  entries : ∀ vector ∈ vectors, vector.length = model.dimension ∧ ∀ x ∈ vector, x.isFinite = true
  answers : ∃ answers : List (List EmbeddingVector), vectors = answers.flatten ∧
    List.Forall₂ (fun batch answer => answer.length = batch.1.length ∧
      embedBatch runtime model batch.1 (exchanges batch.2) = .ok answer)
      (slices model.batchSize texts).zipIdx answers

/-- The batches before a batch have all been answered. -/
def RequestReached (runtime : EmbeddingRuntime σ) (model : OllamaEmbeddingModel) (texts : List Str)
    (exchanges : Nat → EmbeddingExchange) (k : Nat) : Prop :=
  ∀ j < k, ∀ batch, (slices model.batchSize texts)[j]? = some batch →
    ∃ answer, embedBatch runtime model batch (exchanges j) = .ok answer

variable {texts : List Str} {exchanges : Nat → EmbeddingExchange}

theorem embed_eq (hopen : model.closed = false) (htexts : ∀ text ∈ texts, strip text ≠ []) :
    embed runtime model texts exchanges =
      (slices model.batchSize texts).zipIdx.mapM (fun batch =>
        embedBatch runtime model batch.1 (exchanges batch.2)) >>= fun answers => .ok answers.flatten := by
  have hvalid : validateTexts texts = .ok texts := by
    rw [validateTexts, if_neg]
    simpa using htexts
  rw [embed, hopen, hvalid]
  exact foldlM_append

theorem embedded_of_answers {answers : List (List EmbeddingVector)}
    (h : (slices model.batchSize texts).zipIdx.mapM (fun batch =>
      embedBatch runtime model batch.1 (exchanges batch.2)) = .ok answers) :
    Embedded runtime model texts exchanges answers.flatten := by
  have hall := mapM_eq_ok.mp h
  have hlength : (slices model.batchSize texts).map List.length = answers.map List.length := by
    have heq : List.Forall₂ (· = ·) ((slices model.batchSize texts).zipIdx.map fun batch => batch.1.length)
        (answers.map List.length) :=
      List.forall₂_map_left_iff.mpr (List.forall₂_map_right_iff.mpr
        (hall.imp fun _ _ hanswer => (embedBatch_ok hanswer).1.symm))
    rw [List.forall₂_eq_eq_eq] at heq
    rw [← heq, ← List.zipIdx_map_fst 0 (slices model.batchSize texts), List.map_map, List.zipIdx_map_fst]
    rfl
  refine ⟨?_, fun vector hvector => ?_, answers, rfl, hall.imp fun batch answer hanswer =>
    ⟨(embedBatch_ok hanswer).1, hanswer⟩⟩
  · rw [List.length_flatten, ← hlength, ← List.length_flatten, slices_flatten model.batchSize_pos]
  · obtain ⟨answer, hanswer, hvector⟩ := List.mem_flatten.mp hvector
    obtain ⟨batch, _, hbatch⟩ := exists_of_forall₂ hall hanswer
    exact (embedBatch_ok hbatch).2 vector hvector

/-- The first batch that fails decides what `embed` raises. -/
theorem embed_eq_error (hopen : model.closed = false) (htexts : ∀ text ∈ texts, strip text ≠ [])
    {e : OllamaException} : embed runtime model texts exchanges = .error e ↔
      ∃ k batch, (slices model.batchSize texts)[k]? = some batch ∧
        embedBatch runtime model batch (exchanges k) = .error e ∧
        RequestReached runtime model texts exchanges k := by
  rw [embed_eq hopen htexts, bind_eq_error]
  refine (or_iff_left (by rintro ⟨_, _, ⟨⟩⟩)).trans (mapM_eq_error.trans ?_)
  simp only [List.getElem?_zipIdx, Option.map_eq_some_iff, Nat.zero_add]
  constructor
  · rintro ⟨k, _, ⟨batch, hk, rfl⟩, he, hbefore⟩
    exact ⟨k, batch, hk, he, fun j hj batch' hbatch' => hbefore j hj _ ⟨batch', hbatch', rfl⟩⟩
  · rintro ⟨k, batch, hk, he, hreached⟩
    refine ⟨k, _, ⟨batch, hk, rfl⟩, he, ?_⟩
    rintro j hj _ ⟨batch', hbatch', rfl⟩
    exact hreached j hj batch' hbatch'

/-- `embed` is closed exactly when every request that it comes to can be encoded and no
body that it reads nests too deep. -/
theorem embed_closed (runtime : EmbeddingRuntime σ) (model : OllamaEmbeddingModel)
    (htexts : ∀ text ∈ texts, strip text ≠ []) (hdocumented : ∀ k, (exchanges k).Documented) :
    ((∃ vectors, embed runtime model texts exchanges = .ok vectors ∧
        Embedded runtime model texts exchanges vectors) ∨
      ∃ error, embed runtime model texts exchanges = .error (.embedding error)) ↔
    (model.closed = true ∨ ∀ k batch, (slices model.batchSize texts)[k]? = some batch →
      RequestReached runtime model texts exchanges k →
      runtime.encodes model.modelId batch = true ∧ ¬(exchanges k).TooDeep runtime) := by
  cases hopen : model.closed with
  | true =>
    refine iff_of_true (.inr ⟨.request, ?_⟩) (.inl rfl)
    rw [embed, hopen, if_pos rfl]
  | false =>
    have hescape {e : OllamaException} (he : ∀ error, e ≠ .embedding error) {k : Nat} {batch : List Str}
        (hk : (slices model.batchSize texts)[k]? = some batch)
        (hreached : RequestReached runtime model texts exchanges k)
        (hraised : embedBatch runtime model batch (exchanges k) = .error e)
        (hclosed : (∃ vectors, embed runtime model texts exchanges = .ok vectors ∧
            Embedded runtime model texts exchanges vectors) ∨
          ∃ error, embed runtime model texts exchanges = .error (.embedding error)) : False := by
      have hembed := (embed_eq_error hopen htexts).mpr ⟨k, batch, hk, hraised, hreached⟩
      rcases hclosed with ⟨vectors, hvectors, _⟩ | ⟨error, herror⟩
      · cases hembed.symm.trans hvectors
      · exact he error (Except.error.inj (hembed.symm.trans herror))
    constructor
    · intro hclosed
      refine .inr fun k batch hk hreached => ?_
      cases hencodes : runtime.encodes model.modelId batch with
      | false =>
        exact (hescape (by rintro _ ⟨⟩) hk hreached (embedBatch_unencodable _ hencodes) hclosed).elim
      | true =>
        exact ⟨rfl, fun hdeep =>
          hescape (by rintro _ ⟨⟩) hk hreached (embedBatch_tooDeep hencodes hdeep) hclosed⟩
    · rintro (hclosed | hcondition)
      · cases hclosed
      cases hanswers : (slices model.batchSize texts).zipIdx.mapM fun batch =>
          embedBatch runtime model batch.1 (exchanges batch.2) with
      | ok answers =>
        refine .inl ⟨answers.flatten, ?_, embedded_of_answers hanswers⟩
        rw [embed_eq hopen htexts, hanswers]
        rfl
      | error e =>
        have hembed : embed runtime model texts exchanges = .error e := by
          rw [embed_eq hopen htexts, hanswers]
          rfl
        obtain ⟨k, batch, hk, hraised, hreached⟩ := (embed_eq_error hopen htexts).mp hembed
        obtain ⟨hencodes, hshallow⟩ := hcondition k batch hk hreached
        rcases embedBatch_error (hdocumented k) hraised with ⟨error, rfl⟩ | hunencodable | hdeep
        · exact .inr ⟨error, hembed⟩
        · cases hencodes.symm.trans hunencodable
        · exact absurd hdeep hshallow

end Batches

section Brackets

theorem utf8Feed_brackets (n : Nat) :
    utf8Feed .ready (List.replicate n 0x5B) = some (List.replicate n (ord '['), .ready) := by
  induction n with
  | zero => rfl
  | succ n ih =>
    have hstep : utf8Step .ready 0x5B = some ([ord '['], .ready) := by decide
    rw [List.replicate_succ, utf8Feed, hstep]
    simp only [ih, Option.map_some, List.singleton_append, List.replicate_succ]

private theorem next_bracket (stack : List JsonParser.Frame) :
    JsonReading.next ⟨.between, .running (.array [] :: stack) .firstItem⟩ (ord '[') =
      some ⟨.between, .running (.array [] :: .array [] :: stack) .firstItem⟩ := by
  have hscan : JsonScanner.step .between (ord '[') = some ([.openBracket], .between) := by decide
  rw [JsonReading.next, hscan]
  rfl

private theorem foldlM_brackets (n : Nat) (stack : List JsonParser.Frame) :
    ∃ deeper, (List.replicate n (ord '[')).foldlM JsonReading.next
        ⟨.between, .running (.array [] :: stack) .firstItem⟩ = some deeper ∧
      deeper.depth = n + (stack.length + 1) := by
  induction n generalizing stack with
  | zero => exact ⟨_, rfl, (Nat.zero_add _).symm⟩
  | succ n ih =>
    obtain ⟨deeper, hdeeper, hdepth⟩ := ih (.array [] :: stack)
    refine ⟨deeper, ?_, ?_⟩
    · rw [List.replicate_succ, List.foldlM_cons, next_bracket]
      exact hdeeper
    · rw [hdepth, List.length_cons]
      omega

/-- Opening brackets alone nest as deep as there are of them. -/
theorem nestsBeyond_brackets (recursionLimit : Nat) :
    NestsBeyond recursionLimit (List.replicate (recursionLimit + 1) (ord '[')) := by
  obtain ⟨deeper, hdeeper, hdepth⟩ := foldlM_brackets recursionLimit []
  refine ⟨_, [], deeper, (List.append_nil _).symm, ?_, ?_⟩
  · have hscan : JsonScanner.step .between (ord '[') = some ([.openBracket], .between) := by decide
    rw [List.replicate_succ, List.foldlM_cons, JsonReading.next, JsonReading.start, hscan]
    exact hdeeper
  · rw [hdepth, List.length_nil]
    omega

end Brackets

section Example

def exampleRuntime : EmbeddingRuntime Unit where
  zlib := exampleZlib
  recursionLimit := 10000
  float _ := ⟨0⟩
  encodes _ texts := !texts.any fun text => text.any isSurrogate

def exampleEmbeddingModel : OllamaEmbeddingModel where
  modelId := [ord 'm']
  dimension := 1
  batchSize := 32
  closed := false
  modelId_nonblank := by decide
  dimension_pos := Int.one_pos
  batchSize_pos := by decide

/-- A body of opening brackets. -/
def bracketsResponse (count : Nat) : ProviderResponse where
  statusCode := 200
  headers _ := none
  rawParts := [List.replicate count 0x5B]
  broken := false

theorem bodyText_brackets {count : Nat} (h : count ≤ maxEmbeddingWireBytes) :
    BodyText exampleZlib (bracketsResponse count) (List.replicate count (ord '[')) := by
  refine bodyText_identity (by rwa [List.length_replicate]) ?_
  rw [decodeUtf8, utf8Feed_brackets]

theorem brackets_tooDeep {count : Nat} (h : count + 1 ≤ maxEmbeddingWireBytes) :
    EmbeddingExchange.TooDeep { exampleRuntime with recursionLimit := count }
      (.response (bracketsResponse (count + 1)) false) :=
  ⟨_, _, _, rfl, rfl, bodyText_brackets h, nestsBeyond_brackets count⟩

/-- `RecursionError` escapes from `embed`. -/
theorem embed_closed_fails :
    embed exampleRuntime exampleEmbeddingModel [[ord 'a']] (fun _ => .response (bracketsResponse 10001) false) =
      .error .recursion := by
  refine (embed_eq_error rfl (by decide)).mpr ⟨0, [[ord 'a']], rfl, ?_, fun j hj => ?_⟩
  · exact embedBatch_tooDeep rfl (brackets_tooDeep (by decide))
  · exact absurd hj (Nat.not_lt_zero j)

theorem embed_closed_example :
    ¬((∃ vectors, embed exampleRuntime exampleEmbeddingModel [[ord 'a']]
          (fun _ => .response (bracketsResponse 10001) false) = .ok vectors ∧
        Embedded exampleRuntime exampleEmbeddingModel [[ord 'a']]
          (fun _ => .response (bracketsResponse 10001) false) vectors) ∨
      ∃ error, embed exampleRuntime exampleEmbeddingModel [[ord 'a']]
        (fun _ => .response (bracketsResponse 10001) false) = .error (.embedding error)) := by
  intro hclosed
  have hdocumented : EmbeddingExchange.Documented (.response (bracketsResponse 10001) false) := trivial
  rcases (embed_closed exampleRuntime exampleEmbeddingModel (by decide) fun _ => hdocumented).mp hclosed with
    h | h
  · cases h
  · refine (h 0 [[ord 'a']] rfl fun j hj => absurd hj (Nat.not_lt_zero j)).2 ?_
    exact (brackets_tooDeep (by decide))

end Example
end AgenticRag.Ingestion

import AgenticRag.Ingestion.EmbeddingClosed
import AgenticRag.Python.JsonCompact
import AgenticRag.Python.JsonLoading
import AgenticRag.Python.Utf8Codec

/-! Which of the settings that `Settings` accepts let an embedding request succeed: the bounds of
the batch size and of the dimension against the byte limit of a response. -/
namespace AgenticRag.Ingestion
open Lib Python Retrieval

section Settings

/-- The embedding fields of `Settings`, with their bounds. -/
structure EmbeddingSettings where
  ollamaEmbedModel : Str
  embeddingDimension : Nat
  embeddingBatchSize : Nat
  model_length : 1 ≤ ollamaEmbedModel.length ∧ ollamaEmbedModel.length ≤ 255
  dimension_bounds : 1 ≤ embeddingDimension ∧ embeddingDimension ≤ 65536
  batchSize_bounds : 1 ≤ embeddingBatchSize ∧ embeddingBatchSize ≤ 1024

/-- `OllamaEmbeddingModel(model_id=settings.ollama_embed_model, ...)`, which is refused for a
blank name. -/
def EmbeddingSettings.embeddingModel (settings : EmbeddingSettings)
    (hname : strip settings.ollamaEmbedModel ≠ []) : OllamaEmbeddingModel where
  modelId := settings.ollamaEmbedModel
  dimension := settings.embeddingDimension
  batchSize := settings.embeddingBatchSize
  closed := false
  modelId_nonblank := hname
  dimension_pos := Int.natCast_pos.mpr settings.dimension_bounds.1
  batchSize_pos := settings.batchSize_bounds.1

/-- The value of a response with these embeddings. -/
def embeddingsBody (name : Str) (vectors : List (List Numeral)) : Json :=
  .object [(str "model", .string name),
    (str "embeddings", .array (vectors.map fun vector => .array (vector.map .number)))]

/-- A JSON number with a fraction part. -/
def HasFraction (lexeme : Numeral) : Prop := NumberText lexeme.text ∧ ord '.' ∈ lexeme.text

/-- A response without a content encoding and within the byte limit, whose body is an object with
the name of the model and a vector of the dimension for each text. -/
structure ConformingResponse (settings : EmbeddingSettings) (batch : List Str)
    (response : ProviderResponse) : Prop where
  status : response.statusCode = 200
  identity : response.headers "content-encoding" = none
  complete : response.broken = false
  limit : response.rawParts.flatten.length ≤ maxEmbeddingDecodedBytes
  body : ∃ vectors text, vectors.length = batch.length ∧
    (∀ vector ∈ vectors, vector.length = settings.embeddingDimension ∧ ∀ lexeme ∈ vector, HasFraction lexeme) ∧
    JsonText text (embeddingsBody settings.ollamaEmbedModel vectors) ∧
    encodeUtf8 text = some response.rawParts.flatten

/-- `embed` returns the vectors of some conforming responses. -/
def CanSucceed {σ : Type} (runtime : EmbeddingRuntime σ) (settings : EmbeddingSettings)
    (hname : strip settings.ollamaEmbedModel ≠ []) (texts : List Str) : Prop :=
  ∃ responses : Nat → ProviderResponse,
    (∀ i batch, (slices settings.embeddingBatchSize texts)[i]? = some batch →
      ConformingResponse settings batch (responses i)) ∧
    ∃ vectors, embed runtime (settings.embeddingModel hname) texts (fun i => .response (responses i) false) =
      .ok vectors

/-- The bytes of the compact response to a batch, where every number has three characters. -/
def compactResponseBytes (settings : EmbeddingSettings) (count : Nat) : Nat :=
  count * (4 * settings.embeddingDimension + 2) + utf8Length (compactString settings.ollamaEmbedModel) + 25

/-- The largest batch has a response within the limit, and each batch can be sent. -/
def WithinLimits {σ : Type} (runtime : EmbeddingRuntime σ) (settings : EmbeddingSettings)
    (texts : List Str) : Prop :=
  (∀ batch ∈ slices settings.embeddingBatchSize texts,
    runtime.encodes settings.ollamaEmbedModel batch = true) ∧
  (texts ≠ [] → compactResponseBytes settings (min settings.embeddingBatchSize texts.length) ≤
    maxEmbeddingDecodedBytes)

/-- `0.0`. -/
def zeroNumeral : Numeral where
  text := str "0.0"
  ascii := List.forall_mem_cons.mpr ⟨by decide, List.forall_mem_cons.mpr ⟨by decide,
    List.forall_mem_singleton.mpr (by decide)⟩⟩

/-- What is relied on: `float("0.0")` is finite, three containers may nest, and a request whose
model name has an unpaired surrogate cannot be encoded. -/
structure EmbeddingRuntime.Documented {σ : Type} (runtime : EmbeddingRuntime σ) : Prop where
  float_finite : (runtime.float zeroNumeral).isFinite = true
  nests : 3 ≤ runtime.recursionLimit
  encodes_scalar : ∀ name batch, runtime.encodes name batch = true → name.any isSurrogate = false

end Settings

section Decoded
variable {σ : Type} {z : Zlib σ}

private theorem length_inflateEmbedding {s : σ} {decoded part : List UInt8} {result : σ × List UInt8}
    (hdecoded : decoded.length ≤ maxEmbeddingDecodedBytes)
    (h : inflateEmbedding z s decoded part = .ok result) : result.2.length ≤ maxEmbeddingDecodedBytes := by
  fun_induction inflateEmbedding z s decoded part with
  | case1 =>
    obtain rfl := Except.ok.inj h
    exact hdecoded
  | case2 => cases h
  | case3 => cases h
  | case4 => cases h
  | case5 s decoded part hne remaining decodedPart s' hout hlen nextPart hstall ih =>
    refine ih ?_ h
    rw [List.length_append]
    omega

private theorem length_readEmbeddingPart {reader next : EmbeddingReader σ} {part : List UInt8}
    (hreader : reader.decoded.length ≤ maxEmbeddingDecodedBytes)
    (h : readEmbeddingPart z reader part = .ok next) : next.decoded.length ≤ maxEmbeddingDecodedBytes := by
  unfold readEmbeddingPart at h
  dsimp only at h
  split at h
  · cases h
  split at h
  · split at h
    · cases h
    · rename_i hlimit
      obtain rfl := Except.ok.inj h
      rw [List.length_append]
      omega
  · obtain ⟨inflated, hinflated, h⟩ := bind_eq_ok.mp h
    obtain rfl := Except.ok.inj h
    exact length_inflateEmbedding hreader hinflated

private theorem length_flushEmbedding {reader : EmbeddingReader σ} {decoded : List UInt8}
    (hreader : reader.decoded.length ≤ maxEmbeddingDecodedBytes)
    (h : flushEmbedding z reader = .ok decoded) : decoded.length ≤ maxEmbeddingDecodedBytes := by
  unfold flushEmbedding at h
  dsimp only at h
  split at h
  · obtain rfl := Except.ok.inj h
    exact hreader
  split at h
  · cases h
  split at h
  · cases h
  split at h
  · cases h
  · obtain rfl := Except.ok.inj h
    rw [List.length_append]
    omega

/-- No text that is decoded has more bytes than the limit. -/
theorem utf8Length_embeddingText {response : ProviderResponse} {encoding : ContentEncoding} {text : Str}
    (h : embeddingText z response encoding = .ok text) : utf8Length text ≤ maxEmbeddingDecodedBytes := by
  obtain ⟨reader, hreader, h⟩ := bind_eq_ok.mp h
  have hstep : ∀ reader part next, part ∈ response.rawParts →
      reader.decoded.length ≤ maxEmbeddingDecodedBytes → readEmbeddingPart z reader part = .ok next →
      next.decoded.length ≤ maxEmbeddingDecodedBytes := fun _ _ _ _ => length_readEmbeddingPart
  have hlimit := foldlM_invariant hstep (Nat.zero_le _) hreader
  split at h
  · cases h
  obtain ⟨decoded, hdecoded, h⟩ := bind_eq_ok.mp h
  split at h
  · cases h
  · rename_i hdecode
    obtain rfl := Except.ok.inj h
    rw [← length_of_encodeUtf8 (decodeUtf8_eq_some.mp hdecode)]
    exact length_flushEmbedding hlimit hdecoded

/-- A body that is read is a value of a text within the limit. -/
theorem boundedEmbeddingJson_ok {recursionLimit : Nat} {response : ProviderResponse} {body : Json}
    (h : boundedEmbeddingJson z recursionLimit response = .ok body) :
    ∃ text, JsonText text body ∧ utf8Length text ≤ maxEmbeddingDecodedBytes := by
  obtain ⟨_, _, h⟩ := bind_eq_ok.mp h
  obtain ⟨encoding, _, h⟩ := bind_eq_ok.mp h
  obtain ⟨text, htext, h⟩ := bind_eq_ok.mp (rescue_eq_ok.mp h)
  exact ⟨text, (jsonText_of_loadsWithin (mapError_eq_ok.mp h)).1, utf8Length_embeddingText htext⟩

end Decoded

section Lower
variable {float : Numeral → Float64}

theorem jsonObjects_eq (items : List Json) : jsonObjects float items = items.map (jsonObject float) := by
  induction items with
  | nil => rfl
  | cons item items ih => rw [jsonObjects, ih, List.map_cons]

/-- A list comes from an array only. -/
theorem sequence_jsonObject {value : Json} {values : List Object}
    (h : (jsonObject float value).sequence? = some values) :
    ∃ items, value = .array items ∧ values = items.map (jsonObject float) := by
  cases value with
  | array items =>
    rw [jsonObject, jsonObjects_eq] at h
    exact ⟨items, rfl, (Option.some.inj h).symm⟩
  | number lexeme =>
    rw [jsonObject] at h
    split at h
    · cases h
    · cases h
  | null => cases h
  | bool b => cases h
  | string s => cases h
  | object members => cases h

theorem length_fraction_exponent {fraction exponent : Str} (hfraction : FractionText fraction)
    (hexponent : ExponentText exponent) (hne : fraction ++ exponent ≠ []) :
    2 ≤ (fraction ++ exponent).length := by
  rw [List.length_append]
  cases hfraction with
  | present hds =>
    have hpos := List.length_pos_iff.mpr hds
    rw [List.length_cons]
    omega
  | absent =>
    cases hexponent with
    | absent => exact absurd rfl hne
    | present _ hds =>
      cases hds with
      | unsigned hne =>
        have hpos := List.length_pos_iff.mpr hne
        rw [List.length_cons, List.length_nil]
        omega
      | signed => simp

theorem isDigits_of_intText {int : Str} (h : IntText int) : IsDigits int ∧ 1 ≤ int.length := by
  cases h with
  | zero => exact ⟨List.forall_mem_singleton.mpr (by decide), le_refl 1⟩
  | digits hd _ hds => exact ⟨List.forall_mem_cons.mpr ⟨hd, hds⟩, Nat.succ_le_succ (Nat.zero_le _)⟩

theorem digits_or_three {text : Str} (h : MagnitudeText text) : IsDigits text ∨ 3 ≤ text.length := by
  obtain ⟨hint, hfraction, hexponent⟩ := h
  rename_i int fraction exponent
  obtain ⟨hdigits, hpos⟩ := isDigits_of_intText hint
  by_cases hne : fraction ++ exponent = []
  · rw [hne, List.append_nil]
    exact .inl hdigits
  · have htail := length_fraction_exponent hfraction hexponent hne
    rw [List.length_append]
    exact .inr (by omega)

theorem integral_or_three {text : Str} (h : NumberText text) :
    (∀ c ∈ text, (JsonScanner.isDigit c || c == ord '-') = true) ∨ 3 ≤ text.length := by
  cases h with
  | positive h =>
    refine (digits_or_three h).imp_left fun hdigits c hc => ?_
    rw [hdigits c hc, Bool.true_or]
  | @negative text h =>
    rcases digits_or_three h with hdigits | hlong
    · refine .inl (List.forall_mem_cons.mpr ⟨by decide, fun c hc => ?_⟩)
      rw [hdigits c hc, Bool.true_or]
    · rw [List.length_cons]
      exact .inr (by omega)

/-- A number that is not an integer has at least three characters. -/
theorem three_le_length {lexeme : Numeral} (htext : NumberText lexeme.text)
    (hinteger : lexeme.isIntegral = false) : 3 ≤ lexeme.text.length := by
  refine (integral_or_three htext).resolve_left fun hall => ?_
  rw [Numeral.isIntegral, List.all_eq_true.mpr hall] at hinteger
  cases hinteger

/-- A float comes from a number that is not an integer. -/
theorem three_le_value {value : Json} (hnumbers : Admitted AdmitsNumbers value) {x : Float64}
    (h : validateValue (jsonObject float value) = .ok x) : 3 ≤ utf8Length value.compact := by
  cases hnumbers with
  | @number lexeme htext =>
    rw [jsonObject] at h
    split at h
    · cases h
    · rename_i hinteger
      exact (three_le_length htext (Bool.eq_false_iff.mpr hinteger)).trans (length_le_utf8Length _)
  | null => cases h
  | bool => cases h
  | string => cases h
  | array => cases h
  | object => cases h

theorem ne_nil_of_length {α : Type} {xs : List α} {n : Nat} (h : xs.length = n) (hn : 1 ≤ n) : xs ≠ [] :=
  List.length_pos_iff.mp (h ▸ hn)

/-- An accepted vector has at least four bytes for each number. -/
theorem le_utf8Length_vector {dimension : Nat} (hdimension : 1 ≤ dimension) {value : Json}
    (hnumbers : Admitted AdmitsNumbers value) {vector : EmbeddingVector}
    (h : validateVector dimension (jsonObject float value) = .ok vector) :
    4 * dimension + 1 ≤ utf8Length value.compact := by
  unfold validateVector at h
  split at h
  · cases h
  rename_i values hvalues
  obtain ⟨items, rfl, rfl⟩ := sequence_jsonObject hvalues
  split at h
  · cases h
  rename_i hlength
  rw [List.length_map, not_not, Nat.cast_inj] at hlength
  have hvalid := List.forall₂_map_left_iff.mp (mapM_eq_ok.mp h)
  have hitems : ∀ item ∈ items, 3 ≤ utf8Length item.compact := by
    intro item hitem
    obtain ⟨x, _, hx⟩ := exists_of_forall₂_left hvalid hitem
    cases hnumbers with
    | array _ hall => exact three_le_value (hall item hitem) hx
  have hle := le_utf8Length_compact_array (ne_nil_of_length hlength hdimension) hitems
  omega

/-- Accepted embeddings have at least the bytes of so many vectors. -/
theorem le_utf8Length_embeddings {dimension : Nat} (hdimension : 1 ≤ dimension) {batch : List Str}
    (hbatch : batch ≠ []) {value : Json} (hnumbers : Admitted AdmitsNumbers value)
    {vectors : List EmbeddingVector}
    (h : validateEmbeddingBatch batch (jsonObject float value) dimension = .ok vectors) :
    batch.length * (4 * dimension + 2) + 1 ≤ utf8Length value.compact := by
  unfold validateEmbeddingBatch at h
  split at h
  · cases h
  split at h
  · cases h
  rename_i rawVectors hvectors
  obtain ⟨items, rfl, rfl⟩ := sequence_jsonObject hvectors
  split at h
  · cases h
  rename_i hlength
  rw [List.length_map, not_not] at hlength
  have hvalid := List.forall₂_map_left_iff.mp (mapM_eq_ok.mp h)
  have hitems : ∀ item ∈ items, 4 * dimension + 1 ≤ utf8Length item.compact := by
    intro item hitem
    obtain ⟨vector, _, hvector⟩ := exists_of_forall₂_left hvalid hitem
    cases hnumbers with
    | array _ hall => exact le_utf8Length_vector hdimension (hall item hitem) hvector
  rw [← hlength]
  exact le_utf8Length_compact_array (ne_nil_of_length hlength (List.length_pos_iff.mpr hbatch)) hitems

theorem mem_of_lastMember? {members : List (Str × Json)} {key : Str} {value : Json}
    (h : lastMember? members key = some value) : (key, value) ∈ members := by
  obtain ⟨⟨name, found⟩, hfind, rfl⟩ := Option.map_eq_some_iff.mp h
  have hname := List.find?_some hfind
  obtain rfl : name = key := by simpa using hname
  exact List.mem_reverse.mp (List.mem_of_find?_eq_some hfind)

end Lower

section Necessary
variable {σ : Type} {runtime : EmbeddingRuntime σ} {settings : EmbeddingSettings}
  {hname : strip settings.ollamaEmbedModel ≠ []}

theorem utf8Length_modelKey : utf8Length (compactString (str "model")) = 7 := by decide

theorem utf8Length_embeddingsKey : utf8Length (compactString (str "embeddings")) = 12 := by decide

/-- An accepted body has at least the bytes of the compact response. -/
theorem compactResponseBytes_le {batch : List Str} (hbatch : batch ≠ []) {body : Json}
    (hnumbers : Admitted AdmitsNumbers body) {vectors : List EmbeddingVector}
    (h : readEmbeddings runtime (settings.embeddingModel hname) batch body = .ok vectors) :
    compactResponseBytes settings batch.length ≤ utf8Length body.compact := by
  unfold readEmbeddings at h
  split at h
  · rename_i members
    split at h
    · rename_i responseModel hmodel
      split at h
      · cases h
      rename_i hsame
      obtain rfl := not_not.mp hsame
      have hvalid := mapError_eq_ok.mp h
      cases hembeddings : lastMember? members (str "embeddings") with
      | none =>
        rw [hembeddings] at hvalid
        unfold validateEmbeddingBatch at hvalid
        split at hvalid
        · cases hvalid
        · cases hvalid
      | some value =>
        rw [hembeddings] at hvalid
        have hmember := mem_of_lastMember? hembeddings
        have hvalue : Admitted AdmitsNumbers value := by
          cases hnumbers with
          | object _ hall => exact hall _ hmember
        have hne : (str "model", Json.string settings.ollamaEmbedModel) ≠ (str "embeddings", value) :=
          fun h => absurd (Prod.mk.inj h).1 (by decide)
        have hbytes := le_utf8Length_embeddings settings.dimension_bounds.1 hbatch hvalue hvalid
        have hmodelMember : (str "model", Json.string settings.ollamaEmbedModel) ∈ members :=
          mem_of_lastMember? hmodel
        have hobject := le_utf8Length_compact_object hmodelMember hmember hne
        rw [utf8Length_compactMember, utf8Length_compactMember, utf8Length_modelKey,
          utf8Length_embeddingsKey, Json.compact] at hobject
        dsimp only at hobject
        rw [compactResponseBytes]
        omega
    · cases h
  · cases h

/-- A batch that is answered can be sent and has a response within the limit. -/
theorem embedBatch_within {batch : List Str} (hbatch : batch ≠ []) {exchange : EmbeddingExchange}
    {vectors : List EmbeddingVector}
    (h : embedBatch runtime (settings.embeddingModel hname) batch exchange = .ok vectors) :
    runtime.encodes settings.ollamaEmbedModel batch = true ∧
      compactResponseBytes settings batch.length ≤ maxEmbeddingDecodedBytes := by
  rw [embedBatch, rescue_eq_ok] at h
  unfold requestEmbeddings at h
  split at h
  · cases h
  rename_i hencodes
  rw [Bool.not_eq_true', Bool.not_eq_false] at hencodes
  refine ⟨hencodes, ?_⟩
  split at h
  · cases h
  split at h
  · cases h
  obtain ⟨body, hbody, h⟩ := bind_eq_ok.mp h
  obtain ⟨accepted, haccepted, _⟩ := bind_eq_ok.mp h
  obtain ⟨text, htext, hlimit⟩ := boundedEmbeddingJson_ok hbody
  have hnumbers : Admitted AdmitsNumbers body := by
    obtain ⟨_, hvalue, _⟩ := htext
    exact admitted_numbers hvalue
  exact (compactResponseBytes_le hbatch hnumbers haccepted).trans
    ((utf8Length_compact_le_text htext).trans hlimit)

/-- Whatever the provider answers, `embed` returns only within the limits. -/
theorem withinLimits_of_embed {texts : List Str} (htexts : ∀ text ∈ texts, strip text ≠ [])
    {exchanges : Nat → EmbeddingExchange} {vectors : List EmbeddingVector}
    (h : embed runtime (settings.embeddingModel hname) texts exchanges = .ok vectors) :
    WithinLimits runtime settings texts := by
  rw [embed_eq rfl htexts] at h
  obtain ⟨answers, hanswers, _⟩ := bind_eq_ok.mp h
  have hall := mapM_eq_ok.mp hanswers
  have hbatches : ∀ (i : Nat) (batch : List Str),
      (slices settings.embeddingBatchSize texts)[i]? = some batch →
      runtime.encodes settings.ollamaEmbedModel batch = true ∧
        compactResponseBytes settings batch.length ≤ maxEmbeddingDecodedBytes := by
    intro i batch hbatch
    have hmem : (batch, i) ∈ (slices settings.embeddingBatchSize texts).zipIdx :=
      List.mem_zipIdx_iff_getElem?.mpr hbatch
    have hslice : batch ∈ slices settings.embeddingBatchSize texts := List.mem_of_getElem? hbatch
    obtain ⟨answer, _, hanswer⟩ := exists_of_forall₂_left hall hmem
    exact embedBatch_within (ne_nil_of_mem_slices hslice) hanswer
  refine ⟨fun batch hbatch => ?_, fun hne => ?_⟩
  · obtain ⟨i, hi⟩ := List.getElem?_of_mem hbatch
    exact (hbatches i batch hi).1
  · have hfirst := (hbatches 0 _ (head?_slices settings.batchSize_bounds.1 hne)).2
    rwa [List.length_take] at hfirst

end Necessary

section Sufficient
variable {σ : Type} {runtime : EmbeddingRuntime σ} {settings : EmbeddingSettings}
  {hname : strip settings.ollamaEmbedModel ≠ []}

theorem zeroNumeral_text : NumberText zeroNumeral.text :=
  .positive (.mk .zero (.present (List.cons_ne_nil _ _) (List.forall_mem_singleton.mpr (by decide))) .absent)

/-- Vectors of zeros. -/
def zeroVectors (settings : EmbeddingSettings) (count : Nat) : List (List Numeral) :=
  List.replicate count (List.replicate settings.embeddingDimension zeroNumeral)

def zeroBody (settings : EmbeddingSettings) (count : Nat) : Json :=
  embeddingsBody settings.ollamaEmbedModel (zeroVectors settings count)

/-- The compact response of zeros. -/
def zeroResponse (settings : EmbeddingSettings) (count : Nat) : ProviderResponse where
  statusCode := 200
  headers _ := none
  rawParts := [(zeroBody settings count).compact.flatMap encodeChar]
  broken := false

private theorem zeroVectors_json (count : Nat) :
    (zeroVectors settings count).map (fun vector => Json.array (vector.map .number)) =
      List.replicate count (.array (List.replicate settings.embeddingDimension (.number zeroNumeral))) := by
  rw [zeroVectors, List.map_replicate, List.map_replicate]

/-- The compact response has as many bytes as any must have. -/
theorem utf8Length_zeroBody {count : Nat} (hcount : 1 ≤ count) :
    utf8Length (zeroBody settings count).compact = compactResponseBytes settings count := by
  have hzero : utf8Length (Json.number zeroNumeral).compact = 3 := rfl
  rw [zeroBody, embeddingsBody, zeroVectors_json, utf8Length_compact_object]
  simp only [List.map_cons, List.map_nil, List.sum_cons, List.sum_nil, utf8Length_compactMember,
    utf8Length_modelKey, utf8Length_embeddingsKey]
  rw [utf8Length_compact_replicate hcount, utf8Length_compact_replicate settings.dimension_bounds.1, hzero,
    Json.compact, compactResponseBytes]
  have hvector : settings.embeddingDimension * (3 + 1) + 1 + 1 = 4 * settings.embeddingDimension + 2 := by
    omega
  rw [hvector]
  omega

theorem admitted_zeroBody {admits : Json → Prop} {count : Nat} (hbody : admits (zeroBody settings count))
    (hstring : admits (.string settings.ollamaEmbedModel)) (harray : ∀ items, admits (.array items))
    (hnumber : admits (.number zeroNumeral)) : Admitted admits (zeroBody settings count) := by
  have hvectors : Admitted admits (.array
      ((zeroVectors settings count).map fun vector => .array (vector.map .number))) := by
    rw [zeroVectors_json]
    refine .array (harray _) fun item hitem => ?_
    obtain rfl := List.eq_of_mem_replicate hitem
    refine .array (harray _) fun item hitem => ?_
    obtain rfl := List.eq_of_mem_replicate hitem
    exact .number hnumber
  exact .object hbody (List.forall_mem_cons.mpr ⟨.string hstring, List.forall_mem_singleton.mpr hvectors⟩)

theorem depth_zeroBody (count : Nat) : (zeroBody settings count).depth ≤ 3 := by
  rw [zeroBody, embeddingsBody, zeroVectors_json]
  refine nestsWithin_iff.mp (List.forall_mem_cons.mpr ⟨trivial, List.forall_mem_singleton.mpr ?_⟩)
  intro item hitem
  obtain rfl := List.eq_of_mem_replicate hitem
  intro item hitem
  obtain rfl := List.eq_of_mem_replicate hitem
  trivial

theorem encodeUtf8_zeroBody (hscalar : settings.ollamaEmbedModel.any isSurrogate = false) (count : Nat) :
    encodeUtf8 (zeroBody settings count).compact = some ((zeroBody settings count).compact.flatMap encodeChar) := by
  have hkeys : ∀ member ∈ [(str "model", Json.string settings.ollamaEmbedModel), (str "embeddings",
      .array ((zeroVectors settings count).map fun vector => .array (vector.map .number)))],
      member.1.any isSurrogate = false := by
    have hmodel : (str "model").any isSurrogate = false := by decide
    have hembeddings : (str "embeddings").any isSurrogate = false := by decide
    exact List.forall_mem_cons.mpr ⟨hmodel, List.forall_mem_singleton.mpr hembeddings⟩
  have hadmitted := @admitted_zeroBody settings AdmitsScalars count hkeys hscalar (fun _ => trivial) trivial
  rw [encodeUtf8, any_isSurrogate_compact hadmitted]
  rfl

theorem jsonText_zeroBody (count : Nat) :
    JsonText (zeroBody settings count).compact (zeroBody settings count) :=
  jsonText_compact (admitted_zeroBody trivial trivial (fun _ => trivial) zeroNumeral_text)

theorem length_zeroResponse {count : Nat} (hcount : 1 ≤ count) :
    ((zeroBody settings count).compact.flatMap encodeChar).length = compactResponseBytes settings count := by
  rw [← utf8Length_zeroBody hcount, List.length_flatMap]
  rfl

/-- The compact response is conforming when it is within the limit. -/
theorem conforming_zeroResponse {batch : List Str} (hbatch : batch ≠ [])
    (hscalar : settings.ollamaEmbedModel.any isSurrogate = false)
    (hlimit : compactResponseBytes settings batch.length ≤ maxEmbeddingDecodedBytes) :
    ConformingResponse settings batch (zeroResponse settings batch.length) where
  status := rfl
  identity := rfl
  complete := rfl
  limit := by
    rw [zeroResponse, List.flatten_singleton, length_zeroResponse (List.length_pos_iff.mpr hbatch)]
    exact hlimit
  body := by
    refine ⟨zeroVectors settings batch.length, _, List.length_replicate, ?_, jsonText_zeroBody batch.length, ?_⟩
    · intro vector hvector
      obtain rfl := List.eq_of_mem_replicate hvector
      refine ⟨List.length_replicate, fun lexeme hlexeme => ?_⟩
      obtain rfl := List.eq_of_mem_replicate hlexeme
      exact ⟨zeroNumeral_text, by decide⟩
    · rw [encodeUtf8_zeroBody hscalar, zeroResponse, List.flatten_singleton]

private theorem mapM_replicate {α β ε : Type} {f : α → Except ε β} {a : α} {b : β} (h : f a = .ok b)
    (n : Nat) : (List.replicate n a).mapM f = .ok (List.replicate n b) := by
  have hall : ∀ x ∈ List.replicate n a, f x = .ok b := fun x hx => List.eq_of_mem_replicate hx ▸ h
  rw [mapM_eq_ok_map hall, List.map_replicate]

private theorem lastMember_model (name value : Json) :
    lastMember? [(str "model", name), (str "embeddings", value)] (str "model") = some name := rfl

private theorem lastMember_embeddings (name value : Json) :
    lastMember? [(str "model", name), (str "embeddings", value)] (str "embeddings") = some value := rfl

/-- The body is accepted. -/
theorem readEmbeddings_zeroBody (hfloat : (runtime.float zeroNumeral).isFinite = true) (batch : List Str) :
    ∃ vectors, readEmbeddings runtime (settings.embeddingModel hname) batch (zeroBody settings batch.length) =
      .ok vectors := by
  have hdimension : ¬(settings.embeddingDimension : Int) ≤ 0 :=
    not_le.mpr (Int.natCast_pos.mpr settings.dimension_bounds.1)
  have hvalue : validateValue (jsonObject runtime.float (.number zeroNumeral)) =
      .ok (runtime.float zeroNumeral) := if_pos hfloat
  have hvector : validateVector settings.embeddingDimension (jsonObject runtime.float
      (.array (List.replicate settings.embeddingDimension (.number zeroNumeral)))) =
      .ok (List.replicate settings.embeddingDimension (runtime.float zeroNumeral)) := by
    rw [jsonObject, jsonObjects_eq, List.map_replicate, validateVector]
    dsimp only [Object.sequence?]
    rw [List.length_replicate, if_neg (not_not.mpr rfl), mapM_replicate hvalue]
  have hbatch : validateEmbeddingBatch batch (jsonObject runtime.float (.array (List.replicate batch.length
      (.array (List.replicate settings.embeddingDimension (.number zeroNumeral)))))) settings.embeddingDimension =
      .ok (List.replicate batch.length
        (List.replicate settings.embeddingDimension (runtime.float zeroNumeral))) := by
    rw [jsonObject, jsonObjects_eq, List.map_replicate, validateEmbeddingBatch, if_neg hdimension]
    dsimp only [Object.sequence?]
    rw [List.length_replicate, if_neg (not_not.mpr rfl), mapM_replicate hvector]
  rw [zeroBody, embeddingsBody, zeroVectors_json, readEmbeddings, lastMember_model, lastMember_embeddings]
  refine ⟨_, (if_neg (not_not.mpr rfl)).trans (mapError_eq_ok.mpr hbatch)⟩

/-- A batch within the limits is answered by the compact response. -/
theorem embedBatch_zeroResponse (hruntime : runtime.Documented) {batch : List Str} (hbatch : batch ≠ [])
    (hencodes : runtime.encodes settings.ollamaEmbedModel batch = true)
    (hlimit : compactResponseBytes settings batch.length ≤ maxEmbeddingDecodedBytes) :
    ∃ vectors, embedBatch runtime (settings.embeddingModel hname) batch
      (.response (zeroResponse settings batch.length) false) = .ok vectors := by
  have hscalar := hruntime.encodes_scalar _ _ hencodes
  have hwire : ((zeroBody settings batch.length).compact.flatMap encodeChar).length ≤ maxEmbeddingWireBytes :=
    (length_zeroResponse (List.length_pos_iff.mpr hbatch)).trans_le hlimit
  have htext := @bodyText_identity _ runtime.zlib _ _ hwire
    (decodeUtf8_eq_some.mpr (encodeUtf8_zeroBody hscalar batch.length))
  have hadmitted : Admitted AdmitsIntegers (zeroBody settings batch.length) :=
    admitted_zeroBody trivial trivial (fun _ => trivial) (by rw [AdmitsIntegers]; decide)
  have hloads := jsonLoadsWithin_of_jsonText (jsonText_zeroBody batch.length) hadmitted
    ((depth_zeroBody batch.length).trans hruntime.nests)
  have hbody := boundedEmbeddingJson_of_bodyText htext hloads
  obtain ⟨vectors, hvectors⟩ := @readEmbeddings_zeroBody _ runtime settings hname hruntime.float_finite batch
  have hmodel : runtime.encodes (settings.embeddingModel hname).modelId batch = true := hencodes
  refine ⟨vectors, ?_⟩
  rw [embedBatch, rescue_eq_ok, requestEmbeddings, hmodel]
  exact bind_eq_ok.mpr ⟨_, hbody, bind_eq_ok.mpr ⟨vectors, hvectors, rfl⟩⟩

theorem compactResponseBytes_mono {a b : Nat} (h : a ≤ b) :
    compactResponseBytes settings a ≤ compactResponseBytes settings b := by
  have hvectors := Nat.mul_le_mul_right (4 * settings.embeddingDimension + 2) h
  rw [compactResponseBytes, compactResponseBytes]
  omega

/-- No batch is larger than the first. -/
theorem WithinLimits.batch {texts batch : List Str} (h : WithinLimits runtime settings texts)
    (hbatch : batch ∈ slices settings.embeddingBatchSize texts) :
    batch ≠ [] ∧ runtime.encodes settings.ollamaEmbedModel batch = true ∧
      compactResponseBytes settings batch.length ≤ maxEmbeddingDecodedBytes := by
  have hne := ne_nil_of_mem_slices hbatch
  have hsublist := sublist_of_mem_slices hbatch
  have hcount : batch.length ≤ min settings.embeddingBatchSize texts.length :=
    le_min (length_le_of_mem_slices hbatch) hsublist.length_le
  have htexts : texts ≠ [] := by
    rintro rfl
    exact hne (List.sublist_nil.mp hsublist)
  exact ⟨hne, h.1 batch hbatch, (compactResponseBytes_mono hcount).trans (h.2 htexts)⟩

/-- The compact response to each batch. -/
def zeroResponses (settings : EmbeddingSettings) (texts : List Str) (i : Nat) : ProviderResponse :=
  zeroResponse settings ((slices settings.embeddingBatchSize texts)[i]?.getD []).length

theorem zeroResponses_eq {texts batch : List Str} {i : Nat}
    (h : (slices settings.embeddingBatchSize texts)[i]? = some batch) :
    zeroResponses settings texts i = zeroResponse settings batch.length := by
  rw [zeroResponses, h, Option.getD_some]

/-- Within the limits the compact responses are accepted. -/
theorem canSucceed_of_withinLimits (hruntime : runtime.Documented) {texts : List Str}
    (htexts : ∀ text ∈ texts, strip text ≠ []) (h : WithinLimits runtime settings texts) :
    CanSucceed runtime settings hname texts := by
  refine ⟨zeroResponses settings texts, fun i batch hbatch => ?_, ?_⟩
  · obtain ⟨hne, hencodes, hlimit⟩ := h.batch (List.mem_of_getElem? hbatch)
    rw [zeroResponses_eq hbatch]
    exact conforming_zeroResponse hne (hruntime.encodes_scalar _ _ hencodes) hlimit
  · have hanswered : ∀ batch ∈ (slices settings.embeddingBatchSize texts).zipIdx, ∃ answer,
        embedBatch runtime (settings.embeddingModel hname) batch.1
          (.response (zeroResponses settings texts batch.2) false) = .ok answer := by
      intro batch hbatch
      have hindex := List.mem_zipIdx_iff_getElem?.mp hbatch
      obtain ⟨hne, hencodes, hlimit⟩ := h.batch (List.mem_of_getElem? hindex)
      rw [zeroResponses_eq hindex]
      exact embedBatch_zeroResponse hruntime hne hencodes hlimit
    obtain ⟨answers, hanswers⟩ := mapM_ok_of_forall hanswered
    refine ⟨answers.flatten, ?_⟩
    rw [embed_eq rfl htexts]
    exact bind_eq_ok.mpr ⟨answers, hanswers, rfl⟩

end Sufficient

/-- Accepted settings can succeed on texts exactly when the texts can be sent and the compact
response to the largest batch is within the byte limit; otherwise no answer is accepted. -/
theorem embeddings_can_succeed {σ : Type} (runtime : EmbeddingRuntime σ) (hruntime : runtime.Documented)
    (settings : EmbeddingSettings) (hname : strip settings.ollamaEmbedModel ≠ []) (texts : List Str)
    (htexts : ∀ text ∈ texts, strip text ≠ []) :
    (CanSucceed runtime settings hname texts ↔ WithinLimits runtime settings texts) ∧
    (¬WithinLimits runtime settings texts → ∀ exchanges vectors,
      embed runtime (settings.embeddingModel hname) texts exchanges ≠ .ok vectors) := by
  refine ⟨⟨?_, canSucceed_of_withinLimits hruntime htexts⟩, ?_⟩
  · rintro ⟨_, _, vectors, hvectors⟩
    exact withinLimits_of_embed htexts hvectors
  · intro hlimits exchanges vectors hvectors
    exact hlimits (withinLimits_of_embed htexts hvectors)

section Example

/-- A client that encodes what has no unpaired surrogate. -/
def exampleClient : EmbeddingRuntime Unit :=
  { exampleRuntime with encodes := fun name texts => !(name :: texts).any fun text => text.any isSurrogate }

theorem exampleClient_documented : exampleClient.Documented where
  float_finite := by decide
  nests := by decide
  encodes_scalar name texts h := by
    have hall : (!(name :: texts).any fun text => text.any isSurrogate) = true := h
    rw [List.any_cons, Bool.not_or, Bool.and_eq_true, Bool.not_eq_true'] at hall
    exact hall.1

/-- The defaults of `Settings`. -/
def exampleSettings : EmbeddingSettings where
  ollamaEmbedModel := str "qwen3-embedding:0.6b"
  embeddingDimension := 1024
  embeddingBatchSize := 32
  model_length := by decide
  dimension_bounds := by decide
  batchSize_bounds := by decide

/-- The largest batch size and the largest dimension. -/
def largestSettings : EmbeddingSettings :=
  { exampleSettings with
    embeddingDimension := 65536
    embeddingBatchSize := 1024
    dimension_bounds := by decide
    batchSize_bounds := by decide }

theorem exampleSettings_named : strip exampleSettings.ollamaEmbedModel ≠ [] := by decide

theorem largestSettings_named : strip largestSettings.ollamaEmbedModel ≠ [] := by decide

theorem embeddings_can_succeed_defaults :
    CanSucceed exampleClient exampleSettings exampleSettings_named [str "a", str "b"] :=
  (embeddings_can_succeed exampleClient exampleClient_documented exampleSettings exampleSettings_named
    [str "a", str "b"] (by decide)).1.mpr ⟨by decide, fun _ => by decide⟩

/-- A full batch of the largest vectors has no response within the limit. -/
theorem embeddings_cannot_succeed :
    ¬CanSucceed exampleClient largestSettings largestSettings_named (List.replicate 1024 (str "a")) ∧
    ∀ exchanges vectors, embed exampleClient (largestSettings.embeddingModel largestSettings_named)
      (List.replicate 1024 (str "a")) exchanges ≠ .ok vectors := by
  have htexts : ∀ text ∈ List.replicate 1024 (str "a"), strip text ≠ [] := by
    intro text htext
    obtain rfl := List.eq_of_mem_replicate htext
    decide
  have hlimits : ¬WithinLimits exampleClient largestSettings (List.replicate 1024 (str "a")) := by
    rintro ⟨_, hlimit⟩
    have hbytes := hlimit (ne_nil_of_length List.length_replicate (by decide))
    rw [List.length_replicate, compactResponseBytes] at hbytes
    simp only [largestSettings, maxEmbeddingDecodedBytes] at hbytes
    omega
  refine ⟨?_, fun exchanges vectors hvectors => hlimits (withinLimits_of_embed htexts hvectors)⟩
  rintro ⟨_, _, vectors, hvectors⟩
  exact hlimits (withinLimits_of_embed htexts hvectors)

end Example
end AgenticRag.Ingestion

import AgenticRag.Retrieval.ChromaDecoding
import AgenticRag.Retrieval.FailClosed

/-! Which exceptions decoding a provider response can raise: the provider error, and
the encoding error of a decoded string that strict UTF-8 does not encode. -/
namespace AgenticRag.Retrieval
open Lib Python

/-- The computation returns or raises `DenseProviderError`. -/
def ClosedOutcome {α : Type} (x : Except RetrievalException α) : Prop := Raises (· = .denseProvider) x

section Body
variable {σ : Type} {z : Zlib σ}

/-- The exceptions inside the `try` block of `_bounded_json_body`. -/
private def IsBodyException (e : RetrievalException) : Prop :=
  e = .denseProvider ∨ isBodyError e = true

private theorem provider {α : Type} : Raises IsBodyException (.error .denseProvider : Except _ α) :=
  raises_error (.inl rfl)

private theorem ofProvider {α : Type} {x : Except RetrievalException α} (h : ClosedOutcome x) :
    Raises IsBodyException x := h.mono fun _ => .inl

theorem closed_read (scanner : JsonDepthScanner) (c : CodePoint) : ClosedOutcome (scanner.read c) := by
  unfold JsonDepthScanner.read
  dsimp only
  repeat' split
  all_goals first | exact raises_ok _ | exact raises_error rfl

theorem closed_feed (scanner : JsonDepthScanner) (text : Str) : ClosedOutcome (scanner.feed text) :=
  raises_foldlM closed_read text scanner

theorem closed_finish (scanner : JsonDepthScanner) : ClosedOutcome scanner.finish := by
  unfold JsonDepthScanner.finish
  split
  · exact raises_error rfl
  · exact raises_ok _

theorem closed_validateContentType (response : ProviderResponse) :
    ClosedOutcome (validateContentType response) := by
  unfold validateContentType
  dsimp only
  repeat' split
  all_goals first | exact raises_ok _ | exact raises_error rfl

theorem closed_contentEncoding (response : ProviderResponse) :
    ClosedOutcome (contentEncoding response) := by
  unfold contentEncoding
  dsimp only
  repeat' split
  all_goals first | exact raises_ok _ | exact raises_error rfl

theorem closed_validateContentLength (response : ProviderResponse) :
    ClosedOutcome (validateContentLength response) := by
  unfold validateContentLength
  repeat' split
  all_goals first | exact raises_ok _ | exact raises_error rfl

private theorem raises_accept (accepted : AcceptedParts) (part : List UInt8) :
    Raises IsBodyException (accepted.accept part) := by
  unfold AcceptedParts.accept
  split
  · exact raises_error (.inr rfl)
  · exact raises_bind (ofProvider (closed_feed _ _)) fun _ _ => raises_ok _

private theorem raises_inflatePart (s : σ) (accepted : AcceptedParts) (decodedCount : Nat)
    (part : List UInt8) : Raises IsBodyException (inflatePart z s accepted decodedCount part) := by
  fun_induction inflatePart z s accepted decodedCount part with
  | case1 => exact raises_ok _
  | case2 => exact raises_error (.inr rfl)
  | case3 => exact provider
  | case4 s accepted count part _ _ decoded s' _ _ e he => exact raises_error (raises_accept _ _ e he)
  | case5 => exact provider
  | case6 _ _ _ _ _ _ _ _ _ _ _ _ _ _ ih => exact ih

private theorem raises_readRawPart (reader : BodyReader σ) (part : List UInt8) :
    Raises IsBodyException (readRawPart z reader part) := by
  unfold readRawPart
  dsimp only
  split
  · exact provider
  split
  · split
    · exact provider
    · exact raises_bind (raises_accept _ _) fun _ _ => raises_ok _
  · exact raises_bind (raises_inflatePart _ _ _ _) fun _ _ => raises_ok _

private theorem raises_flushBody (reader : BodyReader σ) :
    Raises IsBodyException (flushBody z reader) := by
  unfold flushBody
  dsimp only
  split
  · exact raises_ok _
  split
  · exact raises_error (.inr rfl)
  split
  · exact provider
  split
  · exact provider
  · exact raises_accept _ _

private theorem raises_readBody (response : ProviderResponse) (encoding : ContentEncoding) :
    Raises IsBodyException (readBody z response encoding) := by
  refine raises_bind (raises_foldlM raises_readRawPart _ _) fun reader _ => ?_
  split
  · exact raises_error (.inr rfl)
  refine raises_bind (raises_flushBody reader) fun accepted _ => raises_bind ?_ fun _ _ => ?_
  · unfold finishUtf8
    split
    · exact raises_ok _
    · exact raises_error (.inr rfl)
  · exact raises_bind (ofProvider (closed_finish _)) fun _ _ => raises_ok _

theorem closed_strictJson (body : List UInt8) : ClosedOutcome (strictJson body) := by
  unfold strictJson
  split
  · exact raises_error rfl
  refine raises_rescue (C := fun e => e = .denseProvider ∨ isJsonError e = true) ?_ ?_ rfl
  · split
    · exact raises_error (.inr rfl)
    · refine raises_bind ?_ fun _ _ => ?_
      · exact (raises_bind (closed_feed _ _) fun _ _ => closed_finish _).mono fun _ => .inl
      · split
        · exact raises_error (.inr rfl)
        · exact raises_ok _
  · rintro e (rfl | he) hcaught
    · rfl
    · rw [he] at hcaught
      cases hcaught

/-- Reading the body raises nothing but the provider error. -/
theorem closed_boundedJsonBody (response : ProviderResponse) :
    ClosedOutcome (boundedJsonBody z response) := by
  refine raises_bind (closed_validateContentType response) fun _ _ => ?_
  refine raises_bind (closed_contentEncoding response) fun encoding _ => ?_
  refine raises_bind (closed_validateContentLength response) fun _ _ => ?_
  refine raises_bind ?_ fun body _ => closed_strictJson body
  refine raises_rescue (raises_readBody response encoding) ?_ rfl
  rintro e (rfl | he) hcaught
  · rfl
  · rw [he] at hcaught
    cases hcaught

end Body

section Checks

/-- Strict UTF-8 encodes the string, and in at most `limit` bytes. -/
def Fits (limit : Nat) (s : Str) : Prop := ∃ bytes, encodeUtf8 s = some bytes ∧ bytes.length ≤ limit

def HasSurrogate (s : Str) : Prop := s.any isSurrogate = true

/-- The first entry that does not fit is one that `meets` describes. -/
def FirstFault {α : Type} (fits meets : α → Prop) (entries : List α) : Prop :=
  ∃ before entry after, entries = before ++ entry :: after ∧ (∀ x ∈ before, fits x) ∧ meets entry

/-- The exceptions of the checks on decoded values. -/
def IsCheckException (e : RetrievalException) : Prop := e = .denseProvider ∨ e = .unicodeEncode

/-- A check passes what fits, and raises the encoding error on what meets a surrogate. -/
structure Checks {α : Type} (check : α → Except RetrievalException Unit) (fits meets : α → Prop) :
    Prop where
  ok : ∀ x, check x = .ok () ↔ fits x
  unicodeEncode : ∀ x, check x = .error .unicodeEncode ↔ meets x
  raises : ∀ x, Raises IsCheckException (check x)

variable {α : Type} {check check' : α → Except RetrievalException Unit} {fits meets fits' meets' : α → Prop}

theorem checkEncodedLength_of_none {limit : Nat} {s : Str} (h : encodeUtf8 s = none) :
    checkEncodedLength limit s = .error .unicodeEncode := by
  rw [checkEncodedLength, encodedLength, h]
  rfl

theorem checkEncodedLength_of_some {limit : Nat} {s : Str} {bytes : List UInt8}
    (h : encodeUtf8 s = some bytes) : checkEncodedLength limit s =
      if bytes.length > limit then .error .denseProvider else .ok () := by
  rw [checkEncodedLength, encodedLength, h]
  rfl

theorem checks_encodedLength (limit : Nat) : Checks (checkEncodedLength limit) (Fits limit) HasSurrogate := by
  refine ⟨fun s => ?_, fun s => ?_, fun s => ?_⟩
  · rw [Fits]
    cases h : encodeUtf8 s with
    | none => simp [checkEncodedLength_of_none h]
    | some bytes =>
      rw [checkEncodedLength_of_some h]
      by_cases hle : bytes.length ≤ limit
      · simp [not_lt.mpr hle, hle]
      · simp [not_le.mp hle, hle]
  · rw [HasSurrogate, ← encodeUtf8_eq_none]
    cases h : encodeUtf8 s with
    | none => simp [checkEncodedLength_of_none h]
    | some bytes =>
      rw [checkEncodedLength_of_some h]
      split <;> simp
  · cases h : encodeUtf8 s with
    | none =>
      rw [checkEncodedLength_of_none h]
      exact raises_error (.inr rfl)
    | some bytes =>
      rw [checkEncodedLength_of_some h]
      split
      · exact raises_error (.inl rfl)
      · exact raises_ok _

theorem Checks.forM (h : Checks check fits meets) :
    Checks (fun xs => xs.forM check) (fun xs => ∀ x ∈ xs, fits x) (FirstFault fits meets) where
  ok xs := by
    rw [forM_eq_ok]
    exact forall₂_congr fun x _ => h.ok x
  unicodeEncode xs := by
    rw [forM_eq_error, FirstFault]
    simp only [h.ok, h.unicodeEncode]
  raises xs := raises_forM fun x _ => h.raises x

theorem Checks.bind_unicodeEncode {β : Type} {x : α} {rest : Unit → Except RetrievalException β}
    (h : Checks check fits meets) : check x >>= rest = .error .unicodeEncode ↔
      meets x ∨ fits x ∧ rest () = .error .unicodeEncode := by
  rw [bind_eq_error, h.unicodeEncode, ← h.ok]
  exact or_congr_right ⟨fun ⟨_, hx, h⟩ => ⟨hx, h⟩, fun ⟨hx, h⟩ => ⟨(), hx, h⟩⟩

/-- One check after another. -/
theorem Checks.seq (h : Checks check fits meets) (h' : Checks check' fits' meets') :
    Checks (fun x => check x >>= fun _ => check' x) (fun x => fits x ∧ fits' x)
      (fun x => meets x ∨ fits x ∧ meets' x) where
  ok x := by
    rw [bind_eq_ok, ← h.ok, ← h'.ok]
    exact ⟨fun ⟨_, hx, h⟩ => ⟨hx, h⟩, fun ⟨hx, h⟩ => ⟨(), hx, h⟩⟩
  unicodeEncode x := by
    rw [h.bind_unicodeEncode, h'.unicodeEncode]
  raises x := raises_bind (h.raises x) fun _ _ => h'.raises x

/-- The single row of an optional column, `None` where a position has no entry. -/
def OptionalFits (fits : Json → Prop) (positionCount : Nat) (value : Json) : Prop :=
  value = .null ∨ ∃ entries, value = .array [.array entries] ∧ entries.length = positionCount ∧
    ∀ entry ∈ entries, entry = .null ∨ fits entry

def OptionalMeets (fits meets : Json → Prop) (positionCount : Nat) (value : Json) : Prop :=
  ∃ entries, value = .array [.array entries] ∧ entries.length = positionCount ∧
    FirstFault (fun entry => entry = .null ∨ fits entry) (fun entry => entry ≠ .null ∧ meets entry)
      entries

private theorem checks_entry {check : Json → Except RetrievalException Unit} {fits meets : Json → Prop}
    (h : Checks check fits meets) : Checks
      (fun entry => match entry with
        | .null => .ok ()
        | entry => check entry)
      (fun entry => entry = .null ∨ fits entry) (fun entry => entry ≠ .null ∧ meets entry) := by
  refine ⟨fun entry => ?_, fun entry => ?_, fun entry => ?_⟩
  · cases entry <;> simp [h.ok]
  · cases entry <;> simp [h.unicodeEncode]
  · split
    · exact raises_ok _
    · exact h.raises _

theorem checks_optional {check : Json → Except RetrievalException Unit} {fits meets : Json → Prop}
    (h : Checks check fits meets) (positionCount : Nat) : Checks
      (fun value => validateOptional check value positionCount) (OptionalFits fits positionCount)
      (OptionalMeets fits meets positionCount) := by
  have hrow := (checks_entry h).forM
  have hcases (entries : List Json) : validateOptional check (.array [.array entries]) positionCount =
      if entries.length ≠ positionCount then .error .denseProvider
      else entries.forM fun entry => match entry with
        | .null => .ok ()
        | entry => check entry := rfl
  refine ⟨fun value => ?_, fun value => ?_, fun value => ?_⟩
  · constructor
    · intro hv
      unfold validateOptional at hv
      split at hv
      · exact .inl rfl
      · rename_i entries
        split at hv
        · cases hv
        · rename_i hlen
          exact .inr ⟨entries, rfl, not_not.mp hlen, (hrow.ok entries).mp hv⟩
      · cases hv
    · rintro (rfl | ⟨entries, rfl, hlen, hfits⟩)
      · rfl
      · rw [hcases, if_neg (not_not.mpr hlen)]
        exact (hrow.ok entries).mpr hfits
  · constructor
    · intro hv
      unfold validateOptional at hv
      split at hv
      · cases hv
      · rename_i entries
        split at hv
        · cases hv
        · rename_i hlen
          exact ⟨entries, rfl, not_not.mp hlen, (hrow.unicodeEncode entries).mp hv⟩
      · cases hv
    · rintro ⟨entries, rfl, hlen, hmeets⟩
      rw [hcases, if_neg (not_not.mpr hlen)]
      exact (hrow.unicodeEncode entries).mpr hmeets
  · unfold validateOptional
    split
    · exact raises_ok _
    · split
      · exact raises_error (.inl rfl)
      · exact hrow.raises _
    · exact raises_error (.inl rfl)

end Checks

section Entries

def DocumentFits : Json → Prop
  | .string document => Fits maxUntrustedStringBytes document
  | _ => False

def DocumentMeets : Json → Prop
  | .string document => HasSurrogate document
  | _ => False

theorem checks_document : Checks validateDocument DocumentFits DocumentMeets := by
  have h := checks_encodedLength maxUntrustedStringBytes
  refine ⟨fun value => ?_, fun value => ?_, fun value => ?_⟩
  · cases value <;> simp [validateDocument, DocumentFits, h.ok]
  · cases value <;> simp [validateDocument, DocumentMeets, h.unicodeEncode]
  · cases value with
    | string s => exact h.raises s
    | _ => exact raises_error (.inl rfl)

/-- A metadata value that is accepted. -/
def ScalarFits : Json → Prop
  | .string scalar => Fits maxMetadataValueBytes scalar
  | .bool _ => True
  | .number lexeme => Fits maxMetadataValueBytes lexeme.text ∧ isFiniteBinary64 lexeme = true
  | _ => False

def ScalarMeets : Json → Prop
  | .string scalar => HasSurrogate scalar
  | _ => False

/-- The checks on a metadata value. -/
private def validateScalar : Json → Except RetrievalException Unit
  | .string scalar => checkEncodedLength maxMetadataValueBytes scalar
  | .bool _ => .ok ()
  | .number lexeme => do
    checkEncodedLength maxMetadataValueBytes lexeme.text
    finiteBinary64 lexeme
  | _ => .error .denseProvider

theorem closed_finiteBinary64 (lexeme : Numeral) : ClosedOutcome (finiteBinary64 lexeme) := by
  unfold finiteBinary64
  split
  · exact raises_ok _
  · exact raises_error rfl

theorem finiteBinary64_ok {lexeme : Numeral} :
    finiteBinary64 lexeme = .ok () ↔ isFiniteBinary64 lexeme = true := by
  unfold finiteBinary64
  split <;> simp_all

private theorem checks_scalar : Checks validateScalar ScalarFits ScalarMeets := by
  have h := checks_encodedLength maxMetadataValueBytes
  refine ⟨fun value => ?_, fun value => ?_, fun value => ?_⟩
  · cases value with
    | string s => exact h.ok s
    | number lexeme =>
      rw [validateScalar, bind_eq_ok, ScalarFits, ← h.ok, ← finiteBinary64_ok]
      exact ⟨fun ⟨_, hx, h⟩ => ⟨hx, h⟩, fun ⟨hx, h⟩ => ⟨(), hx, h⟩⟩
    | _ => simp [validateScalar, ScalarFits]
  · cases value with
    | string s => exact h.unicodeEncode s
    | number lexeme =>
      rw [validateScalar, bind_eq_error, h.unicodeEncode]
      refine iff_of_false ?_ id
      rintro (hs | ⟨_, _, hf⟩)
      · rw [HasSurrogate, lexeme.scalar] at hs
        cases hs
      · cases closed_finiteBinary64 lexeme _ hf
    | _ => simp [validateScalar, ScalarMeets]
  · cases value with
    | string s => exact h.raises s
    | number lexeme =>
      exact raises_bind (h.raises _) fun _ _ => (closed_finiteBinary64 lexeme).mono fun _ => .inl
    | bool b => exact raises_ok _
    | _ => exact raises_error (.inl rfl)

def MetadataItemFits (item : Str × Json) : Prop := Fits maxMetadataKeyBytes item.1 ∧ ScalarFits item.2

/-- The key has a surrogate, or the key is accepted and the value has one. -/
def MetadataItemMeets (item : Str × Json) : Prop :=
  HasSurrogate item.1 ∨ Fits maxMetadataKeyBytes item.1 ∧ ScalarMeets item.2

theorem checks_metadataItem : Checks validateMetadataItem MetadataItemFits MetadataItemMeets := by
  have hkey : Checks (fun item : Str × Json => checkEncodedLength maxMetadataKeyBytes item.1)
      (fun item => Fits maxMetadataKeyBytes item.1) (fun item => HasSurrogate item.1) :=
    have h := checks_encodedLength maxMetadataKeyBytes
    ⟨fun item => h.ok item.1, fun item => h.unicodeEncode item.1, fun item => h.raises item.1⟩
  have hvalue : Checks (fun item : Str × Json => validateScalar item.2)
      (fun item => ScalarFits item.2) (fun item => ScalarMeets item.2) :=
    ⟨fun item => checks_scalar.ok item.2, fun item => checks_scalar.unicodeEncode item.2,
      fun item => checks_scalar.raises item.2⟩
  exact hkey.seq hvalue

def MetadataFits : Json → Prop
  | .object members => members.length ≤ maxMetadataEntries ∧ ∀ item ∈ members, MetadataItemFits item
  | _ => False

def MetadataMeets : Json → Prop
  | .object members =>
    members.length ≤ maxMetadataEntries ∧ FirstFault MetadataItemFits MetadataItemMeets members
  | _ => False

theorem checks_metadata : Checks validateMetadata MetadataFits MetadataMeets := by
  have h := checks_metadataItem.forM
  refine ⟨fun value => ?_, fun value => ?_, fun value => ?_⟩
  · cases value with
    | object members =>
      rw [validateMetadata, MetadataFits, ← h.ok, ← not_lt]
      split <;> simp_all
    | _ => simp [validateMetadata, MetadataFits]
  · cases value with
    | object members =>
      rw [validateMetadata, MetadataMeets, ← h.unicodeEncode, ← not_lt]
      split <;> simp_all
    | _ => simp [validateMetadata, MetadataMeets]
  · cases value with
    | object members =>
      rw [validateMetadata]
      split
      · exact raises_error (.inl rfl)
      · exact h.raises members
    | _ => exact raises_error (.inl rfl)

def VectorIdFits (vectorId : Option Str) : Prop := ∀ s, vectorId = some s → Fits maxCandidateIdBytes s

def VectorIdMeets (vectorId : Option Str) : Prop := ∃ s, vectorId = some s ∧ HasSurrogate s

theorem checks_vectorId : Checks checkVectorId VectorIdFits VectorIdMeets := by
  have h := checks_encodedLength maxCandidateIdBytes
  refine ⟨fun value => ?_, fun value => ?_, fun value => ?_⟩
  · cases value <;> simp [checkVectorId, VectorIdFits, h.ok]
  · cases value <;> simp [checkVectorId, VectorIdMeets, h.unicodeEncode]
  · cases value with
    | none => exact raises_ok _
    | some s => exact h.raises s

end Entries

section Result

/-- The canonical shape of a response body, and its rows. -/
structure IsEnvelope (body : Json) (configuredCount : Nat) (envelope : CanonicalEnvelope) : Prop where
  members : ∃ members, body = .object members ∧
    (∀ key, key ∈ members.map Prod.fst ↔ key ∈ canonicalResponseKeys) ∧
    member? members (str "embeddings") = some .null ∧ member? members (str "uris") = some .null ∧
    member? members (str "data") = some .null ∧
    member? members (str "include") = some (.array [.string (str "distances")]) ∧
    member? members (str "ids") = some (.array [.array envelope.ids]) ∧
    member? members (str "distances") = some (.array [.array envelope.distances]) ∧
    member? members (str "documents") = some envelope.documents ∧
    member? members (str "metadatas") = some envelope.metadatas
  distances_length : envelope.distances.length = envelope.ids.length
  configured : envelope.ids.length ≤ configuredCount
  bounded : envelope.ids.length ≤ maxProviderCandidates

theorem canonicalEnvelope_ok {body : Json} {configuredCount : Nat} {envelope : CanonicalEnvelope} :
    canonicalEnvelope body configuredCount = .ok envelope ↔ IsEnvelope body configuredCount envelope := by
  constructor
  · intro h
    unfold canonicalEnvelope at h
    split at h
    · rename_i members
      dsimp only at h
      split at h
      · cases h
      rename_i hkeys
      split at h
      · rename_i included ids distances documents metadatas he hu hd hi hids hdist hdoc hmeta
        split at h
        · cases h
        rename_i hincluded
        split at h
        · cases h
        rename_i hlen
        obtain rfl := Except.ok.inj h
        simp only [not_or, not_not, not_lt] at hkeys hlen hincluded
        subst hincluded
        exact ⟨⟨members, rfl, fun key => ⟨fun hk => hkeys.1 hk, fun hk => hkeys.2 hk⟩, he, hu, hd, hi,
          hids, hdist, hdoc, hmeta⟩, hlen.1, hlen.2.1, hlen.2.2⟩
      · cases h
    · cases h
  · rintro ⟨⟨members, rfl, hkeys, he, hu, hd, hi, hids, hdist, hdoc, hmeta⟩, hlen, hconf, hbound⟩
    have hsub : ¬(¬members.map Prod.fst ⊆ canonicalResponseKeys ∨
        ¬canonicalResponseKeys ⊆ members.map Prod.fst) := by
      rw [not_or, not_not, not_not]
      exact ⟨fun key hk => (hkeys key).mp hk, fun key hk => (hkeys key).mpr hk⟩
    have hcounts : ¬(envelope.distances.length ≠ envelope.ids.length ∨
        envelope.ids.length > configuredCount ∨ envelope.ids.length > maxProviderCandidates) := by
      rw [not_or, not_or, not_not, not_lt, not_lt]
      exact ⟨hlen, hconf, hbound⟩
    unfold canonicalEnvelope
    dsimp only
    rw [if_neg hsub, he, hu, hd, hi, hids, hdist, hdoc, hmeta]
    dsimp only
    rw [if_neg (not_not.mpr rfl), if_neg hcounts]

theorem closed_canonicalEnvelope (body : Json) (configuredCount : Nat) :
    ClosedOutcome (canonicalEnvelope body configuredCount) := by
  unfold canonicalEnvelope
  dsimp only
  repeat' split
  all_goals first | exact raises_ok _ | exact raises_error rfl

/-- A distance that is a number is a finite one. -/
def DistanceFits : Json → Prop
  | .number lexeme => isFiniteBinary64 lexeme = true
  | _ => True

theorem closed_normalizeDistance (distance : Json) : ClosedOutcome (normalizeDistance distance) := by
  unfold normalizeDistance
  split
  · exact raises_bind (closed_finiteBinary64 _) fun _ _ => raises_ok _
  · exact raises_ok _

theorem normalizeDistance_ok {distance : Json} :
    (∃ score, normalizeDistance distance = .ok score) ↔ DistanceFits distance := by
  cases distance with
  | number lexeme =>
    rw [DistanceFits, ← finiteBinary64_ok]
    constructor
    · rintro ⟨score, h⟩
      obtain ⟨_, hf, _⟩ := bind_eq_ok.mp h
      exact hf
    · intro hf
      exact ⟨.finite, bind_eq_ok.mpr ⟨(), hf, rfl⟩⟩
  | _ => simp [normalizeDistance, DistanceFits]

theorem mapM_normalizeDistance_ok {distances : List Json} :
    (∃ scores, distances.mapM normalizeDistance = .ok scores) ↔ ∀ d ∈ distances, DistanceFits d := by
  constructor
  · rintro ⟨scores, h⟩ d hd
    obtain ⟨score, _, hscore⟩ := exists_of_forall₂_left (mapM_eq_ok.mp h) hd
    exact normalizeDistance_ok.mp ⟨score, hscore⟩
  · intro h
    exact mapM_ok_of_forall fun d hd => normalizeDistance_ok.mpr (h d hd)

theorem vectorId_of_mem_denseCandidates {ids : List Json} {scores : List ProviderScore}
    {candidate : DenseCandidate} (h : candidate ∈ denseCandidates ids scores) :
    candidate.vectorId ∈ ids.map vectorIdOf := by
  obtain ⟨p, hp, rfl⟩ := List.mem_map.mp h
  have hzip := List.fst_mem_of_mem_zipIdx hp
  exact (List.of_mem_zip hzip).1

theorem closed_mk? {positionCount : Nat} {candidates : List DenseCandidate}
    (h : ∀ candidate ∈ candidates, checkVectorId candidate.vectorId = .ok ()) :
    ClosedOutcome (DenseProviderResult.mk? positionCount candidates) := by
  unfold DenseProviderResult.mk?
  split
  · split
    · exact raises_error rfl
    refine raises_bind ?_ fun g _ => ?_
    · refine raises_foldlM_mem (fun g candidate hc => ?_) _
      unfold Gathered.read
      split
      · split
        · exact raises_error rfl
        · dsimp only
          rw [h candidate hc]
          refine raises_bind (raises_ok _) fun _ _ => ?_
          repeat' split
          all_goals exact raises_ok _
      · exact raises_error rfl
    · split
      · exact raises_ok _
      · exact raises_error rfl
  · exact raises_error rfl

/-- An unpaired surrogate is met, and nothing before it is malformed: in a document,
then in a metadata key or value, then in an id. -/
def SurrogateMet (envelope : CanonicalEnvelope) : Prop :=
  OptionalMeets DocumentFits DocumentMeets envelope.ids.length envelope.documents ∨
  OptionalFits DocumentFits envelope.ids.length envelope.documents ∧
    (OptionalMeets MetadataFits MetadataMeets envelope.ids.length envelope.metadatas ∨
    OptionalFits MetadataFits envelope.ids.length envelope.metadatas ∧
      (∀ distance ∈ envelope.distances, DistanceFits distance) ∧
      FirstFault VectorIdFits VectorIdMeets (envelope.ids.map vectorIdOf))

/-- The body is canonical, and the checks of its strings meet an unpaired surrogate. -/
def SurrogateReached (body : Json) (configuredCount : Nat) : Prop :=
  ∃ envelope, IsEnvelope body configuredCount envelope ∧ SurrogateMet envelope

/-- What `_typed_result` does with a canonical body. -/
def readEnvelope (envelope : CanonicalEnvelope) : Except RetrievalException DenseProviderResult := do
  validateOptionalDocuments envelope.documents envelope.ids.length
  validateOptionalMetadatas envelope.metadatas envelope.ids.length
  let scores ← envelope.distances.mapM normalizeDistance
  (envelope.ids.map vectorIdOf).forM checkVectorId
  DenseProviderResult.mk? envelope.ids.length (denseCandidates envelope.ids scores)

private theorem scores_unicodeEncode {ids : List Json} {distances : List Json} :
    (do
      let scores ← distances.mapM normalizeDistance
      (ids.map vectorIdOf).forM checkVectorId
      DenseProviderResult.mk? ids.length (denseCandidates ids scores)) = .error .unicodeEncode ↔
    (∀ distance ∈ distances, DistanceFits distance) ∧
      FirstFault VectorIdFits VectorIdMeets (ids.map vectorIdOf) := by
  have hids := checks_vectorId.forM
  rw [bind_eq_error, ← mapM_normalizeDistance_ok]
  constructor
  · rintro (hscores | ⟨scores, hscores, h⟩)
    · cases raises_mapM (fun d _ => closed_normalizeDistance d) _ hscores
    rcases hids.bind_unicodeEncode.mp h with hmeets | ⟨hfits, hresult⟩
    · exact ⟨⟨scores, hscores⟩, hmeets⟩
    · refine absurd (closed_mk? (fun candidate hc => ?_) _ hresult) (by simp)
      exact (checks_vectorId.ok _).mpr (hfits _ (vectorId_of_mem_denseCandidates hc))
  · rintro ⟨⟨scores, hscores⟩, hmeets⟩
    exact .inr ⟨scores, hscores, hids.bind_unicodeEncode.mpr (.inl hmeets)⟩

theorem readEnvelope_unicodeEncode {envelope : CanonicalEnvelope} :
    readEnvelope envelope = .error .unicodeEncode ↔ SurrogateMet envelope := by
  have hdocuments := checks_optional checks_document envelope.ids.length
  have hmetadatas := checks_optional checks_metadata envelope.ids.length
  rw [readEnvelope, SurrogateMet, ← scores_unicodeEncode]
  exact hdocuments.bind_unicodeEncode.trans
    (or_congr_right (and_congr_right fun _ => hmetadatas.bind_unicodeEncode))

theorem raises_readEnvelope (envelope : CanonicalEnvelope) :
    Raises IsCheckException (readEnvelope envelope) := by
  have hdocuments := checks_optional checks_document envelope.ids.length
  have hmetadatas := checks_optional checks_metadata envelope.ids.length
  refine raises_bind (hdocuments.raises _) fun _ _ => raises_bind (hmetadatas.raises _) fun _ _ => ?_
  refine raises_bind ?_ fun scores _ => raises_bind (checks_vectorId.forM.raises _) fun _ hids => ?_
  · exact raises_mapM fun d _ => (closed_normalizeDistance d).mono fun _ => .inl
  refine (closed_mk? fun candidate hc => ?_).mono fun _ => .inl
  exact forM_eq_ok.mp hids _ (vectorId_of_mem_denseCandidates hc)

theorem typedResult_eq (body : Json) (configuredCount : Nat) :
    typedResult body configuredCount = canonicalEnvelope body configuredCount >>= readEnvelope := rfl

theorem typedResult_unicodeEncode {body : Json} {configuredCount : Nat} :
    typedResult body configuredCount = .error .unicodeEncode ↔ SurrogateReached body configuredCount := by
  rw [typedResult_eq, bind_eq_error, SurrogateReached]
  constructor
  · rintro (h | ⟨envelope, henvelope, h⟩)
    · cases closed_canonicalEnvelope body configuredCount _ h
    · exact ⟨envelope, canonicalEnvelope_ok.mp henvelope, readEnvelope_unicodeEncode.mp h⟩
  · rintro ⟨envelope, henvelope, h⟩
    exact .inr ⟨envelope, canonicalEnvelope_ok.mpr henvelope, readEnvelope_unicodeEncode.mpr h⟩

theorem raises_typedResult (body : Json) (configuredCount : Nat) :
    Raises IsCheckException (typedResult body configuredCount) := by
  rw [typedResult_eq]
  refine raises_bind ?_ fun envelope _ => raises_readEnvelope envelope
  exact (closed_canonicalEnvelope body configuredCount).mono fun _ => .inl

/-- Decoding is closed exactly when no unpaired surrogate is reached. -/
theorem closed_decodeResponse {σ : Type} {z : Zlib σ} {response : ProviderResponse}
    {candidateCount : Nat} : ClosedOutcome (decodeResponse z response candidateCount) ↔
      ¬∃ body, boundedJsonBody z response = .ok body ∧ SurrogateReached body candidateCount := by
  rw [decodeResponse]
  constructor
  · rintro h ⟨body, hbody, hreached⟩
    cases h _ (bind_eq_error.mpr (.inr ⟨body, hbody, typedResult_unicodeEncode.mpr hreached⟩))
  · intro h
    refine raises_bind (closed_boundedJsonBody response) fun body hbody e he => ?_
    rcases raises_typedResult body candidateCount e he with rfl | rfl
    · rfl
    · exact absurd ⟨body, hbody, typedResult_unicodeEncode.mp he⟩ h

end Result

section Retrieve

/-- A retrieval whose earlier steps succeed, with the number of candidates it asks for. -/
structure Querying (service : HybridRetrievalService) (proof : SessionAuthenticationProof)
    (knowledgeBaseId : UUID) (payload : Payload) (candidateCount : Nat) : Prop where
  reached : ∃ scopedResult keywordRanks rawVectors embedding,
    (service.keywordRetrieve proof knowledgeBaseId payload).outcome = .ok scopedResult ∧
    keywordRankMap scopedResult.candidates = .ok keywordRanks ∧
    service.embeddingModel.embed [scopedResult.request.normalizedQuery] = .ok rawVectors ∧
    validateQueryEmbedding rawVectors service.embeddingModel.dimension = .ok embedding ∧
    configuredProviderCount scopedResult.request.requestedCount = .ok candidateCount

/-- An error of the provider's query ends the retrieval, as the `except` clause maps it. -/
theorem retrieve_query_error {service : HybridRetrievalService} {proof : SessionAuthenticationProof}
    {knowledgeBaseId : UUID} {payload : Payload} {candidateCount : Nat} {e : RetrievalException}
    (h : Querying service proof knowledgeBaseId payload candidateCount)
    (hquery : ∀ embedding,
      service.denseRetrieval.query embedding knowledgeBaseId candidateCount = .error e) :
    (service.retrieve proof knowledgeBaseId payload).outcome =
      .error (if isProviderError e then .unavailable else e) := by
  obtain ⟨scopedResult, keywordRanks, rawVectors, embedding, hscoped, hranks, hembed, hvector, hcount⟩ :=
    h.reached
  have hdense : (service.denseStage knowledgeBaseId scopedResult.request).outcome = .error e := by
    rw [HybridRetrievalService.denseStage, Traced.outcome_bind]
    refine bind_eq_error.mpr (.inr ⟨rawVectors, hembed, ?_⟩)
    rw [Traced.outcome_bind]
    refine bind_eq_error.mpr (.inr ⟨embedding, hvector, ?_⟩)
    rw [Traced.outcome_bind]
    refine bind_eq_error.mpr (.inr ⟨candidateCount, hcount, ?_⟩)
    rw [Traced.outcome_bind]
    exact bind_eq_error.mpr (.inl (hquery embedding))
  rw [HybridRetrievalService.retrieve, Traced.outcome_bind]
  refine bind_eq_error.mpr (.inr ⟨scopedResult, hscoped, ?_⟩)
  rw [Traced.outcome_bind]
  refine bind_eq_error.mpr (.inr ⟨keywordRanks, hranks, ?_⟩)
  rw [Traced.outcome_bind]
  refine bind_eq_error.mpr (.inl ?_)
  rw [Traced.outcome_rescue, hdense, rescue]

/-- Decoding a response returns or raises the provider error, and every retrieval that
the response fails ends as unavailable, unless an unpaired surrogate is reached. -/
theorem decoding_closed {σ : Type} (z : Zlib σ) (response : ProviderResponse) (candidateCount : Nat) :
    (ClosedOutcome (decodeResponse z response candidateCount) ∧
      ∀ (service : HybridRetrievalService) (proof : SessionAuthenticationProof) (knowledgeBaseId : UUID)
        (payload : Payload), Querying service proof knowledgeBaseId payload candidateCount →
        (∀ embedding, service.denseRetrieval.query embedding knowledgeBaseId candidateCount =
          decodeResponse z response candidateCount) →
        (∀ result, decodeResponse z response candidateCount ≠ .ok result) →
        (service.retrieve proof knowledgeBaseId payload).outcome = .error .unavailable) ↔
      ¬∃ body, boundedJsonBody z response = .ok body ∧ SurrogateReached body candidateCount := by
  rw [← closed_decodeResponse]
  refine ⟨And.left, fun h => ⟨h, ?_⟩⟩
  intro service proof knowledgeBaseId payload hquerying hanswer hmalformed
  cases hdecode : decodeResponse z response candidateCount with
  | ok result => exact absurd hdecode (hmalformed result)
  | error e =>
    obtain rfl := h e hdecode
    exact retrieve_query_error hquerying fun embedding => (hanswer embedding).trans hdecode

/-- One candidate, whose id is the escape of an unpaired surrogate. -/
def surrogateBody : String :=
  "\x7b\"ids\":[[\"\\ud800\"]],\"embeddings\":null,\"documents\":null,\"uris\":null," ++
  "\"data\":null,\"metadatas\":null,\"distances\":[[0.5]],\"include\":[\"distances\"]\x7d"

def surrogateResponse : ProviderResponse where
  statusCode := 200
  headers name := if name = "content-type" then some (str "application/json") else none
  rawParts := [(str surrogateBody).map fun c => UInt8.ofNat c.val]
  broken := false

def surrogateService : HybridRetrievalService :=
  { exampleFailingService with
    denseRetrieval := ⟨fun _ _ candidateCount =>
      decodeResponse exampleZlib surrogateResponse candidateCount⟩ }

theorem decoding_closed_fails :
    ¬ClosedOutcome (decodeResponse exampleZlib surrogateResponse 40) ∧
    (surrogateService.retrieve ⟨⟨1, 2⟩, []⟩ 3 (some [(.str queryField, .str (str "a"))])).outcome =
      .error .unicodeEncode := by
  have hdecode : decodeResponse exampleZlib surrogateResponse 40 = .error .unicodeEncode :=
    errorOf_eq_some.mp (by decide +kernel)
  refine ⟨fun hclosed => ?_, errorOf_eq_some.mp (by decide +kernel)⟩
  cases hclosed _ hdecode

end Retrieve
end AgenticRag.Retrieval

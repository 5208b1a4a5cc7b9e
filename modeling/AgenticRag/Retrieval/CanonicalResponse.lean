import AgenticRag.Python.JsonLoading
import AgenticRag.Python.Utf8Codec
import AgenticRag.Retrieval.ChromaClosed
import AgenticRag.Retrieval.Fusion
import AgenticRag.Retrieval.JsonDepth

/-! The canonical response to a query: what the decoder accepts, and the rank that it gives each
chunk. -/
namespace AgenticRag.Retrieval
open Lib Python Ingestion

section Format

/-- The eight members of a canonical response. -/
def canonicalMembers (envelope : CanonicalEnvelope) : List (Str × Json) :=
  [(str "ids", .array [.array envelope.ids]), (str "embeddings", .null),
    (str "documents", envelope.documents), (str "uris", .null), (str "data", .null),
    (str "metadatas", envelope.metadatas), (str "distances", .array [.array envelope.distances]),
    (str "include", .array [.string (str "distances")])]

/-- The body is UTF-8 without a byte order mark of one RFC 8259 text, which is not too deep and
repeats no key, of an object with exactly these members. -/
structure CanonicalText (body : List UInt8) (envelope : CanonicalEnvelope) : Prop where
  unmarked : ¬byteOrderMark <+: body
  value : ∃ text members, encodeUtf8 text = some body ∧ JsonText text (.object members) ∧
    NestsWithin maxJsonDepth (.object members) ∧ UniqueKeys (.object members) ∧
    members.Perm (canonicalMembers envelope)

/-- What may stand at the positions of a canonical response. -/
structure CanonicalRows (candidateCount : Nat) (envelope : CanonicalEnvelope) : Prop where
  distances_length : envelope.distances.length = envelope.ids.length
  configured : envelope.ids.length ≤ candidateCount
  documents : OptionalFits DocumentFits envelope.ids.length envelope.documents
  metadatas : OptionalFits MetadataFits envelope.ids.length envelope.metadatas
  distances : ∀ distance ∈ envelope.distances, DistanceFits distance
  ids : ∀ vectorId, .string vectorId ∈ envelope.ids → Fits maxCandidateIdBytes vectorId

def CanonicalResponse (candidateCount : Nat) (body : List UInt8) (envelope : CanonicalEnvelope) : Prop :=
  CanonicalText body envelope ∧ CanonicalRows candidateCount envelope

/-- A position at which the chunk has a rank: its distance is a number, and its id is the one
that the index gives the chunk. -/
def RankedAt (envelope : CanonicalEnvelope) (chunkId : UUID) (position : Nat) : Prop :=
  (∃ lexeme, envelope.distances[position]? = some (.number lexeme)) ∧
    envelope.ids[position]? = some (.string (stableVectorId chunkId))

end Format

section Text

/-- What `_strict_json` returns. -/
theorem strictJson_ok {body : List UInt8} {value : Json} : strictJson body = .ok value ↔
    ¬byteOrderMark <+: body ∧ ∃ text, encodeUtf8 text = some body ∧ JsonText text value ∧
      value.depth ≤ maxJsonDepth ∧ UniqueKeys value := by
  rw [strictJson, ← List.isPrefixOf_iff_prefix]
  by_cases hmark : byteOrderMark.isPrefixOf body = true
  · rw [if_pos hmark]
    exact iff_of_false nofun fun h => h.1 hmark
  rw [if_neg hmark, rescue_eq_ok, and_iff_right hmark]
  constructor
  · intro h
    split at h
    · cases h
    · rename_i text htext
      obtain ⟨_, hdepth, h⟩ := bind_eq_ok.mp h
      split at h
      · cases h
      · rename_i found hloads
        obtain rfl := Except.ok.inj h
        obtain ⟨hjson, hkeys⟩ := jsonLoads_eq_some.mp hloads
        exact ⟨text, decodeUtf8_eq_some.mp htext, hjson, (validateJsonDepth_ok hjson).mp hdepth, hkeys⟩
  · rintro ⟨text, htext, hjson, hdepth, hkeys⟩
    rw [decodeUtf8_eq_some.mpr htext]
    refine bind_eq_ok.mpr ⟨(), (validateJsonDepth_ok hjson).mpr hdepth, ?_⟩
    rw [jsonLoads_eq_some.mpr ⟨hjson, hkeys⟩]

end Text

section Members
variable {members : List (Str × Json)} {envelope : CanonicalEnvelope}

theorem member?_eq_some (hkeys : (members.map Prod.fst).Nodup) {key : Str} {value : Json} :
    member? members key = some value ↔ (key, value) ∈ members := by
  constructor
  · intro h
    obtain ⟨⟨name, found⟩, hfind, rfl⟩ := Option.map_eq_some_iff.mp h
    obtain rfl : name = key := by simpa using List.find?_some hfind
    exact List.mem_of_find?_eq_some hfind
  · intro h
    cases hfind : members.find? fun p => p.1 = key with
    | none => exact absurd (decide_eq_true rfl) (List.find?_eq_none.mp hfind (key, value) h)
    | some found =>
      have hname : found.1 = key := by simpa using List.find?_some hfind
      have hfound := List.inj_on_of_nodup_map hkeys (List.mem_of_find?_eq_some hfind) h hname
      rw [member?, hfind, hfound, Option.map_some]

theorem canonicalMembers_keys : (canonicalMembers envelope).map Prod.fst = canonicalResponseKeys := rfl

theorem canonicalMembers_nodup : ((canonicalMembers envelope).map Prod.fst).Nodup := by
  rw [canonicalMembers_keys]
  decide

/-- The canonical members, by what the decoder looks up. -/
theorem perm_canonicalMembers (hkeys : (members.map Prod.fst).Nodup) :
    members.Perm (canonicalMembers envelope) ↔
      (∀ key, key ∈ members.map Prod.fst ↔ key ∈ canonicalResponseKeys) ∧
        ∀ p ∈ canonicalMembers envelope, member? members p.1 = some p.2 := by
  constructor
  · intro h
    refine ⟨fun key => ?_, fun p hp => (member?_eq_some hkeys).mpr (h.mem_iff.mpr hp)⟩
    rw [← @canonicalMembers_keys envelope]
    exact (h.map Prod.fst).mem_iff
  · rintro ⟨hsame, hlookup⟩
    have hcanonical : ∀ p ∈ canonicalMembers envelope, p ∈ members :=
      fun p hp => (member?_eq_some hkeys).mp (hlookup p hp)
    refine (List.perm_ext_iff_of_nodup (hkeys.of_map _) (canonicalMembers_nodup.of_map _)).mpr fun p => ?_
    refine ⟨fun hp => ?_, hcanonical p⟩
    have hkey : p.1 ∈ (canonicalMembers envelope).map Prod.fst :=
      (hsame p.1).mp (List.mem_map_of_mem hp)
    obtain ⟨q, hq, hname⟩ := List.mem_map.mp hkey
    rw [← List.inj_on_of_nodup_map hkeys (hcanonical q hq) hp hname]
    exact hq

theorem isEnvelope_iff {value : Json} {candidateCount : Nat} (hunique : UniqueKeys value)
    (hcount : candidateCount ≤ maxProviderCandidates) :
    IsEnvelope value candidateCount envelope ↔ (∃ members, value = .object members ∧
      members.Perm (canonicalMembers envelope)) ∧
      envelope.distances.length = envelope.ids.length ∧ envelope.ids.length ≤ candidateCount := by
  constructor
  · rintro ⟨⟨members, rfl, hsame, he, hu, hd, hi, hids, hdist, hdoc, hmeta⟩, hlength, hconfigured, _⟩
    have hkeys : (members.map Prod.fst).Nodup := by
      cases hunique with
      | object hkeys _ => exact hkeys
    refine ⟨⟨members, rfl, (perm_canonicalMembers hkeys).mpr ⟨hsame, ?_⟩⟩, hlength, hconfigured⟩
    simp only [canonicalMembers, List.forall_mem_cons]
    exact ⟨hids, he, hdoc, hu, hd, hmeta, hdist, hi, fun _ h => absurd h List.not_mem_nil⟩
  · rintro ⟨⟨members, rfl, hperm⟩, hlength, hconfigured⟩
    have hkeys : (members.map Prod.fst).Nodup := by
      cases hunique with
      | object hkeys _ => exact hkeys
    obtain ⟨hsame, hlookup⟩ := (perm_canonicalMembers hkeys).mp hperm
    simp only [canonicalMembers, List.forall_mem_cons] at hlookup
    obtain ⟨hids, he, hdoc, hu, hd, hmeta, hdist, hi, _⟩ := hlookup
    exact ⟨⟨members, rfl, hsame, he, hu, hd, hi, hids, hdist, hdoc, hmeta⟩, hlength, hconfigured,
      hconfigured.trans hcount⟩

end Members

section Positions

/-- The positions of the candidates, and what is kept of them. -/
theorem foldlM_read {positionCount : Nat} {candidates : List DenseCandidate} {g : Gathered positionCount}
    (hids : ∀ candidate ∈ candidates, checkVectorId candidate.vectorId = .ok ())
    (hrange : ∀ candidate ∈ candidates, candidate.absolutePosition < positionCount)
    (hnodup : (candidates.map DenseCandidate.absolutePosition).Nodup)
    (hnew : ∀ candidate ∈ candidates, candidate.absolutePosition ∉ g.positions) :
    ∃ g', candidates.foldlM Gathered.read g = .ok g' ∧ ∀ position, position ∈ g'.positions ↔
      position ∈ g.positions ∨ position ∈ candidates.map DenseCandidate.absolutePosition := by
  induction candidates generalizing g with
  | nil => exact ⟨g, rfl, fun position => by simp⟩
  | cons candidate candidates ih =>
    obtain ⟨hid, hotherIds⟩ := List.forall_mem_cons.mp hids
    obtain ⟨hlt, hotherRange⟩ := List.forall_mem_cons.mp hrange
    obtain ⟨hfresh, hotherNew⟩ := List.forall_mem_cons.mp hnew
    rw [List.map_cons, List.nodup_cons] at hnodup
    obtain ⟨next, hread⟩ : ∃ next, g.read candidate = .ok next := by
      rw [Gathered.read, dif_pos hlt, if_neg hfresh, hid]
      dsimp only [Bind.bind, Except.bind]
      split
      · exact ⟨_, rfl⟩
      split
      · exact ⟨_, rfl⟩
      · exact ⟨_, rfl⟩
    have hpositions := (read_ok hread).1
    have hrest : ∀ other ∈ candidates, other.absolutePosition ∉ next.positions := by
      intro other hother
      rw [hpositions, List.mem_cons, not_or]
      refine ⟨fun he => hnodup.1 ?_, hotherNew other hother⟩
      rw [← he]
      exact List.mem_map_of_mem hother
    obtain ⟨g', hrun, hmem⟩ := ih hotherIds hotherRange hnodup.2 hrest
    refine ⟨g', bind_eq_ok.mpr ⟨next, hread, hrun⟩, fun position => ?_⟩
    rw [hmem, hpositions, List.map_cons, List.mem_cons, List.mem_cons, or_assoc, or_left_comm]

theorem mem_denseCandidates {ids : List Json} {scores : List ProviderScore} {candidate : DenseCandidate} :
    candidate ∈ denseCandidates ids scores ↔ ∃ position vectorId score,
      ids[position]? = some vectorId ∧ scores[position]? = some score ∧
      candidate = ⟨vectorIdOf vectorId, score, position⟩ := by
  rw [denseCandidates, List.mem_map]
  constructor
  · rintro ⟨⟨⟨idText, score⟩, position⟩, hmem, rfl⟩
    obtain ⟨hid, hscore⟩ := List.getElem?_zip_eq_some.mp (List.mem_zipIdx_iff_getElem?.mp hmem)
    rw [List.getElem?_map] at hid
    obtain ⟨vectorId, hvectorId, rfl⟩ := Option.map_eq_some_iff.mp hid
    exact ⟨position, vectorId, score, hvectorId, hscore, rfl⟩
  · rintro ⟨position, vectorId, score, hvectorId, hscore, rfl⟩
    refine ⟨((vectorIdOf vectorId, score), position), ?_, rfl⟩
    refine List.mem_zipIdx_iff_getElem?.mpr (List.getElem?_zip_eq_some.mpr ⟨?_, hscore⟩)
    rw [List.getElem?_map, hvectorId, Option.map_some]

theorem denseCandidates_positions {ids : List Json} {scores : List ProviderScore}
    (hlength : scores.length = ids.length) :
    (denseCandidates ids scores).map DenseCandidate.absolutePosition = List.range ids.length := by
  have hsnd : (denseCandidates ids scores).map DenseCandidate.absolutePosition =
      ((ids.map vectorIdOf).zip scores).zipIdx.map Prod.snd := by
    rw [denseCandidates, List.map_map]
    rfl
  rw [hsnd, List.zipIdx_map_snd, List.length_zip, List.length_map, hlength, min_self, List.range_eq_range']

/-- Positions from the front are all there, so a result is constructed. -/
theorem mk?_denseCandidates {ids : List Json} {scores : List ProviderScore}
    (hlength : scores.length = ids.length) (hbound : ids.length ≤ maxProviderCandidates)
    (hids : ∀ vectorId ∈ ids.map vectorIdOf, checkVectorId vectorId = .ok ()) :
    ∃ result, DenseProviderResult.mk? ids.length (denseCandidates ids scores) = .ok result := by
  have hpositions := denseCandidates_positions hlength
  have hcount : (denseCandidates ids scores).length = ids.length := by
    rw [← List.length_map DenseCandidate.absolutePosition, hpositions, List.length_range]
  obtain ⟨g, hrun, hmem⟩ := @foldlM_read ids.length (denseCandidates ids scores) .empty
    (fun candidate h => hids _ (vectorId_of_mem_denseCandidates h))
    (fun candidate h => List.mem_range.mp (hpositions ▸ List.mem_map_of_mem h))
    (hpositions ▸ List.nodup_range) (fun _ _ => List.not_mem_nil)
  have hall : ((List.range ids.length).all fun position => position ∈ g.positions) = true := by
    rw [List.all_eq_true]
    intro position hposition
    rw [decide_eq_true_eq, hmem, hpositions]
    exact .inr hposition
  rw [DenseProviderResult.mk?, dif_pos hbound, if_neg (not_not.mpr hcount), hrun]
  dsimp only [Bind.bind, Except.bind]
  rw [if_pos hall]
  exact ⟨_, rfl⟩

end Positions

section Decoded
variable {candidateCount : Nat} {envelope : CanonicalEnvelope}

theorem forM_checkVectorId {ids : List Json} :
    (ids.map vectorIdOf).forM checkVectorId = .ok () ↔
      ∀ vectorId, .string vectorId ∈ ids → Fits maxCandidateIdBytes vectorId := by
  rw [checks_vectorId.forM.ok, List.forall_mem_map]
  constructor
  · exact fun h vectorId hmem => h _ hmem vectorId rfl
  · intro h value hvalue vectorId hid
    cases value with
    | string s =>
      obtain rfl := Option.some.inj hid
      exact h _ hvalue
    | _ => cases hid

/-- The rows decide whether a canonical body is read. -/
theorem readEnvelope_ok (hlength : envelope.distances.length = envelope.ids.length)
    (hbound : envelope.ids.length ≤ maxProviderCandidates) :
    (∃ result, readEnvelope envelope = .ok result) ↔
      OptionalFits DocumentFits envelope.ids.length envelope.documents ∧
      OptionalFits MetadataFits envelope.ids.length envelope.metadatas ∧
      (∀ distance ∈ envelope.distances, DistanceFits distance) ∧
      ∀ vectorId, .string vectorId ∈ envelope.ids → Fits maxCandidateIdBytes vectorId := by
  have hdocuments := checks_optional checks_document envelope.ids.length
  have hmetadatas := checks_optional checks_metadata envelope.ids.length
  rw [← hdocuments.ok, ← hmetadatas.ok, ← mapM_normalizeDistance_ok, ← forM_checkVectorId]
  constructor
  · rintro ⟨result, h⟩
    obtain ⟨_, hdoc, h⟩ := bind_eq_ok.mp h
    obtain ⟨_, hmeta, h⟩ := bind_eq_ok.mp h
    obtain ⟨scores, hscores, h⟩ := bind_eq_ok.mp h
    obtain ⟨_, hids, _⟩ := bind_eq_ok.mp h
    exact ⟨hdoc, hmeta, ⟨scores, hscores⟩, hids⟩
  · rintro ⟨hdoc, hmeta, ⟨scores, hscores⟩, hids⟩
    have hscoresLength : scores.length = envelope.ids.length :=
      (mapM_eq_ok.mp hscores).length_eq.symm.trans hlength
    obtain ⟨result, hresult⟩ := mk?_denseCandidates hscoresLength hbound (forM_eq_ok.mp hids)
    refine ⟨result, bind_eq_ok.mpr ⟨(), hdoc, bind_eq_ok.mpr ⟨(), hmeta, bind_eq_ok.mpr ⟨scores, hscores, ?_⟩⟩⟩⟩
    exact bind_eq_ok.mpr ⟨(), hids, hresult⟩

/-- The score of a position is usable when its distance is a number. -/
theorem normalizeDistance_invalid {distance : Json} {score : ProviderScore}
    (h : normalizeDistance distance = .ok score) :
    score ≠ .invalid ↔ ∃ lexeme, distance = .number lexeme := by
  cases distance with
  | number lexeme =>
    obtain ⟨_, _, h⟩ := bind_eq_ok.mp h
    obtain rfl := Except.ok.inj h
    exact iff_of_true nofun ⟨lexeme, rfl⟩
  | _ =>
    obtain rfl := Except.ok.inj h
    exact iff_of_false (fun hne => hne rfl) nofun

/-- The candidate of a position is a valid occurrence when the position gives the chunk a rank. -/
theorem validOccurrence_iff {scores : List ProviderScore} {position : Nat} {vectorId : Json}
    {score : ProviderScore} {chunkId : UUID}
    (hall : List.Forall₂ (fun distance score => normalizeDistance distance = .ok score)
      envelope.distances scores)
    (hid : envelope.ids[position]? = some vectorId) (hscore : scores[position]? = some score) :
    ValidOccurrence ⟨vectorIdOf vectorId, score, position⟩ chunkId ↔ RankedAt envelope chunkId position := by
  obtain ⟨distance, hdistance, hnormal⟩ := exists_of_forall₂_at hall hscore
  rw [ValidOccurrence, normalizeDistance_invalid hnormal, RankedAt, hdistance, hid]
  refine and_congr (exists_congr fun lexeme => (Option.some_inj).symm) ?_
  rw [Option.some_inj]
  constructor
  · intro hparse
    have hvector := parseCanonicalVectorId_eq_some hparse
    cases vectorId with
    | string s => exact congrArg Json.string (Option.some.inj hvector)
    | _ => cases hvector
  · rintro rfl
    exact parseCanonicalVectorId_stable chunkId

/-- The ranks of an accepted body. -/
theorem readEnvelope_ranks {result : DenseProviderResult} (h : readEnvelope envelope = .ok result)
    (chunkId : UUID) : MinimumOf (fun rank => ∃ position, rank = position + 1 ∧
      RankedAt envelope chunkId position) ((⟨result.rankedChunkIds, result.nodup⟩ : Ranks).get? chunkId) := by
  obtain ⟨_, _, h⟩ := bind_eq_ok.mp h
  obtain ⟨_, _, h⟩ := bind_eq_ok.mp h
  obtain ⟨scores, hscores, h⟩ := bind_eq_ok.mp h
  obtain ⟨_, _, h⟩ := bind_eq_ok.mp h
  have hall := mapM_eq_ok.mp hscores
  refine (Dict.minimumOf_congr fun rank => ?_).mp (DenseProviderResult.mk?_ranks h chunkId)
  constructor
  · rintro ⟨candidate, hcandidate, hvalid, rfl⟩
    obtain ⟨position, vectorId, score, hid, hscore, rfl⟩ := mem_denseCandidates.mp hcandidate
    exact ⟨position, rfl, (validOccurrence_iff hall hid hscore).mp hvalid⟩
  · rintro ⟨position, rfl, hranked⟩
    obtain ⟨⟨lexeme, hdistance⟩, hid⟩ := hranked
    obtain ⟨score, hscore, _⟩ := exists_of_forall₂_at hall.flip hdistance
    refine ⟨_, mem_denseCandidates.mpr ⟨position, _, score, hid, hscore, rfl⟩, ?_, rfl⟩
    exact (validOccurrence_iff hall hid hscore).mpr ⟨⟨lexeme, hdistance⟩, hid⟩

end Decoded

section Decoder
variable {body : List UInt8} {candidateCount : Nat}

/-- `_typed_result(_strict_json(body))`. -/
def decodeBody (body : List UInt8) (candidateCount : Nat) : Except RetrievalException DenseProviderResult := do
  let value ← strictJson body
  typedResult value candidateCount

/-- Decoding a body is reading its envelope. -/
theorem decodeBody_ok {result : DenseProviderResult} : decodeBody body candidateCount = .ok result ↔
    ∃ value envelope, strictJson body = .ok value ∧ IsEnvelope value candidateCount envelope ∧
      readEnvelope envelope = .ok result := by
  rw [decodeBody, bind_eq_ok]
  simp only [typedResult_eq, bind_eq_ok, canonicalEnvelope_ok]
  constructor
  · rintro ⟨value, hvalue, envelope, henvelope, h⟩
    exact ⟨value, envelope, hvalue, henvelope, h⟩
  · rintro ⟨value, envelope, hvalue, henvelope, h⟩
    exact ⟨value, hvalue, envelope, henvelope, h⟩

/-- A body of the format has one value, of which the decoder reads the envelope. -/
theorem canonicalText_iff {envelope : CanonicalEnvelope} (hcount : candidateCount ≤ maxProviderCandidates)
    (hlength : envelope.distances.length = envelope.ids.length)
    (hconfigured : envelope.ids.length ≤ candidateCount) : CanonicalText body envelope ↔
      ∃ value, strictJson body = .ok value ∧ IsEnvelope value candidateCount envelope := by
  constructor
  · rintro ⟨hmark, text, members, htext, hjson, hdepth, hunique, hperm⟩
    refine ⟨.object members, strictJson_ok.mpr ⟨hmark, text, htext, hjson, ?_, hunique⟩, ?_⟩
    · exact nestsWithin_iff.mp hdepth
    · exact (isEnvelope_iff hunique hcount).mpr ⟨⟨members, rfl, hperm⟩, hlength, hconfigured⟩
  · rintro ⟨value, hvalue, henvelope⟩
    obtain ⟨hmark, text, htext, hjson, hdepth, hunique⟩ := strictJson_ok.mp hvalue
    obtain ⟨⟨members, rfl, hperm⟩, _⟩ := (isEnvelope_iff hunique hcount).mp henvelope
    exact ⟨hmark, text, members, htext, hjson, nestsWithin_iff.mpr hdepth, hunique, hperm⟩

theorem canonicalResponse_iff {envelope : CanonicalEnvelope}
    (hcount : candidateCount ≤ maxProviderCandidates) : CanonicalResponse candidateCount body envelope ↔
      (∃ value, strictJson body = .ok value ∧ IsEnvelope value candidateCount envelope) ∧
        ∃ result, readEnvelope envelope = .ok result := by
  constructor
  · rintro ⟨htext, hrows⟩
    refine ⟨(canonicalText_iff hcount hrows.distances_length hrows.configured).mp htext, ?_⟩
    refine (readEnvelope_ok hrows.distances_length (hrows.configured.trans hcount)).mpr ?_
    exact ⟨hrows.documents, hrows.metadatas, hrows.distances, hrows.ids⟩
  · rintro ⟨⟨value, hvalue, henvelope⟩, hread⟩
    have hlength := henvelope.distances_length
    obtain ⟨hdoc, hmeta, hdistances, hids⟩ := (readEnvelope_ok hlength henvelope.bounded).mp hread
    refine ⟨(canonicalText_iff hcount hlength henvelope.configured).mpr ⟨value, hvalue, henvelope⟩, ?_⟩
    exact ⟨hlength, henvelope.configured, hdoc, hmeta, hdistances, hids⟩

/-- A body has no two envelopes. -/
theorem canonicalResponse_unique {envelope other : CanonicalEnvelope} {value : Json}
    (hcount : candidateCount ≤ maxProviderCandidates) (hvalue : strictJson body = .ok value)
    (henvelope : IsEnvelope value candidateCount envelope)
    (hother : CanonicalResponse candidateCount body other) : envelope = other := by
  obtain ⟨⟨found, hfound, hread⟩, _⟩ := (canonicalResponse_iff hcount).mp hother
  obtain rfl := Except.ok.inj (hvalue.symm.trans hfound)
  have hsame := (canonicalEnvelope_ok.mpr henvelope).symm.trans (canonicalEnvelope_ok.mpr hread)
  exact Except.ok.inj hsame

/-- The decoder accepts the canonical responses and nothing else, and the rank of a chunk is one
plus the first position that gives it one. -/
theorem canonical_responses_decoded (body : List UInt8) (candidateCount : Nat)
    (hcount : 1 ≤ candidateCount ∧ candidateCount ≤ maxProviderCandidates) :
    ((∃ result, decodeBody body candidateCount = .ok result) ↔
      ∃ envelope, CanonicalResponse candidateCount body envelope) ∧
    ∀ result envelope, decodeBody body candidateCount = .ok result →
      CanonicalResponse candidateCount body envelope → ∀ chunkId,
        MinimumOf (fun rank => ∃ position, rank = position + 1 ∧ RankedAt envelope chunkId position)
          ((⟨result.rankedChunkIds, result.nodup⟩ : Ranks).get? chunkId) := by
  refine ⟨⟨?_, ?_⟩, ?_⟩
  · rintro ⟨result, h⟩
    obtain ⟨value, envelope, hvalue, henvelope, hread⟩ := decodeBody_ok.mp h
    exact ⟨envelope, (canonicalResponse_iff hcount.2).mpr ⟨⟨value, hvalue, henvelope⟩, result, hread⟩⟩
  · rintro ⟨envelope, h⟩
    obtain ⟨⟨value, hvalue, henvelope⟩, result, hread⟩ := (canonicalResponse_iff hcount.2).mp h
    exact ⟨result, decodeBody_ok.mpr ⟨value, envelope, hvalue, henvelope, hread⟩⟩
  · intro result envelope h hresponse chunkId
    obtain ⟨value, found, hvalue, hfound, hread⟩ := decodeBody_ok.mp h
    obtain rfl := canonicalResponse_unique hcount.2 hvalue hfound hresponse
    exact readEnvelope_ranks hread chunkId

/-- One id at two positions, the first of which has no distance. -/
def repeatedBody : List UInt8 :=
  let vectorId := str "\"chunk:00000000-0000-0000-0000-00000000000a\""
  let text := str "\x7b\"include\":[\"distances\"]," ++ str "\"embeddings\":null,\"documents\":null," ++
    str "\"uris\":null,\"data\":null," ++ str "\"metadatas\":[[null,\x7b\"page\":1e3\x7d]]," ++
    str "\"distances\":[[null,0.5]],\"ids\":[[" ++ vectorId ++ str "," ++ vectorId ++ str "]]\x7d"
  text.map fun c => UInt8.ofNat c.val

theorem canonical_responses_decoded_repeated :
    ∃ envelope, CanonicalResponse 2 repeatedBody envelope ∧
      MinimumOf (fun rank => ∃ position, rank = position + 1 ∧ RankedAt envelope 10 position) (some 2) := by
  have hdecode : (decodeBody repeatedBody 2).toOption.map DenseProviderResult.rankedChunkIds =
      some [(10, 2)] := by decide +kernel
  obtain ⟨haccepted, hranks⟩ := canonical_responses_decoded repeatedBody 2 ⟨by decide, by decide⟩
  cases hresult : decodeBody repeatedBody 2 with
  | error e =>
    rw [hresult] at hdecode
    cases hdecode
  | ok result =>
    obtain ⟨envelope, henvelope⟩ := haccepted.mp ⟨result, hresult⟩
    have hitems : result.rankedChunkIds = [(10, 2)] := by
      rw [hresult] at hdecode
      exact Option.some.inj hdecode
    have hrank : (⟨result.rankedChunkIds, result.nodup⟩ : Ranks).get? 10 = some 2 := by
      simp only [Dict.get?, hitems]
      rfl
    exact ⟨envelope, henvelope, hrank ▸ hranks result envelope hresult henvelope 10⟩

end Decoder
end AgenticRag.Retrieval

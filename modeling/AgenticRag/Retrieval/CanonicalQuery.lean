import AgenticRag.Lib.Joins
import AgenticRag.Retrieval.BlankQueries

/-! What query normalization leaves: the words of the query's normal form with one space between
them, which parsing accepts again and keeps. -/
namespace AgenticRag.Retrieval
open Lib Python Ingestion

section Words

/-- The runs between whitespace. -/
def adrWords (s : Str) : List Str := (s.splitOnP isAdr008Whitespace).filter fun word => !word.isEmpty

/-- Trimmed at the ends, every interior run of whitespace one space. -/
def collapse (s : Str) : Str := [space].intercalate (adrWords s)

/-- The characters that are no whitespace, each with whether one stands right before it. -/
def joinedCharacters : Bool → Str → List (CodePoint × Bool)
  | _, [] => []
  | joined, c :: rest =>
    if isAdr008Whitespace c then joinedCharacters false rest
    else (c, joined) :: joinedCharacters true rest

theorem map_fst_joinedCharacters (joined : Bool) (s : Str) :
    (joinedCharacters joined s).map Prod.fst = s.filter fun c => !isAdr008Whitespace c := by
  induction s generalizing joined with
  | nil => rfl
  | cons c rest ih =>
    cases hc : isAdr008Whitespace c with
    | true =>
      rw [joinedCharacters, if_pos hc, List.filter_cons_of_neg (by simp [hc])]
      exact ih false
    | false =>
      rw [joinedCharacters, if_neg (by simp [hc]), List.filter_cons_of_pos (by simp [hc]), List.map_cons, ih]

/-- The loop keeps the characters and which of them stand together. -/
theorem joinedCharacters_normalize {started pending : Bool} (h : pending = true → started = true) (s : Str) :
    joinedCharacters started (normalizeAdr008From started pending s) =
      joinedCharacters (started && !pending) s := by
  induction s generalizing started pending with
  | nil => rfl
  | cons c rest ih =>
    by_cases hc : isAdr008Whitespace c = true
    · have hnext : (pending || started) = true → started = true := fun hp =>
        (Bool.or_eq_true _ _ ▸ hp).elim h id
      rw [normalizeAdr008From, if_pos hc, joinedCharacters, if_pos hc, ih hnext]
      cases started <;> simp
    · have hrest : joinedCharacters true (normalizeAdr008From true false rest) =
          joinedCharacters true rest := ih fun _ => rfl
      rw [normalizeAdr008From, if_neg hc]
      cases pending with
      | true =>
        have hspace : isAdr008Whitespace space = true := rfl
        rw [if_pos rfl, joinedCharacters, if_pos hspace, joinedCharacters, if_neg hc, hrest, joinedCharacters,
          if_neg hc, Bool.not_true, Bool.and_false]
      | false =>
        rw [if_neg Bool.false_ne_true, joinedCharacters, if_neg hc, hrest, joinedCharacters, if_neg hc,
          Bool.not_false, Bool.and_true]

/-- Whitespace is a space with another character on each side. -/
def SingleSpaced (s : Str) : Prop :=
  ∀ before c after, s = before ++ c :: after → isAdr008Whitespace c = true →
    c = space ∧ (∃ b, before.getLast? = some b ∧ isAdr008Whitespace b = false) ∧
      ∃ d, after.head? = some d ∧ isAdr008Whitespace d = false

/-- The loop writes a space only between two characters; at its start that needs output before. -/
theorem normalizeAdr008From_spaced {started pending : Bool} (h : pending = true → started = true) {s : Str}
    {before after : Str} {c : CodePoint} (hs : normalizeAdr008From started pending s = before ++ c :: after)
    (hc : isAdr008Whitespace c = true) :
    c = space ∧ (∃ d, after.head? = some d ∧ isAdr008Whitespace d = false) ∧
      (before = [] → started = true) ∧ ∀ b ∈ before.getLast?, isAdr008Whitespace b = false := by
  induction s generalizing started pending before with
  | nil => simp [normalizeAdr008From] at hs
  | cons a rest ih =>
    rw [normalizeAdr008From] at hs
    by_cases ha : isAdr008Whitespace a = true
    · rw [if_pos ha] at hs
      exact ih (fun hp => (Bool.or_eq_true _ _ ▸ hp).elim h id) hs
    rw [if_neg ha] at hs
    -- What follows `a`, which is output before it.
    have hrest {before : Str} (hs : normalizeAdr008From true false rest = before ++ c :: after) :
        c = space ∧ (∃ d, after.head? = some d ∧ isAdr008Whitespace d = false) ∧
          ∀ b ∈ (a :: before).getLast?, isAdr008Whitespace b = false := by
      obtain ⟨hspace, hafter, _, hbefore⟩ := ih (fun _ => rfl) hs
      refine ⟨hspace, hafter, fun b hb => ?_⟩
      cases before with
      | nil =>
        obtain rfl := Option.some.inj hb
        simpa using ha
      | cons x before => exact hbefore b hb
    have hword {before : Str} (hs : a :: normalizeAdr008From true false rest = before ++ c :: after) :
        c = space ∧ (∃ d, after.head? = some d ∧ isAdr008Whitespace d = false) ∧ before ≠ [] ∧
          ∀ b ∈ before.getLast?, isAdr008Whitespace b = false := by
      cases before with
      | nil =>
        obtain ⟨rfl, _⟩ := List.cons.inj hs
        exact absurd hc ha
      | cons x before =>
        obtain ⟨rfl, hs'⟩ := List.cons.inj hs
        obtain ⟨hspace, hafter, hbefore⟩ := hrest hs'
        exact ⟨hspace, hafter, List.cons_ne_nil _ _, hbefore⟩
    cases pending with
    | false =>
      obtain ⟨hspace, hafter, hne, hbefore⟩ := hword hs
      exact ⟨hspace, hafter, fun he => absurd he hne, hbefore⟩
    | true =>
      rw [if_pos rfl] at hs
      cases before with
      | nil =>
        obtain ⟨rfl, rfl⟩ := List.cons.inj hs
        exact ⟨rfl, ⟨a, rfl, by simpa using ha⟩, fun _ => h rfl, by simp⟩
      | cons x before =>
        obtain ⟨_, hs'⟩ := List.cons.inj hs
        obtain ⟨hspace, hafter, hne, hbefore⟩ := hword hs'
        refine ⟨hspace, hafter, fun he => absurd he (List.cons_ne_nil _ _), fun b hb => hbefore b ?_⟩
        rw [← List.getLast?_append_of_ne_nil [x] hne]
        exact hb

theorem normalizeAdr008Whitespace_spaced (s : Str) : SingleSpaced (normalizeAdr008Whitespace s) := by
  intro before c after hs hc
  obtain ⟨hspace, hafter, hne, hbefore⟩ := normalizeAdr008From_spaced (fun h => h) hs hc
  refine ⟨hspace, ?_, hafter⟩
  cases hlast : before.getLast? with
  | none => cases hne (List.getLast?_eq_none_iff.mp hlast)
  | some b => exact ⟨b, rfl, hbefore b hlast⟩

/-- What has been collapsed goes through the loop unchanged. -/
theorem normalizeAdr008From_started (pending : Bool) (s : Str) :
    normalizeAdr008From true false (normalizeAdr008From true pending s) =
      normalizeAdr008From true pending s := by
  have hspace : isAdr008Whitespace space = true := rfl
  induction s generalizing pending with
  | nil => rfl
  | cons c rest ih =>
    rw [normalizeAdr008From]
    split
    · exact ih _
    · rename_i hc
      split
      · rw [normalizeAdr008From, if_pos hspace, normalizeAdr008From, if_neg hc, Bool.or_true, if_pos rfl, ih]
      · rw [normalizeAdr008From, if_neg hc, if_neg Bool.false_ne_true, ih]

theorem normalizeAdr008Whitespace_idempotent (s : Str) :
    normalizeAdr008Whitespace (normalizeAdr008Whitespace s) = normalizeAdr008Whitespace s := by
  unfold normalizeAdr008Whitespace
  induction s with
  | nil => rfl
  | cons c rest ih =>
    rw [normalizeAdr008From]
    split
    · exact ih
    · rename_i hc
      rw [if_neg Bool.false_ne_true, normalizeAdr008From, if_neg hc, if_neg Bool.false_ne_true,
        normalizeAdr008From_started]

/-- The loop, once something has been output. -/
theorem normalizeAdr008From_words {s first : Str} {others : List Str}
    (hs : s.splitOnP isAdr008Whitespace = first :: others) :
    normalizeAdr008From true true s = (if adrWords s = [] then [] else space :: collapse s) ∧
    normalizeAdr008From true false s = first ++
      if others.filter (fun word => !word.isEmpty) = [] then []
      else space :: [space].intercalate (others.filter fun word => !word.isEmpty) := by
  induction s generalizing first others with
  | nil =>
    obtain ⟨rfl, rfl⟩ := List.cons.inj hs
    exact ⟨rfl, rfl⟩
  | cons c rest ih =>
    obtain ⟨word, words, hrest⟩ := List.exists_cons_of_ne_nil (List.splitOnP_ne_nil isAdr008Whitespace rest)
    obtain ⟨hpending, hjoined⟩ := ih hrest
    rw [List.splitOnP_cons_eq_if_modifyHead, hrest] at hs
    have hwords : adrWords (c :: rest) = (first :: others).filter fun word => !word.isEmpty := by
      rw [adrWords, List.splitOnP_cons_eq_if_modifyHead, hrest, hs]
    by_cases hc : isAdr008Whitespace c = true
    · rw [if_pos hc] at hs
      obtain ⟨rfl, rfl⟩ := List.cons.inj hs
      have hsame : adrWords (c :: rest) = adrWords rest := by
        rw [hwords, adrWords, hrest]
        rfl
      rw [collapse, hsame, normalizeAdr008From, normalizeAdr008From, if_pos hc, if_pos hc, Bool.or_true,
        Bool.or_true, hpending, ← hrest]
      exact ⟨rfl, rfl⟩
    · rw [if_neg hc] at hs
      obtain ⟨rfl, rfl⟩ := List.cons.inj hs
      have hsame : adrWords (c :: rest) = (c :: word) :: words.filter fun word => !word.isEmpty := by
        rw [hwords]
        rfl
      rw [collapse, hsame, if_neg (List.cons_ne_nil _ _), normalizeAdr008From, normalizeAdr008From, if_neg hc,
        if_neg hc, if_pos rfl, if_neg Bool.false_ne_true, hjoined, intercalate_cons]
      exact ⟨rfl, rfl⟩

theorem normalizeAdr008Whitespace_eq (s : Str) : normalizeAdr008Whitespace s = collapse s := by
  unfold normalizeAdr008Whitespace
  induction s with
  | nil => rfl
  | cons c rest ih =>
    obtain ⟨word, words, hrest⟩ := List.exists_cons_of_ne_nil (List.splitOnP_ne_nil isAdr008Whitespace rest)
    rw [normalizeAdr008From, collapse, adrWords, List.splitOnP_cons_eq_if_modifyHead]
    split
    · exact ih
    · rw [if_neg Bool.false_ne_true, (normalizeAdr008From_words hrest).2, hrest, List.modifyHead_cons,
        List.filter_cons_of_pos rfl, intercalate_cons]
      rfl

end Words

section Requests
variable {nfc : Nfc}

/-- What is relied on besides: a text in normal form stays so when its whitespace is collapsed, and
no U+0000 comes up. -/
structure Nfc.Documented (nfc : Nfc) : Prop where
  collapse : ∀ s, nfc.normalize s = s → nfc.normalize (collapse s) = collapse s
  nul : ∀ s, (∀ c ∈ s, c.val ≠ 0) → ∀ c ∈ nfc.normalize s, c.val ≠ 0

/-- When the fields are accepted, and as what. -/
theorem parseFields_eq_ok {query : Str} {requestedCount : Int} {request : RetrievalRequest} :
    parseFields nfc query requestedCount = .ok request ↔
      (minRequestedCount ≤ requestedCount ∧ requestedCount ≤ maxRequestedCount) ∧
      query.any isSurrogate = false ∧ (∀ c ∈ query, c.val ≠ 0) ∧
      request.normalizedQuery = normalizeAdr008Whitespace (nfc.normalize query) ∧
      (request.requestedCount : Int) = requestedCount ∧
      ∃ bytes, encodeUtf8 request.normalizedQuery = some bytes ∧ minQueryUtf8Bytes ≤ bytes.length ∧
        bytes.length ≤ maxQueryUtf8Bytes := by
  have hdomain : validateQueryScalarDomain query = .ok () ↔ query.any isSurrogate = false := by
    unfold validateQueryScalarDomain encodeUtf8
    cases query.any isSurrogate <;> simp
  have hnul : (query.any fun c => c.val == 0) = false ↔ ∀ c ∈ query, c.val ≠ 0 := by simp
  unfold parseFields
  constructor
  · intro h
    split at h
    · rename_i hcount
      split at h
      · cases h
      rename_i hquery
      split at h
      · cases h
      rename_i hzero
      dsimp only at h
      split at h
      · split at h
        · cases h
        rename_i bytes hbytes
        split at h
        · rename_i hlength
          obtain rfl := Except.ok.inj h
          refine ⟨hcount, hdomain.mp hquery, hnul.mp (Bool.eq_false_iff.mpr hzero), rfl, ?_, bytes, hbytes, hlength⟩
          simp only [minRequestedCount] at hcount
          exact Int.toNat_of_nonneg (by omega)
        · cases h
      · cases h
    · cases h
  · rintro ⟨hcount, hquery, hzero, hnormalized, hsame, bytes, hbytes, hlength⟩
    have hscalars := And.intro request.scalars_pos request.scalars_le
    rw [hnormalized] at hscalars hbytes
    rw [dif_pos hcount, hdomain.mpr hquery]
    dsimp only
    rw [if_neg (by rw [hnul.mpr hzero]; exact Bool.false_ne_true), dif_pos hscalars]
    split
    · rename_i hnone
      rw [hbytes] at hnone
      cases hnone
    · rename_i bytes' hsome
      obtain rfl := Option.some.inj (hbytes.symm.trans hsome)
      rw [if_pos hlength]
      obtain ⟨_, _, _, _, _, _⟩ := request
      dsimp only at hnormalized hsame
      subst hnormalized
      congr 2
      omega

theorem parseRetrievalRequest_fields {payload : Payload} {request : RetrievalRequest}
    (h : parseRetrievalRequest nfc payload = .ok request) :
    ∃ query requestedCount, payloadQuery payload = some query ∧
      parseFields nfc query requestedCount = .ok request := by
  unfold parseRetrievalRequest at h
  split at h
  · cases h
  rename_i items
  split at h
  · cases h
  rename_i fields hfields
  dsimp only at h
  split at h
  · cases h
  split at h
  · rename_i query requestedCount hquery _
    refine ⟨query, requestedCount, ?_, h⟩
    simp only [payloadQuery, Option.bind_some, hfields, hquery]
  · cases h

/-- The payload that says what a request says. -/
def RetrievalRequest.payload (request : RetrievalRequest) : Payload :=
  some [(.str queryField, .str request.normalizedQuery),
    (.str requestedCountField, .int request.requestedCount)]

theorem parseRetrievalRequest_payload (request : RetrievalRequest) :
    parseRetrievalRequest nfc request.payload =
      parseFields nfc request.normalizedQuery request.requestedCount := by
  have hkeys : ¬(¬[queryField, requestedCountField].Nodup ∨
      queryField ∉ [queryField, requestedCountField] ∨
      ¬[queryField, requestedCountField] ⊆ allowedFields) := by decide
  unfold parseRetrievalRequest RetrievalRequest.payload
  exact if_neg hkeys

/-- An accepted query is in canonical form: parsed again it is itself, and it is the words of the
query's normal form with one space between them. -/
theorem parseRetrievalRequest_canonical (nfc : Nfc) (hnfc : nfc.Documented) {payload : Payload}
    {request : RetrievalRequest} (h : parseRetrievalRequest nfc payload = .ok request) :
    parseRetrievalRequest nfc request.payload = .ok request ∧
    (∀ c ∈ request.normalizedQuery, c.val ≠ 0 ∧ isSurrogate c = false) ∧
    SingleSpaced request.normalizedQuery ∧
    (∃ query, payloadQuery payload = some query ∧
      request.normalizedQuery.filter (fun c => !isAdr008Whitespace c) =
        (nfc.normalize query).filter (fun c => !isAdr008Whitespace c) ∧
      joinedCharacters false request.normalizedQuery = joinedCharacters false (nfc.normalize query)) ∧
    (1 ≤ request.normalizedQuery.length ∧ request.normalizedQuery.length ≤ 2048) ∧
    ∃ bytes, encodeUtf8 request.normalizedQuery = some bytes ∧ 1 ≤ bytes.length ∧ bytes.length ≤ 4096 := by
  obtain ⟨query, requestedCount, hquery, hfields⟩ := parseRetrievalRequest_fields h
  obtain ⟨hcount, hscalar, hnul, hnormalized, hsame, hbytes⟩ := parseFields_eq_ok.mp hfields
  have hclean : ∀ c ∈ request.normalizedQuery, c.val ≠ 0 ∧ isSurrogate c = false := by
    intro c hc
    rw [hnormalized] at hc
    rcases mem_normalizeAdr008From hc with rfl | hc
    · exact ⟨by decide, by decide⟩
    · exact ⟨hnfc.nul query hnul c hc, by simpa using List.any_eq_false.mp (nfc.scalar query hscalar) c hc⟩
  have hfixed : nfc.normalize request.normalizedQuery = request.normalizedQuery := by
    rw [hnormalized, normalizeAdr008Whitespace_eq]
    exact hnfc.collapse _ (nfc.idempotent query)
  have hjoined : joinedCharacters false request.normalizedQuery =
      joinedCharacters false (nfc.normalize query) := by
    rw [hnormalized]
    exact joinedCharacters_normalize (fun hp => hp) _
  refine ⟨?_, hclean, ?_, ⟨query, hquery, ?_, hjoined⟩, ⟨request.scalars_pos, request.scalars_le⟩, hbytes⟩
  · rw [parseRetrievalRequest_payload, parseFields_eq_ok]
    refine ⟨by rwa [hsame], ?_, fun c hc => (hclean c hc).1, ?_, rfl, hbytes⟩
    · rw [List.any_eq_false]
      intro c hc
      rw [(hclean c hc).2]
      exact Bool.false_ne_true
    · rw [hfixed, hnormalized, normalizeAdr008Whitespace_idempotent]
  · rw [hnormalized]
    exact normalizeAdr008Whitespace_spaced _
  · rw [← map_fst_joinedCharacters false, ← map_fst_joinedCharacters false, hjoined]

theorem exampleNfc_documented : exampleNfc.Documented := ⟨fun _ _ => rfl, fun _ h => h⟩

/-- Two words with a tab before them and an ideographic space and a newline between them. -/
private def spacedPayload : Payload :=
  some [(.str queryField, .str (str "\ta\u3000\nb"))]

theorem parseRetrievalRequest_canonical_example :
    ∃ request, parseRetrievalRequest exampleNfc spacedPayload = .ok request ∧
      request.normalizedQuery = str "a b" ∧
      parseRetrievalRequest exampleNfc request.payload = .ok request := by
  have hsome : (parseRetrievalRequest exampleNfc spacedPayload).toOption.any fun request =>
      request.normalizedQuery = str "a b" := by decide +kernel
  obtain ⟨request, hrequest, hquery⟩ := Option.any_eq_true _ _ |>.mp hsome
  have hparsed := toOption_eq_some.mp hrequest
  exact ⟨request, hparsed, by simpa using hquery,
    (parseRetrievalRequest_canonical exampleNfc exampleNfc_documented hparsed).1⟩

end Requests
end AgenticRag.Retrieval

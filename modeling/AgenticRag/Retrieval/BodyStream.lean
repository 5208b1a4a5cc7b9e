import AgenticRag.Lib.Traced
import AgenticRag.Retrieval.ChromaClosed

/-! Reading a response part by part: the same outcome as decoding its whole body, however
the body is split, and a bound on what is decoded. -/
namespace AgenticRag.Retrieval
open Lib Python

section Parts

/-- Nothing accepted yet. -/
def noParts : AcceptedParts := ⟨[], .ready, .empty⟩

theorem accept_decoded {accepted accepted' : AcceptedParts} {part : List UInt8}
    (h : accepted.accept part = .ok accepted') : accepted'.decoded = accepted.decoded ++ part := by
  unfold AcceptedParts.accept at h
  split at h
  · cases h
  · obtain ⟨scanner, _, h⟩ := bind_eq_ok.mp h
    obtain rfl := Except.ok.inj h
    rfl

/-- Accepting a part in one go is accepting it in two. -/
theorem accept_append {accepted accepted' : AcceptedParts} {a b : List UInt8} :
    accepted.accept (a ++ b) = .ok accepted' ↔
      ∃ between, accepted.accept a = .ok between ∧ between.accept b = .ok accepted' := by
  unfold AcceptedParts.accept
  rw [utf8Feed_append]
  cases ha : utf8Feed accepted.utf8Decoder a with
  | none => simp
  | some r =>
    obtain ⟨text, state⟩ := r
    dsimp only [Option.bind_some]
    cases hb : utf8Feed state b with
    | none =>
      refine iff_of_false (fun h => by cases h) ?_
      rintro ⟨between, hbetween, h⟩
      obtain ⟨scanner, _, hbetween⟩ := bind_eq_ok.mp hbetween
      obtain rfl := Except.ok.inj hbetween
      dsimp only at h
      rw [hb] at h
      cases h
    | some q =>
      obtain ⟨more, state'⟩ := q
      dsimp only [Option.map_some]
      rw [JsonDepthScanner.feed, List.foldlM_append]
      constructor
      · intro h
        obtain ⟨scanner', hfeed, h⟩ := bind_eq_ok.mp h
        obtain ⟨scanner, hscanner, hfeed⟩ := bind_eq_ok.mp hfeed
        refine ⟨_, bind_eq_ok.mpr ⟨scanner, hscanner, rfl⟩, ?_⟩
        dsimp only
        rw [hb]
        refine bind_eq_ok.mpr ⟨scanner', hfeed, ?_⟩
        rw [← h, List.append_assoc]
      · rintro ⟨between, hbetween, h⟩
        obtain ⟨scanner, hscanner, hbetween⟩ := bind_eq_ok.mp hbetween
        obtain rfl := Except.ok.inj hbetween
        dsimp only at h
        rw [hb] at h
        obtain ⟨scanner', hfeed, h⟩ := bind_eq_ok.mp h
        refine bind_eq_ok.mpr ⟨scanner', bind_eq_ok.mpr ⟨scanner, hscanner, hfeed⟩, ?_⟩
        rw [← h, List.append_assoc]

theorem accept_nil (accepted : AcceptedParts) : accepted.accept [] = .ok accepted := by
  unfold AcceptedParts.accept
  rw [utf8Feed]
  refine bind_eq_ok.mpr ⟨accepted.depthScanner, rfl, ?_⟩
  rw [List.append_nil]

/-- The incremental decoder and scanner find nothing wrong with the body. -/
def PassesScan (decoded : List UInt8) : Prop :=
  ∃ accepted, noParts.accept decoded = .ok accepted ∧ finishUtf8 accepted = .ok () ∧
    accepted.depthScanner.finish = .ok ()

/-- The plain path accepts no more than the incremental one. -/
theorem passesScan_of_strictJson {decoded : List UInt8} {value : Json}
    (h : strictJson decoded = .ok value) : PassesScan decoded := by
  unfold strictJson at h
  split at h
  · cases h
  have h := rescue_eq_ok.mp h
  cases htext : decodeUtf8 decoded with
  | none =>
    rw [htext] at h
    cases h
  | some text =>
    rw [htext] at h
    obtain ⟨_, hdepth, _⟩ := bind_eq_ok.mp h
    obtain ⟨scanner, hfeed, hfinish⟩ := bind_eq_ok.mp hdepth
    have hutf8 : utf8Feed .ready decoded = some (text, .ready) := by
      unfold decodeUtf8 at htext
      split at htext
      · rename_i hfed
        obtain rfl := Option.some.inj htext
        exact hfed
      · cases htext
    refine ⟨⟨decoded, .ready, scanner⟩, ?_, rfl, hfinish⟩
    unfold AcceptedParts.accept noParts
    dsimp only
    rw [hutf8]
    exact bind_eq_ok.mpr ⟨scanner, hfeed, rfl⟩

end Parts

section Decompressor
variable {σ : Type}

/-- The state of a decompressor that was given `wire` in some parts, has returned `decoded`
altogether, and was allowed `cap` bytes and did not use them up. -/
inductive Fed (z : Zlib σ) (cap : Nat) : σ → List UInt8 → List UInt8 → Prop where
  | fresh : 0 < cap → Fed z cap z.decompressobj [] []
  | call {s s' : σ} {wire decoded part out : List UInt8} : Fed z cap s wire decoded →
    z.decompress s part (cap - decoded.length) = some (out, s') → (decoded ++ out).length < cap →
    Fed z cap s' (wire ++ part) (decoded ++ out)

/-- What is documented of a decompressor. -/
structure Documented (z : Zlib σ) : Prop where
  /-- A call returns no more than its limit. -/
  within : ∀ {s s' : σ} {part out : List UInt8} {limit : Nat}, 0 < limit →
    z.decompress s part limit = some (out, s') → out.length ≤ limit
  /-- Input is left unconsumed only because of the limit. -/
  settled : ∀ {s s' : σ} {part out : List UInt8} {limit : Nat},
    z.decompress s part limit = some (out, s') → out.length < limit → z.unconsumedTail s' = []
  /-- Output and leftovers depend on the concatenated input and the cap only. -/
  joined : ∀ {cap : Nat} {s s' : σ} {wire decoded part out : List UInt8}, Fed z cap s wire decoded →
    z.decompress s part (cap - decoded.length) = some (out, s') →
    ∃ t, z.decompress z.decompressobj (wire ++ part) cap = some (decoded ++ out, t) ∧
      ((decoded ++ out).length < cap → z.eof t = z.eof s' ∧ z.unusedData t = z.unusedData s')
  /-- So does the error. -/
  joined_error : ∀ {cap : Nat} {s : σ} {wire decoded part : List UInt8}, Fed z cap s wire decoded →
    z.decompress s part (cap - decoded.length) = none →
    z.decompress z.decompressobj (wire ++ part) cap = none
  /-- The input is read in order. -/
  ordered : ∀ {cap : Nat} {t : σ} {wire more decoded : List UInt8},
    z.decompress z.decompressobj (wire ++ more) cap = some (decoded, t) →
    ∃ first s, z.decompress z.decompressobj wire cap = some (first, s) ∧ first <+: decoded
  /-- Nothing is pending once a call has returned less than its limit. -/
  flushed : ∀ {cap limit : Nat} {s : σ} {wire decoded : List UInt8}, Fed z cap s wire decoded →
    0 < limit → ∃ s', z.flush s limit = some ([], s') ∧ z.eof s' = z.eof s ∧
      z.unusedData s' = z.unusedData s
  /-- A stream of no bytes has not ended. -/
  eof_fresh : z.eof z.decompressobj = false
  eof_nil : ∀ {cap : Nat} {s : σ} {decoded : List UInt8},
    z.decompress z.decompressobj [] cap = some (decoded, s) → z.eof s = false

variable {z : Zlib σ} {cap : Nat} {s : σ} {wire decoded : List UInt8}

theorem Fed.length_lt (h : Fed z cap s wire decoded) : decoded.length < cap := by
  cases h with
  | fresh hcap => exact hcap
  | call _ _ hlt => exact hlt

/-- The end of the stream and what follows it are seen as in one call. -/
theorem Fed.whole (hz : Documented z) (h : Fed z cap s wire decoded) :
    z.eof s = true ∧ z.unusedData s = [] ↔ ∃ t, z.decompress z.decompressobj wire cap = some (decoded, t) ∧
      z.eof t = true ∧ z.unusedData t = [] := by
  cases h with
  | fresh _ =>
    refine iff_of_false (fun h => ?_) ?_
    · rw [hz.eof_fresh] at h
      cases h.1
    · rintro ⟨t, ht, heof, _⟩
      rw [hz.eof_nil ht] at heof
      cases heof
  | call hfed hout hlt =>
    obtain ⟨t, ht, hsame⟩ := hz.joined hfed hout
    obtain ⟨heof, hunused⟩ := hsame hlt
    rw [← heof, ← hunused]
    refine ⟨fun h => ⟨t, ht, h⟩, ?_⟩
    rintro ⟨t', ht', h⟩
    rw [ht] at ht'
    obtain ⟨_, rfl⟩ := Prod.mk.inj (Option.some.inj ht')
    exact h

end Decompressor

section Inflate
variable {σ : Type} {z : Zlib σ}

/-- The variables of the inner loop. -/
structure InflateLoop (σ : Type) where
  decompressor : σ
  accepted : AcceptedParts
  decodedCount : Nat
  compressedPart : List UInt8

/-- The inner loop from these values on. -/
def InflateLoop.run (z : Zlib σ) (loop : InflateLoop σ) :
    Except RetrievalException (σ × AcceptedParts × Nat) :=
  inflatePart z loop.decompressor loop.accepted loop.decodedCount loop.compressedPart

/-- One turn of the inner loop that is followed by another test of its condition. -/
inductive InflateTurn (z : Zlib σ) : InflateLoop σ → InflateLoop σ → Prop where
  | turn {s s' : σ} {accepted accepted' : AcceptedParts} {decodedCount : Nat}
      {compressedPart decodedPart : List UInt8} : compressedPart ≠ [] →
    z.decompress s compressedPart (maxProviderDecodedBytes - decodedCount + 1) = some (decodedPart, s') →
    ¬decodedPart.length > maxProviderDecodedBytes - decodedCount →
    accepted.accept decodedPart = .ok accepted' →
    ¬(z.unconsumedTail s' = compressedPart ∧ decodedPart = []) →
    InflateTurn z ⟨s, accepted, decodedCount, compressedPart⟩
      ⟨s', accepted', decodedCount + decodedPart.length, z.unconsumedTail s'⟩

/-- A turn produces output within the budget, or consumes input. -/
theorem inflate_decreases {s s' : σ} {decodedCount : Nat} {compressedPart decodedPart : List UInt8}
    (hout : z.decompress s compressedPart (maxProviderDecodedBytes - decodedCount + 1) =
      some (decodedPart, s'))
    (hlen : ¬decodedPart.length > maxProviderDecodedBytes - decodedCount)
    (hstall : ¬(z.unconsumedTail s' = compressedPart ∧ decodedPart = [])) :
    Prod.Lex (· < ·) (· < ·)
      (maxProviderDecodedBytes - (decodedCount + decodedPart.length), (z.unconsumedTail s').length)
      (maxProviderDecodedBytes - decodedCount, compressedPart.length) := by
  have hsuffix := z.tail_suffix _ _ _ _ _ hout
  have hle := hsuffix.length_le
  by_cases hempty : decodedPart = []
  · subst hempty
    have hne : z.unconsumedTail s' ≠ compressedPart := fun he => hstall ⟨he, rfl⟩
    have hlt : (z.unconsumedTail s').length < compressedPart.length :=
      lt_of_le_of_ne hle fun he => hne (hsuffix.eq_of_length he)
    exact Prod.Lex.right _ hlt
  · have hpos := List.length_pos_iff.mpr hempty
    apply Prod.Lex.left
    omega

/-- No run of the inner loop goes on forever. -/
theorem inflateTurn_wellFounded : WellFounded (Function.swap (InflateTurn z)) := by
  have hlex : WellFounded (Prod.Lex (α := Nat) (β := Nat) (· < ·) (· < ·)) :=
    (Prod.lex Nat.lt_wfRel Nat.lt_wfRel).wf
  let measure (loop : InflateLoop σ) :=
    (maxProviderDecodedBytes - loop.decodedCount, loop.compressedPart.length)
  refine Subrelation.wf (r := InvImage _ measure) ?_ (InvImage.wf measure hlex)
  rintro _ _ ⟨_, hout, hlen, _, hstall⟩
  exact inflate_decreases hout hlen hstall

/-- The loop goes on as from the state after the turn. -/
theorem InflateTurn.run_eq {loop loop' : InflateLoop σ} (h : InflateTurn z loop loop') :
    loop.run z = loop'.run z := by
  obtain ⟨hpart, hout, hlen, haccept, hstall⟩ := h
  unfold InflateLoop.run
  rw [inflatePart]
  dsimp only
  rw [if_neg hpart]
  split
  · rename_i h
    rw [hout] at h
    cases h
  · rename_i h
    rw [hout] at h
    obtain ⟨rfl, rfl⟩ := Prod.mk.inj (Option.some.inj h)
    rw [dif_neg hlen, haccept]
    dsimp only
    rw [dif_neg hstall]

end Inflate

section Traced
variable {σ : Type} (z : Zlib σ)

set_option linter.unusedVariables false in
/-- The inner loop, with the decoded parts that it is given. -/
def inflatePartTraced (s : σ) (accepted : AcceptedParts) (decodedCount : Nat)
    (compressedPart : List UInt8) :
    Traced RetrievalException (List UInt8) (σ × AcceptedParts × Nat) :=
  if compressedPart = [] then .lift (.ok (s, accepted, decodedCount))
  else
    let remaining := maxProviderDecodedBytes - decodedCount
    match hout : z.decompress s compressedPart (remaining + 1) with
    | none => .lift (.error .zlib)
    | some (decodedPart, s') =>
      if hlen : decodedPart.length > remaining then .call decodedPart (.error .denseProvider)
      else match accepted.accept decodedPart with
        | .error e => .call decodedPart (.error e)
        | .ok accepted' =>
          let nextPart := z.unconsumedTail s'
          if hstall : nextPart = compressedPart ∧ decodedPart = [] then
            .call decodedPart (.error .denseProvider)
          else
            let rest := inflatePartTraced s' accepted' (decodedCount + decodedPart.length) nextPart
            ⟨decodedPart :: rest.calls, rest.outcome⟩
termination_by (maxProviderDecodedBytes - decodedCount, compressedPart.length)
decreasing_by exact inflate_decreases hout hlen hstall

/-- One turn of the loop over the raw parts, with the decoded parts. -/
def readRawPartTraced (reader : BodyReader σ) (rawPart : List UInt8) :
    Traced RetrievalException (List UInt8) (BodyReader σ) :=
  let wireCount := reader.wireCount + rawPart.length
  if wireCount > maxProviderWireBytes then .lift (.error .denseProvider)
  else match reader.decompressor with
    | none =>
      let decodedCount := reader.decodedCount + rawPart.length
      .call rawPart <|
        if decodedCount > maxProviderDecodedBytes then .error .denseProvider
        else do
          let accepted ← reader.accepted.accept rawPart
          .ok ⟨wireCount, decodedCount, none, accepted⟩
    | some s => do
      let r ← inflatePartTraced z s reader.accepted reader.decodedCount rawPart
      pure ⟨wireCount, r.2.2, some r.1, r.2.1⟩

/-- What follows the loop for a decompressor, with the decoded part. -/
def flushBodyTraced (reader : BodyReader σ) : Traced RetrievalException (List UInt8) AcceptedParts :=
  match reader.decompressor with
  | none => .lift (.ok reader.accepted)
  | some s =>
    let remaining := maxProviderDecodedBytes - reader.decodedCount
    match z.flush s (remaining + 1) with
    | none => .lift (.error .zlib)
    | some (decodedPart, s) => .call decodedPart <|
      if decodedPart.length > remaining then .error .denseProvider
      else if !z.eof s || z.unusedData s != [] then .error .denseProvider
      else reader.accepted.accept decodedPart

/-- The `try` block of `_bounded_json_body`, with every decoded part. -/
def readBodyTraced (response : ProviderResponse) (encoding : ContentEncoding) :
    Traced RetrievalException (List UInt8) (List UInt8) := do
  let reader ← response.rawParts.foldlM (readRawPartTraced z) (openReader z encoding)
  if response.broken then .lift (.error .http)
  else do
    let accepted ← flushBodyTraced z reader
    .lift do
      finishUtf8 accepted
      accepted.depthScanner.finish
      .ok accepted.decoded

variable {z}

section Turns
variable {s s' : σ} {accepted accepted' : AcceptedParts} {count : Nat} {part out : List UInt8}

theorem inflatePartTraced_error (hpart : part ≠ [])
    (hout : z.decompress s part (maxProviderDecodedBytes - count + 1) = none) :
    inflatePartTraced z s accepted count part = .lift (.error .zlib) := by
  rw [inflatePartTraced, if_neg hpart]
  dsimp only
  split
  · rfl
  · rename_i h
    rw [hout] at h
    cases h

theorem inflatePartTraced_some (hpart : part ≠ [])
    (hout : z.decompress s part (maxProviderDecodedBytes - count + 1) = some (out, s')) :
    inflatePartTraced z s accepted count part =
      if out.length > maxProviderDecodedBytes - count then .call out (.error .denseProvider)
      else match accepted.accept out with
        | .error e => .call out (.error e)
        | .ok accepted' =>
          if z.unconsumedTail s' = part ∧ out = [] then .call out (.error .denseProvider)
          else
            let rest := inflatePartTraced z s' accepted' (count + out.length) (z.unconsumedTail s')
            ⟨out :: rest.calls, rest.outcome⟩ := by
  rw [inflatePartTraced, if_neg hpart]
  dsimp only
  split
  · rename_i h
    rw [hout] at h
    cases h
  · rename_i h
    rw [hout] at h
    obtain ⟨rfl, rfl⟩ := Prod.mk.inj (Option.some.inj h)
    simp only [dite_eq_ite]

end Turns

theorem outcome_inflatePartTraced (s : σ) (accepted : AcceptedParts) (count : Nat) (part : List UInt8) :
    (inflatePartTraced z s accepted count part).outcome = inflatePart z s accepted count part := by
  fun_induction inflatePart z s accepted count part with
  | case1 =>
    rw [inflatePartTraced, if_pos rfl]
    rfl
  | case2 s accepted count part hpart remaining hout =>
    rw [inflatePartTraced_error hpart hout]
    rfl
  | case3 s accepted count part hpart remaining out s' hout hlen =>
    rw [inflatePartTraced_some hpart hout, if_pos hlen]
    rfl
  | case4 s accepted count part hpart remaining out s' hout hlen e he =>
    rw [inflatePartTraced_some hpart hout, if_neg hlen, he]
    rfl
  | case5 s accepted count part hpart remaining out s' hout hlen accepted' haccept nextPart hstall =>
    rw [inflatePartTraced_some hpart hout, if_neg hlen, haccept]
    dsimp only
    rw [if_pos hstall]
    rfl
  | case6 s accepted count part hpart remaining out s' hout hlen accepted' haccept nextPart hstall ih =>
    rw [inflatePartTraced_some hpart hout, if_neg hlen, haccept]
    dsimp only
    rw [if_neg hstall]
    exact ih

theorem outcome_readRawPartTraced (reader : BodyReader σ) (rawPart : List UInt8) :
    (readRawPartTraced z reader rawPart).outcome = readRawPart z reader rawPart := by
  unfold readRawPartTraced readRawPart
  dsimp only
  split
  · rfl
  · cases reader.decompressor with
    | none => rfl
    | some s =>
      dsimp only
      rw [Traced.outcome_bind, outcome_inflatePartTraced]
      rfl

theorem outcome_flushBodyTraced (reader : BodyReader σ) :
    (flushBodyTraced z reader).outcome = flushBody z reader := by
  unfold flushBodyTraced flushBody
  cases reader.decompressor with
  | none => rfl
  | some s =>
    dsimp only
    cases z.flush s (maxProviderDecodedBytes - reader.decodedCount + 1) <;> rfl

/-- Keeping the decoded parts changes nothing. -/
theorem outcome_readBodyTraced (response : ProviderResponse) (encoding : ContentEncoding) :
    (readBodyTraced z response encoding).outcome = readBody z response encoding := by
  unfold readBodyTraced readBody
  rw [Traced.outcome_bind, Traced.outcome_foldlM]
  simp only [outcome_readRawPartTraced]
  refine congrArg _ (funext fun reader => ?_)
  cases response.broken with
  | true => rfl
  | false =>
    change (flushBodyTraced z reader >>= _).outcome = _
    rw [Traced.outcome_bind, outcome_flushBodyTraced]
    rfl

end Traced

section Run
variable {σ : Type} {z : Zlib σ} {encoding : ContentEncoding} {reader : BodyReader σ}
  {wire decoded : List UInt8}

/-- The bytes decode, within the limits, to what is given; a stream need not be complete. -/
inductive Decodes (z : Zlib σ) : ContentEncoding → List UInt8 → List UInt8 → Prop where
  | identity {wire : List UInt8} : wire.length ≤ maxProviderWireBytes → Decodes z .identity wire wire
  | gzip {wire decoded : List UInt8} {s : σ} : wire.length ≤ maxProviderWireBytes →
    z.decompress z.decompressobj wire (maxProviderDecodedBytes + 1) = some (decoded, s) →
    decoded.length ≤ maxProviderDecodedBytes → Decodes z .gzip wire decoded

/-- The bytes are a whole body within the limits: as they are, or as one complete gzip member
that nothing follows. -/
inductive Carries (z : Zlib σ) : ContentEncoding → List UInt8 → List UInt8 → Prop where
  | identity {wire : List UInt8} : wire.length ≤ maxProviderWireBytes → Carries z .identity wire wire
  | gzip {wire decoded : List UInt8} {s : σ} : wire.length ≤ maxProviderWireBytes →
    z.decompress z.decompressobj wire (maxProviderDecodedBytes + 1) = some (decoded, s) →
    decoded.length ≤ maxProviderDecodedBytes → z.eof s = true → z.unusedData s = [] →
    Carries z .gzip wire decoded

theorem Carries.decodes (h : Carries z encoding wire decoded) : Decodes z encoding wire decoded := by
  cases h with
  | identity hwire => exact .identity hwire
  | gzip hwire hout hlen _ _ => exact .gzip hwire hout hlen

theorem Decodes.of_append (hz : Documented z) {more : List UInt8}
    (h : Decodes z encoding (wire ++ more) decoded) :
    ∃ first, Decodes z encoding wire first ∧ first <+: decoded := by
  cases h with
  | identity hwire =>
    rw [List.length_append] at hwire
    exact ⟨wire, .identity (by omega), List.prefix_append _ _⟩
  | gzip hwire hout hlen =>
    rw [List.length_append] at hwire
    obtain ⟨first, s, hfirst, hbegins⟩ := hz.ordered hout
    exact ⟨first, .gzip (by omega) hfirst (hbegins.length_le.trans hlen), hbegins⟩

/-- Where the loop over the raw parts is once it has read `wire` and decoded `decoded`. -/
inductive HasRead (z : Zlib σ) : ContentEncoding → BodyReader σ → List UInt8 → List UInt8 → Prop where
  | identity {wire : List UInt8} {accepted : AcceptedParts} : wire.length ≤ maxProviderWireBytes →
    noParts.accept wire = .ok accepted →
    HasRead z .identity ⟨wire.length, wire.length, none, accepted⟩ wire wire
  | gzip {wire decoded : List UInt8} {s : σ} {accepted : AcceptedParts} :
    wire.length ≤ maxProviderWireBytes → Fed z (maxProviderDecodedBytes + 1) s wire decoded →
    noParts.accept decoded = .ok accepted →
    HasRead z .gzip ⟨wire.length, decoded.length, some s, accepted⟩ wire decoded

theorem hasRead_open (z : Zlib σ) (encoding : ContentEncoding) :
    HasRead z encoding (openReader z encoding) [] [] := by
  cases encoding with
  | identity => exact .identity (Nat.zero_le _) (accept_nil _)
  | gzip => exact .gzip (Nat.zero_le _) (.fresh (Nat.succ_pos _)) (accept_nil _)

theorem HasRead.accepts (h : HasRead z encoding reader wire decoded) :
    noParts.accept decoded = .ok reader.accepted := by
  cases h with
  | identity _ haccept => exact haccept
  | gzip _ _ haccept => exact haccept

theorem HasRead.length_le (h : HasRead z encoding reader wire decoded) :
    decoded.length ≤ maxProviderDecodedBytes := by
  cases h with
  | identity hwire _ => exact hwire.trans (by decide)
  | gzip _ hfed _ => exact Nat.le_of_lt_succ hfed.length_lt

section Inflate
variable {s s' : σ} {accepted accepted' : AcceptedParts} {count : Nat} {part out : List UInt8}

/-- A part that fits is read in one turn of the inner loop. -/
theorem inflatePartTraced_fits (hz : Documented z) (hpart : part ≠ [])
    (hout : z.decompress s part (maxProviderDecodedBytes - count + 1) = some (out, s'))
    (hlen : out.length ≤ maxProviderDecodedBytes - count) :
    inflatePartTraced z s accepted count part =
      .call out (accepted.accept out >>= fun accepted' => .ok (s', accepted', count + out.length)) := by
  rw [inflatePartTraced_some hpart hout, if_neg (not_lt.mpr hlen)]
  have htail := hz.settled hout (Nat.lt_succ_of_le hlen)
  cases accepted.accept out with
  | error e => rfl
  | ok accepted' =>
    dsimp only
    rw [htail, if_neg fun h => hpart h.1.symm, inflatePartTraced, if_pos rfl]
    rfl

/-- The inner loop returns at most what the budget leaves and one byte, and feeds the whole part. -/
theorem Fed.inflate (hz : Documented z) (hfed : Fed z (maxProviderDecodedBytes + 1) s wire decoded)
    (haccept : noParts.accept decoded = .ok accepted) {run : Traced RetrievalException _ _}
    (hrun : run = inflatePartTraced z s accepted decoded.length part) :
    (decoded ++ run.calls.flatten).length ≤ maxProviderDecodedBytes + 1 ∧
      ∀ r, run.outcome = .ok r →
        Fed z (maxProviderDecodedBytes + 1) r.1 (wire ++ part) (decoded ++ run.calls.flatten) ∧
        noParts.accept (decoded ++ run.calls.flatten) = .ok r.2.1 ∧
        r.2.2 = (decoded ++ run.calls.flatten).length := by
  have hdecoded := hfed.length_lt
  by_cases hpart : part = []
  · subst hpart
    rw [inflatePartTraced, if_pos rfl] at hrun
    subst hrun
    rw [Traced.calls_lift, List.flatten_nil, List.append_nil, List.append_nil]
    refine ⟨hdecoded.le, fun r h => ?_⟩
    obtain rfl := Except.ok.inj h
    exact ⟨hfed, haccept, rfl⟩
  cases hout : z.decompress s part (maxProviderDecodedBytes - decoded.length + 1) with
  | none =>
    rw [inflatePartTraced_error hpart hout] at hrun
    subst hrun
    rw [Traced.calls_lift, List.flatten_nil, List.append_nil]
    exact ⟨hdecoded.le, fun r h => by cases h⟩
  | some r =>
    obtain ⟨out, s'⟩ := r
    have hwithin := hz.within (Nat.succ_pos _) hout
    have hproduced : (decoded ++ out).length ≤ maxProviderDecodedBytes + 1 := by
      rw [List.length_append]
      omega
    by_cases hfits : out.length ≤ maxProviderDecodedBytes - decoded.length
    · rw [inflatePartTraced_fits hz hpart hout hfits] at hrun
      subst hrun
      rw [Traced.calls_call, List.flatten_singleton]
      refine ⟨hproduced, fun r h => ?_⟩
      obtain ⟨accepted', haccept', h⟩ := bind_eq_ok.mp h
      obtain rfl := Except.ok.inj h
      refine ⟨hfed.call ?_ ?_, accept_append.mpr ⟨accepted, haccept, haccept'⟩,
        List.length_append.symm⟩
      · rw [← hout]
        congr 1
        omega
      · rw [List.length_append]
        omega
    · rw [inflatePartTraced_some hpart hout, if_pos (not_le.mp hfits)] at hrun
      subst hrun
      rw [Traced.calls_call, List.flatten_singleton]
      exact ⟨hproduced, fun r h => by cases h⟩

end Inflate

/-- What one raw part decodes to stays within the budget, and the loop is then where it should be. -/
theorem HasRead.step (hz : Documented z) (h : HasRead z encoding reader wire decoded)
    {part : List UInt8} {run : Traced RetrievalException _ _} (hrun : run = readRawPartTraced z reader part) :
    (decoded ++ run.calls.flatten).length ≤ maxProviderDecodedBytes + 1 ∧
      ∀ reader', run.outcome = .ok reader' →
        HasRead z encoding reader' (wire ++ part) (decoded ++ run.calls.flatten) := by
  have hdecoded := h.length_le
  unfold readRawPartTraced at hrun
  dsimp only at hrun
  split at hrun
  · subst hrun
    refine ⟨?_, fun reader' h => by cases h⟩
    rw [Traced.calls_lift, List.flatten_nil, List.append_nil]
    exact hdecoded.trans (Nat.le_succ _)
  rename_i hwire
  cases h with
  | identity _ haccept =>
    have hlen : (wire ++ part).length ≤ maxProviderWireBytes := by
      rw [List.length_append]
      exact not_lt.mp hwire
    subst hrun
    rw [← List.length_append, Traced.calls_call, Traced.outcome_call, List.flatten_singleton]
    refine ⟨hlen.trans (by decide), fun reader' h => ?_⟩
    split at h
    · cases h
    obtain ⟨accepted', haccept', h⟩ := bind_eq_ok.mp h
    obtain rfl := Except.ok.inj h
    exact .identity hlen (accept_append.mpr ⟨_, haccept, haccept'⟩)
  | gzip _ hfed haccept =>
    have hlen : (wire ++ part).length ≤ maxProviderWireBytes := by
      rw [List.length_append]
      exact not_lt.mp hwire
    obtain ⟨hproduced, hnext⟩ := hfed.inflate hz haccept (Eq.refl (inflatePartTraced z _ _ _ part))
    dsimp only at hrun
    rw [← List.length_append] at hrun
    subst hrun
    cases hinner : (inflatePartTraced z _ _ decoded.length part).outcome with
    | error e =>
      rw [Traced.calls_bind_error hinner, Traced.outcome_bind, hinner]
      exact ⟨hproduced, fun reader' h => by cases h⟩
    | ok r =>
      rw [Traced.calls_bind_ok hinner, Traced.outcome_bind, hinner, Traced.calls_pure, List.append_nil]
      refine ⟨hproduced, fun reader' h => ?_⟩
      obtain rfl := Except.ok.inj h
      obtain ⟨hfed', haccept', hcount⟩ := hnext r hinner
      rw [hcount]
      exact .gzip hlen hfed' haccept'

/-- The loop over the raw parts stays within the budget, and reads all of them. -/
theorem HasRead.run (hz : Documented z) {parts : List (List UInt8)} {run : Traced RetrievalException _ _}
    (h : HasRead z encoding reader wire decoded)
    (hrun : run = parts.foldlM (readRawPartTraced z) reader) :
    (decoded ++ run.calls.flatten).length ≤ maxProviderDecodedBytes + 1 ∧
      ∀ reader', run.outcome = .ok reader' →
        HasRead z encoding reader' (wire ++ parts.flatten) (decoded ++ run.calls.flatten) := by
  induction parts generalizing reader wire decoded run with
  | nil =>
    subst hrun
    rw [List.foldlM_nil, Traced.calls_pure, List.flatten_nil, List.append_nil, List.append_nil]
    refine ⟨h.length_le.trans (Nat.le_succ _), fun reader' h' => ?_⟩
    obtain rfl := Except.ok.inj h'
    exact h
  | cons part parts ih =>
    obtain ⟨hproduced, hnext⟩ := h.step hz (Eq.refl (readRawPartTraced z _ part))
    rw [List.foldlM_cons] at hrun
    subst hrun
    cases hstep : (readRawPartTraced z reader part).outcome with
    | error e =>
      rw [Traced.calls_bind_error hstep, Traced.outcome_bind, hstep]
      exact ⟨hproduced, fun reader' h => by cases h⟩
    | ok between =>
      rw [Traced.calls_bind_ok hstep, Traced.outcome_bind, hstep, List.flatten_append,
        ← List.append_assoc, List.flatten_cons, ← List.append_assoc]
      exact ih (hnext between hstep) rfl

/-- A part that decodes, with what came before, to something acceptable is read. -/
theorem HasRead.advance (hz : Documented z) (h : HasRead z encoding reader wire decoded)
    {part next : List UInt8} {accepted : AcceptedParts} (hnext : Decodes z encoding (wire ++ part) next)
    (haccept : noParts.accept next = .ok accepted) : ∃ reader', readRawPart z reader part = .ok reader' := by
  have haccepts := h.accepts
  unfold readRawPart
  dsimp only
  cases h with
  | identity _ _ =>
    cases hnext with
    | identity hwire =>
      obtain ⟨between, hbetween, hpart⟩ := accept_append.mp haccept
      obtain rfl := Except.ok.inj (haccepts.symm.trans hbetween)
      rw [List.length_append] at hwire
      have hdecoded : maxProviderWireBytes ≤ maxProviderDecodedBytes := by decide
      rw [if_neg (not_lt.mpr hwire)]
      dsimp only
      rw [if_neg (not_lt.mpr (hwire.trans hdecoded)), hpart]
      exact ⟨_, rfl⟩
  | @gzip _ _ s _ _ hfed _ =>
    cases hnext with
    | gzip hwire hwhole hlen =>
      rw [List.length_append] at hwire
      rw [if_neg (not_lt.mpr hwire)]
      dsimp only
      rw [← outcome_inflatePartTraced]
      by_cases hpart : part = []
      · rw [inflatePartTraced, if_pos hpart]
        exact ⟨_, rfl⟩
      have hbudget : maxProviderDecodedBytes - decoded.length + 1 =
          maxProviderDecodedBytes + 1 - decoded.length := by
        have := hfed.length_lt
        omega
      cases hout : z.decompress s part (maxProviderDecodedBytes - decoded.length + 1) with
      | none =>
        rw [hbudget] at hout
        rw [hz.joined_error hfed hout] at hwhole
        cases hwhole
      | some r =>
        obtain ⟨out, s'⟩ := r
        obtain ⟨t, ht, _⟩ := hz.joined hfed (hbudget ▸ hout)
        rw [ht] at hwhole
        obtain ⟨rfl, _⟩ := Prod.mk.inj (Option.some.inj hwhole)
        obtain ⟨between, hbetween, hout'⟩ := accept_append.mp haccept
        obtain rfl := Except.ok.inj (haccepts.symm.trans hbetween)
        rw [List.length_append] at hlen
        rw [inflatePartTraced_fits hz hpart hout (by omega), Traced.outcome_call]
        dsimp only at hout'
        rw [hout']
        exact ⟨_, rfl⟩

/-- Bytes that decode to something acceptable are read to their end. -/
theorem HasRead.advances (hz : Documented z) {parts : List (List UInt8)} {whole : List UInt8}
    {accepted : AcceptedParts} (h : HasRead z encoding reader wire decoded)
    (hwhole : Decodes z encoding (wire ++ parts.flatten) whole) (haccept : noParts.accept whole = .ok accepted) :
    ∃ reader', parts.foldlM (readRawPart z) reader = .ok reader' := by
  induction parts generalizing reader wire decoded with
  | nil => exact ⟨reader, rfl⟩
  | cons part parts ih =>
    rw [List.flatten_cons, ← List.append_assoc] at hwhole
    obtain ⟨next, hnext, rest, rfl⟩ := hwhole.of_append hz
    obtain ⟨between, hbetween, _⟩ := accept_append.mp haccept
    obtain ⟨reader', hreader⟩ := h.advance hz hnext hbetween
    obtain ⟨_, hread⟩ := h.step hz (Eq.refl (readRawPartTraced z _ part))
    rw [outcome_readRawPartTraced] at hread
    obtain ⟨last, hlast⟩ := ih (hread reader' hreader) hwhole
    exact ⟨last, by rw [List.foldlM_cons]; exact bind_eq_ok.mpr ⟨reader', hreader, hlast⟩⟩

/-- Nothing more is decoded after the loop, which then has the whole body or not. -/
theorem HasRead.flush (hz : Documented z) (h : HasRead z encoding reader wire decoded) :
    (flushBodyTraced z reader).calls.flatten = [] ∧ ∀ accepted,
      (flushBodyTraced z reader).outcome = .ok accepted ↔
        Carries z encoding wire decoded ∧ accepted = reader.accepted := by
  have hlen := h.length_le
  unfold flushBodyTraced
  cases h with
  | identity hwire _ =>
    refine ⟨rfl, fun accepted => ⟨fun h => ⟨.identity hwire, (Except.ok.inj h).symm⟩, ?_⟩⟩
    rintro ⟨_, rfl⟩
    rfl
  | gzip hwire hfed _ =>
    obtain ⟨s', hflush, heof, hunused⟩ := hz.flushed hfed
      (Nat.succ_pos (maxProviderDecodedBytes - decoded.length))
    dsimp only
    rw [hflush]
    refine ⟨rfl, fun accepted => ?_⟩
    have hsmall : ¬([] : List UInt8).length > maxProviderDecodedBytes - decoded.length := Nat.not_lt_zero _
    rw [Traced.outcome_call, if_neg hsmall, heof, hunused, accept_nil]
    have hwhole := hfed.whole hz
    constructor
    · intro h
      split at h
      · cases h
      · rename_i hends
        obtain rfl := Except.ok.inj h
        simp only [Bool.or_eq_true, Bool.not_eq_true', bne_iff_ne, ne_eq, not_or, Bool.not_eq_false,
          not_not] at hends
        obtain ⟨t, ht, hteof, htunused⟩ := hwhole.mp hends
        exact ⟨.gzip hwire ht hlen hteof htunused, rfl⟩
    · rintro ⟨hcarries, rfl⟩
      cases hcarries with
      | gzip _ ht _ hteof htunused =>
        obtain ⟨hends, hnone⟩ := hwhole.mpr ⟨_, ht, hteof, htunused⟩
        rw [hends, hnone]
        rfl

/-- What has been decoded of a whole body is all of it. -/
theorem HasRead.carries (hz : Documented z) {whole : List UInt8}
    (h : HasRead z encoding reader wire decoded) (hcarries : Carries z encoding wire whole) :
    decoded = whole := by
  cases h with
  | identity _ _ =>
    cases hcarries with
    | identity _ => rfl
  | gzip _ hfed _ =>
    cases hcarries with
    | gzip _ hwhole _ heof _ =>
      cases hfed with
      | fresh _ =>
        rw [hz.eof_nil hwhole] at heof
        cases heof
      | call hbefore hout _ =>
        obtain ⟨t, ht, _⟩ := hz.joined hbefore hout
        exact (Prod.mk.inj (Option.some.inj (ht.symm.trans hwhole))).1

theorem Carries.eq {whole : List UInt8} (h : Carries z encoding wire decoded)
    (h' : Carries z encoding wire whole) : decoded = whole := by
  cases h with
  | identity _ =>
    cases h' with
    | identity _ => rfl
  | gzip _ hout _ _ _ =>
    cases h' with
    | gzip _ hout' _ _ _ => exact (Prod.mk.inj (Option.some.inj (hout.symm.trans hout'))).1

/-- The body is read exactly when it is whole and passes the incremental checks, and no more
is decoded than the budget and one byte. -/
theorem readBodyTraced_spec (hz : Documented z) (response : ProviderResponse) (encoding : ContentEncoding) :
    (readBodyTraced z response encoding).calls.flatten.length ≤ maxProviderDecodedBytes + 1 ∧
      ∀ body, (readBodyTraced z response encoding).outcome = .ok body ↔ response.broken = false ∧
        Carries z encoding response.rawParts.flatten body ∧ PassesScan body := by
  have hopen := hasRead_open z encoding
  obtain ⟨hproduced, hread⟩ := hopen.run hz (Eq.refl (response.rawParts.foldlM (readRawPartTraced z) _))
  rw [List.nil_append] at hproduced hread
  constructor
  · unfold readBodyTraced
    cases hloop : (response.rawParts.foldlM (readRawPartTraced z) (openReader z encoding)).outcome with
    | error e =>
      rw [Traced.calls_bind_error hloop]
      exact hproduced
    | ok reader =>
      rw [Traced.calls_bind_ok hloop]
      cases response.broken with
      | true =>
        rw [if_pos rfl, Traced.calls_lift, List.append_nil]
        exact hproduced
      | false =>
        obtain ⟨hnone, _⟩ := (hread reader hloop).flush hz
        rw [if_neg Bool.false_ne_true, List.flatten_append]
        cases hflush : (flushBodyTraced z reader).outcome with
        | error e =>
          rw [Traced.calls_bind_error hflush, hnone, List.append_nil]
          exact hproduced
        | ok accepted =>
          rw [Traced.calls_bind_ok hflush, Traced.calls_lift, List.append_nil, hnone, List.append_nil]
          exact hproduced
  · intro body
    rw [outcome_readBodyTraced, readBody, bind_eq_ok]
    simp only [Traced.outcome_foldlM, outcome_readRawPartTraced, List.nil_append] at hread
    constructor
    · rintro ⟨reader, hloop, h⟩
      have hlast := hread reader hloop
      obtain ⟨_, hflush⟩ := hlast.flush hz
      split at h
      · cases h
      rename_i hbroken
      obtain ⟨accepted, haccepted, h⟩ := bind_eq_ok.mp h
      rw [← outcome_flushBodyTraced] at haccepted
      obtain ⟨hcarries, rfl⟩ := (hflush accepted).mp haccepted
      obtain ⟨_, hutf8, h⟩ := bind_eq_ok.mp h
      obtain ⟨_, hdepth, h⟩ := bind_eq_ok.mp h
      obtain rfl := Except.ok.inj h
      have haccepts := hlast.accepts
      rw [accept_decoded haccepts]
      exact ⟨by simpa using hbroken, hcarries, _, haccepts, hutf8, hdepth⟩
    · rintro ⟨hbroken, hcarries, accepted, haccept, hutf8, hdepth⟩
      obtain ⟨reader, hloop⟩ := hopen.advances hz hcarries.decodes haccept
      have hlast := hread reader hloop
      obtain ⟨_, hflush⟩ := hlast.flush hz
      rw [outcome_flushBodyTraced] at hflush
      obtain rfl := hlast.carries hz hcarries
      obtain rfl := Except.ok.inj (hlast.accepts.symm.trans haccept)
      refine ⟨reader, hloop, ?_⟩
      rw [if_neg (by simp [hbroken])]
      refine bind_eq_ok.mpr ⟨_, (hflush _).mpr ⟨hcarries, rfl⟩, bind_eq_ok.mpr ⟨(), hutf8, ?_⟩⟩
      refine bind_eq_ok.mpr ⟨(), hdepth, ?_⟩
      rw [accept_decoded haccept]
      rfl

end Run

section Outcome
variable {σ : Type}

theorem closed_eq {α : Type} {x y : Except RetrievalException α} (hx : ClosedOutcome x)
    (hy : ClosedOutcome y) (h : ∀ a, x = .ok a ↔ y = .ok a) : x = y := by
  cases x with
  | ok a => exact ((h a).mp rfl).symm
  | error e =>
    cases y with
    | ok a => cases (h a).mpr rfl
    | error e' => rw [hx e rfl, hy e' rfl]

/-- Reading a body part by part has the outcome of decoding it as a whole, however it is split:
every other response is refused, the inner loop ends, and the decoded bytes are bounded. -/
theorem boundedJsonBody_streamed (z : Zlib σ) (hz : Documented z) (response : ProviderResponse)
    (encoding : ContentEncoding) (htype : validateContentType response = .ok ())
    (hencoding : contentEncoding response = .ok encoding)
    (hlength : validateContentLength response = .ok ()) :
    (∀ body, response.broken = false → Carries z encoding response.rawParts.flatten body →
      boundedJsonBody z response = strictJson body) ∧
    ((response.broken = true ∨ ∀ body, ¬Carries z encoding response.rawParts.flatten body) →
      boundedJsonBody z response = .error .denseProvider) ∧
    WellFounded (Function.swap (InflateTurn z)) ∧
    (∀ loop loop', InflateTurn z loop loop' → loop.run z = loop'.run z) ∧
    (readBodyTraced z response encoding).outcome = readBody z response encoding ∧
    (readBodyTraced z response encoding).calls.flatten.length ≤ maxProviderDecodedBytes + 1 := by
  obtain ⟨hproduced, hread⟩ := readBodyTraced_spec hz response encoding
  have hok (value : Json) : boundedJsonBody z response = .ok value ↔
      ∃ body, (response.broken = false ∧ Carries z encoding response.rawParts.flatten body ∧
        PassesScan body) ∧ strictJson body = .ok value := by
    rw [boundedJsonBody, htype, hencoding, hlength]
    change rescue isBodyError .denseProvider (readBody z response encoding) >>= strictJson = _ ↔ _
    refine bind_eq_ok.trans (exists_congr fun body => and_congr_left fun _ => ?_)
    rw [rescue_eq_ok, ← outcome_readBodyTraced, hread]
  refine ⟨fun body hbroken hcarries => ?_, fun hnone => ?_, inflateTurn_wellFounded,
    fun _ _ => InflateTurn.run_eq, outcome_readBodyTraced response encoding, hproduced⟩
  · refine closed_eq (closed_boundedJsonBody response) (closed_strictJson body) fun value => ?_
    rw [hok]
    constructor
    · rintro ⟨body', ⟨_, hcarries', _⟩, h⟩
      rwa [hcarries.eq hcarries']
    · intro h
      exact ⟨body, ⟨hbroken, hcarries, passesScan_of_strictJson h⟩, h⟩
  · cases houtcome : boundedJsonBody z response with
    | error e => rw [closed_boundedJsonBody response e houtcome]
    | ok value =>
      obtain ⟨body, ⟨hbroken, hcarries, _⟩, _⟩ := (hok value).mp houtcome
      rcases hnone with h | h
      · rw [h] at hbroken
        cases hbroken
      · exact absurd hcarries (h body)

/-- The content of the one stored block of a gzip member: 15 bytes come before it. -/
def storedContent (size : Nat) (wire : List UInt8) : List UInt8 := (wire.drop 15).take size

/-- A decompressor of members of one stored block of `size` bytes; 8 bytes follow the block.
Its state is what it was given. -/
def storedZlib (size : Nat) : Zlib (List UInt8) where
  decompressobj := []
  decompress := fun wire part limit => some
    (((storedContent size (wire ++ part)).drop (storedContent size wire).length).take limit, wire ++ part)
  unconsumedTail := fun _ => []
  flush := fun wire _ => some ([], wire)
  eof := fun wire => decide (23 + size ≤ wire.length)
  unusedData := fun wire => wire.drop (23 + size)
  tail_suffix := by simp

theorem storedContent_isBeginning (size : Nat) (wire part : List UInt8) :
    storedContent size wire <+: storedContent size (wire ++ part) := by
  unfold storedContent
  rw [List.drop_append]
  exact (List.prefix_append _ _).take size

/-- One call on everything. -/
theorem storedZlib_whole (size cap : Nat) (wire : List UInt8) :
    (storedZlib size).decompress (storedZlib size).decompressobj wire cap =
      some ((storedContent size wire).take cap, wire) := by
  simp [storedZlib, storedContent]

theorem storedZlib_fed {size cap : Nat} {s wire decoded : List UInt8}
    (h : Fed (storedZlib size) cap s wire decoded) : s = wire ∧ decoded = storedContent size wire := by
  induction h with
  | fresh _ => exact ⟨rfl, by simp [storedContent]⟩
  | @call s s' wire decoded part out _ hout hlt ih =>
    obtain ⟨rfl, rfl⟩ := ih
    obtain ⟨hcontent, rfl⟩ := Prod.mk.inj (Option.some.inj hout)
    refine ⟨rfl, ?_⟩
    obtain ⟨rest, hrest⟩ := storedContent_isBeginning size s part
    rw [← hrest, List.drop_left] at hcontent
    rw [← hrest, ← hcontent]
    rw [List.length_append, ← hcontent, List.length_take] at hlt
    rw [List.take_of_length_le (by omega)]

theorem storedZlib_documented (size : Nat) : Documented (storedZlib size) where
  within _ h := by
    obtain ⟨rfl, _⟩ := Prod.mk.inj (Option.some.inj h)
    exact List.length_take_le _ _
  settled _ _ := rfl
  joined {cap s s' wire decoded part out} hfed hout := by
    have hlt := hfed.length_lt
    obtain ⟨rfl, rfl⟩ := storedZlib_fed hfed
    obtain ⟨rfl, rfl⟩ := Prod.mk.inj (Option.some.inj hout)
    refine ⟨s ++ part, ?_, fun _ => ⟨rfl, rfl⟩⟩
    obtain ⟨rest, hrest⟩ := storedContent_isBeginning size s part
    rw [storedZlib_whole, ← hrest, List.drop_left, List.take_append,
      List.take_of_length_le hlt.le]
  joined_error _ h := by cases h
  ordered {cap t wire more decoded} h := by
    rw [storedZlib_whole] at h
    obtain ⟨rfl, _⟩ := Prod.mk.inj (Option.some.inj h)
    exact ⟨_, _, storedZlib_whole size cap wire, (storedContent_isBeginning size wire more).take cap⟩
  flushed {cap limit s wire decoded} _ _ := ⟨s, rfl, rfl, rfl⟩
  eof_fresh := by simp [storedZlib]
  eof_nil {cap s decoded} h := by
    obtain ⟨_, rfl⟩ := Prod.mk.inj (Option.some.inj h)
    simp [storedZlib]

/-- The gzip member of `[]`, in three parts. -/
def storedResponse : ProviderResponse where
  statusCode := 200
  headers name :=
    if name = "content-type" then some (str "application/json")
    else if name = "content-encoding" then some (str "gzip")
    else none
  rawParts := [
    [0x1F, 0x8B, 0x08, 0, 0, 0, 0, 0, 0, 0xFF, 0x01, 0x02, 0, 0xFD, 0xFF, 0x5B],
    [],
    [0x5D, 0x29, 0xBB, 0x4C, 0x0D, 0x02, 0, 0, 0]]
  broken := false

theorem boundedJsonBody_streamed_example :
    boundedJsonBody (storedZlib 2) storedResponse = strictJson [0x5B, 0x5D] := by
  have h := boundedJsonBody_streamed (storedZlib 2) (storedZlib_documented 2) storedResponse .gzip
    (by rfl) (by rfl) (by rfl)
  refine h.1 [0x5B, 0x5D] rfl (.gzip (s := storedResponse.rawParts.flatten) ?_ rfl ?_ rfl rfl)
  · decide
  · decide

end Outcome

end AgenticRag.Retrieval

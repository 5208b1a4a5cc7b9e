import AgenticRag.Ingestion.ChunkCoverage

/-! When each chunk ends later than the chunk before it: when no window is cut within
the space that follows the chunk before it. -/
namespace AgenticRag.Ingestion
open Lib Python

section Progress
variable (cfg : ChunkingConfig) (text : Str)

/-- The starts of the windows that the loop reaches from `nextStart` on. -/
inductive Reached : Nat → Nat → Prop
  | here {nextStart : Nat} (hlt : skipWhitespace text nextStart < text.length) :
    Reached nextStart (skipWhitespace text nextStart)
  | later {nextStart startOffset : Nat} (hlt : skipWhitespace text nextStart < text.length)
    (hend : windowEnd cfg text (skipWhitespace text nextStart) < text.length)
    (h : Reached (resume cfg (skipWhitespace text nextStart)
      (windowEnd cfg text (skipWhitespace text nextStart))) startOffset) :
    Reached nextStart startOffset

/-- The window that follows the one at `startOffset` is selected past some character
that is not space and comes after the end of that one. -/
def SelectsPast (startOffset : Nat) : Prop :=
  ∃ k c, windowEnd cfg text startOffset ≤ k ∧ k < selectedEnd cfg text (restart cfg text startOffset) ∧
    text[k]? = some c ∧ isSpace c = false

/-- Every window that has a successor is followed by one that is selected past it. -/
def AllSelectPast (nextStart : Nat) : Prop :=
  ∀ startOffset, Reached cfg text nextStart startOffset → windowEnd cfg text startOffset < text.length →
    restart cfg text startOffset < text.length → SelectsPast cfg text startOffset

variable {cfg text}

theorem windowEnd_lt_iff {startOffset : Nat} (hlt : restart cfg text startOffset < text.length) :
    windowEnd cfg text startOffset < windowEnd cfg text (restart cfg text startOffset) ↔
      SelectsPast cfg text startOffset := by
  constructor
  · intro h
    have hwindow := isWindow_of_skip cfg hlt
    obtain ⟨c, hc, hs⟩ := hwindow.last
    have hnonempty := hwindow.nonempty
    have hle := windowEnd_le_selectedEnd cfg hlt
    unfold restart at h hle
    exact ⟨_, c, by omega, by unfold restart; omega, hc, hs⟩
  · rintro ⟨k, c, hle, hk, hc, hs⟩
    by_contra h
    rw [isSpace_of_trimmed ((Nat.le_of_not_lt h).trans hle) hk hc] at hs
    cases hs

theorem not_reached {nextStart startOffset : Nat} (h : text.length ≤ skipWhitespace text nextStart) :
    ¬Reached cfg text nextStart startOffset := by
  intro hr
  cases hr <;> omega

theorem allSelectPast_more {nextStart : Nat} (hlt : skipWhitespace text nextStart < text.length)
    (hend : windowEnd cfg text (skipWhitespace text nextStart) < text.length) :
    AllSelectPast cfg text nextStart ↔
      (restart cfg text (skipWhitespace text nextStart) < text.length →
        SelectsPast cfg text (skipWhitespace text nextStart)) ∧
      AllSelectPast cfg text (resume cfg (skipWhitespace text nextStart)
        (windowEnd cfg text (skipWhitespace text nextStart))) := by
  constructor
  · exact fun h => ⟨h _ (.here hlt) hend, fun s hr => h s (.later hlt hend hr)⟩
  · rintro ⟨hhere, hlater⟩ s hr
    cases hr with
    | here => exact fun _ => hhere
    | later _ _ hr => exact hlater s hr

/-- The ends of the windows increase exactly when every successor is selected past the
window before it. -/
theorem Windows.ends_increase_iff {nextStart : Nat} {ranges : List (Nat × Nat)}
    (h : Windows cfg text nextStart ranges) :
    (ranges.map Prod.snd).IsChain (· < ·) ↔ AllSelectPast cfg text nextStart := by
  induction h with
  | blank hblank =>
    exact iff_of_true .nil fun s hr => absurd hr (not_reached hblank)
  | final hlt hend =>
    refine iff_of_true (.singleton _) fun s hr hs => ?_
    cases hr with
    | here => omega
    | later _ hlater => omega
  | more hlt hend hrest ih =>
    rw [allSelectPast_more hlt hend, ← ih]
    cases hrest with
    | blank hblank =>
      refine iff_of_true (.singleton _) ⟨fun hs => ?_, .nil⟩
      exact absurd hs (Nat.not_lt.mpr hblank)
    | final hlt' hend' =>
      rw [List.map_cons, List.map_cons, List.isChain_cons_cons]
      refine and_congr_left' ?_
      rw [← windowEnd_lt_iff hlt', restart, hend']
      exact ⟨fun h _ => h, fun h => h hlt'⟩
    | more hlt' hend' _ =>
      rw [List.map_cons, List.map_cons, List.isChain_cons_cons]
      refine and_congr_left' ?_
      rw [← windowEnd_lt_iff hlt']
      exact ⟨fun h _ => h, fun h => h hlt'⟩

/-- Without overlap a window starts past the one before it. -/
theorem allSelectPast_of_no_overlap (h : cfg.overlap = 0) (nextStart : Nat) :
    AllSelectPast cfg text nextStart := by
  intro startOffset _ _ hlt
  obtain ⟨c, hc, hs⟩ := skipWhitespace_spec hlt
  refine ⟨restart cfg text startOffset, c, ?_, (selectedEnd_bounds cfg hlt).1, hc, hs⟩
  have hskip := le_skipWhitespace text (resume cfg startOffset (windowEnd cfg text startOffset))
  unfold restart
  unfold resume at hskip ⊢
  omega

end Progress

/-- Over a normalized document each chunk ends later than the one before it exactly when
no window is cut within the space that follows the window before it. -/
theorem chunk_ends_increase_iff (sha256 : Sha256) (cfg : ChunkingConfig) {parsed : ParsedDocument}
    {document : NormalizedDocument} (h : normalize parsed = .ok document) :
    ∃ chunks, chunk sha256 cfg document = .ok chunks ∧
      ((chunks.map TextChunk.endOffset).Pairwise (· < ·) ↔ AllSelectPast cfg document.text 0) := by
  have henc : ∀ c ∈ document.text, isSurrogate c = false := fun c hc => (normalize_sanitized h hc).1
  obtain ⟨chunks, hok, _⟩ := chunk_ok cfg henc
  obtain ⟨hwindows, _⟩ := windows_of_chunk hok
  refine ⟨chunks, hok, ?_⟩
  rw [← hwindows.ends_increase_iff, List.isChain_iff_pairwise, List.map_map]
  rfl

/-- Two words. -/
def twoWords : ParsedDocument := ⟨[⟨str "ab cd", none, ParsedSection.unnumbered⟩]⟩

theorem chunk_ends_increase_iff_example :
    ∃ document, normalize twoWords = .ok document ∧ ∃ chunks,
      chunk (fun _ => List.Vector.replicate 32 0) ⟨2, 1, by decide⟩ document = .ok chunks ∧
      ((chunks.map TextChunk.endOffset).Pairwise (· < ·) ↔
        AllSelectPast ⟨2, 1, by decide⟩ document.text 0) := by
  have hsome : (normalize twoWords).toOption.isSome := by decide +kernel
  obtain ⟨document, h⟩ := Option.isSome_iff_exists.mp hsome
  exact ⟨document, toOption_eq_some.mp h, chunk_ends_increase_iff _ _ (toOption_eq_some.mp h)⟩

/-- The second window ends at the space after the first chunk, and adds nothing to it. -/
theorem chunk_ends_increase_fails :
    ∃ chunks, normalize twoWords >>= chunk (fun _ => List.Vector.replicate 32 0) ⟨2, 1, by decide⟩ =
      .ok chunks ∧ chunks.map TextChunk.endOffset = [2, 2, 5] ∧
      ¬(chunks.map TextChunk.endOffset).Pairwise (· < ·) := by
  have hends : ((normalize twoWords >>=
      chunk (fun _ => List.Vector.replicate 32 0) ⟨2, 1, by decide⟩).toOption.map
      fun chunks => chunks.map TextChunk.endOffset) = some [2, 2, 5] := by decide +kernel
  obtain ⟨chunks, hok, hchunks⟩ := Option.map_eq_some_iff.mp hends
  refine ⟨chunks, toOption_eq_some.mp hok, hchunks, ?_⟩
  rw [hchunks]
  decide

end AgenticRag.Ingestion

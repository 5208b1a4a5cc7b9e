import AgenticRag.Ingestion.Chunking

/-! The windows that the chunker's loop takes over a text, one after another, and the
ranges of the chunks it makes of them. -/
namespace AgenticRag.Ingestion
open Lib Python

section Trimming
variable {text : Str} {startOffset endOffset : Nat}

private theorem isSpace_of_mem_takeWhile {s : Str} {c : CodePoint} {k : Nat}
    (hk : k < (s.takeWhile isSpace).length) (hc : s[k]? = some c) : isSpace c = true := by
  have hpre : s.takeWhile isSpace <+: s := List.takeWhile_prefix _
  have hget := hpre.getElem hk
  rw [List.getElem?_eq_getElem (hk.trans_le hpre.length_le), ← hget] at hc
  obtain rfl := Option.some.inj hc
  exact List.mem_takeWhile_imp (List.getElem_mem hk)

/-- What is skipped is space. -/
theorem isSpace_of_skipped {k : Nat} {c : CodePoint} (hle : startOffset ≤ k)
    (hlt : k < skipWhitespace text startOffset) (hc : text[k]? = some c) : isSpace c = true := by
  unfold skipWhitespace at hlt
  have hk : k - startOffset < ((text.drop startOffset).takeWhile isSpace).length := by omega
  refine isSpace_of_mem_takeWhile hk ?_
  rw [List.getElem?_drop, Nat.add_sub_cancel' hle]
  exact hc

/-- What is trimmed is space. -/
theorem isSpace_of_trimmed {k : Nat} {c : CodePoint}
    (hle : trimTrailingWhitespace text startOffset endOffset ≤ k) (hlt : k < endOffset)
    (hc : text[k]? = some c) : isSpace c = true := by
  unfold trimTrailingWhitespace at hle
  generalize hw : (text.take endOffset).drop startOffset = w at hle
  have hreverse : rstripWhile isSpace w = (w.reverse.dropWhile isSpace).reverse := rfl
  have hsplit : w = rstripWhile isSpace w ++ (w.reverse.takeWhile isSpace).reverse := by
    rw [hreverse, ← List.reverse_append, List.takeWhile_append_dropWhile, List.reverse_reverse]
  have hget : w[k - startOffset]? = some c := by
    rw [← hw, List.getElem?_drop, List.getElem?_take_of_lt (by omega)]
    rwa [Nat.add_sub_cancel' (by omega)]
  rw [hsplit, List.getElem?_append_right (by omega)] at hget
  have hmem := List.mem_reverse.mp (List.mem_of_getElem? hget)
  exact List.mem_takeWhile_imp hmem

end Trimming

section Windows
variable (cfg : ChunkingConfig) (text : Str)

/-- The selected end of the window at `startOffset`. -/
def selectedEnd (startOffset : Nat) : Nat :=
  selectEnd cfg text startOffset (min (startOffset + cfg.chunkSize) text.length)

def windowEnd (startOffset : Nat) : Nat :=
  trimTrailingWhitespace text startOffset (selectedEnd cfg text startOffset)

/-- Where the loop goes on after a chunk. -/
def resume (startOffset endOffset : Nat) : Nat := max (endOffset - cfg.overlap) (startOffset + 1)

/-- The start of the window that follows the one at `startOffset`. -/
def restart (startOffset : Nat) : Nat :=
  skipWhitespace text (resume cfg startOffset (windowEnd cfg text startOffset))

/-- The ranges that the loop takes from `nextStart` on. -/
inductive Windows : Nat → List (Nat × Nat) → Prop
  | blank {nextStart : Nat} (h : text.length ≤ skipWhitespace text nextStart) : Windows nextStart []
  | final {nextStart : Nat} (hlt : skipWhitespace text nextStart < text.length)
    (hend : windowEnd cfg text (skipWhitespace text nextStart) = text.length) :
    Windows nextStart [(skipWhitespace text nextStart, text.length)]
  | more {nextStart : Nat} {ranges : List (Nat × Nat)}
    (hlt : skipWhitespace text nextStart < text.length)
    (hend : windowEnd cfg text (skipWhitespace text nextStart) < text.length)
    (hrest : Windows (resume cfg (skipWhitespace text nextStart)
      (windowEnd cfg text (skipWhitespace text nextStart))) ranges) :
    Windows nextStart ((skipWhitespace text nextStart,
      windowEnd cfg text (skipWhitespace text nextStart)) :: ranges)

variable {cfg text}

/-- A window starts and ends on characters that are not space, and is not too wide. -/
structure IsWindow (cfg : ChunkingConfig) (text : Str) (startOffset endOffset : Nat) : Prop where
  nonempty : startOffset < endOffset
  within : endOffset ≤ text.length
  width : endOffset ≤ startOffset + cfg.chunkSize
  first : ∃ c, text[startOffset]? = some c ∧ isSpace c = false
  last : ∃ c, text[endOffset - 1]? = some c ∧ isSpace c = false

theorem selectedEnd_bounds (cfg : ChunkingConfig) {startOffset : Nat} (hlt : startOffset < text.length) :
    startOffset < selectedEnd cfg text startOffset ∧
      selectedEnd cfg text startOffset ≤ min (startOffset + cfg.chunkSize) text.length := by
  have hcfg := cfg.overlap_lt
  exact selectEnd_bounds cfg text (by omega)

theorem isWindow (cfg : ChunkingConfig) {startOffset : Nat} (hlt : startOffset < text.length)
    (hfirst : ∃ c, text[startOffset]? = some c ∧ isSpace c = false) :
    IsWindow cfg text startOffset (windowEnd cfg text startOffset) := by
  obtain ⟨hlo, hhi⟩ := selectedEnd_bounds cfg hlt
  obtain ⟨c, hc, hs⟩ := hfirst
  obtain ⟨h₁, h₂, h₃⟩ := trimTrailingWhitespace_spec hlo (hhi.trans (Nat.min_le_right _ _)) hc hs
  unfold windowEnd
  exact ⟨h₁, by omega, by omega, ⟨c, hc, hs⟩, h₃⟩

theorem windowEnd_le_selectedEnd (cfg : ChunkingConfig) {startOffset : Nat}
    (hlt : startOffset < text.length) :
    windowEnd cfg text startOffset ≤ selectedEnd cfg text startOffset := by
  obtain ⟨hlo, hhi⟩ := selectedEnd_bounds cfg hlt
  have hlen := (List.rdropWhile_prefix isSpace
    ((text.take (selectedEnd cfg text startOffset)).drop startOffset)).length_le
  rw [List.length_drop, List.length_take] at hlen
  unfold windowEnd trimTrailingWhitespace rstripWhile
  omega

theorem isWindow_of_skip (cfg : ChunkingConfig) {nextStart : Nat} (hlt : skipWhitespace text nextStart < text.length) :
    IsWindow cfg text (skipWhitespace text nextStart)
      (windowEnd cfg text (skipWhitespace text nextStart)) :=
  isWindow cfg hlt (skipWhitespace_spec hlt)

section Facts
variable {nextStart : Nat} {ranges : List (Nat × Nat)}

theorem Windows.each (h : Windows cfg text nextStart ranges) :
    ∀ range ∈ ranges, nextStart ≤ range.1 ∧ IsWindow cfg text range.1 range.2 := by
  induction h with
  | blank => exact fun _ h => nomatch h
  | @final nextStart hlt hend =>
    intro range hr
    obtain rfl := List.mem_singleton.mp hr
    have hwindow := isWindow_of_skip cfg hlt
    rw [hend] at hwindow
    exact ⟨le_skipWhitespace _ _, hwindow⟩
  | @more nextStart ranges hlt hend _ ih =>
    intro range hr
    have hskip := le_skipWhitespace text nextStart
    rcases List.mem_cons.mp hr with rfl | hr
    · exact ⟨hskip, isWindow_of_skip cfg hlt⟩
    · obtain ⟨hle, hwindow⟩ := ih range hr
      unfold resume at hle
      exact ⟨by omega, hwindow⟩

/-- Starts increase, and no window reaches back over the overlap. -/
theorem Windows.ordered (h : Windows cfg text nextStart ranges) :
    ranges.Pairwise fun a b => a.1 < b.1 ∧ a.2 ≤ b.1 + cfg.overlap := by
  induction h with
  | blank => exact List.Pairwise.nil
  | final => exact List.pairwise_singleton _ _
  | more hlt hend hrest ih =>
    refine List.pairwise_cons.mpr ⟨fun range hr => ?_, ih⟩
    have hle := (hrest.each range hr).1
    unfold resume at hle
    dsimp only
    omega

/-- Every character that is not space is in a window. -/
theorem Windows.covered (h : Windows cfg text nextStart ranges) {k : Nat} {c : CodePoint}
    (hk : nextStart ≤ k) (hc : text[k]? = some c) (hs : isSpace c = false) :
    ∃ range ∈ ranges, range.1 ≤ k ∧ k < range.2 := by
  have hlen := (List.getElem?_eq_some_iff.mp hc).1
  have hskipped (nextStart : Nat) (hk : nextStart ≤ k) : skipWhitespace text nextStart ≤ k := by
    by_contra hlt
    rw [isSpace_of_skipped hk (Nat.lt_of_not_le hlt) hc] at hs
    cases hs
  induction h with
  | @blank nextStart h =>
    have := hskipped nextStart hk
    omega
  | @final nextStart hlt hend =>
    exact ⟨_, List.mem_singleton.mpr rfl, hskipped nextStart hk, hlen⟩
  | @more nextStart ranges hlt hend _ ih =>
    have hstart := hskipped nextStart hk
    rcases Nat.lt_or_ge k (windowEnd cfg text (skipWhitespace text nextStart)) with hin | hout
    · exact ⟨_, List.mem_cons_self, hstart, hin⟩
    · have hwindow := isWindow_of_skip cfg hlt
      have hnonempty := hwindow.nonempty
      obtain ⟨range, hr, hmem⟩ := ih (by unfold resume; omega)
      exact ⟨range, List.mem_cons_of_mem _ hr, hmem⟩

end Facts
end Windows

section Chunks
variable {sha256 : Sha256} {cfg : ChunkingConfig} {document : NormalizedDocument}

def TextChunk.range (chunk : TextChunk) : Nat × Nat := (chunk.startOffset, chunk.endOffset)

/-- The chunk's text is its range of the document, and strict UTF-8 encodes it. -/
structure ChunkText (document : NormalizedDocument) (chunk : TextChunk) : Prop where
  text_eq : chunk.text =
    (document.text.drop chunk.startOffset).take (chunk.endOffset - chunk.startOffset)
  encoded : (encodeUtf8 chunk.text).isSome

theorem TextChunk.mk?_eq_ok {chunkIndex tokenCount startOffset endOffset : Nat} {text contentHash : Str}
    {pageNumbers : List Nat} {chunk : TextChunk}
    (h : TextChunk.mk? chunkIndex text tokenCount startOffset endOffset contentHash pageNumbers =
      .ok chunk) :
    chunk.text = text ∧ chunk.startOffset = startOffset ∧ chunk.endOffset = endOffset := by
  unfold TextChunk.mk? at h
  split_ifs at h
  obtain rfl := Except.ok.inj h
  exact ⟨rfl, rfl, rfl⟩

theorem textChunk_eq_ok {chunkIndex startOffset endOffset : Nat} {chunk : TextChunk}
    (h : textChunk sha256 document chunkIndex startOffset endOffset = .ok chunk) :
    chunk.range = (startOffset, endOffset) ∧ ChunkText document chunk := by
  unfold textChunk at h
  dsimp only at h
  split at h
  · cases h
  · rename_i encoded hencoded
    obtain ⟨htext, hstart, hend⟩ := TextChunk.mk?_eq_ok h
    subst hstart
    subst hend
    refine ⟨rfl, htext, ?_⟩
    rw [htext, hencoded]
    rfl

/-- The chunks that the loop adds are made of the windows from its position on. -/
theorem windows_of_chunkFrom {fuel nextStart : Nat} {chunks out : List TextChunk}
    (h : chunkFrom sha256 cfg document fuel nextStart chunks = .ok out) :
    ∃ added, out = chunks ++ added ∧
      Windows cfg document.text nextStart (added.map TextChunk.range) ∧
      ∀ chunk ∈ added, ChunkText document chunk := by
  induction fuel generalizing nextStart chunks with
  | zero => cases h
  | succ fuel ih =>
    have hskip := le_skipWhitespace document.text nextStart
    have hdone (hblank : document.text.length ≤ skipWhitespace document.text nextStart)
        (hout : Except.ok (ε := TextError) chunks = .ok out) : ∃ added, out = chunks ++ added ∧
          Windows cfg document.text nextStart (added.map TextChunk.range) ∧
          ∀ chunk ∈ added, ChunkText document chunk := by
      obtain rfl := Except.ok.inj hout
      exact ⟨[], (List.append_nil _).symm, .blank hblank, fun _ h => nomatch h⟩
    rw [chunkFrom] at h
    dsimp only at h
    split at h
    · exact hdone (by omega) h
    split at h
    · exact hdone ‹_› h
    rename_i hstart
    have hlt := Nat.lt_of_not_le hstart
    have hwindow := isWindow_of_skip cfg hlt
    change (if windowEnd cfg document.text (skipWhitespace document.text nextStart) ≤
      skipWhitespace document.text nextStart then _ else _) = _ at h
    rw [if_neg (Nat.not_le.mpr hwindow.nonempty)] at h
    split at h
    · cases h
    rename_i chunk hchunk
    obtain ⟨hrange, htext⟩ := textChunk_eq_ok hchunk
    split at h
    · rename_i hend
      obtain rfl := Except.ok.inj h
      refine ⟨[chunk], rfl, ?_, ?_⟩
      · rw [List.map_singleton, hrange, hend]
        exact .final hlt hend
      · exact fun c hc => List.mem_singleton.mp hc ▸ htext
    · rename_i hend
      obtain ⟨added, rfl, hwindows, hadded⟩ := ih h
      refine ⟨chunk :: added, List.append_assoc _ _ _, ?_, List.forall_mem_cons.mpr ⟨htext, hadded⟩⟩
      rw [List.map_cons, hrange]
      exact .more hlt (lt_of_le_of_ne hwindow.within hend) hwindows

end Chunks
end AgenticRag.Ingestion

import AgenticRag.Ingestion.TextNormalization
import AgenticRag.Lib.Trims

/-! The normal form that the normalization of a fragment reaches. -/
namespace AgenticRag.Ingestion
open Lib Python

/-- A character that is no space, tab or newline. -/
def isVisible (c : CodePoint) : Bool := !isBlank c && c != newline

/-- What `_sanitize_character` makes of a character that is no control. -/
def replaceSurrogate (c : CodePoint) : CodePoint := if isSurrogate c then replacementCharacter else c

theorem isVisible_of_isBlank {c : CodePoint} (h : isBlank c = true) : isVisible c = false := by
  simp [isVisible, h]

section Characters

theorem isVisible_sanitizeCharacter {c : CodePoint} (h : isControl c = true) :
    isVisible (sanitizeCharacter c) = false := by
  unfold sanitizeCharacter
  split
  · rename_i hkept
    rcases hkept with rfl | rfl <;> decide
  · decide

theorem sanitizeCharacter_of_not_isControl {c : CodePoint} (h : isControl c = false) :
    sanitizeCharacter c = replaceSurrogate c := by
  unfold sanitizeCharacter replaceSurrogate
  have hnewline : c ≠ newline := by
    rintro rfl
    cases h
  have htab : c ≠ tab := by
    rintro rfl
    cases h
  rw [if_neg (not_or.mpr ⟨hnewline, htab⟩), if_neg (by simp [h])]

theorem sanitizeCharacter_of_sanitized {c : CodePoint} (h : Sanitized c) : sanitizeCharacter c = c := by
  unfold sanitizeCharacter
  split
  · rfl
  · rename_i hkept
    rw [if_neg fun hc => hkept (h.2 hc), h.1]
    rfl

/-- Sanitizing keeps what is visible of the characters that are no controls. -/
theorem filter_map_sanitizeCharacter (s : Str) : (s.map sanitizeCharacter).filter isVisible =
    ((s.filter fun c => !isControl c).map replaceSurrogate).filter isVisible := by
  induction s with
  | nil => rfl
  | cons c rest ih =>
    cases hc : isControl c with
    | true => simp [hc, isVisible_sanitizeCharacter hc, ih]
    | false =>
      have hkept : (c :: rest).filter (fun c => !isControl c) = c :: rest.filter fun c => !isControl c :=
        List.filter_cons_of_pos (by simp [hc])
      rw [hkept, List.map_cons, List.map_cons, sanitizeCharacter_of_not_isControl hc, List.filter_cons,
        List.filter_cons, ih]

/-- Line endings are controls, whichever way they are written. -/
theorem filter_replaceCrLf (s : Str) :
    (replaceCrLf s).filter (fun c => !isControl c) = s.filter fun c => !isControl c := by
  fun_induction replaceCrLf s with
  | case1 a b rest h ih =>
    obtain ⟨rfl, rfl⟩ := h
    rw [List.filter_cons_of_neg (by decide), List.filter_cons_of_neg (by decide),
      List.filter_cons_of_neg (by decide), ih]
  | case2 a b rest h ih => rw [List.filter_cons, List.filter_cons, ih]
  | case3 s h => rfl

theorem filter_replaceCr (s : Str) :
    (replaceCr s).filter (fun c => !isControl c) = s.filter fun c => !isControl c := by
  induction s with
  | nil => rfl
  | cons c rest ih =>
    rw [replaceCr, List.map_cons]
    by_cases hc : c = carriageReturn
    · rw [if_pos hc, hc, List.filter_cons_of_neg (by decide), List.filter_cons_of_neg (by decide)]
      exact ih
    · rw [if_neg hc, List.filter_cons, List.filter_cons]
      exact congrArg (fun cs => if !isControl c then c :: cs else cs) ih

theorem replaceCrLf_eq_self {s : Str} (h : ∀ c ∈ s, c ≠ carriageReturn) : replaceCrLf s = s := by
  fun_induction replaceCrLf s with
  | case1 a b rest hab ih => exact absurd hab.1 (h a List.mem_cons_self)
  | case2 a b rest hab ih => rw [ih fun c hc => h c (List.mem_cons_of_mem _ hc)]
  | case3 s _ => rfl

theorem replaceCr_eq_self {s : Str} (h : ∀ c ∈ s, c ≠ carriageReturn) : replaceCr s = s := by
  refine (List.map_congr_left fun c hc => ?_).trans (List.map_id s)
  exact if_neg (h c hc)

theorem map_sanitizeCharacter_eq_self {s : Str} (h : ∀ c ∈ s, Sanitized c) :
    s.map sanitizeCharacter = s :=
  (List.map_congr_left fun c hc => sanitizeCharacter_of_sanitized (h c hc)).trans (List.map_id s)

theorem removeBom_eq_self {s : Str} (h : s.head? ≠ some utf8Bom) : removeBom s = s := by
  cases s with
  | nil => rfl
  | cons c rest => exact if_neg fun hc => h (congrArg some hc)

end Characters

section Lines

/-- Lines as the loop leaves them: trimmed at the end, the first and the last not empty, and no
two empty ones in a row. -/
structure NormalLines (lines : List Str) : Prop where
  trimmed : ∀ line ∈ lines, rstripWhile isBlank line = line
  whole : ∀ line ∈ lines, newline ∉ line
  head : ∀ line ∈ lines.head?, line ≠ []
  last : ∀ line ∈ lines.getLast?, line ≠ []
  apart : lines.IsChain fun a b => a ≠ [] ∨ b ≠ []

variable {lines : List Str} {line : Str}

theorem normalLines_nil : NormalLines [] := by
  constructor <;> simp

/-- The loop appends one line, after an empty one if that is pending. -/
theorem NormalLines.append (h : NormalLines lines) {blankPending : Bool}
    (hpending : blankPending = true → lines ≠ []) (htrimmed : rstripWhile isBlank line = line)
    (hwhole : newline ∉ line) (hline : line ≠ []) :
    NormalLines (lines ++ if blankPending then [[], line] else [line]) := by
  cases blankPending with
  | true =>
    have hlines := hpending rfl
    constructor
    · simpa [or_imp, forall_and, htrimmed] using ⟨h.trimmed, rfl⟩
    · simpa [or_imp, forall_and, hwhole] using h.whole
    · rw [List.head?_append_of_ne_nil _ hlines]
      exact h.head
    · simpa using hline
    · refine List.isChain_append.mpr ⟨h.apart, by simp [hline], fun a ha b hb => ?_⟩
      exact .inl (h.last a ha)
  | false =>
    constructor
    · simpa [or_imp, forall_and, htrimmed] using h.trimmed
    · simpa [or_imp, forall_and, hwhole] using h.whole
    · cases lines with
      | nil => simpa using hline
      | cons first rest => exact h.head
    · simpa using hline
    · refine List.isChain_append.mpr ⟨h.apart, by simp, fun a ha b hb => ?_⟩
      obtain rfl := Option.some.inj hb
      exact .inr hline

theorem outputLines_normal {raw : List Str} {blankPending : Bool} (h : NormalLines lines)
    (hpending : blankPending = true → lines ≠ []) (hraw : ∀ line ∈ raw, newline ∉ line) :
    NormalLines (outputLines raw blankPending lines) := by
  induction raw generalizing blankPending lines with
  | nil => exact h
  | cons rawLine rest ih =>
    have hrest : ∀ line ∈ rest, newline ∉ line := fun line hl => hraw line (List.mem_cons_of_mem _ hl)
    rw [outputLines]
    split
    · refine ih h (fun hp => ?_) hrest
      rcases Bool.or_eq_true _ _ ▸ hp with hp | hp
      · exact hpending hp
      · simpa using hp
    · rename_i hblank
      refine ih (h.append hpending ?_ ?_ ?_) (by simp) hrest
      · exact List.rdropWhile_idempotent _ _
      · exact fun hn => hraw rawLine List.mem_cons_self ((List.rdropWhile_prefix _ _).subset hn)
      · intro hnil
        rw [hnil] at hblank
        exact hblank rfl

/-- The loop keeps what is visible. -/
theorem flatMap_outputLines (raw : List Str) (blankPending : Bool) (lines : List Str) :
    (outputLines raw blankPending lines).flatMap (List.filter isVisible) =
      lines.flatMap (List.filter isVisible) ++ raw.flatMap (List.filter isVisible) := by
  induction raw generalizing blankPending lines with
  | nil => simp [outputLines]
  | cons rawLine rest ih =>
    have hkept : (rstripWhile isBlank rawLine).filter isVisible = rawLine.filter isVisible :=
      filter_rdropWhile (fun _ => isVisible_of_isBlank) rawLine
    rw [outputLines, List.flatMap_cons]
    split
    · rename_i hblank
      have hnone : rawLine.filter isVisible = [] := by
        rw [← hkept, List.filter_eq_nil_iff]
        intro c hc
        rw [isVisible_of_isBlank (stripWhile_eq_nil.mp hblank c hc)]
        exact Bool.false_ne_true
      rw [ih, hnone, List.nil_append]
    · rw [ih, List.flatMap_append, List.append_assoc, ← hkept]
      cases blankPending <;> simp

/-- Lines in normal form go through the loop unchanged. -/
theorem outputLines_eq_self {raw : List Str} {blankPending : Bool}
    (h : NormalLines (lines ++ ((if blankPending then [[]] else []) ++ raw))) :
    outputLines raw blankPending lines = lines ++ ((if blankPending then [[]] else []) ++ raw) := by
  induction raw generalizing blankPending lines with
  | nil =>
    cases blankPending with
    | true => exact absurd rfl (h.last [] (by simp))
    | false => simp [outputLines]
  | cons line rest ih =>
    have htrimmed := h.trimmed line (by simp)
    rw [outputLines, htrimmed]
    by_cases hline : line = []
    · subst hline
      have hblank : stripWhile isBlank [] = [] := rfl
      rw [if_pos hblank]
      cases blankPending with
      | true =>
        have happart := (List.isChain_append.mp h.apart).2.1
        simp at happart
      | false =>
        have hlines : lines ≠ [] := by
          rintro rfl
          exact h.head [] (by simp) rfl
        have hempty : lines.isEmpty = false := by simpa using hlines
        rw [hempty]
        exact @ih lines true h
    · have hblank : stripWhile isBlank line ≠ [] := by
        intro hb
        rw [rstripWhile, List.rdropWhile_eq_nil_iff.mpr (stripWhile_eq_nil.mp hb)] at htrimmed
        exact hline htrimmed.symm
      rw [if_neg hblank]
      have hsame : lines ++ ((if blankPending then [[]] else []) ++ line :: rest) =
          (lines ++ if blankPending then [[], line] else [line]) ++ ([] ++ rest) := by
        cases blankPending <;> simp
      rw [hsame] at h ⊢
      exact @ih _ false h

end Lines

section Fragment

/-- What the loop reads. -/
def sanitizedText (text : Str) : Str := (replaceCr (replaceCrLf (removeBom text))).map sanitizeCharacter

/-- The lines of a normalized fragment: those of the loop, the first one trimmed in front. -/
def fragmentLines (text : Str) : List Str :=
  (outputLines ((sanitizedText text).splitOn newline) false []).modifyHead (lstripWhile isBlank)

theorem not_mem_of_mem_splitOn {s line : Str} (h : line ∈ s.splitOn newline) : newline ∉ line := by
  induction s generalizing line with
  | nil =>
    obtain rfl := List.mem_singleton.mp h
    exact List.not_mem_nil
  | cons c rest ih =>
    rw [List.splitOn_cons_eq_if_modifyHead] at h
    split at h
    · rcases List.mem_cons.mp h with rfl | h
      · exact List.not_mem_nil
      · exact ih h
    · rename_i hc
      cases hsplit : rest.splitOn newline with
      | nil => exact absurd hsplit (List.splitOn_ne_nil _ _)
      | cons first lines =>
        rw [hsplit] at h ih
        rcases List.mem_cons.mp h with rfl | h
        · intro hmem
          rcases List.mem_cons.mp hmem with rfl | hmem
          · exact hc (beq_self_eq_true _)
          · exact ih List.mem_cons_self hmem
        · exact ih (List.mem_cons_of_mem _ h)

theorem lstrip_ne_nil {line : Str} (htrimmed : rstripWhile isBlank line = line) (hline : line ≠ []) :
    lstripWhile isBlank line ≠ [] := by
  intro hnil
  rw [lstripWhile, List.dropWhile_eq_nil_iff] at hnil
  rw [rstripWhile, List.rdropWhile_eq_nil_iff.mpr hnil] at htrimmed
  exact hline htrimmed.symm

/-- Trimming the first line in front keeps the normal form. -/
theorem NormalLines.lstrip {lines : List Str} (h : NormalLines lines) :
    NormalLines (lines.modifyHead (lstripWhile isBlank)) := by
  cases lines with
  | nil => exact h
  | cons first rest =>
    have hfirst : first ≠ [] := h.head first rfl
    have htrimmed := h.trimmed first List.mem_cons_self
    have hstripped := lstrip_ne_nil htrimmed hfirst
    have hsuffix : lstripWhile isBlank first <:+ first := List.dropWhile_suffix _
    obtain ⟨front, hfront⟩ := id hsuffix
    constructor
    · intro line hline
      rcases List.mem_cons.mp hline with rfl | hline
      · refine rdropWhile_eq_self fun c hc => ?_
        rw [← List.getLast?_append_of_ne_nil front hstripped, hfront, ← htrimmed] at hc
        exact getLast?_rdropWhile hc
      · exact h.trimmed line (List.mem_cons_of_mem _ hline)
    · intro line hline
      rcases List.mem_cons.mp hline with rfl | hline
      · exact fun hn => h.whole first List.mem_cons_self (hsuffix.subset hn)
      · exact h.whole line (List.mem_cons_of_mem _ hline)
    · intro line hline
      obtain rfl := Option.some.inj hline
      exact hstripped
    · cases rest with
      | nil => simpa using hstripped
      | cons second rest => exact h.last
    · cases rest with
      | nil => exact List.isChain_singleton _
      | cons second rest =>
        exact List.isChain_cons_cons.mpr ⟨.inl hstripped, (List.isChain_cons_cons.mp h.apart).2⟩

/-- The last character of lines in normal form ends a line. -/
theorem NormalLines.getLast? {lines : List Str} (h : NormalLines lines) {c : CodePoint}
    (hc : c ∈ ([newline].intercalate lines).getLast?) : isBlank c = false ∧ c ≠ newline := by
  rcases List.eq_nil_or_concat' lines with rfl | ⟨before, line, rfl⟩
  · cases hc
  have hmem : line ∈ before ++ [line] := by simp
  have hline : line ≠ [] := h.last line (by simp)
  have hlast : c ∈ line.getLast? := by
    rw [intercalate_concat] at hc
    split at hc
    · exact hc
    · rwa [List.getLast?_append_of_ne_nil _ (by simp), List.getLast?_append_of_ne_nil _ hline] at hc
  refine ⟨?_, ?_⟩
  · rw [← h.trimmed line hmem] at hlast
    exact getLast?_rdropWhile hlast
  · rintro rfl
    exact h.whole line hmem (List.mem_of_getLast? hlast)

/-- A normalized fragment is its lines, joined. -/
theorem normalizeFragment_eq (text : Str) :
    normalizeFragment text = [newline].intercalate (fragmentLines text) := by
  have hnormal : NormalLines (outputLines ((sanitizedText text).splitOn newline) false []) :=
    outputLines_normal normalLines_nil (by simp) fun line => not_mem_of_mem_splitOn
  have hlast := fun c => hnormal.lstrip.getLast? (c := c)
  rw [fragmentLines]
  change stripWhile isBlank
    ([newline].intercalate (outputLines ((sanitizedText text).splitOn newline) false [])) = _
  cases hlines : outputLines ((sanitizedText text).splitOn newline) false [] with
  | nil => rfl
  | cons first rest =>
    rw [hlines] at hnormal hlast
    rw [List.modifyHead_cons] at hlast ⊢
    have hstripped := lstrip_ne_nil (hnormal.trimmed first List.mem_cons_self) (hnormal.head first rfl)
    rw [intercalate_cons] at hlast
    rw [intercalate_cons, intercalate_cons, stripWhile, lstripWhile, dropWhile_append_of_ne_nil hstripped]
    exact rdropWhile_eq_self fun c hc => (hlast c hc).1

theorem fragmentLines_normal (text : Str) : NormalLines (fragmentLines text) :=
  (outputLines_normal normalLines_nil (by simp) fun _ => not_mem_of_mem_splitOn).lstrip

/-- The first character of a fragment begins a line that is trimmed in front. -/
theorem head?_normalizeFragment {text : Str} {c : CodePoint} (h : c ∈ (normalizeFragment text).head?) :
    isBlank c = false ∧ c ≠ newline := by
  have hnormal := fragmentLines_normal text
  rw [normalizeFragment_eq] at h
  unfold fragmentLines at h hnormal
  cases hlines : outputLines ((sanitizedText text).splitOn newline) false [] with
  | nil =>
    rw [hlines] at h
    cases h
  | cons first rest =>
    rw [hlines, List.modifyHead_cons] at h hnormal
    have hfirst : lstripWhile isBlank first ≠ [] := hnormal.head _ rfl
    rw [intercalate_cons, List.head?_append_of_ne_nil _ hfirst] at h
    refine ⟨head?_dropWhile h, ?_⟩
    rintro rfl
    exact hnormal.whole _ List.mem_cons_self (List.mem_of_head? h)

theorem normalizeFragment_no_carriageReturn {text : Str} {c : CodePoint}
    (h : c ∈ normalizeFragment text) : c ≠ carriageReturn := by
  rintro rfl
  rcases (normalizeFragment_sanitized h).2 (by decide) with he | he
  · exact absurd he (by decide)
  · exact absurd he (by decide)

/-- The lines of a fragment, as they are split again. -/
theorem splitOn_normalizeFragment {text : Str} (h : normalizeFragment text ≠ []) :
    (normalizeFragment text).splitOn newline = fragmentLines text := by
  rw [normalizeFragment_eq] at h ⊢
  refine List.splitOn_intercalate newline (fragmentLines_normal text).whole ?_
  intro hnil
  rw [hnil] at h
  exact h rfl

theorem filter_normalizeFragment (text : Str) : (normalizeFragment text).filter isVisible =
    (((removeBom text).filter fun c => !isControl c).map replaceSurrogate).filter isVisible := by
  have hstrip : (normalizeFragment text).filter isVisible =
      ([newline].intercalate (outputLines ((sanitizedText text).splitOn newline) false [])).filter
        isVisible :=
    (filter_rdropWhile (fun _ => isVisible_of_isBlank) _).trans
      (filter_dropWhile (fun _ => isVisible_of_isBlank) _)
  have hsep : [newline].filter isVisible = [] := by decide
  rw [hstrip, filter_intercalate hsep, flatMap_outputLines, List.flatMap_nil, List.nil_append,
    ← filter_intercalate hsep, List.intercalate_splitOn, sanitizedText, filter_map_sanitizeCharacter,
    filter_replaceCr, filter_replaceCrLf]

/-- A fragment that does not begin with a byte order mark is a fixed point. -/
theorem normalizeFragment_idempotent {text : Str} (h : (normalizeFragment text).head? ≠ some utf8Bom) :
    normalizeFragment (normalizeFragment text) = normalizeFragment text := by
  by_cases hempty : normalizeFragment text = []
  · rw [hempty]
    rfl
  have hsame : sanitizedText (normalizeFragment text) = normalizeFragment text := by
    have hcr : ∀ c ∈ normalizeFragment text, c ≠ carriageReturn :=
      fun c => normalizeFragment_no_carriageReturn
    rw [sanitizedText, removeBom_eq_self h, replaceCrLf_eq_self hcr, replaceCr_eq_self hcr,
      map_sanitizeCharacter_eq_self fun c => normalizeFragment_sanitized]
  have hlines : outputLines (fragmentLines text) false [] = fragmentLines text :=
    @outputLines_eq_self [] (fragmentLines text) false (fragmentLines_normal text)
  rw [normalizeFragment_eq (normalizeFragment text), fragmentLines, hsame,
    splitOn_normalizeFragment hempty, hlines, normalizeFragment_eq text]
  refine congrArg _ ?_
  unfold fragmentLines
  cases outputLines ((sanitizedText text).splitOn newline) false [] with
  | nil => rfl
  | cons first rest =>
    rw [List.modifyHead_cons, List.modifyHead_cons]
    exact congrArg (· :: rest) (List.dropWhile_idempotent _ first)

end Fragment

/-- No line ends in a blank, no two lines in a row are empty, no blank or newline is at either end,
and every character is sanitized. -/
structure NormalForm (text : Str) : Prop where
  sanitized : ∀ c ∈ text, Sanitized c
  no_carriageReturn : carriageReturn ∉ text
  trimmed : ∀ line ∈ text.splitOn newline, ∀ c ∈ line.getLast?, isBlank c = false
  apart : ¬[[], []] <:+: text.splitOn newline
  head : ∀ c ∈ text.head?, isBlank c = false ∧ c ≠ newline
  last : ∀ c ∈ text.getLast?, isBlank c = false ∧ c ≠ newline

/-- Normalization reaches a normal form, keeps the visible characters, and reaches it at once unless
a second byte order mark comes to the front. -/
theorem normalizeFragment_normalForm (text : Str) :
    NormalForm (normalizeFragment text) ∧
    (normalizeFragment text).filter isVisible =
      (((removeBom text).filter fun c => !isControl c).map replaceSurrogate).filter isVisible ∧
    ((normalizeFragment text).head? ≠ some utf8Bom →
      normalizeFragment (normalizeFragment text) = normalizeFragment text) := by
  refine ⟨?_, filter_normalizeFragment text, normalizeFragment_idempotent⟩
  have hnormal := fragmentLines_normal text
  by_cases hempty : normalizeFragment text = []
  · rw [hempty]
    have hapart : ¬[[], []] <:+: ([[]] : List Str) := fun h => by simpa using h.length_le
    constructor <;> first | exact hapart | simp
  · constructor
    · exact fun c => normalizeFragment_sanitized
    · exact fun hmem => normalizeFragment_no_carriageReturn hmem rfl
    · rw [splitOn_normalizeFragment hempty]
      intro line hline c hc
      rw [← hnormal.trimmed line hline] at hc
      exact getLast?_rdropWhile hc
    · rw [splitOn_normalizeFragment hempty]
      intro hinfix
      have happart := hnormal.apart.infix hinfix
      simp at happart
    · exact fun c => head?_normalizeFragment
    · rw [normalizeFragment_eq]
      exact fun c => hnormal.getLast?

/-- A tab and an escape at the ends, a form feed alone on a line, and a run of line endings. -/
example : normalizeFragment (str "\tab\x0d\x0a\x0c\x0d\x0acd \x1b") = str "ab\x0a\x0acd" := by decide +kernel

end AgenticRag.Ingestion

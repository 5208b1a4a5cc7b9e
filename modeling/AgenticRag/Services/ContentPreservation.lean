import AgenticRag.Ingestion.ChunkCoverage
import AgenticRag.Ingestion.NormalForm
import AgenticRag.Lib.Fragments
import AgenticRag.Services.ParserRegistry
import AgenticRag.Services.PipelineSafety

/-! The rows of a document give back what its parser read: every printed character, once and in
order. -/
namespace AgenticRag.Services
open Lib Python Db Ingestion Security

/-- A character that is no control and no space. -/
def isPrinted (c : CodePoint) : Bool := !isControl c && !isSpace c

/-- What is printed of a text: a byte order mark at its front is none of it, and a surrogate is
read as the replacement character. -/
def printed (text : Str) : Str := ((removeBom text).map replaceSurrogate).filter isPrinted

def printedText (sections : List ParsedSection) : Str := sections.flatMap fun s => printed s.text

/-- A row as a fragment of the normalized text. -/
def chunkFragment (row : DocumentChunk) : Fragment CodePoint := ⟨row.startOffset.getD 0, row.normalizedText⟩

/-- What the rows of a document say together. -/
def reassemble (rows : List DocumentChunk) : Str := Fragment.assemble (rows.map chunkFragment)

section Characters

theorem isVisible_of_isPrinted {c : CodePoint} (h : isPrinted c = true) : isVisible c = true := by
  have hspace : isSpace c = false := by simp_all [isPrinted]
  unfold isVisible isBlank
  simp only [Bool.and_eq_true, Bool.not_eq_true', Bool.or_eq_false_iff, beq_eq_false_iff_ne, bne_iff_ne]
  refine ⟨⟨?_, ?_⟩, ?_⟩ <;> rintro rfl <;> cases hspace

private theorem filter_isVisible (s : Str) : (s.filter isVisible).filter isPrinted = s.filter isPrinted := by
  rw [List.filter_filter]
  refine List.filter_congr fun c _ => ?_
  cases hc : isPrinted c with
  | true => rw [isVisible_of_isPrinted hc]; rfl
  | false => rfl

private theorem isPrinted_replaceSurrogate {c : CodePoint} (h : isControl c = true) :
    isPrinted (replaceSurrogate c) = false := by
  have hsurrogate : isSurrogate c = false := by
    simp only [isControl, Bool.or_eq_true, Bool.and_eq_true, decide_eq_true_eq] at h
    simp only [isSurrogate, Bool.and_eq_false_iff, decide_eq_false_iff_not]
    omega
  rw [replaceSurrogate, hsurrogate, isPrinted, if_neg (by simp), h]
  rfl

/-- Normalization drops no printed character and adds none. -/
theorem filter_isPrinted_normalizeFragment (text : Str) :
    (normalizeFragment text).filter isPrinted = printed text := by
  rw [← filter_isVisible, filter_normalizeFragment, filter_isVisible, printed, List.filter_map,
    List.filter_map, List.filter_filter]
  refine congrArg _ (List.filter_congr fun c _ => ?_)
  cases hc : isControl c with
  | true => rw [Function.comp_apply, isPrinted_replaceSurrogate hc]; rfl
  | false => simp

private theorem filter_isPrinted_of_blank {s : Str} (h : strip s = []) : s.filter isPrinted = [] := by
  rw [List.filter_eq_nil_iff]
  intro c hc
  simp [isPrinted, strip_eq_nil.mp h c hc]

/-- Of sanitized text, all that is not space is printed. -/
theorem strip_eq_nil_iff {s : Str} (h : ∀ c ∈ s, Sanitized c) :
    strip s = [] ↔ s.filter isPrinted = [] := by
  refine ⟨filter_isPrinted_of_blank, fun hnone => ?_⟩
  rw [strip_eq_nil]
  intro c hc
  by_contra hspace
  refine List.filter_eq_nil_iff.mp hnone c hc ?_
  cases hcontrol : isControl c with
  | true => rcases (h c hc).2 hcontrol with rfl | rfl <;> exact absurd rfl hspace
  | false => simp [isPrinted, hcontrol, eq_false_of_ne_true hspace]

/-- A text that prints something is not blank. -/
theorem strip_ne_nil_of_printed {text : Str} (h : printed text ≠ []) : strip text ≠ [] := by
  obtain ⟨c, hc⟩ := List.exists_mem_of_ne_nil _ h
  obtain ⟨hc, hprinted⟩ := List.mem_filter.mp hc
  obtain ⟨d, hd, rfl⟩ := List.mem_map.mp hc
  have hmem : d ∈ text := by
    cases text with
    | nil => cases hd
    | cons e rest =>
      rw [removeBom] at hd
      split at hd
      · exact List.mem_cons_of_mem _ hd
      · exact hd
  refine strip_ne_nil_of_mem hmem ?_
  by_contra hspace
  have hsurrogate : isSurrogate d = false := by
    by_contra hs
    exact hspace (isSpace_of_isSurrogate (by simpa using hs))
  rw [replaceSurrogate, hsurrogate] at hprinted
  simp_all [isPrinted]

end Characters

section Normalized
variable {document : ParsedDocument} {normalized : NormalizedDocument}

private theorem flatMap_keptSections (sections : List ParsedSection) :
    (keptSections sections).flatMap (fun s => printed s.text) = printedText sections := by
  unfold keptSections printedText
  induction sections with
  | nil => rfl
  | cons s rest ih =>
    by_cases hs : strip (normalizeFragment s.text) = []
    · have hnone : printed s.text = [] := by
        rw [← filter_isPrinted_normalizeFragment]
        exact filter_isPrinted_of_blank hs
      rw [List.filter_cons_of_neg (by simp [hs]), ih, List.flatMap_cons, hnone]
      rfl
    · rw [List.filter_cons_of_pos (by simp [hs]), List.flatMap_cons, List.flatMap_cons, ih]

private theorem labelledText_printed (sections : List ParsedSection) :
    ((labelledText sections).map Prod.fst).filter isPrinted = printedText sections := by
  have hgap : [newline, newline].filter isPrinted = [] := by decide
  rw [labelledText_fst, filter_intercalate hgap, List.flatMap_map, ← flatMap_keptSections]
  simp only [filter_isPrinted_normalizeFragment]

/-- The normalized text prints what the sections print. -/
theorem normalize_printed (h : normalize document = .ok normalized) :
    normalized.text.filter isPrinted = printedText document.sections := by
  rw [(normalize_ok h).1, labelledText_printed]

/-- Normalization finds a document empty exactly when nothing of it is printed. -/
theorem normalize_eq_empty :
    normalize document = .error .emptyDocument ↔ printedText document.sections = [] := by
  constructor
  · intro h
    rw [← labelledText_printed]
    exact filter_isPrinted_of_blank (normalize_empty h)
  · intro hnone
    cases h : normalize document with
    | ok normalized =>
      rw [← normalize_printed h, ← strip_eq_nil_iff fun c => normalize_sanitized h] at hnone
      exact absurd hnone normalized.nonblank
    | error e =>
      cases e with
      | emptyDocument => rfl
      | value => exact absurd h (normalize_ne_value document)

end Normalized

section Rows
variable {sha256 : Sha256} {uuid5 : UUID → Str → UUID} {cfg : ChunkingConfig} {claimed : ClaimedDocument}
  {chunks : List TextChunk} {rows : List DocumentChunk}

/-- The rows of a document, in whatever order they are read, print what its text prints. -/
theorem reassemble_printed {document : NormalizedDocument} (h : chunk sha256 cfg document = .ok chunks)
    (hrows : ∀ row, row ∈ rows ↔ row ∈ durableChunks uuid5 claimed chunks) :
    (reassemble rows).filter isPrinted = document.text.filter isPrinted := by
  obtain ⟨hwindows, htext⟩ := windows_of_chunk h
  refine Fragment.assemble_filter ?_ ?_
  · intro f hf
    obtain ⟨row, hrow, rfl⟩ := List.mem_map.mp hf
    obtain ⟨c, hc, rfl⟩ := List.mem_map.mp ((hrows row).mp hrow)
    exact Fragment.of_slice (htext c hc).text_eq
  · intro k a hk hprinted
    obtain ⟨c, hc, hstart, hend⟩ := chunk_covered h hk (by simp_all [isPrinted])
    refine ⟨_, List.mem_map_of_mem ((hrows _).mpr (List.mem_map_of_mem hc)), ?_⟩
    refine Fragment.at?_isSome hstart ?_
    have hwithin := (hwindows.each _ (List.mem_map_of_mem hc)).2.within
    change c.endOffset ≤ _ at hwithin
    change k < c.startOffset + c.text.length
    rw [(htext c hc).text_eq, List.length_take, List.length_drop]
    omega

/-- What `_parse_and_chunk` went through when it returns. -/
theorem parseAndChunk_ok {parse : DocumentArtifact → Except ParseError ParsedDocument} {content : Bytes}
    (h : parseAndChunk sha256 cfg parse claimed content = .ok chunks) :
    ∃ parsed normalized, parse ⟨content, claimed.mediaType, claimed.filename⟩ = .ok parsed ∧
      normalize parsed = .ok normalized ∧ chunk sha256 cfg normalized = .ok chunks ∧ chunks ≠ [] := by
  obtain ⟨parsed, hparsed, h⟩ := bind_eq_ok.mp h
  obtain ⟨normalized, hnormalized, h⟩ := bind_eq_ok.mp h
  obtain ⟨made, hmade, h⟩ := bind_eq_ok.mp h
  split at h
  · cases h
  rename_i hnonempty
  obtain ⟨_, _, h⟩ := bind_eq_ok.mp h
  obtain rfl := Except.ok.inj h
  exact ⟨parsed, normalized, mapError_eq_ok.mp hparsed, mapError_eq_ok.mp hnormalized,
    mapError_eq_ok.mp hmade, hnonempty⟩

/-- Each row prints some of what its text prints, without a gap. -/
theorem chunk_printed {document : NormalizedDocument} (h : chunk sha256 cfg document = .ok chunks)
    {row : DocumentChunk} (hrow : row ∈ durableChunks uuid5 claimed chunks) :
    row.normalizedText.filter isPrinted <:+: document.text.filter isPrinted := by
  obtain ⟨c, hc, rfl⟩ := List.mem_map.mp hrow
  change c.text.filter isPrinted <:+: _
  rw [((windows_of_chunk h).2 c hc).text_eq]
  exact ((List.take_prefix _ _).isInfix.trans (List.drop_suffix _ _).isInfix).filter _

/-- Rows that came out of `_parse_and_chunk` print what the parser read. -/
theorem parseAndChunk_printed {parse : DocumentArtifact → Except ParseError ParsedDocument} {content : Bytes}
    {parsed : ParsedDocument} (h : parseAndChunk sha256 cfg parse claimed content = .ok chunks)
    (hparsed : parse ⟨content, claimed.mediaType, claimed.filename⟩ = .ok parsed)
    (hrows : ∀ row, row ∈ rows ↔ row ∈ durableChunks uuid5 claimed chunks) :
    (reassemble rows).filter isPrinted = printedText parsed.sections ∧
      ∀ row ∈ rows, row.normalizedText.filter isPrinted <:+: printedText parsed.sections := by
  obtain ⟨other, normalized, hother, hnormalized, hchunks, _⟩ := parseAndChunk_ok h
  obtain rfl := Except.ok.inj (hparsed.symm.trans hother)
  rw [reassemble_printed hchunks hrows, ← normalize_printed hnormalized]
  exact ⟨rfl, fun row hrow => chunk_printed hchunks ((hrows row).mp hrow)⟩

end Rows

section Kinds
variable {readerFactory : Bytes → Except PdfError PdfReader}

/-- The texts of the pages, unless one of them cannot be extracted. -/
def pageTexts (pages : List (Except PdfError (Option Str))) : Except PdfError (List Str) :=
  pages.mapM fun page => page.map (·.getD [])

/-- The texts in a stored file of this kind, whichever way it is parsed; the PDF library may raise. -/
def StoredKind.texts (readerFactory : Bytes → Except PdfError PdfReader) (content : Bytes) :
    StoredKind → Except PdfError (List Str)
  | .text => .ok (decodeUtf8Sig content).toList
  | .pdf =>
    if content = [] then .ok []
    else do
      let reader ← readerFactory content
      let encrypted ← reader.isEncrypted
      if encrypted then .ok [] else pageTexts reader.pages

/-- What there is to print of texts that were read. -/
def printedTexts : Except PdfError (List Str) → Str
  | .ok texts => texts.flatMap Services.printed
  | .error _ => []

def StoredKind.printed (readerFactory : Bytes → Except PdfError PdfReader) (content : Bytes)
    (kind : StoredKind) : Str := printedTexts (kind.texts readerFactory content)

/-- A parser reads what there is, or rejects what is blank; only an exception that the PDF library is
not expected to raise gets through it. -/
def Reads (texts : Except PdfError (List Str)) : Except ParseError ParsedDocument → Prop
  | .ok parsed => texts ≠ .error .other ∧ printedText parsed.sections = printedTexts texts
  | .error .unexpected => texts = .error .other
  | .error e => e ≠ .value ∧ texts ≠ .error .other ∧ printedTexts texts = []

private theorem sections_texts {n : Nat} (hn : 1 ≤ n) (pages : List (Except PdfError (Option Str))) :
    (PdfDocumentParser.sections n pages).map (·.map ParsedSection.text) = pageTexts pages := by
  induction pages generalizing n with
  | nil => rfl
  | cons page pages ih =>
    rw [pageTexts, List.mapM_cons, PdfDocumentParser.sections]
    cases page with
    | error e => rfl
    | ok text =>
      have hfirst : ParsedSection.mk? (text.getD []) (some n) =
          .ok ⟨text.getD [], some n, by rintro _ ⟨⟩; exact hn⟩ := dif_pos (by rintro _ ⟨⟩; exact hn)
      have hrest := ih (Nat.le_succ_of_le hn)
      rw [pageTexts] at hrest
      change (do
        let parsed ← (ParsedSection.mk? (text.getD []) (some n)).mapError fun _ => PdfError.extraction
        let rest ← PdfDocumentParser.sections (n + 1) pages
        return parsed :: rest).map _ = (do
        let rest ← pages.mapM fun page => page.map (·.getD [])
        return text.getD [] :: rest)
      rw [← hrest, hfirst]
      cases PdfDocumentParser.sections (n + 1) pages <;> rfl

private theorem printedText_of_blank {sections : List ParsedSection} (h : ∀ s ∈ sections, strip s.text = []) :
    printedText sections = [] := by
  rw [printedText, List.flatMap_eq_nil_iff]
  intro s hs
  by_contra hprinted
  exact strip_ne_nil_of_printed hprinted (h s hs)

/-- A parser that rejects blank texts. -/
private theorem reads_blank {texts : List Str} {e : ParseError} (hvalue : e ≠ .value)
    (hunexpected : e ≠ .unexpected) (h : texts.flatMap Services.printed = []) :
    Reads (.ok texts) (.error e) := by
  cases e with
  | unexpected => exact absurd rfl hunexpected
  | _ => exact ⟨hvalue, by simp, h⟩

/-- An exception of the PDF library, as `parse` passes it on. -/
private theorem reads_raised (e : PdfError) :
    Reads (.error e) (.error (PdfDocumentParser.extractionRaised e)) := by
  cases e with
  | extraction => exact ⟨by decide, by simp, rfl⟩
  | other => exact rfl

theorem Utf8TextDocumentParser.parse_reads (content : Bytes) :
    Reads (StoredKind.text.texts readerFactory content) (Utf8TextDocumentParser.parse content) := by
  unfold Utf8TextDocumentParser.parse StoredKind.texts
  cases decodeUtf8Sig content with
  | none => exact reads_blank (by decide) (by decide) rfl
  | some text =>
    have hprinted : [text].flatMap Services.printed = Services.printed text := List.flatMap_singleton ..
    by_cases hblank : strip text = []
    · simp only [if_pos hblank]
      refine reads_blank (by decide) (by decide) (hprinted.trans ?_)
      by_contra hsome
      exact strip_ne_nil_of_printed hsome hblank
    · simp only [if_neg hblank]
      exact ⟨by simp, (List.flatMap_singleton ..).trans hprinted.symm⟩

theorem PdfDocumentParser.parse_reads (content : Bytes) :
    Reads (StoredKind.pdf.texts readerFactory content) (PdfDocumentParser.parse readerFactory content) := by
  unfold PdfDocumentParser.parse StoredKind.texts
  by_cases hempty : content = []
  · simp only [if_pos hempty]
    exact reads_blank (by decide) (by decide) rfl
  simp only [if_neg hempty]
  cases readerFactory content with
  | error e => exact reads_raised e
  | ok reader =>
    change Reads (reader.isEncrypted >>= fun encrypted => _)
      (reader.isEncrypted.mapError PdfDocumentParser.extractionRaised >>= fun encrypted => _)
    cases reader.isEncrypted with
    | error e => exact reads_raised e
    | ok encrypted =>
      cases encrypted with
      | true => exact reads_blank (by decide) (by decide) rfl
      | false =>
        have htexts := sections_texts le_rfl reader.pages
        change Reads (pageTexts reader.pages) ((PdfDocumentParser.sections 1 reader.pages).mapError
          PdfDocumentParser.extractionRaised >>= fun parsed => _)
        rw [← htexts]
        cases PdfDocumentParser.sections 1 reader.pages with
        | error e => exact reads_raised e
        | ok parsed =>
          have hprinted : (parsed.map ParsedSection.text).flatMap Services.printed = printedText parsed :=
            List.flatMap_map ..
          change Reads (.ok (parsed.map ParsedSection.text)) (if _ then _ else _)
          split
          · exact ⟨by simp, hprinted.symm⟩
          · rename_i hany
            refine reads_blank (by decide) (by decide) (hprinted.trans (printedText_of_blank ?_))
            intro s hs
            by_contra hne
            exact hany (List.any_eq_true.mpr ⟨s, hs, decide_eq_true hne⟩)

theorem StoredKind.parse_reads (kind : StoredKind) (content : Bytes) :
    Reads (kind.texts readerFactory content) (kind.parse readerFactory content) := by
  cases kind with
  | text => exact Utf8TextDocumentParser.parse_reads content
  | pdf => exact PdfDocumentParser.parse_reads content

/-- Intake accepts the kinds of files that the default registry parses, and no other. -/
theorem storedKind_isSome_iff (mediaType : String) (extension : Str) : (storedKind mediaType extension).isSome ↔
    ∃ allowed, allowedUploads mediaType = some allowed ∧ extension ∈ allowed := by
  unfold storedKind allowedUploads
  by_cases hplain : mediaType = "text/plain"
  · subst hplain
    by_cases he : extension = str ".txt" <;> simp [he]
  by_cases hmarkdown : mediaType = "text/markdown"
  · subst hmarkdown
    by_cases hmd : extension = str ".md"
    · simp [hmd]
    · by_cases hlong : extension = str ".markdown" <;> simp [hmd, hlong]
  by_cases hpdf : mediaType = "application/pdf"
  · subst hpdf
    by_cases he : extension = str ".pdf" <;> simp [he]
  · simp [hplain, hmarkdown, hpdf]

theorem validateUploadMetadata_ok {filename : Str} {mediaType : String} {extension : Str}
    (h : validateUploadMetadata filename mediaType = .ok extension) :
    extension = DocumentParserRegistry.extensionOf filename ∧
      ∃ kind, storedKind mediaType extension = some kind := by
  unfold validateUploadMetadata at h
  split at h
  · cases h
  split at h
  · cases h
  dsimp only at h
  split at h
  · cases h
  rename_i allowed hallowed
  split at h
  · rename_i hmem
    obtain rfl := Except.ok.inj h
    exact ⟨rfl, Option.isSome_iff_exists.mp ((storedKind_isSome_iff _ _).mpr ⟨allowed, hallowed, hmem⟩)⟩
  · cases h

end Kinds

section Uploads
variable {readerFactory : Bytes → Except PdfError PdfReader}

/-- Ingestion of a file: it fails unexpectedly if the PDF library does, blank files fail for good, and
the rows of every other file print what the file prints. -/
structure Preserved (sha256 : Sha256) (uuid5 : UUID → Str → UUID) (cfg : ChunkingConfig)
    (parse : DocumentArtifact → Except ParseError ParsedDocument) (claimed : ClaimedDocument)
    (content : Bytes) (texts : Except PdfError (List Str)) : Prop where
  raised : texts = .error .other → parseAndChunk sha256 cfg parse claimed content = .error .unexpected
  blank : texts ≠ .error .other → printedTexts texts = [] →
    parseAndChunk sha256 cfg parse claimed content = .error (.expected .documentProcessing)
  rows : printedTexts texts ≠ [] → ∃ chunks, parseAndChunk sha256 cfg parse claimed content = .ok chunks ∧
    ∀ rows : List DocumentChunk, (∀ row, row ∈ rows ↔ row ∈ durableChunks uuid5 claimed chunks) →
      (reassemble rows).filter isPrinted = printedTexts texts

theorem preserved_of_reads (sha256 : Sha256) (uuid5 : UUID → Str → UUID) (cfg : ChunkingConfig)
    {parse : DocumentArtifact → Except ParseError ParsedDocument} {claimed : ClaimedDocument}
    {content : Bytes} {texts : Except PdfError (List Str)}
    (h : Reads texts (parse ⟨content, claimed.mediaType, claimed.filename⟩)) :
    Preserved sha256 uuid5 cfg parse claimed content texts := by
  cases hparse : parse ⟨content, claimed.mediaType, claimed.filename⟩ with
  | error e =>
    rw [hparse] at h
    have hraised : parseAndChunk sha256 cfg parse claimed content = .error (parseRaised e) := by
      simp [parseAndChunk, hparse, Except.mapError, bind, Except.bind]
    cases e with
    | value => exact absurd rfl h.1
    | unexpected =>
      obtain rfl : texts = .error .other := h
      exact ⟨fun _ => hraised, fun hread => absurd rfl hread, fun hsome => absurd rfl hsome⟩
    | _ =>
      obtain ⟨_, hread, hnone⟩ := h
      exact ⟨fun hother => absurd hother hread, fun _ _ => hraised, fun hsome => absurd hnone hsome⟩
  | ok parsed =>
    rw [hparse] at h
    obtain ⟨hread, hprinted⟩ := h
    refine ⟨fun hother => absurd hother hread, fun _ hnone => ?_, fun hsome => ?_⟩
    · rw [← hprinted] at hnone
      simp [parseAndChunk, hparse, normalize_eq_empty.mpr hnone, textRaised, Except.mapError, bind, Except.bind]
    · rw [← hprinted] at hsome ⊢
      obtain ⟨_, chunks, _, _, hchunks, _⟩ := normalized_document_accepted sha256 uuid5 exampleService cfg
        parse 1 claimed content hparse fun hempty => hsome (normalize_eq_empty.mp hempty)
      exact ⟨chunks, hchunks, fun rows hrows => (parseAndChunk_printed hchunks hparse hrows).1⟩

/-- Whatever intake accepts the default registry parses, and ingestion preserves it. -/
theorem accepted_upload_preserved (sha256 : Sha256) (uuid5 : UUID → Str → UUID) (cfg : ChunkingConfig)
    (readerFactory : Bytes → Except PdfError PdfReader) {filename : Str} {mediaType : String} {extension : Str}
    (haccepted : validateUploadMetadata filename mediaType = .ok extension) :
    ∃ registry kind, createDefaultParserRegistry readerFactory = .ok registry ∧
      storedKind mediaType extension = some kind ∧
      ∀ (claimed : ClaimedDocument) (content : Bytes), claimed.filename = filename →
        claimed.mediaType = mediaType →
        Preserved sha256 uuid5 cfg registry.parse claimed content (kind.texts readerFactory content) := by
  obtain ⟨rfl, kind, hkind⟩ := validateUploadMetadata_ok haccepted
  obtain ⟨registry, hregistry, hparse⟩ := createDefaultParserRegistry_ok readerFactory
  refine ⟨registry, kind, hregistry, hkind, ?_⟩
  rintro claimed content rfl rfl
  apply preserved_of_reads
  rw [hparse, hkind]
  exact kind.parse_reads content

/-- A Markdown file with a byte order mark, a control and a line ending. -/
def markdownContent : Bytes := [0xEF, 0xBB, 0xBF, 0x61, 0x00, 0x20, 0x0D, 0x0A, 0x62]

example : StoredKind.text.printed (fun _ => .error .other) markdownContent = str "ab" := by decide

theorem accepted_upload_preserved_markdown : ∃ registry,
    createDefaultParserRegistry (fun _ => .error .other) = .ok registry ∧
    ∀ claimed : ClaimedDocument, claimed.filename = str "a.MD" → claimed.mediaType = "text/markdown" →
      Preserved zeroSha256 zeroUuid5 ⟨2, 1, by decide⟩ registry.parse claimed markdownContent
        (.ok [[0x61, 0x00, 0x20, 0x0D, 0x0A, 0x62]]) := by
  have haccepted : validateUploadMetadata (str "a.MD") "text/markdown" = .ok (str ".md") := by rfl
  obtain ⟨registry, kind, hregistry, hkind, hpreserved⟩ := accepted_upload_preserved zeroSha256 zeroUuid5
    ⟨2, 1, by decide⟩ (fun _ => .error .other) haccepted
  obtain rfl : StoredKind.text = kind := Option.some.inj hkind
  exact ⟨registry, hregistry, fun claimed => hpreserved claimed markdownContent⟩

end Uploads
end AgenticRag.Services

import AgenticRag.Lib.Results
import AgenticRag.Python.Text

/-! Parsed sections and the PDF parser; the reader itself is a third-party library and a
parameter here. -/
namespace AgenticRag.Ingestion
open Lib Python

/-- The subclasses of `DocumentProcessingError`, the `ValueError` of a constructor, and an exception of
the PDF library that no parser catches. -/
inductive ParseError where
  | unsupportedDocumentType | documentParse | invalidTextEncoding | emptyDocument
  | noExtractableText | encryptedPdf
  | value
  | unexpected
  deriving DecidableEq

/-- A section that passed `__post_init__`. -/
structure ParsedSection where
  text : Str
  pageNumber : Option Nat
  pageNumber_pos : ∀ p, pageNumber = some p → 1 ≤ p

/-- A section of a format without pages. -/
theorem ParsedSection.unnumbered (p : Nat) (h : none = some p) : 1 ≤ p := by cases h

structure ParsedDocument where
  sections : List ParsedSection

/-- `ParsedSection(...)`. -/
def ParsedSection.mk? (text : Str) (pageNumber : Option Nat) : Except ParseError ParsedSection :=
  if h : ∀ p ∈ pageNumber, 1 ≤ p then .ok ⟨text, pageNumber, fun p hp => h p hp⟩
  else .error .value

/-- Pages numbered from one without a gap. -/
def ParsedDocument.PagesNumbered (document : ParsedDocument) (n : Nat) : Prop :=
  document.sections.map ParsedSection.pageNumber = (List.range' 1 n).map some

instance (document : ParsedDocument) (n : Nat) : Decidable (document.PagesNumbered n) :=
  inferInstanceAs (Decidable (_ = _))

/-- What the PDF library raises: one of `_EXTRACTION_ERRORS`, or another exception. -/
inductive PdfError where
  | extraction | other
  deriving DecidableEq

/-- What a `PdfReader` answers; an empty or missing text is `none`, and an iteration over the pages
that raises ends in an error. -/
structure PdfReader where
  isEncrypted : Except PdfError Bool
  pages : List (Except PdfError (Option Str))

namespace PdfDocumentParser

/-- The `except` clauses of `parse`. -/
def extractionRaised : PdfError → ParseError
  | .extraction => .documentParse
  | .other => .unexpected

/-- The generator over `enumerate(reader.pages, start=1)`; a `ValueError` is an extraction error. -/
def sections : Nat → List (Except PdfError (Option Str)) → Except PdfError (List ParsedSection)
  | _, [] => .ok []
  | n, page :: pages => do
    let text ← page
    let parsed ← (ParsedSection.mk? (text.getD []) (some n)).mapError fun _ => .extraction
    let rest ← sections (n + 1) pages
    return parsed :: rest

/-- `PdfDocumentParser.parse`. -/
def parse (readerFactory : List UInt8 → Except PdfError PdfReader) (content : List UInt8) :
    Except ParseError ParsedDocument :=
  if content = [] then .error .emptyDocument
  else do
    let reader ← (readerFactory content).mapError extractionRaised
    let encrypted ← reader.isEncrypted.mapError extractionRaised
    if encrypted then .error .encryptedPdf
    else do
      let parsed ← (sections 1 reader.pages).mapError extractionRaised
      if parsed.any fun s => strip s.text ≠ [] then return ⟨parsed⟩
      else .error .noExtractableText

private theorem sections_pages {n : Nat} {pages : List (Except PdfError (Option Str))}
    {parsed : List ParsedSection} (h : sections n pages = .ok parsed) :
    parsed.map ParsedSection.pageNumber = (List.range' n pages.length).map some := by
  induction pages generalizing n parsed with
  | nil =>
    obtain rfl := Except.ok.inj h
    rfl
  | cons page pages ih =>
    obtain ⟨text, _, h⟩ := bind_eq_ok.mp h
    obtain ⟨first, hfirst, h⟩ := bind_eq_ok.mp h
    obtain ⟨rest, hrest, h⟩ := bind_eq_ok.mp h
    obtain rfl := Except.ok.inj h
    rw [mapError_eq_ok] at hfirst
    unfold ParsedSection.mk? at hfirst
    split at hfirst
    · obtain rfl := Except.ok.inj hfirst
      rw [List.map_cons, ih hrest, List.length_cons, List.range'_succ, List.map_cons]
    · cases hfirst

/-- A parsed PDF has its pages numbered from one. -/
theorem parse_pagesNumbered {readerFactory : List UInt8 → Except PdfError PdfReader}
    {content : List UInt8} {document : ParsedDocument} (h : parse readerFactory content = .ok document) :
    ∃ n, document.PagesNumbered n := by
  unfold parse at h
  split at h
  · cases h
  obtain ⟨reader, _, h⟩ := bind_eq_ok.mp h
  obtain ⟨encrypted, _, h⟩ := bind_eq_ok.mp h
  split at h
  · cases h
  obtain ⟨parsed, hparsed, h⟩ := bind_eq_ok.mp h
  split at h
  · obtain rfl := Except.ok.inj h
    exact ⟨reader.pages.length, sections_pages (mapError_eq_ok.mp hparsed)⟩
  · cases h

end PdfDocumentParser
end AgenticRag.Ingestion

import AgenticRag.Python.Dict
import AgenticRag.Python.Utf8Codec
import AgenticRag.Services.Intake
import AgenticRag.Services.Pipeline

/-! The parsers of stored files and their registry, which goes by the media type and the extension
that the upload was accepted with. -/
namespace AgenticRag.Services
open Lib Python Db Ingestion Security

/-- `DocumentParser`: what it supports and how it parses. -/
structure DocumentParser where
  supportedMediaTypes : List String
  supportedExtensions : List Str
  parse : Bytes → Except ParseError ParsedDocument

/-- `content.decode("utf-8-sig", errors="strict")`. -/
def decodeUtf8Sig (content : Bytes) : Option Str :=
  decodeUtf8 (if [0xEF, 0xBB, 0xBF].isPrefixOf content then content.drop 3 else content)

namespace Utf8TextDocumentParser

/-- `Utf8TextDocumentParser.parse`. -/
def parse (content : Bytes) : Except ParseError ParsedDocument :=
  match decodeUtf8Sig content with
  | none => .error .invalidTextEncoding
  | some text =>
    if strip text = [] then .error .emptyDocument
    else .ok ⟨[⟨text, none, ParsedSection.unnumbered⟩]⟩

/-- `Utf8TextDocumentParser(...)`. -/
def make (mediaTypes : List String) (extensions : List Str) : Except ParseError DocumentParser :=
  if mediaTypes = [] ∨ extensions = [] then .error .value
  else .ok ⟨mediaTypes.dedup, (extensions.map (·.map lowerCharacter)).dedup, parse⟩

end Utf8TextDocumentParser

def pdfDocumentParser (readerFactory : Bytes → Except PdfError PdfReader) : DocumentParser where
  supportedMediaTypes := ["application/pdf"]
  supportedExtensions := [str ".pdf"]
  parse := PdfDocumentParser.parse readerFactory

structure DocumentParserRegistry where
  parsers : Dict (String × Str) DocumentParser

namespace DocumentParserRegistry

/-- The loops of the constructor for one parser. -/
def register (parserMap : Dict (String × Str) DocumentParser) (parser : DocumentParser) :
    Except ParseError (Dict (String × Str) DocumentParser) :=
  parser.supportedMediaTypes.foldlM (fun parserMap mediaType =>
    parser.supportedExtensions.foldlM (fun parserMap extension =>
      if (mediaType, extension) ∈ parserMap.keys then .error .value
      else .ok (parserMap.set (mediaType, extension) parser)) parserMap) parserMap

/-- `DocumentParserRegistry(...)`. -/
def make (parsers : List DocumentParser) : Except ParseError DocumentParserRegistry := do
  let parserMap ← parsers.foldlM register .empty
  if parserMap.items = [] then throw .value
  return ⟨parserMap⟩

/-- `PurePath(filename).suffix.lower()`. -/
def extensionOf (filename : Str) : Str := (purePathSuffix filename).map lowerCharacter

def parse (registry : DocumentParserRegistry) (artifact : DocumentArtifact) :
    Except ParseError ParsedDocument :=
  match registry.parsers.get? (artifact.mediaType, extensionOf artifact.filename) with
  | none => .error .unsupportedDocumentType
  | some parser => parser.parse artifact.content

end DocumentParserRegistry

/-- `create_default_parser_registry`. -/
def createDefaultParserRegistry (readerFactory : Bytes → Except PdfError PdfReader) :
    Except ParseError DocumentParserRegistry := do
  let plain ← Utf8TextDocumentParser.make ["text/plain"] [str ".txt"]
  let markdown ← Utf8TextDocumentParser.make ["text/markdown"] [str ".md", str ".markdown"]
  DocumentParserRegistry.make [plain, markdown, pdfDocumentParser readerFactory]

section Default
variable {readerFactory : Bytes → Except PdfError PdfReader}

/-- What a stored file is parsed with. -/
inductive StoredKind where
  | text | pdf
  deriving DecidableEq

/-- The kind of a file by its media type and its extension. -/
def storedKind (mediaType : String) (extension : Str) : Option StoredKind :=
  if (mediaType, extension) = ("text/plain", str ".txt") then some .text
  else if (mediaType, extension) = ("text/markdown", str ".md") then some .text
  else if (mediaType, extension) = ("text/markdown", str ".markdown") then some .text
  else if (mediaType, extension) = ("application/pdf", str ".pdf") then some .pdf
  else none

def StoredKind.parse (readerFactory : Bytes → Except PdfError PdfReader) : StoredKind → Bytes →
    Except ParseError ParsedDocument
  | .text => Utf8TextDocumentParser.parse
  | .pdf => PdfDocumentParser.parse readerFactory

/-- The parsers of the default registry, by what they are registered for. -/
private theorem createDefaultParserRegistry_items (readerFactory : Bytes → Except PdfError PdfReader) :
    ∃ registry, createDefaultParserRegistry readerFactory = .ok registry ∧ registry.parsers.items =
      [(("text/plain", str ".txt"), ⟨["text/plain"], [str ".txt"], Utf8TextDocumentParser.parse⟩),
        (("text/markdown", str ".md"),
          ⟨["text/markdown"], [str ".md", str ".markdown"], Utf8TextDocumentParser.parse⟩),
        (("text/markdown", str ".markdown"),
          ⟨["text/markdown"], [str ".md", str ".markdown"], Utf8TextDocumentParser.parse⟩),
        (("application/pdf", str ".pdf"), pdfDocumentParser readerFactory)] := ⟨_, rfl, rfl⟩

/-- The default registry exists, and parses the kinds of files that intake accepts and no other. -/
theorem createDefaultParserRegistry_ok (readerFactory : Bytes → Except PdfError PdfReader) :
    ∃ registry, createDefaultParserRegistry readerFactory = .ok registry ∧ ∀ artifact,
      registry.parse artifact =
        match storedKind artifact.mediaType (DocumentParserRegistry.extensionOf artifact.filename) with
        | none => .error .unsupportedDocumentType
        | some kind => kind.parse readerFactory artifact.content := by
  obtain ⟨registry, hregistry, hitems⟩ := createDefaultParserRegistry_items readerFactory
  refine ⟨registry, hregistry, fun artifact => ?_⟩
  unfold DocumentParserRegistry.parse Dict.get? storedKind
  rw [hitems]
  generalize (artifact.mediaType, DocumentParserRegistry.extensionOf artifact.filename) = key
  simp only [List.find?_cons, List.find?_nil, @eq_comm _ _ key]
  split_ifs <;> simp_all [StoredKind.parse, pdfDocumentParser]

end Default
end AgenticRag.Services

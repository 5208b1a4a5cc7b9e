import AgenticRag.Db.Repositories
import AgenticRag.Ingestion.Chunking
import AgenticRag.Security.Authorization

/-! The parts of the upload use case: filename and content checks, the stored file and the
transactions on document and job rows. -/
namespace AgenticRag.Services
open Lib Python Db Ingestion Security

def slash : CodePoint := ord '/'
def backslash : CodePoint := ⟨0x5C, by decide⟩

/-- `_ALLOWED_UPLOADS.get(media_type)`. -/
def allowedUploads (mediaType : String) : Option (List Str) :=
  if mediaType = "application/pdf" then some [str ".pdf"]
  else if mediaType = "text/markdown" then some [str ".md", str ".markdown"]
  else if mediaType = "text/plain" then some [str ".txt"]
  else none

/-- `PurePath(s).name`: the last part, empty parts and `.` left out. -/
def purePathName (s : Str) : Str :=
  ((s.splitOn slash).filter fun part => part ≠ [] ∧ part ≠ str ".").getLast?.getD []

/-- `PurePath(s).suffix`. -/
def purePathSuffix (s : Str) : Str :=
  let name := purePathName s
  let i := rfind name (str ".") 0 name.length
  if 0 < i ∧ i < (name.length : Int) - 1 then name.drop i.toNat else []

/-- `str.lower` of one character, as far as the result is ASCII: the capitals and the Kelvin
sign. No other character lowers to ASCII, and the result is compared with ASCII only. -/
def lowerCharacter (c : CodePoint) : CodePoint :=
  if h : 0x41 ≤ c.val ∧ c.val ≤ 0x5A then ⟨c.val + 0x20, by omega⟩
  else if c.val = 0x212A then ord 'k' else c

/-- `_validate_upload_metadata`. -/
def validateUploadMetadata (filename : Str) (mediaType : String) : Except AppException Str :=
  if filename = [] ∨ filename = str "." ∨ filename = str ".." ∨ ⟨0, by decide⟩ ∈ filename ∨
      purePathName filename ≠ filename ∨ slash ∈ filename ∨ backslash ∈ filename then
    .error (.invalidUpload "The uploaded filename is unsafe.")
  else if filename.length > 255 then
    .error (.invalidUpload "The uploaded filename is too long.")
  else
    let extension := (purePathSuffix filename).map lowerCharacter
    match allowedUploads mediaType with
    | none => .error .unsupportedMediaType
    | some allowed => if extension ∈ allowed then .ok extension else .error .unsupportedMediaType

/-- `f"{knowledge_base_id}/{document_id}{extension}"`. -/
def storageKey (knowledgeBaseId documentId : UUID) (extension : Str) : Str :=
  UUID.str knowledgeBaseId ++ slash :: (UUID.str documentId ++ extension)

theorem storageKey_injective {kb kb' d d' : UUID} {e e' : Str}
    (h : storageKey kb d e = storageKey kb' d' e') : kb = kb' ∧ d = d' ∧ e = e' := by
  obtain ⟨hkb, hrest⟩ := List.append_inj h (by rw [UUID.str_length, UUID.str_length])
  obtain ⟨hd, he⟩ := List.append_inj (List.cons.inj hrest).2 (by rw [UUID.str_length, UUID.str_length])
  exact ⟨UUID.str_injective hkb, UUID.str_injective hd, he⟩

structure StoredFile where
  storageKey : Str
  sizeBytes : Nat
  sha256 : Str
  prefixBytes : List UInt8
  deriving DecidableEq

inductive StoreError where
  | emptyFile | fileTooLarge | storage | os
  deriving DecidableEq

def prefixSize : Nat := 4096

/-- The read loop of `store`, over what the reads of the source return; an empty read ends it. -/
def readSource (maxBytes : Nat) : List UInt8 → List UInt8 → List (List UInt8) →
    Except StoreError (List UInt8 × List UInt8)
  | content, prefixBytes, [] =>
    if content = [] then .error .emptyFile else .ok (content, prefixBytes)
  | content, prefixBytes, chunk :: reads =>
    if chunk = [] then (if content = [] then .error .emptyFile else .ok (content, prefixBytes))
    else if content.length + chunk.length > maxBytes then .error .fileTooLarge
    else readSource maxBytes (content ++ chunk)
      (if prefixBytes.length < prefixSize then
        prefixBytes ++ chunk.take (prefixSize - prefixBytes.length) else prefixBytes) reads

/-- `store`: the bytes it publishes under the key, and what it reports of them. -/
def store (sha256 : Sha256) (maxBytes : Nat) (key : Str) (source : List (List UInt8)) :
    Except StoreError (List UInt8 × StoredFile) :=
  (readSource maxBytes [] [] source).map fun (content, prefixBytes) =>
    (content, ⟨key, content.length, hexdigest sha256 content, prefixBytes⟩)

/-- The handlers of `_store_upload`. -/
def StoreError.exception : StoreError → AppException
  | .emptyFile => .invalidUpload "The uploaded file is empty."
  | .fileTooLarge => .uploadTooLarge
  | .storage | .os => .serviceUnavailable "File storage is temporarily unavailable."

/-- `_validate_content`. -/
def validateContent (mediaType : String) (stored : StoredFile) : Except AppException Unit :=
  if mediaType = "application/pdf" ∧ ¬[0x25, 0x50, 0x44, 0x46, 0x2D].isPrefixOf stored.prefixBytes then
    .error (.invalidUpload "The uploaded PDF signature is invalid.")
  else if (mediaType = "text/markdown" ∨ mediaType = "text/plain") ∧ 0 ∈ stored.prefixBytes then
    .error (.invalidUpload "The uploaded text file contains binary data.")
  else .ok ()

/-- The transaction that authorizes an upload, at its start and inside the later ones. -/
def authorizeUpload (db : Database) (knowledgeBaseId userId : UUID) : Except AppException Unit :=
  match getUploadTargetForUser db knowledgeBaseId userId with
  | none => .error (.notFound "Knowledge base was not found.")
  | some (_, role) => requireCapability (some role) .documentUpload

structure UploadResult where
  document : Document
  job : IngestionJob
  duplicate : Bool
  deriving DecidableEq

/-- The rows `_persist_upload` adds. -/
def uploadedDocument (documentId knowledgeBaseId : UUID) (filename : Str) (mediaType : String)
    (stored : StoredFile) (createdAt : Time) : Document where
  id := documentId
  knowledgeBaseId := knowledgeBaseId
  originalFilename := filename
  mediaType := mediaType
  sizeBytes := stored.sizeBytes
  sha256 := stored.sha256
  storageKey := stored.storageKey
  status := .pending
  createdAt := createdAt

/-- The two inserts of `_persist_upload`. -/
def insertUpload (db : Database) (document : Document) (jobId : UUID) :
    Except RepositoryError (IngestionJob × Database) := do
  let job := IngestionJob.new jobId document.id document.createdAt
  let db ← addAuthorizedUpload db document
  let db ← addForAuthorizedUpload db job
  return (job, db)

/-- The lookup of `_persist_upload`: a duplicate, or `none` when the rows are to be added. -/
def findDuplicate (db : Database) (knowledgeBaseId : UUID) (sha256 : Str) (userId : UUID) :
    Except AppException (Option UploadResult) := do
  authorizeUpload db knowledgeBaseId userId
  match getByDigestForUser db knowledgeBaseId sha256 userId with
  | none => return none
  | some (existing, job, role) => do
    requireCapability (some role) .documentUpload
    match job with
    | none => throw (.conflict "Existing document has no ingestion job.")
    | some job => return some ⟨existing, job, true⟩

/-- `_resolve_concurrent_duplicate`. -/
def resolveConcurrentDuplicate (db : Database) (knowledgeBaseId : UUID) (sha256 : Str)
    (userId : UUID) : Except AppException UploadResult := do
  authorizeUpload db knowledgeBaseId userId
  match getByDigestForUser db knowledgeBaseId sha256 userId with
  | none => throw (.conflict "The document could not be stored due to a concurrent conflict.")
  | some (existing, job, role) => do
    requireCapability (some role) .documentUpload
    match job with
    | none => throw (.conflict "The document could not be stored due to a concurrent conflict.")
    | some job => return ⟨existing, job, true⟩

section Specifications
variable {db db' : Database}

/-- What an upload that commits adds: one document and its job, both under fresh keys. -/
theorem insertUpload_ok {document : Document} {jobId : UUID} {job : IngestionJob}
    (h : insertUpload db document jobId = .ok (job, db')) :
    job = IngestionJob.new jobId document.id document.createdAt ∧
      (∀ d ∈ db.documents,
        ¬(d.knowledgeBaseId = document.knowledgeBaseId ∧ d.sha256 = document.sha256) ∧
          d.storageKey ≠ document.storageKey) ∧
      (∀ j ∈ db.ingestionJobs, j.documentId ≠ document.id) ∧
      db.documents.insert? document = some db'.documents ∧
      db.ingestionJobs.insert? job = some db'.ingestionJobs ∧
      db' = { db with documents := db'.documents, ingestionJobs := db'.ingestionJobs } := by
  unfold insertUpload at h
  obtain ⟨mid, hmid, h⟩ := bind_eq_ok.mp h
  obtain ⟨last, hlast, h⟩ := bind_eq_ok.mp h
  simp only [pure, Except.pure, Except.ok.injEq, Prod.mk.injEq] at h
  obtain ⟨rfl, rfl⟩ := h
  obtain ⟨hunique, hdoc, hmid⟩ := addAuthorizedUpload_ok hmid
  obtain ⟨hjobs, _, hjob, hlast⟩ := addForAuthorizedUpload_ok hlast
  have hdocs : last.documents = mid.documents := by rw [hlast]
  rw [hmid] at hjobs hjob hlast
  rw [hdocs]
  exact ⟨rfl, hunique, hjobs, hdoc, hjob, hlast⟩

end Specifications
end AgenticRag.Services

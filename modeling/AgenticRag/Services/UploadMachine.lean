import AgenticRag.Lib.Machine
import AgenticRag.Services.Intake
import Mathlib.Logic.Function.Basic

/-! `upload_document` calls of any number of users, step by step: each transaction, each deletion
and the publication of a file is a step of its own. The lookup of a duplicate and what follows
it are steps apart, which allows more orders than the transaction they share. -/
namespace AgenticRag.Services
open Lib Python Db Ingestion Security

structure UploadRequest where
  userId : UUID
  knowledgeBaseId : UUID
  filename : Str
  mediaType : String
  source : List (List UInt8)
  deriving DecidableEq

/-- The bytes of a source: an empty read ends it. -/
def UploadRequest.bytes (request : UploadRequest) : List UInt8 :=
  (request.source.takeWhile fun chunk => chunk ≠ []).flatten

/-- What a call raises: an error of its own, a database error on its way through, or another. -/
inductive UploadRaised where
  | app (error : AppException)
  | database
  | unexpected
  deriving DecidableEq

abbrev UploadOutcome := Except UploadRaised UploadResult

/-- What comes next in a call that has generated its storage key. -/
inductive OwnedStage where
  | store
  | lookup (stored : StoredFile)
  | deleteDuplicate (stored : StoredFile) (result : UploadResult)
  | commitDuplicate (stored : StoredFile) (result : UploadResult)
  | insert (stored : StoredFile)
  | deleteConflict (stored : StoredFile)
  | resolve (stored : StoredFile)
  | cleanup (raised : UploadRaised)
  | done (outcome : UploadOutcome)

def OwnedStage.finished : OwnedStage → Bool
  | .done _ => true
  | _ => false

inductive UploadStage where
  | authorize (extension : Str)
  | raised (error : UploadRaised)
  | owned (documentId : UUID) (key : Str) (stage : OwnedStage)

structure UploadCall where
  request : UploadRequest
  stage : UploadStage

/-- The rows, the stored files, the calls, the document ids generated so far, and for each
committed Document row the call and its key. -/
structure UploadState where
  db : Database
  files : Str → Option (List UInt8)
  calls : Nat → Option UploadCall
  issued : List UUID
  commits : List (Nat × Str)

def UploadState.init (db : Database) : UploadState := ⟨db, fun _ => none, fun _ => none, [], []⟩

def UploadState.withCall (s : UploadState) (id : Nat) (request : UploadRequest)
    (stage : UploadStage) : UploadState :=
  { s with calls := Function.update s.calls id (some ⟨request, stage⟩) }

/-- `storage.delete`. -/
def UploadState.delete (s : UploadState) (key : Str) : UploadState :=
  { s with files := Function.update s.files key none }

/-- How a step fails: a uniqueness conflict, another database error, the storage, or anything. -/
inductive StepError where
  | integrity
  | sqlAlchemy
  | storage (error : StoreError)
  | other
  deriving DecidableEq

/-- The columns that identify an upload. -/
def Document.uploadColumns (d : Document) : UUID × UUID × Nat × Str × Str :=
  (d.id, d.knowledgeBaseId, d.sizeBytes, d.sha256, d.storageKey)

/-- Uploads and their jobs are the same rows; status, leases and all other tables may differ. -/
def SameUploads (db db' : Database) : Prop :=
  db'.documents.rows.map Document.uploadColumns = db.documents.rows.map Document.uploadColumns ∧
    db'.ingestionJobs.rows.map (fun j => (j.id, j.documentId)) =
      db.ingestionJobs.rows.map fun j => (j.id, j.documentId)

instance (db db' : Database) : Decidable (SameUploads db db') := by
  unfold SameUploads
  infer_instance

inductive UploadAction where
  | start (id : Nat) (request : UploadRequest)
  | authorize (id : Nat) (documentId : UUID)
  | next (id : Nat) (jobId : UUID) (createdAt : Time)
  | fail (id : Nat) (error : StepError)
  | elsewhere (db : Database)

section Machine
variable (sha256 : Sha256) (maxUploadSizeBytes : Nat)

/-- One step of call `id` once its key is generated. -/
def ownedStep (s : UploadState) (id : Nat) (request : UploadRequest) (documentId : UUID) (key : Str)
    (jobId : UUID) (createdAt : Time) : OwnedStage → Option (UploadState × OwnedStage)
  | .store =>
    match store sha256 maxUploadSizeBytes key request.source with
    | .error e => some (s, .done (.error (.app e.exception)))
    | .ok (content, stored) =>
      some ({ s with files := Function.update s.files key (some content) },
        match validateContent request.mediaType stored with
        | .ok () => .lookup stored
        | .error e => .cleanup (.app e))
  | .lookup stored =>
    match findDuplicate s.db request.knowledgeBaseId stored.sha256 request.userId with
    | .error e => some (s, .cleanup (.app e))
    | .ok (some result) => some (s, .deleteDuplicate stored result)
    | .ok none => some (s, .insert stored)
  | .deleteDuplicate stored result =>
    some (s.delete stored.storageKey, .commitDuplicate stored result)
  | .commitDuplicate _ result => some (s, .done (.ok result))
  | .insert stored =>
    let document := uploadedDocument documentId request.knowledgeBaseId request.filename
      request.mediaType stored createdAt
    match insertUpload s.db document jobId with
    | .ok (job, db) => some ({ s with db, commits := (id, stored.storageKey) :: s.commits },
        .done (.ok ⟨document, job, false⟩))
    | .error _ => some (s, .deleteConflict stored)
  | .deleteConflict stored => some (s.delete stored.storageKey, .resolve stored)
  | .resolve stored =>
    match resolveConcurrentDuplicate s.db request.knowledgeBaseId stored.sha256 request.userId with
    | .ok result => some (s, .done (.ok result))
    | .error e => some (s, .cleanup (.app e))
  | .cleanup raised => some (s.delete key, .done (.error raised))
  | .done _ => none

/-- The handlers around the transaction of `_persist_upload`. -/
def persistFailed (stored : StoredFile) : StepError → Option OwnedStage
  | .integrity => some (.deleteConflict stored)
  | .sqlAlchemy => some (.cleanup (.app (.serviceUnavailable "Database is temporarily unavailable.")))
  | .storage _ => none
  | .other => some (.cleanup .unexpected)

/-- A step that raises without effect. A deletion does not fail. -/
def ownedFail : OwnedStage → StepError → Option OwnedStage
  | .store, .storage e => some (.done (.error (.app e.exception)))
  | .store, .other => some (.done (.error .unexpected))
  | .lookup stored, e | .commitDuplicate stored _, e | .insert stored, e => persistFailed stored e
  | .resolve _, .integrity | .resolve _, .sqlAlchemy => some (.cleanup .database)
  | .resolve _, .other => some (.cleanup .unexpected)
  | _, _ => none

def uploadStep (s : UploadState) : UploadAction → Option UploadState
  | .start id request =>
    if (s.calls id).isSome then none
    else match validateUploadMetadata request.filename request.mediaType with
      | .ok extension => some (s.withCall id request (.authorize extension))
      | .error e => some (s.withCall id request (.raised (.app e)))
  | .authorize id documentId =>
    match s.calls id with
    | some ⟨request, .authorize extension⟩ =>
      match authorizeUpload s.db request.knowledgeBaseId request.userId with
      | .error e => some (s.withCall id request (.raised (.app e)))
      | .ok () =>
        if documentId ∈ s.issued then none
        else some ({ s with issued := documentId :: s.issued }.withCall id request
          (.owned documentId (storageKey request.knowledgeBaseId documentId extension) .store))
    | _ => none
  | .next id jobId createdAt =>
    match s.calls id with
    | some ⟨request, .owned documentId key stage⟩ =>
      (ownedStep sha256 maxUploadSizeBytes s id request documentId key jobId createdAt stage).map
        fun (t, stage') => t.withCall id request (.owned documentId key stage')
    | _ => none
  | .fail id error =>
    match s.calls id with
    | some ⟨request, .authorize _⟩ =>
      match error with
      | .integrity | .sqlAlchemy => some (s.withCall id request (.raised .database))
      | .other => some (s.withCall id request (.raised .unexpected))
      | .storage _ => none
    | some ⟨request, .owned documentId key stage⟩ =>
      (ownedFail stage error).map fun stage' => s.withCall id request (.owned documentId key stage')
    | _ => none
  | .elsewhere db => if SameUploads s.db db then some { s with db } else none

def uploads : Machine UploadState UploadAction := ⟨uploadStep sha256 maxUploadSizeBytes⟩

end Machine

section Specifications
variable {sha256 : Sha256} {maxBytes : Nat} {db : Database}

private theorem readSource_ok {reads : List (List UInt8)} {content prefixBytes : List UInt8}
    {out : List UInt8 × List UInt8} (h : readSource maxBytes content prefixBytes reads = .ok out) :
    out.1 = content ++ (reads.takeWhile fun chunk => chunk ≠ []).flatten := by
  induction reads generalizing content prefixBytes with
  | nil =>
    rw [readSource] at h
    split at h
    · cases h
    · obtain rfl := Except.ok.inj h
      exact (List.append_nil content).symm
  | cons chunk reads ih =>
    rw [readSource] at h
    split at h
    · rename_i hnil
      split at h
      · cases h
      · obtain rfl := Except.ok.inj h
        simp [hnil]
    · rename_i hne
      split at h
      · cases h
      · rw [ih h]
        simp [hne]

/-- A published file holds the bytes of the source, and its metadata is theirs. -/
theorem store_ok {key : Str} {request : UploadRequest} {content : List UInt8} {stored : StoredFile}
    (h : store sha256 maxBytes key request.source = .ok (content, stored)) :
    content = request.bytes ∧ stored.storageKey = key ∧ stored.sizeBytes = request.bytes.length ∧
      stored.sha256 = hexdigest sha256 request.bytes := by
  unfold store at h
  cases hr : readSource maxBytes [] [] request.source with
  | error e =>
    rw [hr] at h
    cases h
  | ok out =>
    rw [hr] at h
    simp only [Except.map, Except.ok.injEq, Prod.mk.injEq] at h
    obtain ⟨rfl, rfl⟩ := h
    have hout := readSource_ok hr
    rw [List.nil_append] at hout
    refine ⟨hout, rfl, ?_, ?_⟩
    · rw [hout]
      rfl
    · rw [hout]
      rfl

private theorem getByDigestForUser_some {knowledgeBaseId userId : UUID} {digest : Str}
    {document : Document} {job : Option IngestionJob} {role : KnowledgeBaseRole}
    (h : getByDigestForUser db knowledgeBaseId digest userId = some (document, job, role)) :
    document ∈ db.documents ∧ document.knowledgeBaseId = knowledgeBaseId ∧
      document.sha256 = digest := by
  simp only [getByDigestForUser, bind, Option.bind_eq_some_iff, pure, Option.some.injEq,
    Prod.mk.injEq] at h
  obtain ⟨document', hfind, _, _, _, _, rfl, _⟩ := h
  have hpair := List.find?_some hfind
  obtain ⟨hkb, hsha⟩ := of_decide_eq_true hpair
  exact ⟨List.mem_of_find?_eq_some hfind, hkb, hsha⟩

/-- A duplicate found is a committed row of the same knowledge base and digest. -/
structure DuplicateOf (db : Database) (knowledgeBaseId : UUID) (digest : Str)
    (result : UploadResult) : Prop where
  document : result.document ∈ db.documents
  knowledgeBaseId : result.document.knowledgeBaseId = knowledgeBaseId
  sha256 : result.document.sha256 = digest
  duplicate : result.duplicate = true

theorem findDuplicate_some {knowledgeBaseId userId : UUID} {digest : Str} {result : UploadResult}
    (h : findDuplicate db knowledgeBaseId digest userId = .ok (some result)) :
    DuplicateOf db knowledgeBaseId digest result := by
  obtain ⟨_, _, h⟩ := bind_eq_ok.mp h
  split at h
  · cases h
  · rename_i hfound
    obtain ⟨hmem, hkb, hsha⟩ := getByDigestForUser_some hfound
    obtain ⟨_, _, h⟩ := bind_eq_ok.mp h
    split at h
    · cases h
    · obtain rfl := Option.some.inj (Except.ok.inj h)
      exact ⟨hmem, hkb, hsha, rfl⟩

theorem resolveConcurrentDuplicate_ok {knowledgeBaseId userId : UUID} {digest : Str}
    {result : UploadResult}
    (h : resolveConcurrentDuplicate db knowledgeBaseId digest userId = .ok result) :
    DuplicateOf db knowledgeBaseId digest result := by
  obtain ⟨_, _, h⟩ := bind_eq_ok.mp h
  split at h
  · cases h
  · rename_i hfound
    obtain ⟨hmem, hkb, hsha⟩ := getByDigestForUser_some hfound
    obtain ⟨_, _, h⟩ := bind_eq_ok.mp h
    split at h
    · cases h
    · obtain rfl := Except.ok.inj h
      exact ⟨hmem, hkb, hsha, rfl⟩

end Specifications

end AgenticRag.Services

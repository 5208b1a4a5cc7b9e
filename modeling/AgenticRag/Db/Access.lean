import AgenticRag.Lib.Query
import AgenticRag.Db.Repositories

/-! The statements that reach a knowledge base, a document or a job through a membership of
the caller, with their pages. -/
namespace AgenticRag.Db
open Lib Python

/-- The `SQLAlchemyError` of a statement: more rows than one, or a page that is none. -/
inductive StatementError where
  | multipleResults | invalidPage
  deriving DecidableEq

def integerMax : Int := 2147483647

/-- `LIMIT` and `OFFSET`, two parameters of type INTEGER that PostgreSQL wants nonnegative. -/
def page {α : Type} (limit offset : Int) (rows : List α) : Except StatementError (List α) :=
  if 0 ≤ limit ∧ limit ≤ integerMax ∧ 0 ≤ offset ∧ offset ≤ integerMax then
    .ok ((rows.drop offset.toNat).take limit.toNat)
  else .error .invalidPage

section Rows
variable (db : Database) (userId : UUID)

/-- The user is a member of the knowledge base. -/
def Database.IsMember (userId knowledgeBaseId : UUID) : Prop :=
  ∃ m ∈ db.memberships, m.knowledgeBaseId = knowledgeBaseId ∧ m.userId = userId

/-- The document is in a knowledge base of the user. -/
def Database.Owns (userId documentId : UUID) : Prop :=
  ∃ d ∈ db.documents, d.id = documentId ∧ db.IsMember userId d.knowledgeBaseId

/-- Knowledge bases joined to the memberships of a user. -/
def knowledgeBaseRows (condition : KnowledgeBase → Bool) :
    List (KnowledgeBase × KnowledgeBaseMembership) :=
  (join db.knowledgeBases.rows db.memberships.rows fun knowledgeBase membership =>
      membership.knowledgeBaseId == knowledgeBase.id).filter
    fun (knowledgeBase, membership) => condition knowledgeBase && membership.userId == userId

/-- Documents joined to their knowledge bases and these to the memberships of a user. -/
def documentRows (condition : Document → Bool) :
    List ((Document × KnowledgeBase) × KnowledgeBaseMembership) :=
  let knowledgeBases := join db.documents.rows db.knowledgeBases.rows fun document knowledgeBase =>
    knowledgeBase.id == document.knowledgeBaseId
  (join knowledgeBases db.memberships.rows fun (_, knowledgeBase) membership =>
      membership.knowledgeBaseId == knowledgeBase.id).filter
    fun ((document, _), membership) => condition document && membership.userId == userId

/-- Jobs joined to their documents, these to their knowledge bases and these to the
memberships of a user. -/
def jobRows (condition : IngestionJob → Bool) :
    List (((IngestionJob × Document) × KnowledgeBase) × KnowledgeBaseMembership) :=
  let documents := join db.ingestionJobs.rows db.documents.rows fun job document =>
    document.id == job.documentId
  let knowledgeBases := join documents db.knowledgeBases.rows fun (_, document) knowledgeBase =>
    knowledgeBase.id == document.knowledgeBaseId
  (join knowledgeBases db.memberships.rows fun (_, knowledgeBase) membership =>
      membership.knowledgeBaseId == knowledgeBase.id).filter
    fun (((job, _), _), membership) => condition job && membership.userId == userId

/-- `selectinload(Document.ingestion_job)`, one job a document. -/
def loadIngestionJob (document : Document) : Option IngestionJob :=
  db.ingestionJobs.rows.find? fun job => job.documentId = document.id

namespace KnowledgeBaseRepository

/-- `get_for_user`. -/
def getForUser (knowledgeBaseId : UUID) :
    Except StatementError (Option (KnowledgeBase × KnowledgeBaseRole)) :=
  oneOrNone .multipleResults ((knowledgeBaseRows db userId fun k => k.id == knowledgeBaseId).map
    fun (knowledgeBase, membership) => (knowledgeBase, membership.role))

/-- `ORDER BY created_at, id`. -/
def listKey (row : KnowledgeBase × KnowledgeBaseMembership) : Time ×ₗ UUID :=
  toLex (row.1.createdAt, row.1.id)

/-- `list_for_user`. -/
def listForUser (limit offset : Int) :
    Except StatementError (List (KnowledgeBase × KnowledgeBaseRole)) :=
  (page limit offset (orderBy listKey (knowledgeBaseRows db userId fun _ => true))).map
    (·.map fun (knowledgeBase, membership) => (knowledgeBase, membership.role))

end KnowledgeBaseRepository

namespace DocumentRepository

/-- `get_for_user`, the document's job loaded with it. -/
def getForUser (documentId : UUID) :
    Except StatementError (Option (Document × Option IngestionJob × KnowledgeBaseRole)) :=
  oneOrNone .multipleResults ((documentRows db userId fun d => d.id == documentId).map
    fun ((document, _), membership) => (document, loadIngestionJob db document, membership.role))

/-- `ORDER BY created_at, id`. -/
def listKey (row : (Document × KnowledgeBase) × KnowledgeBaseMembership) : Time ×ₗ UUID :=
  toLex (row.1.1.createdAt, row.1.1.id)

/-- `list_for_knowledge_base_for_user`. -/
def listForKnowledgeBaseForUser (knowledgeBaseId : UUID) (limit offset : Int) :
    Except StatementError (List (Document × KnowledgeBaseRole)) :=
  (page limit offset (orderBy listKey
    (documentRows db userId fun d => d.knowledgeBaseId == knowledgeBaseId))).map
      (·.map fun ((document, _), membership) => (document, membership.role))

end DocumentRepository

namespace IngestionJobRepository

/-- `get_for_user`, the job's document loaded with it. -/
def getForUser (jobId : UUID) :
    Except StatementError (Option (IngestionJob × Document × KnowledgeBaseRole)) :=
  oneOrNone .multipleResults ((jobRows db userId fun j => j.id == jobId).map
    fun (((job, document), _), membership) => (job, document, membership.role))

end IngestionJobRepository
end Rows

section Specifications
variable {db : Database} {userId : UUID}

theorem mem_knowledgeBaseRows {condition : KnowledgeBase → Bool} {knowledgeBase : KnowledgeBase}
    {membership : KnowledgeBaseMembership} :
    (knowledgeBase, membership) ∈ knowledgeBaseRows db userId condition ↔
      knowledgeBase ∈ db.knowledgeBases ∧ membership ∈ db.memberships ∧
        membership.knowledgeBaseId = knowledgeBase.id ∧ condition knowledgeBase = true ∧
        membership.userId = userId := by
  simp only [knowledgeBaseRows, List.mem_filter, mem_join, Table.mem_rows, beq_iff_eq,
    Bool.and_eq_true, and_assoc]

theorem mem_documentRows {condition : Document → Bool} {document : Document}
    {knowledgeBase : KnowledgeBase} {membership : KnowledgeBaseMembership} :
    ((document, knowledgeBase), membership) ∈ documentRows db userId condition ↔
      document ∈ db.documents ∧ knowledgeBase ∈ db.knowledgeBases ∧
        knowledgeBase.id = document.knowledgeBaseId ∧ membership ∈ db.memberships ∧
        membership.knowledgeBaseId = knowledgeBase.id ∧ condition document = true ∧
        membership.userId = userId := by
  simp only [documentRows, List.mem_filter, mem_join, Table.mem_rows, beq_iff_eq,
    Bool.and_eq_true, and_assoc]

theorem mem_jobRows {condition : IngestionJob → Bool} {job : IngestionJob} {document : Document}
    {knowledgeBase : KnowledgeBase} {membership : KnowledgeBaseMembership} :
    (((job, document), knowledgeBase), membership) ∈ jobRows db userId condition ↔
      job ∈ db.ingestionJobs ∧ document ∈ db.documents ∧ document.id = job.documentId ∧
        knowledgeBase ∈ db.knowledgeBases ∧ knowledgeBase.id = document.knowledgeBaseId ∧
        membership ∈ db.memberships ∧ membership.knowledgeBaseId = knowledgeBase.id ∧
        condition job = true ∧ membership.userId = userId := by
  simp only [jobRows, List.mem_filter, mem_join, Table.mem_rows, beq_iff_eq, Bool.and_eq_true,
    and_assoc]

theorem nodup_knowledgeBaseRows (condition : KnowledgeBase → Bool) :
    (knowledgeBaseRows db userId condition).Nodup :=
  (nodup_join db.knowledgeBases.nodup_rows db.memberships.nodup_rows).filter _

theorem nodup_documentRows (condition : Document → Bool) :
    (documentRows db userId condition).Nodup :=
  (nodup_join (nodup_join db.documents.nodup_rows db.knowledgeBases.nodup_rows)
    db.memberships.nodup_rows).filter _

theorem nodup_jobRows (condition : IngestionJob → Bool) : (jobRows db userId condition).Nodup :=
  (nodup_join (nodup_join (nodup_join db.ingestionJobs.nodup_rows db.documents.nodup_rows)
    db.knowledgeBases.nodup_rows) db.memberships.nodup_rows).filter _

/-- The knowledge base decides its row, and its place in a listing. -/
theorem knowledgeBaseRows_unique {condition : KnowledgeBase → Bool}
    {row row' : KnowledgeBase × KnowledgeBaseMembership}
    (h : row ∈ knowledgeBaseRows db userId condition)
    (h' : row' ∈ knowledgeBaseRows db userId condition)
    (hkey : KnowledgeBaseRepository.listKey row = KnowledgeBaseRepository.listKey row') :
    row = row' := by
  obtain ⟨k, m⟩ := row
  obtain ⟨k', m'⟩ := row'
  obtain ⟨hk, hm, hmk, _, hu⟩ := mem_knowledgeBaseRows.mp h
  obtain ⟨hk', hm', hmk', _, hu'⟩ := mem_knowledgeBaseRows.mp h'
  have hid : k.id = k'.id := (Prod.mk.inj (toLex.injective hkey)).2
  obtain rfl := Table.eq_of_key_eq hk hk' hid
  obtain rfl := Table.eq_of_key_eq hm hm' (Prod.ext (hmk.trans hmk'.symm) (hu.trans hu'.symm))
  rfl

theorem documentRows_unique {condition : Document → Bool}
    {row row' : (Document × KnowledgeBase) × KnowledgeBaseMembership}
    (h : row ∈ documentRows db userId condition) (h' : row' ∈ documentRows db userId condition)
    (hkey : DocumentRepository.listKey row = DocumentRepository.listKey row') : row = row' := by
  obtain ⟨⟨d, k⟩, m⟩ := row
  obtain ⟨⟨d', k'⟩, m'⟩ := row'
  obtain ⟨hd, hk, hdk, hm, hmk, _, hu⟩ := mem_documentRows.mp h
  obtain ⟨hd', hk', hdk', hm', hmk', _, hu'⟩ := mem_documentRows.mp h'
  have hid : d.id = d'.id := (Prod.mk.inj (toLex.injective hkey)).2
  obtain rfl := Table.eq_of_key_eq hd hd' hid
  obtain rfl := Table.eq_of_key_eq hk hk' (hdk.trans hdk'.symm)
  obtain rfl := Table.eq_of_key_eq hm hm' (Prod.ext (hmk.trans hmk'.symm) (hu.trans hu'.symm))
  rfl

/-- The upload target is the row that `get_for_user` selects. -/
theorem getUploadTargetForUser_eq_some {knowledgeBaseId : UUID} {knowledgeBase : KnowledgeBase}
    {role : KnowledgeBaseRole} :
    getUploadTargetForUser db knowledgeBaseId userId = some (knowledgeBase, role) ↔
      ∃ m, (knowledgeBase, m) ∈ knowledgeBaseRows db userId (fun k => k.id == knowledgeBaseId) ∧
        m.role = role := by
  simp only [getUploadTargetForUser, bind, pure, Option.bind_eq_some_iff, Option.some.injEq,
    Prod.mk.injEq, mem_knowledgeBaseRows, Database.membership?, Table.find?_eq_some,
    KnowledgeBaseMembership.key, beq_iff_eq]
  constructor
  · rintro ⟨_, ⟨hk, hid⟩, m, ⟨hm, hmk, hu⟩, rfl, hrole⟩
    exact ⟨m, ⟨hk, hm, hmk, hid, hu⟩, hrole⟩
  · rintro ⟨m, ⟨hk, hm, hmk, hid, hu⟩, hrole⟩
    exact ⟨_, ⟨hk, hid⟩, m, ⟨hm, hmk, hu⟩, rfl, hrole⟩

/-- The retry target is the row that `get_for_user` selects. -/
theorem getRetryTargetForUser_eq_some {jobId : UUID} {job : IngestionJob}
    {role : KnowledgeBaseRole} :
    getRetryTargetForUser db jobId userId = some (job, role) ↔
      ∃ d k m, (((job, d), k), m) ∈ jobRows db userId (fun j => j.id == jobId) ∧ m.role = role := by
  simp only [getRetryTargetForUser, bind, pure, Option.bind_eq_some_iff, Option.some.injEq,
    Prod.mk.injEq, mem_jobRows, Database.membership?, Table.find?_eq_some,
    KnowledgeBaseMembership.key, beq_iff_eq]
  constructor
  · rintro ⟨_, ⟨hj, hid⟩, d, ⟨hd, hdj⟩, k, ⟨hk, hkd⟩, m, ⟨hm, hmk, hu⟩, rfl, hrole⟩
    exact ⟨d, k, m, ⟨hj, hd, hdj, hk, hkd, hm, hmk, hid, hu⟩, hrole⟩
  · rintro ⟨d, k, m, ⟨hj, hd, hdj, hk, hkd, hm, hmk, hid, hu⟩, hrole⟩
    exact ⟨_, ⟨hj, hid⟩, d, ⟨hd, hdj⟩, k, ⟨hk, hkd⟩, m, ⟨hm, hmk, hu⟩, rfl, hrole⟩

/-- The unique constraints besides the primary keys that the statements rely on. -/
structure UniqueConstraints (db : Database) : Prop where
  digest : ∀ a ∈ db.documents, ∀ b ∈ db.documents, a.knowledgeBaseId = b.knowledgeBaseId →
    a.sha256 = b.sha256 → a = b
  document : ∀ a ∈ db.ingestionJobs, ∀ b ∈ db.ingestionJobs, a.documentId = b.documentId → a = b

theorem loadIngestionJob_eq_some (h : UniqueConstraints db) {document : Document}
    {job : IngestionJob} :
    loadIngestionJob db document = some job ↔ job ∈ db.ingestionJobs ∧ job.documentId = document.id := by
  rw [loadIngestionJob, find?_eq_some_iff, decide_eq_true_eq, Table.mem_rows]
  intro a ha b hb hpa hpb
  exact h.document a ha b hb ((of_decide_eq_true hpa).trans (of_decide_eq_true hpb).symm)

theorem getByDigestForUser_eq_some (h : UniqueConstraints db) {knowledgeBaseId : UUID} {sha256 : Str}
    {document : Document} {job : Option IngestionJob} {role : KnowledgeBaseRole} :
    getByDigestForUser db knowledgeBaseId sha256 userId = some (document, job, role) ↔
      (∃ k m, ((document, k), m) ∈ documentRows db userId
        (fun d => d.knowledgeBaseId == knowledgeBaseId && d.sha256 == sha256) ∧ m.role = role) ∧
          loadIngestionJob db document = job := by
  have hfind (d : Document) : (db.documents.rows.find? fun d =>
      d.knowledgeBaseId = knowledgeBaseId ∧ d.sha256 = sha256) = some d ↔
        d ∈ db.documents ∧ d.knowledgeBaseId = knowledgeBaseId ∧ d.sha256 = sha256 := by
    rw [find?_eq_some_iff, decide_eq_true_eq, Table.mem_rows]
    intro a ha b hb hpa hpb
    obtain ⟨hka, hsa⟩ := of_decide_eq_true hpa
    obtain ⟨hkb, hsb⟩ := of_decide_eq_true hpb
    exact h.digest a ha b hb (hka.trans hkb.symm) (hsa.trans hsb.symm)
  simp only [getByDigestForUser, bind, pure, Option.bind_eq_some_iff, Option.some.injEq,
    Prod.mk.injEq, hfind, mem_documentRows, Database.membership?, Table.find?_eq_some,
    KnowledgeBaseMembership.key, Bool.and_eq_true, beq_iff_eq]
  constructor
  · rintro ⟨_, ⟨hd, hkb, hsha⟩, k, ⟨hk, hdk⟩, m, ⟨hm, hmk, hu⟩, rfl, hjob, hrole⟩
    exact ⟨⟨k, m, ⟨hd, hk, hdk, hm, hmk, ⟨hkb, hsha⟩, hu⟩, hrole⟩, hjob⟩
  · rintro ⟨⟨k, m, ⟨hd, hk, hdk, hm, hmk, ⟨hkb, hsha⟩, hu⟩, hrole⟩, hjob⟩
    exact ⟨_, ⟨hd, hkb, hsha⟩, k, ⟨hk, hdk⟩, m, ⟨hm, hmk, hu⟩, rfl, hjob, hrole⟩

end Specifications
end AgenticRag.Db

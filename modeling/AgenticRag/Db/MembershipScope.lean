import AgenticRag.Db.Access

/-! Two database states that agree on the knowledge bases of a user: the statements that reach
rows through a membership of the user find the same rows in both. -/
namespace AgenticRag.Db
open Lib Python

/-- The states agree on the user's memberships, the knowledge bases these are of, and the
documents, jobs and chunks in them. -/
structure MembershipAgree (userId : UUID) (db db' : Database) : Prop where
  membership : ∀ m : KnowledgeBaseMembership, m.userId = userId →
    (m ∈ db.memberships ↔ m ∈ db'.memberships)
  knowledgeBase : ∀ k : KnowledgeBase, db.IsMember userId k.id →
    (k ∈ db.knowledgeBases ↔ k ∈ db'.knowledgeBases)
  document : ∀ d : Document, db.IsMember userId d.knowledgeBaseId →
    (d ∈ db.documents ↔ d ∈ db'.documents)
  job : ∀ j : IngestionJob, db.Owns userId j.documentId →
    (j ∈ db.ingestionJobs ↔ j ∈ db'.ingestionJobs)
  chunk : ∀ c : DocumentChunk, db.Owns userId c.documentId →
    (c ∈ db.documentChunks ↔ c ∈ db'.documentChunks)

/-- Nothing outside the knowledge bases of the user changes: no row is written, removed or added. -/
structure OutsideKept (userId : UUID) (db db' : Database) : Prop where
  users : db'.users = db.users
  userSessions : db'.userSessions = db.userSessions
  knowledgeBases : db'.knowledgeBases = db.knowledgeBases
  memberships : db'.memberships = db.memberships
  documentChunks : db'.documentChunks = db.documentChunks
  documents : ∀ d : Document, ¬db.IsMember userId d.knowledgeBaseId →
    (d ∈ db.documents ↔ d ∈ db'.documents)
  jobs_kept : ∀ j ∈ db.ingestionJobs, ¬db.Owns userId j.documentId → j ∈ db'.ingestionJobs
  jobs_added : ∀ j ∈ db'.ingestionJobs, ¬db'.Owns userId j.documentId → j ∈ db.ingestionJobs

theorem OutsideKept.refl (userId : UUID) (db : Database) : OutsideKept userId db db :=
  ⟨rfl, rfl, rfl, rfl, rfl, fun _ _ => Iff.rfl, fun _ hj _ => hj, fun _ hj _ => hj⟩

namespace MembershipAgree
variable {userId : UUID} {db db' : Database}

theorem isMember_iff (h : MembershipAgree userId db db') {knowledgeBaseId : UUID} :
    db.IsMember userId knowledgeBaseId ↔ db'.IsMember userId knowledgeBaseId := by
  constructor
  · rintro ⟨m, hm, hk, hu⟩
    exact ⟨m, (h.membership m hu).mp hm, hk, hu⟩
  · rintro ⟨m, hm, hk, hu⟩
    exact ⟨m, (h.membership m hu).mpr hm, hk, hu⟩

theorem owns_iff (h : MembershipAgree userId db db') {documentId : UUID} :
    db.Owns userId documentId ↔ db'.Owns userId documentId := by
  constructor
  · rintro ⟨d, hd, hid, hmember⟩
    exact ⟨d, (h.document d hmember).mp hd, hid, h.isMember_iff.mp hmember⟩
  · rintro ⟨d, hd, hid, hmember⟩
    have hmember := h.isMember_iff.mpr hmember
    exact ⟨d, (h.document d hmember).mpr hd, hid, hmember⟩

theorem symm (h : MembershipAgree userId db db') : MembershipAgree userId db' db where
  membership m hu := (h.membership m hu).symm
  knowledgeBase k hk := (h.knowledgeBase k (h.isMember_iff.mpr hk)).symm
  document d hd := (h.document d (h.isMember_iff.mpr hd)).symm
  job j hj := (h.job j (h.owns_iff.mpr hj)).symm
  chunk c hc := (h.chunk c (h.owns_iff.mpr hc)).symm

section Rows

private theorem knowledgeBaseRows_mp (h : MembershipAgree userId db db')
    {condition : KnowledgeBase → Bool} {row : KnowledgeBase × KnowledgeBaseMembership}
    (hrow : row ∈ knowledgeBaseRows db userId condition) :
    row ∈ knowledgeBaseRows db' userId condition := by
  obtain ⟨k, m⟩ := row
  obtain ⟨hk, hm, hmk, hcond, hu⟩ := mem_knowledgeBaseRows.mp hrow
  exact mem_knowledgeBaseRows.mpr ⟨(h.knowledgeBase k ⟨m, hm, hmk, hu⟩).mp hk,
    (h.membership m hu).mp hm, hmk, hcond, hu⟩

theorem knowledgeBaseRows_perm (h : MembershipAgree userId db db') (condition : KnowledgeBase → Bool) :
    (knowledgeBaseRows db userId condition).Perm (knowledgeBaseRows db' userId condition) :=
  (List.perm_ext_iff_of_nodup (nodup_knowledgeBaseRows _) (nodup_knowledgeBaseRows _)).mpr fun _ =>
    ⟨h.knowledgeBaseRows_mp, h.symm.knowledgeBaseRows_mp⟩

private theorem documentRows_mp (h : MembershipAgree userId db db') {condition : Document → Bool}
    {row : (Document × KnowledgeBase) × KnowledgeBaseMembership}
    (hrow : row ∈ documentRows db userId condition) : row ∈ documentRows db' userId condition := by
  obtain ⟨⟨d, k⟩, m⟩ := row
  obtain ⟨hd, hk, hdk, hm, hmk, hcond, hu⟩ := mem_documentRows.mp hrow
  exact mem_documentRows.mpr ⟨(h.document d ⟨m, hm, hmk.trans hdk, hu⟩).mp hd,
    (h.knowledgeBase k ⟨m, hm, hmk, hu⟩).mp hk, hdk, (h.membership m hu).mp hm, hmk, hcond, hu⟩

theorem documentRows_perm (h : MembershipAgree userId db db') (condition : Document → Bool) :
    (documentRows db userId condition).Perm (documentRows db' userId condition) :=
  (List.perm_ext_iff_of_nodup (nodup_documentRows _) (nodup_documentRows _)).mpr fun _ =>
    ⟨h.documentRows_mp, h.symm.documentRows_mp⟩

private theorem jobRows_mp (h : MembershipAgree userId db db') {condition : IngestionJob → Bool}
    {row : ((IngestionJob × Document) × KnowledgeBase) × KnowledgeBaseMembership}
    (hrow : row ∈ jobRows db userId condition) : row ∈ jobRows db' userId condition := by
  obtain ⟨⟨⟨j, d⟩, k⟩, m⟩ := row
  obtain ⟨hj, hd, hdj, hk, hdk, hm, hmk, hcond, hu⟩ := mem_jobRows.mp hrow
  have hmember : db.IsMember userId d.knowledgeBaseId := ⟨m, hm, hmk.trans hdk, hu⟩
  exact mem_jobRows.mpr ⟨(h.job j ⟨d, hd, hdj, hmember⟩).mp hj, (h.document d hmember).mp hd, hdj,
    (h.knowledgeBase k ⟨m, hm, hmk, hu⟩).mp hk, hdk, (h.membership m hu).mp hm, hmk, hcond, hu⟩

theorem jobRows_perm (h : MembershipAgree userId db db') (condition : IngestionJob → Bool) :
    (jobRows db userId condition).Perm (jobRows db' userId condition) :=
  (List.perm_ext_iff_of_nodup (nodup_jobRows _) (nodup_jobRows _)).mpr fun _ =>
    ⟨h.jobRows_mp, h.symm.jobRows_mp⟩

end Rows

section Statements

theorem getKnowledgeBase_eq (h : MembershipAgree userId db db') (knowledgeBaseId : UUID) :
    KnowledgeBaseRepository.getForUser db userId knowledgeBaseId =
      KnowledgeBaseRepository.getForUser db' userId knowledgeBaseId :=
  oneOrNone_perm ((h.knowledgeBaseRows_perm _).map _)

theorem listKnowledgeBases_eq (h : MembershipAgree userId db db') (limit offset : Int) :
    KnowledgeBaseRepository.listForUser db userId limit offset =
      KnowledgeBaseRepository.listForUser db' userId limit offset := by
  rw [KnowledgeBaseRepository.listForUser, KnowledgeBaseRepository.listForUser,
    orderBy_eq_of_perm (h.knowledgeBaseRows_perm _) fun _ ha _ hb => knowledgeBaseRows_unique ha hb]

theorem listDocuments_eq (h : MembershipAgree userId db db') (knowledgeBaseId : UUID)
    (limit offset : Int) :
    DocumentRepository.listForKnowledgeBaseForUser db userId knowledgeBaseId limit offset =
      DocumentRepository.listForKnowledgeBaseForUser db' userId knowledgeBaseId limit offset := by
  rw [DocumentRepository.listForKnowledgeBaseForUser, DocumentRepository.listForKnowledgeBaseForUser,
    orderBy_eq_of_perm (h.documentRows_perm _) fun _ ha _ hb => documentRows_unique ha hb]

theorem getIngestionJob_eq (h : MembershipAgree userId db db') (jobId : UUID) :
    IngestionJobRepository.getForUser db userId jobId =
      IngestionJobRepository.getForUser db' userId jobId :=
  oneOrNone_perm ((h.jobRows_perm _).map _)

theorem getUploadTarget_eq (h : MembershipAgree userId db db') (knowledgeBaseId : UUID) :
    getUploadTargetForUser db knowledgeBaseId userId =
      getUploadTargetForUser db' knowledgeBaseId userId := by
  ext ⟨knowledgeBase, role⟩
  rw [getUploadTargetForUser_eq_some, getUploadTargetForUser_eq_some]
  exact exists_congr fun m => and_congr_left fun _ => (h.knowledgeBaseRows_perm _).mem_iff

theorem getRetryTarget_eq (h : MembershipAgree userId db db') (jobId : UUID) :
    getRetryTargetForUser db jobId userId = getRetryTargetForUser db' jobId userId := by
  ext ⟨job, role⟩
  rw [getRetryTargetForUser_eq_some, getRetryTargetForUser_eq_some]
  simp only [(h.jobRows_perm _).mem_iff]

variable (hunique : UniqueConstraints db) (hunique' : UniqueConstraints db')
include hunique hunique'

theorem loadIngestionJob_eq (h : MembershipAgree userId db db') {document : Document}
    (hd : document ∈ db.documents) (hmember : db.IsMember userId document.knowledgeBaseId) :
    loadIngestionJob db document = loadIngestionJob db' document := by
  ext job
  rw [loadIngestionJob_eq_some hunique, loadIngestionJob_eq_some hunique']
  exact and_congr_left fun hjob => h.job job ⟨document, hd, hjob.symm, hmember⟩

theorem getDocument_eq (h : MembershipAgree userId db db') (documentId : UUID) :
    DocumentRepository.getForUser db userId documentId =
      DocumentRepository.getForUser db' userId documentId := by
  rw [DocumentRepository.getForUser, DocumentRepository.getForUser,
    ← oneOrNone_perm ((h.documentRows_perm _).map _)]
  congr 1
  refine List.map_congr_left ?_
  rintro ⟨⟨d, k⟩, m⟩ hrow
  obtain ⟨hd, _, hdk, hm, hmk, _, hu⟩ := mem_documentRows.mp hrow
  dsimp only
  rw [h.loadIngestionJob_eq hunique hunique' hd ⟨m, hm, hmk.trans hdk, hu⟩]

theorem getByDigest_eq (h : MembershipAgree userId db db') (knowledgeBaseId : UUID) (sha256 : Str) :
    getByDigestForUser db knowledgeBaseId sha256 userId =
      getByDigestForUser db' knowledgeBaseId sha256 userId := by
  ext ⟨document, job, role⟩
  rw [getByDigestForUser_eq_some hunique, getByDigestForUser_eq_some hunique']
  simp only [(h.documentRows_perm _).mem_iff]
  refine and_congr_right ?_
  rintro ⟨k, m, hrow, _⟩
  obtain ⟨hd, _, hdk, hm, hmk, _, hu⟩ := mem_documentRows.mp ((h.documentRows_perm _).mem_iff.mpr hrow)
  rw [h.loadIngestionJob_eq hunique hunique' hd ⟨m, hm, hmk.trans hdk, hu⟩]

end Statements

end MembershipAgree
end AgenticRag.Db

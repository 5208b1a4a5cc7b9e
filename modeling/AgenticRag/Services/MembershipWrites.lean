import AgenticRag.Db.MembershipScope
import AgenticRag.Lib.TwoRuns
import AgenticRag.Services.Processing
import AgenticRag.Services.Intake

/-! The two writes of the knowledge API, a retry and the rows of an upload: between states that
agree on the user's knowledge bases they succeed alike and write alike, and nothing outside. -/
namespace AgenticRag.Services
open Lib Python Db Ingestion Security

section Flush
variable {userId : UUID} {db db' : Database} {job : IngestionJob}

/-- The rows that a retry writes. -/
def flushRetry (db : Database) (job : IngestionJob) (status : DocumentStatus) : Database :=
  (db.flushJob job).flushDocumentStatus job.documentId status

variable {status : DocumentStatus}

theorem flushRetry_eq : flushRetry db job status =
    { db with documents := (flushRetry db job status).documents
              ingestionJobs := db.ingestionJobs.replace job } :=
  Database.flushDocumentStatus_eq _ _ _

theorem flushRetry_memberships : (flushRetry db job status).memberships = db.memberships := by
  rw [flushRetry_eq]

theorem flushRetry_knowledgeBases :
    (flushRetry db job status).knowledgeBases = db.knowledgeBases := by
  rw [flushRetry_eq]

theorem flushRetry_documentChunks :
    (flushRetry db job status).documentChunks = db.documentChunks := by
  rw [flushRetry_eq]

theorem flushRetry_ingestionJobs :
    (flushRetry db job status).ingestionJobs = db.ingestionJobs.replace job := by
  rw [flushRetry_eq]

theorem flushRetry_isMember {knowledgeBaseId : UUID} :
    (flushRetry db job status).IsMember userId knowledgeBaseId ↔ db.IsMember userId knowledgeBaseId := by
  rw [Database.IsMember, Database.IsMember, flushRetry_memberships]

/-- A status is written into its row; the row stays where it is. -/
theorem mem_flushRetry {d : Document} : d ∈ (flushRetry db job status).documents ↔
    ∃ old ∈ db.documents, d = if old.id = job.documentId then { old with status } else old :=
  Database.mem_flushDocumentStatus _

theorem exists_mem_flushRetry {d : Document} (h : d ∈ (flushRetry db job status).documents) :
    ∃ old ∈ db.documents, old.id = d.id ∧ old.knowledgeBaseId = d.knowledgeBaseId ∧
      d = if old.id = job.documentId then { old with status } else old := by
  obtain ⟨old, hold, rfl⟩ := mem_flushRetry.mp h
  refine ⟨old, hold, ?_, ?_, rfl⟩ <;> split <;> rfl

theorem flushRetry_owns {documentId : UUID} :
    (flushRetry db job status).Owns userId documentId ↔ db.Owns userId documentId := by
  constructor
  · rintro ⟨d, hd, hid, hmember⟩
    obtain ⟨old, hold, hoid, hkb, _⟩ := exists_mem_flushRetry hd
    exact ⟨old, hold, hoid.trans hid, hkb ▸ flushRetry_isMember.mp hmember⟩
  · rintro ⟨d, hd, hid, hmember⟩
    refine ⟨_, mem_flushRetry.mpr ⟨d, hd, rfl⟩, ?_, flushRetry_isMember.mpr ?_⟩
    · split <;> exact hid
    · split <;> exact hmember

private theorem flushRetry_document_mp (h : MembershipAgree userId db db') {d : Document}
    (hmember : db.IsMember userId d.knowledgeBaseId) (hd : d ∈ (flushRetry db job status).documents) :
    d ∈ (flushRetry db' job status).documents := by
  obtain ⟨old, hold, _, hkb, heq⟩ := exists_mem_flushRetry hd
  exact mem_flushRetry.mpr ⟨old, (h.document old (hkb ▸ hmember)).mp hold, heq⟩

private theorem flushRetry_job_mp (h : MembershipAgree userId db db') {j old : IngestionJob}
    (hj : db.Owns userId j.documentId) (hold : old ∈ db'.ingestionJobs) (hid : old.id = job.id)
    (hmem : j ∈ db.ingestionJobs.replace job) : j ∈ db'.ingestionJobs.replace job := by
  rcases Table.mem_replace.mp hmem with ⟨hj', _⟩ | ⟨hj', hne⟩
  · exact Table.mem_replace.mpr (.inl ⟨hj', old, hold, hid⟩)
  · exact Table.mem_replace.mpr (.inr ⟨(h.job j hj).mp hj', hne⟩)

/-- Writing one job that is the user's in both states keeps their agreement. -/
theorem flushRetry_agree (h : MembershipAgree userId db db') {old : IngestionJob}
    (hold : old ∈ db.ingestionJobs) (hold' : old ∈ db'.ingestionJobs) (hid : old.id = job.id) :
    MembershipAgree userId (flushRetry db job status) (flushRetry db' job status) where
  membership m hu := by
    rw [flushRetry_memberships, flushRetry_memberships]
    exact h.membership m hu
  knowledgeBase k hk := by
    rw [flushRetry_knowledgeBases, flushRetry_knowledgeBases]
    exact h.knowledgeBase k (flushRetry_isMember.mp hk)
  document d hd := by
    have hmember := flushRetry_isMember.mp hd
    exact ⟨flushRetry_document_mp h hmember, flushRetry_document_mp h.symm (h.isMember_iff.mp hmember)⟩
  job j hj := by
    have howned := flushRetry_owns.mp hj
    rw [flushRetry_ingestionJobs, flushRetry_ingestionJobs]
    exact ⟨flushRetry_job_mp h howned hold' hid,
      flushRetry_job_mp h.symm (h.owns_iff.mp howned) hold hid⟩
  chunk c hc := by
    rw [flushRetry_documentChunks, flushRetry_documentChunks]
    exact h.chunk c (flushRetry_owns.mp hc)

/-- Writing a job of the user changes nothing outside. -/
theorem flushRetry_outside {old : IngestionJob} (hold : old ∈ db.ingestionJobs)
    (hid : old.id = job.id) (hdoc : old.documentId = job.documentId)
    (howned : db.Owns userId job.documentId) :
    OutsideKept userId db (flushRetry db job status) where
  users := by rw [flushRetry_eq]
  userSessions := by rw [flushRetry_eq]
  knowledgeBases := flushRetry_knowledgeBases
  memberships := flushRetry_memberships
  documentChunks := flushRetry_documentChunks
  documents d hd := by
    obtain ⟨owner, howner, hoid, hmember⟩ := howned
    have hne (d : Document) (hmem : d ∈ db.documents)
        (hd : ¬db.IsMember userId d.knowledgeBaseId) : ¬d.id = job.documentId := by
      intro he
      obtain rfl := Table.eq_of_key_eq hmem howner (he.trans hoid.symm)
      exact hd hmember
    constructor
    · exact fun h => mem_flushRetry.mpr ⟨d, h, (if_neg (hne d h hd)).symm⟩
    · intro h
      obtain ⟨old, hold, _, hkb, heq⟩ := exists_mem_flushRetry h
      rw [if_neg (hne old hold (hkb ▸ hd))] at heq
      exact heq ▸ hold
  jobs_kept j hj hout := by
    rw [flushRetry_ingestionJobs]
    refine Table.mem_replace.mpr (.inr ⟨hj, fun he => hout ?_⟩)
    rwa [Table.eq_of_key_eq hj hold (he.trans hid.symm), hdoc]
  jobs_added j hj hout := by
    rw [flushRetry_ingestionJobs] at hj
    rcases Table.mem_replace.mp hj with ⟨rfl, _⟩ | ⟨hj, _⟩
    · exact absurd (flushRetry_owns.mpr howned) hout
    · exact hj

end Flush

section Retry
variable {userId : UUID} {db db' : Database}

theorem owns_of_retryTarget {jobId : UUID} {job : IngestionJob} {role : KnowledgeBaseRole}
    (h : getRetryTargetForUser db jobId userId = some (job, role)) :
    job ∈ db.ingestionJobs ∧ db.Owns userId job.documentId := by
  obtain ⟨d, k, m, hrow, _⟩ := getRetryTargetForUser_eq_some.mp h
  obtain ⟨hj, hd, hdj, _, hdk, hm, hmk, _, hu⟩ := mem_jobRows.mp hrow
  exact ⟨hj, d, hd, hdj, m, hm, hmk.trans hdk, hu⟩

/-- Both states refuse alike, or return the same job and still agree. -/
theorem retryIngestionJob_related (h : MembershipAgree userId db db') (jobId : UUID) :
    Related (fun a b => a.1 = b.1 ∧ MembershipAgree userId a.2 b.2)
      (retryIngestionJob db userId jobId) (retryIngestionJob db' userId jobId) := by
  unfold retryIngestionJob
  cases htarget : getRetryTargetForUser db jobId userId with
  | none =>
    rw [← h.getRetryTarget_eq, htarget]
    rfl
  | some target =>
    obtain ⟨job, role⟩ := target
    have htarget' := (h.getRetryTarget_eq jobId).symm.trans htarget
    rw [htarget']
    refine related_bind (related_eq.mpr rfl) fun _ _ _ => ?_
    split
    · exact ⟨rfl, h⟩
    split
    · rfl
    · exact ⟨rfl, flushRetry_agree h (owns_of_retryTarget htarget).1 (owns_of_retryTarget htarget').1 rfl⟩

theorem retryIngestionJob_outside {jobId : UUID} {job : IngestionJob}
    (h : retryIngestionJob db userId jobId = .ok (job, db')) : OutsideKept userId db db' := by
  obtain ⟨old, _, htarget, _, ⟨_, _, rfl⟩ | ⟨_, _, rfl⟩⟩ := retryIngestionJob_target h
  · exact .refl userId _
  · obtain ⟨hold, howned⟩ := owns_of_retryTarget htarget
    exact flushRetry_outside hold rfl rfl howned

end Retry

section Insert
variable {userId : UUID} {db db' db₁ db₁' : Database} {document : Document} {jobId : UUID}

/-- The keys and constraints under which both rows of an upload are inserted. -/
structure Insertable (db : Database) (document : Document) (jobId : UUID) : Prop where
  documents : ∀ d ∈ db.documents, ¬(d.knowledgeBaseId = document.knowledgeBaseId ∧
    d.sha256 = document.sha256) ∧ d.storageKey ≠ document.storageKey ∧ d.id ≠ document.id
  sizeBytes : 0 < document.sizeBytes
  sha256 : document.sha256.length = 64
  knowledgeBase : (db.knowledgeBases.find? document.knowledgeBaseId).isSome
  jobs : ∀ j ∈ db.ingestionJobs, j.documentId ≠ document.id ∧ j.id ≠ jobId

theorem insertUpload_iff : (∃ job db₁, insertUpload db document jobId = .ok (job, db₁)) ↔
    Insertable db document jobId := by
  constructor
  · rintro ⟨job, db₁, h⟩
    obtain ⟨rfl, hunique, hjobs, hdoc, hjob, _⟩ := insertUpload_ok h
    have hid := Table.find?_eq_none.mp (Table.insert?_eq_some hdoc).1
    have hjid := Table.find?_eq_none.mp (Table.insert?_eq_some hjob).1
    obtain ⟨mid, hmid, _⟩ := bind_eq_ok.mp h
    unfold addAuthorizedUpload at hmid
    split at hmid
    · rename_i hvalid
      exact ⟨fun d hd => ⟨(hunique d hd).1, (hunique d hd).2, hid d hd⟩, hvalid.2.1, hvalid.2.2.1,
        hvalid.2.2.2, fun j hj => ⟨hjobs j hj, hjid j hj⟩⟩
    · cases hmid
  · intro h
    have hdoc : db.documents.find? document.id = none :=
      Table.find?_eq_none.mpr fun d hd => (h.documents d hd).2.2
    have hjob : db.ingestionJobs.find? jobId = none :=
      Table.find?_eq_none.mpr fun j hj => (h.jobs j hj).2
    obtain ⟨documents, hdocuments⟩ := Option.isSome_iff_exists.mp (Table.insert?_isSome.mpr hdoc)
    obtain ⟨ingestionJobs, hingestionJobs⟩ := Option.isSome_iff_exists.mp (Table.insert?_isSome
      (r := IngestionJob.new jobId document.id document.createdAt).mpr hjob)
    refine ⟨IngestionJob.new jobId document.id document.createdAt,
      { db with documents, ingestionJobs }, ?_⟩
    have hadd : addAuthorizedUpload db document = .ok { db with documents } := by
      rw [addAuthorizedUpload, if_pos, hdocuments]
      refine ⟨List.all_eq_true.mpr fun d hd => decide_eq_true ?_, h.sizeBytes, h.sha256,
        h.knowledgeBase⟩
      exact ⟨(h.documents d hd).1, (h.documents d hd).2.1⟩
    have haddJob : addForAuthorizedUpload { db with documents }
        (IngestionJob.new jobId document.id document.createdAt) =
          .ok { db with documents, ingestionJobs } := by
      rw [addForAuthorizedUpload, if_pos, hingestionJobs]
      refine ⟨List.all_eq_true.mpr fun j hj => decide_eq_true (h.jobs j hj).1, ?_⟩
      rw [IngestionJob.new, Table.find?_insert? hdocuments, if_pos rfl]
      rfl
    exact bind_eq_ok.mpr ⟨_, hadd, bind_eq_ok.mpr ⟨_, haddJob, rfl⟩⟩

/-- The identifiers that a call generates are in no row outside the user's knowledge bases. -/
structure Unclaimed (userId documentId jobId : UUID) (db : Database) : Prop where
  document : ∀ d ∈ db.documents, ¬db.IsMember userId d.knowledgeBaseId → d.id ≠ documentId ∧
    ∀ knowledgeBaseId extension, d.storageKey ≠ storageKey knowledgeBaseId documentId extension
  job : ∀ j ∈ db.ingestionJobs, ¬db.Owns userId j.documentId → j.id ≠ jobId ∧
    j.documentId ≠ documentId
  chunk : ∀ c ∈ db.documentChunks, ¬db.Owns userId c.documentId → c.documentId ≠ documentId

private theorem find?_isSome_mp (h : MembershipAgree userId db db')
    (hmember : db.IsMember userId document.knowledgeBaseId)
    (hsome : (db.knowledgeBases.find? document.knowledgeBaseId).isSome) :
    (db'.knowledgeBases.find? document.knowledgeBaseId).isSome := by
  obtain ⟨k, hk⟩ := Option.isSome_iff_exists.mp hsome
  obtain ⟨hk, hid⟩ := Table.find?_eq_some.mp hk
  exact Option.isSome_iff_exists.mpr
    ⟨k, Table.find?_eq_some.mpr ⟨(h.knowledgeBase k (hid ▸ hmember)).mp hk, hid⟩⟩

/-- Whether the rows can be inserted is seen in the user's knowledge bases. -/
theorem Insertable.of_agree (h : MembershipAgree userId db db')
    (hmember : db.IsMember userId document.knowledgeBaseId)
    (hunclaimed : Unclaimed userId document.id jobId db')
    (hkey : ∃ extension, document.storageKey =
      storageKey document.knowledgeBaseId document.id extension)
    (hinsertable : Insertable db document jobId) : Insertable db' document jobId where
  documents d hd := by
    by_cases hd' : db.IsMember userId d.knowledgeBaseId
    · exact hinsertable.documents d ((h.document d hd').mpr hd)
    · obtain ⟨extension, hkey⟩ := hkey
      obtain ⟨hid, hstorage⟩ := hunclaimed.document d hd fun hm => hd' (h.isMember_iff.mpr hm)
      refine ⟨fun hsame => hd' (hsame.1 ▸ hmember), ?_, hid⟩
      rw [hkey]
      exact hstorage _ _
  sizeBytes := hinsertable.sizeBytes
  sha256 := hinsertable.sha256
  knowledgeBase := find?_isSome_mp h hmember hinsertable.knowledgeBase
  jobs j hj := by
    by_cases hj' : db.Owns userId j.documentId
    · exact hinsertable.jobs j ((h.job j hj').mpr hj)
    · exact (hunclaimed.job j hj fun ho => hj' (h.owns_iff.mpr ho)).symm

section Inserted
variable {job job' : IngestionJob} (hok : insertUpload db document jobId = .ok (job, db₁))
include hok

theorem mem_documents_of_insert {d : Document} :
    d ∈ db₁.documents ↔ d = document ∨ d ∈ db.documents :=
  Table.mem_insert? (insertUpload_ok hok).2.2.2.1

theorem mem_jobs_of_insert {j : IngestionJob} :
    j ∈ db₁.ingestionJobs ↔ j = IngestionJob.new jobId document.id document.createdAt ∨
      j ∈ db.ingestionJobs := by
  obtain ⟨rfl, _, _, _, hjob, _⟩ := insertUpload_ok hok
  exact Table.mem_insert? hjob

theorem isMember_of_insert {knowledgeBaseId : UUID} :
    db₁.IsMember userId knowledgeBaseId ↔ db.IsMember userId knowledgeBaseId := by
  obtain ⟨_, _, _, _, _, hdb⟩ := insertUpload_ok hok
  rw [hdb]
  rfl

theorem owns_of_insert (hmember : db.IsMember userId document.knowledgeBaseId) {documentId : UUID} :
    db₁.Owns userId documentId ↔ documentId = document.id ∨ db.Owns userId documentId := by
  constructor
  · rintro ⟨d, hd, hid, hd'⟩
    rcases (mem_documents_of_insert hok).mp hd with rfl | hd
    · exact .inl hid.symm
    · exact .inr ⟨d, hd, hid, (isMember_of_insert hok).mp hd'⟩
  · rintro (rfl | ⟨d, hd, hid, hd'⟩)
    · exact ⟨document, (mem_documents_of_insert hok).mpr (.inl rfl), rfl,
        (isMember_of_insert hok).mpr hmember⟩
    · exact ⟨d, (mem_documents_of_insert hok).mpr (.inr hd), hid, (isMember_of_insert hok).mpr hd'⟩

/-- No chunk waits for the document. -/
theorem no_chunk_of_insert (hunclaimed : Unclaimed userId document.id jobId db)
    {c : DocumentChunk} (hc : c.documentId = document.id) : c ∉ db.documentChunks := by
  intro hmem
  refine hunclaimed.chunk c hmem ?_ hc
  rintro ⟨d, hd, hid, _⟩
  exact ((insertUpload_iff.mp ⟨_, _, hok⟩).documents d hd).2.2 (hid.trans hc)

/-- An upload into a knowledge base of the user changes nothing outside. -/
theorem insertUpload_outside (hmember : db.IsMember userId document.knowledgeBaseId) :
    OutsideKept userId db db₁ := by
  obtain ⟨_, _, _, _, _, hdb⟩ := insertUpload_ok hok
  refine ⟨by rw [hdb], by rw [hdb], by rw [hdb], by rw [hdb], by rw [hdb], ?_, ?_, ?_⟩
  · intro d hd
    rw [mem_documents_of_insert hok]
    refine ⟨.inr, fun h => h.resolve_left ?_⟩
    rintro rfl
    exact hd hmember
  · exact fun j hj _ => (mem_jobs_of_insert hok).mpr (.inr hj)
  · intro j hj hout
    refine ((mem_jobs_of_insert hok).mp hj).resolve_left ?_
    rintro rfl
    exact hout ((owns_of_insert hok hmember).mpr (.inl rfl))

/-- The same upload into a knowledge base of the user keeps the agreement. -/
theorem insertUpload_agree (hok' : insertUpload db' document jobId = .ok (job', db₁'))
    (h : MembershipAgree userId db db') (hmember : db.IsMember userId document.knowledgeBaseId)
    (hunclaimed : Unclaimed userId document.id jobId db)
    (hunclaimed' : Unclaimed userId document.id jobId db') :
    job = job' ∧ MembershipAgree userId db₁ db₁' := by
  obtain ⟨rfl, _, hjobs, _, _, hdb⟩ := insertUpload_ok hok
  obtain ⟨rfl, _, hjobs', _, _, hdb'⟩ := insertUpload_ok hok'
  refine ⟨rfl, ?_, ?_, ?_, ?_, ?_⟩
  · rw [hdb, hdb']
    exact h.membership
  · intro k hk
    rw [hdb, hdb']
    exact h.knowledgeBase k ((isMember_of_insert hok).mp hk)
  · intro d hd
    rw [mem_documents_of_insert hok, mem_documents_of_insert hok']
    exact or_congr_right (h.document d ((isMember_of_insert hok).mp hd))
  · intro j hj
    rw [mem_jobs_of_insert hok, mem_jobs_of_insert hok']
    refine or_congr_right ?_
    rcases (owns_of_insert hok hmember).mp hj with hid | hj
    · exact iff_of_false (fun hmem => hjobs j hmem hid) fun hmem => hjobs' j hmem hid
    · exact h.job j hj
  · intro c hc
    have hchunks : db₁.documentChunks = db.documentChunks := by rw [hdb]
    have hchunks' : db₁'.documentChunks = db'.documentChunks := by rw [hdb']
    rw [hchunks, hchunks']
    rcases (owns_of_insert hok hmember).mp hc with hid | hc
    · exact iff_of_false (no_chunk_of_insert hok hunclaimed hid)
        (no_chunk_of_insert hok' hunclaimed' hid)
    · exact h.chunk c hc

end Inserted
end Insert

section Unique
variable {userId : UUID} {db db' : Database}

theorem flushRetry_uniqueConstraints {job old : IngestionJob} {status : DocumentStatus}
    (h : UniqueConstraints db) (hold : old ∈ db.ingestionJobs) (hid : old.id = job.id)
    (hdoc : old.documentId = job.documentId) : UniqueConstraints (flushRetry db job status) where
  digest a ha b hb hkb hsha := by
    obtain ⟨a', ha', rfl⟩ := mem_flushRetry.mp ha
    obtain ⟨b', hb', rfl⟩ := mem_flushRetry.mp hb
    have hsame : a' = b' := by
      refine h.digest a' ha' b' hb' ?_ ?_
      · split at hkb <;> split at hkb <;> exact hkb
      · split at hsha <;> split at hsha <;> exact hsha
    rw [hsame]
  document a ha b hb hsame := by
    rw [flushRetry_ingestionJobs] at ha hb
    have hrow {j : IngestionJob} (hj : j ∈ db.ingestionJobs.replace job) :
        ∃ j' ∈ db.ingestionJobs, j'.id = j.id ∧ j'.documentId = j.documentId := by
      rcases Table.mem_replace.mp hj with ⟨rfl, _⟩ | ⟨hj, _⟩
      · exact ⟨old, hold, hid, hdoc⟩
      · exact ⟨j, hj, rfl, rfl⟩
    obtain ⟨a', ha', haid, hadoc⟩ := hrow ha
    obtain ⟨b', hb', hbid, hbdoc⟩ := hrow hb
    have heq : a' = b' := h.document a' ha' b' hb' (hadoc.trans (hsame.trans hbdoc.symm))
    exact Table.eq_of_key_eq ha hb (haid.symm.trans ((congrArg IngestionJob.id heq).trans hbid))

theorem insertUpload_uniqueConstraints {document : Document} {jobId : UUID} {job : IngestionJob}
    (h : UniqueConstraints db) (hok : insertUpload db document jobId = .ok (job, db')) :
    UniqueConstraints db' where
  digest a ha b hb hkb hsha := by
    have hinsertable := (insertUpload_iff.mp ⟨_, _, hok⟩).documents
    rcases (mem_documents_of_insert hok).mp ha with rfl | ha
    · rcases (mem_documents_of_insert hok).mp hb with rfl | hb
      · rfl
      · exact absurd ⟨hkb.symm, hsha.symm⟩ (hinsertable b hb).1
    · rcases (mem_documents_of_insert hok).mp hb with rfl | hb
      · exact absurd ⟨hkb, hsha⟩ (hinsertable a ha).1
      · exact h.digest a ha b hb hkb hsha
  document a ha b hb hsame := by
    have hinsertable := (insertUpload_iff.mp ⟨_, _, hok⟩).jobs
    rcases (mem_jobs_of_insert hok).mp ha with rfl | ha
    · rcases (mem_jobs_of_insert hok).mp hb with rfl | hb
      · rfl
      · exact absurd hsame.symm (hinsertable b hb).1
    · rcases (mem_jobs_of_insert hok).mp hb with rfl | hb
      · exact absurd hsame (hinsertable a ha).1
      · exact h.document a ha b hb hsame

theorem retryIngestionJob_uniqueConstraints {jobId : UUID} {job : IngestionJob}
    (h : UniqueConstraints db) (hok : retryIngestionJob db userId jobId = .ok (job, db')) :
    UniqueConstraints db' := by
  rcases retryIngestionJob_ok hok with ⟨_, _, rfl⟩ | ⟨old, hfound, _, _, rfl⟩
  · exact h
  · obtain ⟨hold, _⟩ := Table.find?_eq_some.mp hfound
    exact flushRetry_uniqueConstraints h hold rfl rfl

end Unique
end AgenticRag.Services

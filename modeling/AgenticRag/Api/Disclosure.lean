import AgenticRag.Api.Endpoints
import AgenticRag.Retrieval.FinalSnapshot
import AgenticRag.Services.MembershipWrites

/-! What a response shows: rows of the knowledge bases in which the caller is a member, or rows
that the request itself writes. -/
namespace AgenticRag.Api
open Lib Python Db Ingestion Security Retrieval Services

/-- An evidence item repeats a chunk of a completed document. -/
structure EvidenceOf (item : RetrievedEvidence) (chunk : DocumentChunk) (d : Document) : Prop where
  joined : d.id = chunk.documentId
  completed : d.status = .completed
  contentSha256 : chunk.contentSha256 = some item.contentSha256
  wellFormed : matchesSha256 item.contentSha256 = true
  citationId : item.citationId = chunk.id
  documentId : item.documentId = d.id
  sourceDisplayName : item.sourceDisplayName = d.originalFilename
  content : item.content = chunk.normalizedText
  pages : item.pageStart = chunk.pageStart ∧ item.pageEnd = chunk.pageEnd
  offsets : item.characterStart = chunk.startOffset ∧ item.characterEnd = chunk.endOffset
  trust : item.trustClassification = untrustedDocumentContent

/-- What a body can show to a user, at one state of the database. -/
inductive Shown (userId : UUID) (db : Database) : ApiBody → Prop
  | none : Shown userId db .none
  | authenticatedUser : Shown userId db (.authenticatedUser userId)
  | knowledgeBase {k : KnowledgeBase} (hk : k ∈ db.knowledgeBases) (hmember : db.IsMember userId k.id) :
      Shown userId db (.knowledgeBase k)
  | created {k : KnowledgeBase} {db' : Database} (hadd : addWithOwner db k userId = some db') :
      Shown userId db (.knowledgeBase k)
  | knowledgeBases {items : List KnowledgeBase} {limit offset : Int}
      (hitems : ∀ k ∈ items, k ∈ db.knowledgeBases ∧ db.IsMember userId k.id) :
      Shown userId db (.knowledgeBases items limit offset)
  | document {d : Document} (hd : d ∈ db.documents) (hmember : db.IsMember userId d.knowledgeBaseId) :
      Shown userId db (.document (.of d))
  | documents {items : List Document} {limit offset : Int}
      (hitems : ∀ d ∈ items, d ∈ db.documents ∧ db.IsMember userId d.knowledgeBaseId) :
      Shown userId db (.documents (items.map .of) limit offset)
  | ingestionJob {j : IngestionJob} (hj : j ∈ db.ingestionJobs) (howned : db.Owns userId j.documentId) :
      Shown userId db (.ingestionJob (.of j))
  | retried {jobId : UUID} {j : IngestionJob} {db' : Database}
      (hretry : Services.retryIngestionJob db userId jobId = .ok (j, db')) :
      Shown userId db (.ingestionJob (.of j))
  | uploaded {d : Document} {jobId : UUID} {j : IngestionJob} {db' : Database}
      (hmember : db.IsMember userId d.knowledgeBaseId) (hinsert : insertUpload db d jobId = .ok (j, db')) :
      Shown userId db (.documentUpload (.of d) (.of j) false)
  | duplicate {d : Document} {j : IngestionJob} (hd : d ∈ db.documents)
      (hmember : db.IsMember userId d.knowledgeBaseId) (hj : j ∈ db.ingestionJobs)
      (hjob : j.documentId = d.id) : Shown userId db (.documentUpload (.of d) (.of j) true)
  | evidence {items : List RetrievedEvidence} (hitems : ∀ item ∈ items,
      ∃ chunk ∈ db.documentChunks, ∃ d ∈ db.documents, EvidenceOf item chunk d ∧
        db.IsMember userId d.knowledgeBaseId) : Shown userId db (.evidence items)

section Reads
variable {db : Database} {userId : UUID} {env : CallEnvironment}

theorem transaction_ok {α : Type} {n : Nat} {x : Except UploadRaised α} {a : α}
    (hok : env.transaction n x = .ok a) : x = .ok a := by
  unfold CallEnvironment.transaction at hok
  split at hok
  · cases hok
  · exact hok

private theorem mem_of_page {α : Type} {limit offset : Int} {rows page : List α}
    (hpage : Db.page limit offset rows = .ok page) {a : α} (ha : a ∈ page) : a ∈ rows := by
  unfold Db.page at hpage
  split at hpage
  · obtain rfl := Except.ok.inj hpage
    exact List.mem_of_mem_drop (List.mem_of_mem_take ha)
  · cases hpage

theorem mem_of_oneOrNone {α : Type} {e : StatementError} {rows : List α} {a : α}
    (hone : oneOrNone e rows = .ok (some a)) : a ∈ rows := by
  match rows, hone with
  | [b], hone =>
    obtain rfl := Option.some.inj (Except.ok.inj hone)
    exact List.mem_singleton_self b

private theorem member_of_row {condition : KnowledgeBase → Bool} {k : KnowledgeBase}
    {m : KnowledgeBaseMembership} (hrow : (k, m) ∈ knowledgeBaseRows db userId condition) :
    k ∈ db.knowledgeBases ∧ db.IsMember userId k.id := by
  obtain ⟨hk, hm, hmk, _, hu⟩ := mem_knowledgeBaseRows.mp hrow
  exact ⟨hk, m, hm, hmk, hu⟩

private theorem member_of_documentRow {condition : Document → Bool} {d : Document} {k : KnowledgeBase}
    {m : KnowledgeBaseMembership} (hrow : ((d, k), m) ∈ documentRows db userId condition) :
    d ∈ db.documents ∧ db.IsMember userId d.knowledgeBaseId := by
  obtain ⟨hd, _, hkd, hm, hmk, _, hu⟩ := mem_documentRows.mp hrow
  exact ⟨hd, m, hm, hmk.trans hkd, hu⟩

theorem listKnowledgeBases_ok {limit offset : Int} {items : List KnowledgeBase}
    (hok : KnowledgeIntakeService.listKnowledgeBases env db userId limit offset = .ok items) :
    ∀ k ∈ items, k ∈ db.knowledgeBases ∧ db.IsMember userId k.id := by
  obtain ⟨visible, hvisible, hok⟩ := bind_eq_ok.mp hok
  obtain ⟨_, _, hok⟩ := bind_eq_ok.mp hok
  obtain rfl := Except.ok.inj hok
  obtain ⟨rows, hrows, rfl⟩ := map_eq_ok.mp (mapError_eq_ok.mp (transaction_ok hvisible))
  intro k hk
  obtain ⟨_, hpair, rfl⟩ := List.mem_map.mp hk
  obtain ⟨⟨k, m⟩, hrow, rfl⟩ := List.mem_map.mp hpair
  exact member_of_row (mem_orderBy.mp (mem_of_page hrows hrow))

theorem getKnowledgeBase_ok {knowledgeBaseId : UUID} {k : KnowledgeBase}
    (hok : KnowledgeIntakeService.getKnowledgeBase env db userId knowledgeBaseId = .ok k) :
    k ∈ db.knowledgeBases ∧ db.IsMember userId k.id := by
  obtain ⟨found, hfound, hok⟩ := bind_eq_ok.mp hok
  split at hok
  · cases hok
  · obtain ⟨_, _, hok⟩ := bind_eq_ok.mp hok
    obtain rfl := Except.ok.inj hok
    obtain ⟨⟨k, m⟩, hrow, heq⟩ := List.mem_map.mp (mem_of_oneOrNone (mapError_eq_ok.mp (transaction_ok hfound)))
    obtain ⟨rfl, -⟩ := Prod.mk.inj heq
    exact member_of_row hrow

theorem listDocuments_ok {knowledgeBaseId : UUID} {limit offset : Int} {items : List Document}
    (hok : KnowledgeIntakeService.listDocuments env db userId knowledgeBaseId limit offset = .ok items) :
    ∀ d ∈ items, d ∈ db.documents ∧ db.IsMember userId d.knowledgeBaseId := by
  obtain ⟨visible, hvisible, hok⟩ := bind_eq_ok.mp hok
  obtain ⟨_, _, hok⟩ := bind_eq_ok.mp hok
  obtain rfl := Except.ok.inj hok
  have hvisible := transaction_ok hvisible
  obtain ⟨found, _, hvisible⟩ := bind_eq_ok.mp hvisible
  split at hvisible
  · cases hvisible
  · obtain ⟨_, _, hvisible⟩ := bind_eq_ok.mp hvisible
    obtain ⟨rows, hrows, rfl⟩ := map_eq_ok.mp (mapError_eq_ok.mp hvisible)
    intro d hd
    obtain ⟨_, hpair, rfl⟩ := List.mem_map.mp hd
    obtain ⟨⟨⟨d, k⟩, m⟩, hrow, rfl⟩ := List.mem_map.mp hpair
    exact member_of_documentRow (mem_orderBy.mp (mem_of_page hrows hrow))

theorem getDocument_ok {documentId : UUID} {d : Document} {job : Option IngestionJob}
    (hok : KnowledgeIntakeService.getDocument env db userId documentId = .ok (d, job)) :
    d ∈ db.documents ∧ db.IsMember userId d.knowledgeBaseId := by
  obtain ⟨found, hfound, hok⟩ := bind_eq_ok.mp hok
  split at hok
  · cases hok
  · obtain ⟨_, _, hok⟩ := bind_eq_ok.mp hok
    obtain ⟨rfl, -⟩ := Prod.mk.inj (Except.ok.inj hok)
    obtain ⟨⟨⟨d, k⟩, m⟩, hrow, heq⟩ :=
      List.mem_map.mp (mem_of_oneOrNone (mapError_eq_ok.mp (transaction_ok hfound)))
    obtain ⟨rfl, -⟩ := Prod.mk.inj heq
    exact member_of_documentRow hrow

theorem getIngestionJob_ok {jobId : UUID} {job : IngestionJob} {d : Document}
    (hok : KnowledgeIntakeService.getIngestionJob env db userId jobId = .ok (job, d)) :
    job ∈ db.ingestionJobs ∧ db.Owns userId job.documentId := by
  obtain ⟨found, hfound, hok⟩ := bind_eq_ok.mp hok
  split at hok
  · cases hok
  · obtain ⟨_, _, hok⟩ := bind_eq_ok.mp hok
    obtain ⟨rfl, -⟩ := Prod.mk.inj (Except.ok.inj hok)
    obtain ⟨⟨⟨⟨job, d⟩, k⟩, m⟩, hrow, heq⟩ :=
      List.mem_map.mp (mem_of_oneOrNone (mapError_eq_ok.mp (transaction_ok hfound)))
    obtain ⟨rfl, -⟩ := Prod.mk.inj heq
    obtain ⟨hj, hd, hdj, _, hkd, hm, hmk, _, hu⟩ := mem_jobRows.mp hrow
    exact ⟨hj, d, hd, hdj, m, hm, hmk.trans hkd, hu⟩

end Reads

section Uploads
variable {db : Database} {userId knowledgeBaseId : UUID} {digest : Str}

private theorem shown_of_digest {document : Document} {job : IngestionJob} {role : KnowledgeBaseRole}
    (hfound : getByDigestForUser db knowledgeBaseId digest userId = some (document, some job, role)) :
    Shown userId db (.documentUpload (.of document) (.of job) true) := by
  simp only [getByDigestForUser, bind, Option.bind_eq_some_iff, pure, Option.some.injEq,
    Prod.mk.injEq] at hfound
  obtain ⟨d, hd, k, hk, m, hm, rfl, hjob, _⟩ := hfound
  obtain ⟨_, hkid⟩ := Table.find?_eq_some.mp hk
  obtain ⟨hm, hkey⟩ := Table.find?_eq_some.mp hm
  obtain ⟨hmk, hu⟩ := Prod.mk.inj hkey
  have howner := List.find?_some hjob
  exact .duplicate (List.mem_of_find?_eq_some hd) ⟨m, hm, hmk.trans hkid, hu⟩
    (List.mem_of_find?_eq_some hjob) (of_decide_eq_true howner)

theorem findDuplicate_shown {result : UploadResult}
    (hfind : findDuplicate db knowledgeBaseId digest userId = .ok (some result)) :
    Shown userId db (.documentUpload (.of result.document) (.of result.job) result.duplicate) := by
  obtain ⟨_, _, hfind⟩ := bind_eq_ok.mp hfind
  split at hfind
  · cases hfind
  · rename_i hfound
    obtain ⟨_, _, hfind⟩ := bind_eq_ok.mp hfind
    split at hfind
    · cases hfind
    · obtain rfl := Option.some.inj (Except.ok.inj hfind)
      exact shown_of_digest hfound

theorem resolveConcurrentDuplicate_shown {result : UploadResult}
    (hresolve : resolveConcurrentDuplicate db knowledgeBaseId digest userId = .ok result) :
    Shown userId db (.documentUpload (.of result.document) (.of result.job) result.duplicate) := by
  obtain ⟨_, _, hresolve⟩ := bind_eq_ok.mp hresolve
  split at hresolve
  · cases hresolve
  · rename_i hfound
    obtain ⟨_, _, hresolve⟩ := bind_eq_ok.mp hresolve
    split at hresolve
    · cases hresolve
    · obtain rfl := Except.ok.inj hresolve
      exact shown_of_digest hfound

theorem findDuplicate_isMember {found : Option UploadResult}
    (hfind : findDuplicate db knowledgeBaseId digest userId = .ok found) :
    db.IsMember userId knowledgeBaseId := by
  obtain ⟨_, hauthorized, _⟩ := bind_eq_ok.mp hfind
  unfold authorizeUpload at hauthorized
  split at hauthorized
  · cases hauthorized
  · rename_i htarget
    obtain ⟨m, hrow, _⟩ := getUploadTargetForUser_eq_some.mp htarget
    obtain ⟨_, hm, hmk, hid, hu⟩ := mem_knowledgeBaseRows.mp hrow
    exact ⟨m, hm, hmk.trans (beq_iff_eq.mp hid), hu⟩

end Uploads

section Retrieval
variable {ρ : Type} [LinearOrder ρ]

private theorem evidenceOf_record {record : FusedInternalAuthoritativeRetrievalRecord}
    {item : RetrievedEvidence} {db : Database} {knowledgeBaseId : UUID}
    (hitem : retrievedEvidence record = .ok item)
    (hrecord : Authoritative db knowledgeBaseId record.authoritative) :
    ∃ chunk ∈ db.documentChunks, ∃ d ∈ db.documents, EvidenceOf item chunk d ∧
      d.knowledgeBaseId = knowledgeBaseId := by
  obtain ⟨chunk, hchunk, d, hd, contentSha256, hjoined, hkb, hstatus, hsha, hmatches, heq⟩ := hrecord
  unfold retrievedEvidence at hitem
  rw [heq] at hitem
  dsimp only at hitem
  split at hitem
  · cases hitem
  · obtain rfl := Except.ok.inj hitem
    exact ⟨chunk, hchunk, d, hd,
      ⟨hjoined, hstatus, hsha, hmatches, rfl, rfl, rfl, rfl, ⟨rfl, rfl⟩, ⟨rfl, rfl⟩, rfl⟩, hkb⟩

/-- The evidence of a retrieval is in the state that its final transaction saw. -/
theorem postgresRetrieve_shown {collaborators : Collaborators ρ} {txns : Transactions}
    {proof : SessionAuthenticationProof} {knowledgeBaseId : UUID} {payload : Payload}
    {result : HybridRetrievalResult} {items : List RetrievedEvidence}
    (hretrieve : postgresRetrieve collaborators txns proof knowledgeBaseId payload = .ok result)
    (hproject : projectRetrievedEvidence result = .ok items) :
    ∃ db, txns.final.sees 1 = some db ∧ Shown proof.principal.userId db (.evidence items) := by
  obtain ⟨db, hsnapshot, hauthorized, hrecords⟩ := postgresRetrieve_ok hretrieve
  obtain ⟨m, hm, hmk, hu, _⟩ := hauthorized.membership
  refine ⟨db, hsnapshot.authorization, .evidence fun item hitem => ?_⟩
  obtain ⟨record, hrecord, hmade⟩ := exists_of_forall₂ (mapM_eq_ok.mp hproject) hitem
  obtain ⟨chunk, hchunk, d, hd, hevidence, hkb⟩ := evidenceOf_record hmade (hrecords record hrecord)
  exact ⟨chunk, hchunk, d, hd, hevidence, m, hm, hmk.trans hkb.symm, hu⟩

end Retrieval
end AgenticRag.Api

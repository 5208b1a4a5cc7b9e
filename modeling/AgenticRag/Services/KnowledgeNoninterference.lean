import AgenticRag.Services.KnowledgeIntake
import AgenticRag.Services.MembershipWrites

/-! Every call of the knowledge API keeps to the knowledge bases of its caller: what it returns
and what it changes depend on nothing else, and it changes nothing else. -/
namespace AgenticRag.Services
open Lib Python Db Ingestion Security

section Calls
variable {userId : UUID} {db db' : Database}

theorem authorizeUpload_eq (h : MembershipAgree userId db db') (knowledgeBaseId : UUID) :
    authorizeUpload db knowledgeBaseId userId = authorizeUpload db' knowledgeBaseId userId := by
  rw [authorizeUpload, authorizeUpload, h.getUploadTarget_eq]

theorem isMember_of_authorizeUpload {knowledgeBaseId : UUID}
    (h : authorizeUpload db knowledgeBaseId userId = .ok ()) : db.IsMember userId knowledgeBaseId := by
  unfold authorizeUpload at h
  split at h
  · cases h
  · rename_i knowledgeBase role htarget
    obtain ⟨m, hrow, _⟩ := getUploadTargetForUser_eq_some.mp htarget
    obtain ⟨_, hm, hmk, hid, hu⟩ := mem_knowledgeBaseRows.mp hrow
    exact ⟨m, hm, hmk.trans (beq_iff_eq.mp hid), hu⟩

theorem findDuplicate_eq (h : MembershipAgree userId db db') (hunique : UniqueConstraints db)
    (hunique' : UniqueConstraints db') (knowledgeBaseId : UUID) (sha256 : Str) :
    findDuplicate db knowledgeBaseId sha256 userId =
      findDuplicate db' knowledgeBaseId sha256 userId := by
  rw [findDuplicate, findDuplicate, authorizeUpload_eq h, h.getByDigest_eq hunique hunique']

theorem resolveConcurrentDuplicate_eq (h : MembershipAgree userId db db')
    (hunique : UniqueConstraints db) (hunique' : UniqueConstraints db') (knowledgeBaseId : UUID)
    (sha256 : Str) :
    resolveConcurrentDuplicate db knowledgeBaseId sha256 userId =
      resolveConcurrentDuplicate db' knowledgeBaseId sha256 userId := by
  rw [resolveConcurrentDuplicate, resolveConcurrentDuplicate, authorizeUpload_eq h,
    h.getByDigest_eq hunique hunique']

/-- The storage key is one of a knowledge base of the user. -/
def OwnsFile (db : Database) (userId : UUID) (key : Str) : Prop :=
  ∃ knowledgeBaseId documentId extension, db.IsMember userId knowledgeBaseId ∧
    key = storageKey knowledgeBaseId documentId extension

/-- Each stored file is left alone in both runs, or is the user's and ends alike in both. -/
def FilesAlike (userId : UUID) (s s' : KnowledgeState) (files files' : Str → Option (List UInt8)) :
    Prop :=
  ∀ key, files key = s.files key ∧ files' key = s'.files key ∨
    files key = files' key ∧ OwnsFile s.db userId key

/-- The runs from `s` to `t` and from `s'` to `t'` change the same in the user's knowledge bases,
and nothing else. -/
structure SameChanges (userId : UUID) (s s' t t' : KnowledgeState) : Prop where
  agree : MembershipAgree userId t.db t'.db
  outside : OutsideKept userId s.db t.db
  outside' : OutsideKept userId s'.db t'.db
  files : FilesAlike userId s s' t.files t'.files

variable {s s' t t' : KnowledgeState} {key : Str}

theorem FilesAlike.refl : FilesAlike userId s s' s.files s'.files := fun _ => .inl ⟨rfl, rfl⟩

theorem FilesAlike.update {files files' : Str → Option (List UInt8)}
    (h : FilesAlike userId s s' files files') (hkey : OwnsFile s.db userId key)
    (content : Option (List UInt8)) :
    FilesAlike userId s s' (Function.update files key content) (Function.update files' key content) := by
  intro k
  by_cases hk : k = key
  · rw [hk, Function.update_self, Function.update_self]
    exact .inr ⟨rfl, hkey⟩
  · rw [Function.update_of_ne hk, Function.update_of_ne hk]
    exact h k

theorem SameChanges.refl (h : MembershipAgree userId s.db s'.db) : SameChanges userId s s' s s' :=
  ⟨h, .refl _ _, .refl _ _, .refl⟩

theorem SameChanges.delete (h : SameChanges userId s s' t t') (hkey : OwnsFile s.db userId key) :
    SameChanges userId s s' (t.delete key) (t'.delete key) :=
  ⟨h.agree, h.outside, h.outside', h.files.update hkey none⟩

/-- Two calls that return the same and change the same. -/
def Alike {α : Type} (userId : UUID) (s s' : KnowledgeState) (x x' : Except UploadRaised α × KnowledgeState) :
    Prop :=
  x.1 = x'.1 ∧ SameChanges userId s s' x.2 x'.2

section Upload
variable {svc : KnowledgeIntakeService} {env : CallEnvironment} {knowledgeBaseId : UUID}
variable (hagree : MembershipAgree userId s.db s'.db) (hunique : UniqueConstraints s.db)
variable (hunique' : UniqueConstraints s'.db)
variable (hunclaimed : Unclaimed userId env.documentId env.jobId s.db)
variable (hunclaimed' : Unclaimed userId env.documentId env.jobId s'.db)

theorem insertUpload_alike (document : Document) {jobId : UUID}
    (hagree : MembershipAgree userId db db') (hunclaimed : Unclaimed userId document.id jobId db)
    (hunclaimed' : Unclaimed userId document.id jobId db')
    (hmember : db.IsMember userId document.knowledgeBaseId)
    (hkey : ∃ extension, document.storageKey =
      storageKey document.knowledgeBaseId document.id extension) :
    (∃ e e', insertUpload db document jobId = .error e ∧ insertUpload db' document jobId = .error e') ∨
      ∃ job db₁ db₁', insertUpload db document jobId = .ok (job, db₁) ∧
        insertUpload db' document jobId = .ok (job, db₁') ∧ MembershipAgree userId db₁ db₁' ∧
        OutsideKept userId db db₁ ∧ OutsideKept userId db' db₁' := by
  have hmember' := hagree.isMember_iff.mp hmember
  cases hok : insertUpload db document jobId with
  | error e =>
    cases hok' : insertUpload db' document jobId with
    | error e' => exact .inl ⟨e, e', rfl, rfl⟩
    | ok out =>
      have hinsertable := (insertUpload_iff.mp ⟨_, _, hok'⟩).of_agree hagree.symm hmember'
        hunclaimed hkey
      obtain ⟨_, _, hok''⟩ := insertUpload_iff.mpr hinsertable
      rw [hok] at hok''
      cases hok''
  | ok out =>
    have hinsertable := (insertUpload_iff.mp ⟨_, _, hok⟩).of_agree hagree hmember hunclaimed' hkey
    obtain ⟨job', db₁', hok'⟩ := insertUpload_iff.mpr hinsertable
    obtain ⟨rfl, hagree₁⟩ := insertUpload_agree hok hok' hagree hmember hunclaimed hunclaimed'
    exact .inr ⟨_, _, db₁', rfl, hok', hagree₁, insertUpload_outside hok hmember,
      insertUpload_outside hok' hmember'⟩

include hagree hunique hunique' hunclaimed hunclaimed' in
theorem persistUpload_alike (hmember : s.db.IsMember userId knowledgeBaseId) (filename : Str)
    (mediaType : String) {stored : StoredFile} {extension : Str}
    (hkey : stored.storageKey = storageKey knowledgeBaseId env.documentId extension)
    {files files' : Str → Option (List UInt8)} (hfiles : FilesAlike userId s s' files files') :
    Alike userId s s'
      (KnowledgeIntakeService.persistUpload env userId ⟨s.db, files⟩ knowledgeBaseId filename mediaType
        stored)
      (KnowledgeIntakeService.persistUpload env userId ⟨s'.db, files'⟩ knowledgeBaseId filename
        mediaType stored) := by
  have hsame : SameChanges userId s s' ⟨s.db, files⟩ ⟨s'.db, files'⟩ :=
    ⟨hagree, .refl _ _, .refl _ _, hfiles⟩
  have howns : OwnsFile s.db userId stored.storageKey := ⟨_, _, _, hmember, hkey⟩
  unfold KnowledgeIntakeService.persistUpload
  split
  · exact ⟨rfl, hsame⟩
  dsimp only
  rw [← findDuplicate_eq hagree hunique hunique', ← resolveConcurrentDuplicate_eq hagree hunique hunique']
  cases findDuplicate s.db knowledgeBaseId stored.sha256 userId with
  | error e => exact ⟨rfl, hsame⟩
  | ok duplicate =>
    cases duplicate with
    | some result => exact ⟨rfl, hsame.delete howns⟩
    | none =>
      dsimp only
      rcases insertUpload_alike (uploadedDocument env.documentId knowledgeBaseId filename mediaType
        stored env.createdAt) hagree hunclaimed hunclaimed' hmember ⟨extension, hkey⟩ with
        ⟨e, e', hins, hins'⟩ | ⟨job, db₁, db₁', hins, hins', hagree₁, hout, hout'⟩
      · rw [hins, hins']
        exact ⟨rfl, hsame.delete howns⟩
      · rw [hins, hins']
        exact ⟨rfl, hagree₁, hout, hout', hfiles⟩

theorem storageKey_of_storeUpload {source : List (List UInt8)} {key : Str} {content : List UInt8}
    {stored : StoredFile} (h : svc.storeUpload env source key = .ok (content, stored)) :
    stored.storageKey = key := by
  unfold KnowledgeIntakeService.storeUpload store at h
  split at h
  · cases h
  · cases hread : readSource svc.maxUploadSizeBytes [] [] source with
    | error e =>
      rw [hread] at h
      cases h
    | ok out =>
      rw [hread] at h
      cases h
      rfl

theorem Alike.cleanupOwned {x x' : Except UploadRaised UploadResult × KnowledgeState}
    (h : Alike userId s s' x x') (hkey : OwnsFile s.db userId key) :
    Alike userId s s' (KnowledgeIntakeService.cleanupOwned key x)
      (KnowledgeIntakeService.cleanupOwned key x') := by
  obtain ⟨outcome, t⟩ := x
  obtain ⟨outcome', t'⟩ := x'
  obtain ⟨rfl, hchanges⟩ := h
  cases outcome with
  | ok result => exact ⟨rfl, hchanges⟩
  | error e => exact ⟨rfl, hchanges.delete hkey⟩

include hagree hunique hunique' hunclaimed hunclaimed' in
theorem uploadOwned_alike (hmember : s.db.IsMember userId knowledgeBaseId) (filename : Str)
    (mediaType : String) (source : List (List UInt8)) (extension : Str) :
    Alike userId s s'
      (svc.uploadOwned env userId s knowledgeBaseId filename mediaType source
        (storageKey knowledgeBaseId env.documentId extension))
      (svc.uploadOwned env userId s' knowledgeBaseId filename mediaType source
        (storageKey knowledgeBaseId env.documentId extension)) := by
  have howns : OwnsFile s.db userId (storageKey knowledgeBaseId env.documentId extension) :=
    ⟨_, _, _, hmember, rfl⟩
  unfold KnowledgeIntakeService.uploadOwned
  cases hstore : svc.storeUpload env source (storageKey knowledgeBaseId env.documentId extension) with
  | error e => exact ⟨rfl, .refl hagree⟩
  | ok out =>
    obtain ⟨content, stored⟩ := out
    have hpublished := (FilesAlike.refl : FilesAlike userId s s' s.files s'.files).update howns
      (some content)
    dsimp only
    cases validateContent mediaType stored with
    | error e => exact Alike.cleanupOwned ⟨rfl, hagree, .refl _ _, .refl _ _, hpublished⟩ howns
    | ok _ =>
      exact (persistUpload_alike hagree hunique hunique' hunclaimed hunclaimed' hmember filename mediaType
        (storageKey_of_storeUpload hstore) hpublished).cleanupOwned howns

include hagree hunique hunique' hunclaimed hunclaimed' in
theorem uploadDocument_alike (filename : Str) (mediaType : String) (source : List (List UInt8)) :
    Alike userId s s'
      (svc.uploadDocument env userId s knowledgeBaseId filename mediaType source)
      (svc.uploadDocument env userId s' knowledgeBaseId filename mediaType source) := by
  unfold KnowledgeIntakeService.uploadDocument
  cases validateUploadMetadata filename mediaType with
  | error e => exact ⟨rfl, .refl hagree⟩
  | ok extension =>
    dsimp only
    rw [← authorizeUpload_eq hagree, CallEnvironment.transaction]
    cases env.databaseFails 0 with
    | true => exact ⟨rfl, .refl hagree⟩
    | false =>
      cases hauthorize : authorizeUpload s.db knowledgeBaseId userId with
      | error e => exact ⟨rfl, .refl hagree⟩
      | ok _ =>
        exact uploadOwned_alike hagree hunique hunique' hunclaimed hunclaimed'
          (isMember_of_authorizeUpload hauthorize) filename mediaType source extension

end Upload

section Requests
variable {env : CallEnvironment}

theorem retryIngestionJob_alike (hagree : MembershipAgree userId s.db s'.db) (jobId : UUID) :
    Alike userId s s' (KnowledgeIntakeService.retryIngestionJob env userId s jobId)
      (KnowledgeIntakeService.retryIngestionJob env userId s' jobId) := by
  have hrelated := retryIngestionJob_related hagree jobId
  unfold KnowledgeIntakeService.retryIngestionJob CallEnvironment.transaction
  cases env.databaseFails 0 with
  | true => exact ⟨rfl, .refl hagree⟩
  | false =>
    cases hretry : retryIngestionJob s.db userId jobId with
    | error e =>
      cases hretry' : retryIngestionJob s'.db userId jobId with
      | error e' =>
        rw [hretry, hretry'] at hrelated
        obtain rfl : e = e' := hrelated
        exact ⟨rfl, .refl hagree⟩
      | ok out' =>
        rw [hretry, hretry'] at hrelated
        exact hrelated.elim
    | ok out =>
      cases hretry' : retryIngestionJob s'.db userId jobId with
      | error e' =>
        rw [hretry, hretry'] at hrelated
        exact hrelated.elim
      | ok out' =>
        rw [hretry, hretry'] at hrelated
        obtain ⟨hjob, hagree'⟩ := hrelated
        exact ⟨congrArg Except.ok hjob, hagree', retryIngestionJob_outside hretry,
          retryIngestionJob_outside hretry', .refl⟩

/-- A read returns what it returns in the other state, and changes nothing. -/
theorem Alike.read {α : Type} {x x' : Except UploadRaised α} (hagree : MembershipAgree userId s.db s'.db)
    (h : x = x') : Alike userId s s' (x, s) (x', s') := ⟨h, .refl hagree⟩

theorem Alike.map {α β : Type} {x x' : Except UploadRaised α × KnowledgeState} (f : α → β)
    (h : Alike userId s s' x x') : Alike userId s s' (x.1.map f, x.2) (x'.1.map f, x'.2) :=
  ⟨congrArg (Except.map f) h.1, h.2⟩

/-- The request has its row identifiers from `uuid4`. -/
def KnowledgeRequest.generates : KnowledgeRequest → Bool
  | .uploadDocument _ _ _ _ => true
  | _ => false

theorem serve_alike (svc : KnowledgeIntakeService) (env : CallEnvironment)
    (hagree : MembershipAgree userId s.db s'.db) (hunique : UniqueConstraints s.db)
    (hunique' : UniqueConstraints s'.db) (request : KnowledgeRequest)
    (hgenerated : request.generates = true → Unclaimed userId env.documentId env.jobId s.db ∧
      Unclaimed userId env.documentId env.jobId s'.db) :
    Alike userId s s' (svc.serve env userId s request) (svc.serve env userId s' request) := by
  cases request with
  | listKnowledgeBases limit offset =>
    refine Alike.read hagree (congrArg _ ?_)
    rw [KnowledgeIntakeService.listKnowledgeBases, KnowledgeIntakeService.listKnowledgeBases,
      hagree.listKnowledgeBases_eq]
  | getKnowledgeBase knowledgeBaseId =>
    refine Alike.read hagree (congrArg _ ?_)
    rw [KnowledgeIntakeService.getKnowledgeBase, KnowledgeIntakeService.getKnowledgeBase,
      hagree.getKnowledgeBase_eq]
  | listDocuments knowledgeBaseId limit offset =>
    refine Alike.read hagree (congrArg _ ?_)
    rw [KnowledgeIntakeService.listDocuments, KnowledgeIntakeService.listDocuments,
      KnowledgeIntakeService.visibleDocuments, KnowledgeIntakeService.visibleDocuments,
      hagree.getKnowledgeBase_eq, hagree.listDocuments_eq]
  | getDocument documentId =>
    refine Alike.read hagree (congrArg _ ?_)
    rw [KnowledgeIntakeService.getDocument, KnowledgeIntakeService.getDocument,
      hagree.getDocument_eq hunique hunique']
  | getIngestionJob jobId =>
    refine Alike.read hagree (congrArg _ ?_)
    rw [KnowledgeIntakeService.getIngestionJob, KnowledgeIntakeService.getIngestionJob,
      hagree.getIngestionJob_eq]
  | retryIngestionJob jobId => exact (retryIngestionJob_alike hagree jobId).map _
  | uploadDocument knowledgeBaseId filename mediaType source =>
    obtain ⟨hunclaimed, hunclaimed'⟩ := hgenerated rfl
    exact (uploadDocument_alike hagree hunique hunique' hunclaimed hunclaimed' filename mediaType
      source).map _

/-- Noninterference: between states that agree on the user's knowledge bases, every call returns
the same, changes the same in these knowledge bases, and changes nothing outside them. -/
theorem membership_noninterference (svc : KnowledgeIntakeService) (env : CallEnvironment)
    (hagree : MembershipAgree userId s.db s'.db) (hunique : UniqueConstraints s.db)
    (hunique' : UniqueConstraints s'.db) (request : KnowledgeRequest)
    (hgenerated : request.generates = true → Unclaimed userId env.documentId env.jobId s.db ∧
      Unclaimed userId env.documentId env.jobId s'.db) :
    (svc.serve env userId s request).1 = (svc.serve env userId s' request).1 ∧
      SameChanges userId s s' (svc.serve env userId s request).2 (svc.serve env userId s' request).2 :=
  serve_alike svc env hagree hunique hunique' request hgenerated

end Requests

section Runs
variable {svc : KnowledgeIntakeService} {env : CallEnvironment}

/-- An upload inserts its rows, or leaves the rows as they are. -/
theorem uploadDocument_db (svc : KnowledgeIntakeService) (knowledgeBaseId : UUID) (filename : Str) (mediaType : String)
    (source : List (List UInt8)) :
    (svc.uploadDocument env userId s knowledgeBaseId filename mediaType source).2.db = s.db ∨
      ∃ document job, insertUpload s.db document env.jobId = .ok (job,
        (svc.uploadDocument env userId s knowledgeBaseId filename mediaType source).2.db) := by
  have hcleanup (key : Str) (x : Except UploadRaised UploadResult × KnowledgeState) :
      (KnowledgeIntakeService.cleanupOwned key x).2.db = x.2.db := by
    obtain ⟨outcome, t⟩ := x
    cases outcome <;> rfl
  unfold KnowledgeIntakeService.uploadDocument
  split
  · exact .inl rfl
  split
  · exact .inl rfl
  unfold KnowledgeIntakeService.uploadOwned
  split
  · exact .inl rfl
  dsimp only
  rw [hcleanup]
  split
  · exact .inl rfl
  unfold KnowledgeIntakeService.persistUpload
  split
  · exact .inl rfl
  split
  · exact .inl rfl
  · exact .inl rfl
  dsimp only
  split
  · rename_i job db₁ hok
    exact .inr ⟨_, job, hok⟩
  · exact .inl rfl

/-- Every call keeps the unique constraints. -/
theorem serve_uniqueConstraints (h : UniqueConstraints s.db) (request : KnowledgeRequest) :
    UniqueConstraints (svc.serve env userId s request).2.db := by
  cases request with
  | listKnowledgeBases => exact h
  | getKnowledgeBase => exact h
  | listDocuments => exact h
  | getDocument => exact h
  | getIngestionJob => exact h
  | retryIngestionJob jobId =>
    change UniqueConstraints (KnowledgeIntakeService.retryIngestionJob env userId s jobId).2.db
    unfold KnowledgeIntakeService.retryIngestionJob CallEnvironment.transaction
    cases env.databaseFails 0 with
    | true => exact h
    | false =>
      cases hretry : retryIngestionJob s.db userId jobId with
      | error e => exact h
      | ok out => exact retryIngestionJob_uniqueConstraints h hretry
  | uploadDocument knowledgeBaseId filename mediaType source =>
    rcases uploadDocument_db svc knowledgeBaseId filename mediaType source with hdb | ⟨_, _, hok⟩
    · change UniqueConstraints (svc.uploadDocument _ _ _ _ _ _ _).2.db
      rw [hdb]
      exact h
    · exact insertUpload_uniqueConstraints h hok

/-- Two runs in which the user makes the same calls. Between them the states may change, each in
its way, as long as they agree on the user's knowledge bases. -/
inductive PairedRuns (svc : KnowledgeIntakeService) (userId : UUID) : KnowledgeState → KnowledgeState →
    List (Except UploadRaised KnowledgeResult) → List (Except UploadRaised KnowledgeResult) → Prop
  | nil (s s' : KnowledgeState) : PairedRuns svc userId s s' [] []
  | call {s s' : KnowledgeState} {outcomes outcomes' : List (Except UploadRaised KnowledgeResult)}
      (env : CallEnvironment) (request : KnowledgeRequest)
      (generated : request.generates = true → Unclaimed userId env.documentId env.jobId s.db ∧
        Unclaimed userId env.documentId env.jobId s'.db)
      (rest : PairedRuns svc userId (svc.serve env userId s request).2
        (svc.serve env userId s' request).2 outcomes outcomes') :
      PairedRuns svc userId s s' ((svc.serve env userId s request).1 :: outcomes)
        ((svc.serve env userId s' request).1 :: outcomes')
  | elsewhere {s s' t t' : KnowledgeState}
      {outcomes outcomes' : List (Except UploadRaised KnowledgeResult)}
      (agree : MembershipAgree userId t.db t'.db)
      (unique : UniqueConstraints t.db) (unique' : UniqueConstraints t'.db)
      (rest : PairedRuns svc userId t t' outcomes outcomes') :
      PairedRuns svc userId s s' outcomes outcomes'

/-- Over any such runs the user cannot tell the two states apart. -/
theorem PairedRuns.outcomes_eq {outcomes outcomes' : List (Except UploadRaised KnowledgeResult)}
    (h : PairedRuns svc userId s s' outcomes outcomes') (hagree : MembershipAgree userId s.db s'.db)
    (hunique : UniqueConstraints s.db) (hunique' : UniqueConstraints s'.db) : outcomes = outcomes' := by
  induction h with
  | nil => rfl
  | call env request generated rest ih =>
    obtain ⟨houtcome, hchanges⟩ :=
      serve_alike svc env hagree hunique hunique' request generated
    rw [houtcome, ih hchanges.agree (serve_uniqueConstraints hunique request)
      (serve_uniqueConstraints hunique' request)]
  | elsewhere agree unique unique' rest ih => exact ih agree unique unique'

end Runs
end Calls

section Example

def blankSha256 : Sha256 := fun _ => List.Vector.replicate 32 0

/-- User 1 edits knowledge base 3, with a document whose job failed. -/
def memberDatabase : Database where
  users := ⟨[⟨1, str "member", [], true⟩], List.nodup_singleton _⟩
  userSessions := Table.empty
  knowledgeBases := ⟨[⟨3, str "wiki", none, 0⟩], List.nodup_singleton _⟩
  memberships := ⟨[⟨3, 1, .editor⟩], List.nodup_singleton _⟩
  documents := ⟨[⟨4, 3, str "a.txt", "text/plain", 1, str "a", str "k", .failed, 0⟩],
    List.nodup_singleton _⟩
  ingestionJobs := ⟨[{ IngestionJob.new 5 4 0 with status := .failed, attemptCount := 1 }],
    List.nodup_singleton _⟩
  documentChunks := Table.empty

/-- The same with a knowledge base of user 2, with a document and its job. -/
def neighbourDatabase : Database :=
  { memberDatabase with
    knowledgeBases := ⟨[⟨7, str "other", none, 0⟩, ⟨3, str "wiki", none, 0⟩], by decide⟩
    memberships := ⟨[⟨7, 2, .owner⟩, ⟨3, 1, .editor⟩], by decide⟩
    documents := ⟨[⟨8, 7, str "b.txt", "text/plain", 1, hexdigest blankSha256 [], str "l", .pending, 0⟩,
      ⟨4, 3, str "a.txt", "text/plain", 1, str "a", str "k", .failed, 0⟩], by decide⟩
    ingestionJobs := ⟨[IngestionJob.new 9 8 0,
      { IngestionJob.new 5 4 0 with status := .failed, attemptCount := 1 }], by decide⟩ }

theorem memberDatabase_isMember {knowledgeBaseId : UUID}
    (h : memberDatabase.IsMember 1 knowledgeBaseId) : knowledgeBaseId = 3 := by
  obtain ⟨m, hm, rfl, _⟩ := h
  obtain rfl := List.mem_singleton.mp hm
  rfl

theorem memberDatabase_owns {documentId : UUID} (h : memberDatabase.Owns 1 documentId) :
    documentId = 4 := by
  obtain ⟨d, hd, rfl, _⟩ := h
  obtain rfl := List.mem_singleton.mp hd
  rfl

private theorem mem_cons_iff_of_ne {α : Type} {a b : α} {l : List α} (h : a ≠ b) :
    a ∈ l ↔ a ∈ b :: l := by
  rw [List.mem_cons, or_iff_right h]

theorem neighbour_agrees : MembershipAgree 1 memberDatabase neighbourDatabase where
  membership m hu := by
    refine mem_cons_iff_of_ne ?_
    rintro rfl
    cases hu
  knowledgeBase k hk := by
    refine mem_cons_iff_of_ne ?_
    rintro rfl
    cases memberDatabase_isMember hk
  document d hd := by
    refine mem_cons_iff_of_ne ?_
    rintro rfl
    cases memberDatabase_isMember hd
  job j hj := by
    refine mem_cons_iff_of_ne ?_
    rintro rfl
    cases memberDatabase_owns hj
  chunk _ _ := Iff.rfl

theorem storageKey_ne_of_length {key : Str} (h : key.length ≤ 36) (knowledgeBaseId documentId : UUID)
    (extension : Str) : key ≠ storageKey knowledgeBaseId documentId extension := by
  intro hkey
  rw [hkey, storageKey, List.length_append, List.length_cons, UUID.str_length] at h
  omega

def memberState : KnowledgeState := ⟨memberDatabase, fun _ => none⟩

def neighbourState : KnowledgeState := ⟨neighbourDatabase, fun _ => none⟩

def exampleIntake : KnowledgeIntakeService := ⟨blankSha256, 100⟩

def exampleCall : CallEnvironment := ⟨10, 11, 5, none, fun _ => false⟩

/-- A file with the digest of the other knowledge base's document. -/
def memberUpload : KnowledgeRequest := .uploadDocument 3 (str "b.txt") "text/plain" [[0x62]]

theorem membership_noninterference_example :
    (exampleIntake.serve exampleCall 1 memberState memberUpload).1 =
        (exampleIntake.serve exampleCall 1 neighbourState memberUpload).1 ∧
      SameChanges 1 memberState neighbourState
        (exampleIntake.serve exampleCall 1 memberState memberUpload).2
        (exampleIntake.serve exampleCall 1 neighbourState memberUpload).2 := by
  have hunique : UniqueConstraints memberDatabase := by
    constructor
    · change ∀ a ∈ memberDatabase.documents.rows, ∀ b ∈ memberDatabase.documents.rows, _
      decide
    · change ∀ a ∈ memberDatabase.ingestionJobs.rows, ∀ b ∈ memberDatabase.ingestionJobs.rows, _
      decide
  have hunique' : UniqueConstraints neighbourDatabase := by
    constructor
    · change ∀ a ∈ neighbourDatabase.documents.rows, ∀ b ∈ neighbourDatabase.documents.rows, _
      decide
    · change ∀ a ∈ neighbourDatabase.ingestionJobs.rows, ∀ b ∈ neighbourDatabase.ingestionJobs.rows, _
      decide
  have hkeys : ∀ d ∈ neighbourDatabase.documents.rows, d.id ≠ 10 ∧ d.storageKey.length ≤ 36 := by decide
  have hjobs : ∀ j ∈ neighbourDatabase.ingestionJobs.rows, j.id ≠ 11 ∧ j.documentId ≠ 10 := by decide
  have hunclaimed' : Unclaimed 1 10 11 neighbourDatabase :=
    ⟨fun d hd _ => ⟨(hkeys d hd).1, fun _ _ => storageKey_ne_of_length (hkeys d hd).2 _ _ _⟩,
      fun j hj _ => hjobs j hj, fun c hc => absurd hc (Table.not_mem_empty c)⟩
  have hunclaimed : Unclaimed 1 10 11 memberDatabase :=
    ⟨fun d hd hout => hunclaimed'.document d (List.mem_cons_of_mem _ hd)
        fun hin => hout (neighbour_agrees.isMember_iff.mpr hin),
      fun j hj _ => hjobs j (List.mem_cons_of_mem _ hj), fun c hc => absurd hc (Table.not_mem_empty c)⟩
  exact membership_noninterference exampleIntake exampleCall neighbour_agrees hunique hunique'
    memberUpload fun _ => ⟨hunclaimed, hunclaimed'⟩

end Example
end AgenticRag.Services

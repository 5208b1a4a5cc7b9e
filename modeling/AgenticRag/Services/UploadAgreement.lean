import AgenticRag.Services.UploadMachine
import AgenticRag.Services.WorkerMachine

/-! Stored files and Document rows agree in every state that uploads reach: a row has its file,
and of a finished call only a committed row leaves one behind. -/
namespace AgenticRag.Services
open Lib Python Db Ingestion Security

/-- The metadata of the bytes of a request, stored under the key of its call. -/
structure StoredAs (sha256 : Sha256) (request : UploadRequest) (key : Str) (stored : StoredFile) :
    Prop where
  storageKey : stored.storageKey = key
  sizeBytes : stored.sizeBytes = request.bytes.length
  sha256 : stored.sha256 = hexdigest sha256 request.bytes

/-- The document of a result is a row with the bytes of the request. -/
def Returned (sha256 : Sha256) (db : Database) (request : UploadRequest) (result : UploadResult) :
    Prop :=
  ∃ row ∈ db.documents, row.id = result.document.id ∧
    row.knowledgeBaseId = request.knowledgeBaseId ∧ row.sha256 = hexdigest sha256 request.bytes

/-- What holds of a call that owns its key, by what comes next. -/
def StageHolds (sha256 : Sha256) (s : UploadState) (id : Nat) (request : UploadRequest)
    (documentId : UUID) (key : Str) : OwnedStage → Prop
  | .store => s.files key = none
  | .lookup stored | .insert stored =>
    StoredAs sha256 request key stored ∧ s.files key = some request.bytes
  | .deleteDuplicate stored result =>
    StoredAs sha256 request key stored ∧ Returned sha256 s.db request result ∧
      result.duplicate = true
  | .commitDuplicate stored result =>
    StoredAs sha256 request key stored ∧ Returned sha256 s.db request result ∧
      result.duplicate = true ∧ s.files key = none
  | .deleteConflict stored => StoredAs sha256 request key stored
  | .resolve stored => StoredAs sha256 request key stored ∧ s.files key = none
  | .cleanup _ => True
  | .done outcome => ((s.files key).isSome ↔ (id, key) ∈ s.commits) ∧
      ∀ result, outcome = .ok result → Returned sha256 s.db request result ∧
        (result.duplicate = false → result.document.id = documentId)

/-- The rows and their files. -/
structure UploadRows (sha256 : Sha256) (s : UploadState) : Prop where
  stored : ∀ document ∈ s.db.documents, ∃ content, s.files document.storageKey = some content ∧
    content.length = document.sizeBytes ∧ hexdigest sha256 content = document.sha256
  committed : ∀ document ∈ s.db.documents, ∃ id, (id, document.storageKey) ∈ s.commits
  one_document : ∀ d ∈ s.db.documents, ∀ e ∈ s.db.documents,
    d.knowledgeBaseId = e.knowledgeBaseId → d.sha256 = e.sha256 → d.id = e.id
  has_job : ∀ d ∈ s.db.documents, ∃ job ∈ s.db.ingestionJobs, job.documentId = d.id
  one_job : ∀ a ∈ s.db.ingestionJobs, ∀ b ∈ s.db.ingestionJobs,
    a.documentId = b.documentId → a.id = b.id

/-- The invariant of the uploads. -/
structure Agreement (sha256 : Sha256) (s : UploadState) : Prop where
  rows : UploadRows sha256 s
  owners : ∀ id key, (id, key) ∈ s.commits →
    (∃ request d outcome, s.calls id = some ⟨request, .owned d key (.done outcome)⟩) ∧
      ∃ document ∈ s.db.documents, document.storageKey = key
  calls : ∀ id request d key stage, s.calls id = some ⟨request, .owned d key stage⟩ →
    d ∈ s.issued ∧ (∃ extension, key = storageKey request.knowledgeBaseId d extension) ∧
      StageHolds sha256 s id request d key stage
  apart : ∀ i j r r' d key key' stage stage', s.calls i = some ⟨r, .owned d key stage⟩ →
    s.calls j = some ⟨r', .owned d key' stage'⟩ → i = j
  filed : ∀ key, (s.files key).isSome →
    ∃ id request d stage, s.calls id = some ⟨request, .owned d key stage⟩

section Invariant
variable {sha256 : Sha256} {s t : UploadState} {id : Nat} {request : UploadRequest} {d : UUID}
  {key : Str} {stage stage' : OwnedStage}

/-- What a call knows depends on its own file and commit, and on rows that stay. -/
theorem StageHolds.frame (h : StageHolds sha256 s id request d key stage)
    (hfiles : t.files key = s.files key) (hcommits : (id, key) ∈ t.commits ↔ (id, key) ∈ s.commits)
    (hrows : ∀ result, Returned sha256 s.db request result → Returned sha256 t.db request result) :
    StageHolds sha256 t id request d key stage := by
  cases stage with
  | store => exact hfiles.trans h
  | lookup stored => exact ⟨h.1, hfiles.trans h.2⟩
  | insert stored => exact ⟨h.1, hfiles.trans h.2⟩
  | deleteDuplicate stored result => exact ⟨h.1, hrows _ h.2.1, h.2.2⟩
  | commitDuplicate stored result => exact ⟨h.1, hrows _ h.2.1, h.2.2.1, hfiles.trans h.2.2.2⟩
  | deleteConflict stored => exact h
  | resolve stored => exact ⟨h.1, hfiles.trans h.2⟩
  | cleanup raised => trivial
  | done outcome =>
    refine ⟨by rw [hfiles, hcommits]; exact h.1, fun result hok => ?_⟩
    obtain ⟨hreturned, hown⟩ := h.2 result hok
    exact ⟨hrows _ hreturned, hown⟩

/-- A call that has not finished has committed nothing. -/
theorem Agreement.uncommitted (h : Agreement sha256 s)
    (hcall : s.calls id = some ⟨request, .owned d key stage⟩)
    (hopen : stage.finished = false) (k : Str) : (id, k) ∉ s.commits := by
  intro hmem
  obtain ⟨⟨r, d', outcome, howner⟩, _⟩ := h.owners id k hmem
  rw [hcall] at howner
  cases howner
  cases hopen

/-- Keys of distinct calls differ: a key determines its document id. -/
theorem Agreement.key_apart (h : Agreement sha256 s) {j : Nat} {r : UploadRequest} {d' : UUID}
    {other : OwnedStage} (hcall : s.calls id = some ⟨request, .owned d key stage⟩)
    (hother : s.calls j = some ⟨r, .owned d' key other⟩) : id = j := by
  obtain ⟨_, ⟨e, hkey⟩, _⟩ := h.calls _ _ _ _ _ hcall
  obtain ⟨_, ⟨e', hkey'⟩, _⟩ := h.calls _ _ _ _ _ hother
  obtain ⟨_, rfl, _⟩ := storageKey_injective (hkey.symm.trans hkey')
  exact h.apart _ _ _ _ _ _ _ _ _ hcall hother

/-- No row has the key of a call that has not finished. -/
theorem Agreement.row_apart (h : Agreement sha256 s)
    (hcall : s.calls id = some ⟨request, .owned d key stage⟩)
    (hopen : stage.finished = false) :
    ∀ document ∈ s.db.documents, document.storageKey ≠ key := by
  rintro document hdocument rfl
  obtain ⟨j, hmem⟩ := h.rows.committed document hdocument
  obtain ⟨⟨r, d', outcome, howner⟩, _⟩ := h.owners j _ hmem
  obtain rfl := h.key_apart hcall howner
  exact h.uncommitted hcall hopen _ hmem

/-- A step of one call: the other calls keep what they know. -/
theorem Agreement.step (h : Agreement sha256 s)
    (hcall : s.calls id = some ⟨request, .owned d key stage⟩) (hcalls : t.calls = s.calls)
    (hissued : t.issued = s.issued) (hfiles : ∀ k, k ≠ key → t.files k = s.files k)
    (hcommits : ∀ i k, i ≠ id → ((i, k) ∈ t.commits ↔ (i, k) ∈ s.commits))
    (hdocuments : ∀ row ∈ s.db.documents, row ∈ t.db.documents) (hrows : UploadRows sha256 t)
    (hown : ∀ k, (id, k) ∈ t.commits → k = key ∧ (∃ outcome, stage' = .done outcome) ∧
      ∃ document ∈ t.db.documents, document.storageKey = key)
    (hstage : StageHolds sha256 t id request d key stage') :
    Agreement sha256 (t.withCall id request (.owned d key stage')) := by
  have hself : (t.withCall id request (.owned d key stage')).calls id =
      some ⟨request, .owned d key stage'⟩ := Function.update_self _ _ _
  have hother : ∀ i, i ≠ id → (t.withCall id request (.owned d key stage')).calls i = s.calls i := by
    intro i hi
    rw [← hcalls]
    exact Function.update_of_ne hi _ _
  obtain ⟨hd, hkey, _⟩ := h.calls _ _ _ _ _ hcall
  constructor
  · exact ⟨hrows.stored, hrows.committed, hrows.one_document, hrows.has_job, hrows.one_job⟩
  · intro i k hmem
    by_cases hi : i = id
    · subst hi
      obtain ⟨rfl, ⟨outcome, rfl⟩, hdocument⟩ := hown k hmem
      exact ⟨⟨request, d, outcome, hself⟩, hdocument⟩
    · obtain ⟨howner, document, hdocument, hk⟩ := h.owners i k ((hcommits i k hi).mp hmem)
      exact ⟨by rwa [hother i hi], document, hdocuments document hdocument, hk⟩
  · intro i r d' k other hi
    by_cases he : i = id
    · subst he
      rw [hself] at hi
      cases hi
      exact ⟨hissued ▸ hd, hkey, hstage.frame rfl Iff.rfl fun _ hr => hr⟩
    · rw [hother i he] at hi
      obtain ⟨hd', hkey', hholds⟩ := h.calls _ _ _ _ _ hi
      have hne : k ≠ key := by
        rintro rfl
        exact he (h.key_apart hcall hi).symm
      refine ⟨hissued ▸ hd', hkey', hholds.frame (hfiles k hne) (hcommits i k he) ?_⟩
      rintro result ⟨row, hrow, hfields⟩
      exact ⟨row, hdocuments row hrow, hfields⟩
  · intro i j r r' d' k k' st st' hi hj
    have hold : ∀ i r k st, (t.withCall id request (.owned d key stage')).calls i =
        some ⟨r, .owned d' k st⟩ → ∃ r k st, s.calls i = some ⟨r, .owned d' k st⟩ := by
      intro i r k st hi
      by_cases he : i = id
      · subst he
        rw [hself] at hi
        cases hi
        exact ⟨_, _, _, hcall⟩
      · exact ⟨r, k, st, by rwa [hother i he] at hi⟩
    obtain ⟨_, _, _, hi⟩ := hold i r k st hi
    obtain ⟨_, _, _, hj⟩ := hold j r' k' st' hj
    exact h.apart _ _ _ _ _ _ _ _ _ hi hj
  · intro k hk
    change (t.files k).isSome at hk
    by_cases he : k = key
    · exact ⟨id, request, d, stage', he ▸ hself⟩
    · rw [hfiles k he] at hk
      obtain ⟨i, r, d', st, hi⟩ := h.filed k hk
      have hne : i ≠ id := by
        rintro rfl
        rw [hcall] at hi
        cases hi
        exact he rfl
      exact ⟨i, r, d', st, by rwa [hother i hne]⟩

/-- A step of an unfinished call that writes at most its own file. -/
theorem Agreement.quiet (h : Agreement sha256 s)
    (hcall : s.calls id = some ⟨request, .owned d key stage⟩)
    (hopen : stage.finished = false) (files : Str → Option (List UInt8))
    (hfiles : ∀ k, k ≠ key → files k = s.files k)
    (hstage : StageHolds sha256 { s with files } id request d key stage') :
    Agreement sha256 ({ s with files }.withCall id request (.owned d key stage')) := by
  refine h.step hcall rfl rfl hfiles (fun _ _ _ => Iff.rfl) (fun _ hr => hr) ?_ ?_ hstage
  · refine ⟨?_, h.rows.committed, h.rows.one_document, h.rows.has_job, h.rows.one_job⟩
    intro document hdocument
    obtain ⟨content, hcontent, hmeta⟩ := h.rows.stored document hdocument
    exact ⟨content, (hfiles _ (h.row_apart hcall hopen document hdocument)).trans hcontent, hmeta⟩
  · exact fun k hmem => absurd hmem (h.uncommitted hcall hopen k)

end Invariant

section Steps
variable {sha256 : Sha256} {maxBytes : Nat} {s t : UploadState} {id : Nat}
  {request : UploadRequest} {d : UUID} {key : Str} {stage stage' : OwnedStage}

/-- A step of an unfinished call that touches no file. -/
private theorem Agreement.moved (h : Agreement sha256 s)
    (hcall : s.calls id = some ⟨request, .owned d key stage⟩)
    (hopen : stage.finished = false)
    (hstage : StageHolds sha256 s id request d key stage') :
    Agreement sha256 (s.withCall id request (.owned d key stage')) :=
  h.quiet hcall hopen s.files (fun _ _ => rfl) hstage

/-- The deletion of the call's own file. -/
private theorem Agreement.deleted (h : Agreement sha256 s)
    (hcall : s.calls id = some ⟨request, .owned d key stage⟩)
    (hopen : stage.finished = false)
    (hstage : (s.delete key).files key = none → StageHolds sha256 (s.delete key) id request d key stage') :
    Agreement sha256 ((s.delete key).withCall id request (.owned d key stage')) :=
  h.quiet hcall hopen _ (fun _ hk => Function.update_of_ne hk _ _)
    (hstage (Function.update_self _ _ _))

theorem DuplicateOf.returned {stored : StoredFile} {result : UploadResult}
    (h : DuplicateOf s.db request.knowledgeBaseId stored.sha256 result)
    (hstored : StoredAs sha256 request key stored) : Returned sha256 s.db request result :=
  ⟨result.document, h.document, rfl, h.knowledgeBaseId, h.sha256.trans hstored.sha256⟩

/-- The transaction that adds the rows: the file of the call becomes the row's. -/
theorem Agreement.inserted (h : Agreement sha256 s) {stored : StoredFile} {jobId : UUID}
    {createdAt : Time} {job : IngestionJob} {db : Database}
    (hcall : s.calls id = some ⟨request, .owned d key (.insert stored)⟩)
    (hok : insertUpload s.db (uploadedDocument d request.knowledgeBaseId request.filename
      request.mediaType stored createdAt) jobId = .ok (job, db)) :
    Agreement sha256 ({ s with db, commits := (id, stored.storageKey) :: s.commits }.withCall id
      request (.owned d key (.done (.ok ⟨uploadedDocument d request.knowledgeBaseId request.filename
        request.mediaType stored createdAt, job, false⟩)))) := by
  obtain ⟨_, _, ⟨rfl, hsize, hsha⟩, hfile⟩ := h.calls _ _ _ _ _ hcall
  obtain ⟨rfl, hunique, hjobs, hdoc, hjob, hdb⟩ := insertUpload_ok hok
  have hdocs : ∀ row, row ∈ db.documents ↔ row = uploadedDocument d request.knowledgeBaseId
      request.filename request.mediaType stored createdAt ∨ row ∈ s.db.documents :=
    fun _ => Table.mem_insert? hdoc
  have hjobRows : ∀ row, row ∈ db.ingestionJobs ↔ row = IngestionJob.new jobId d createdAt ∨
      row ∈ s.db.ingestionJobs := fun _ => Table.mem_insert? hjob
  refine h.step hcall rfl rfl (fun _ _ => rfl) ?_ (fun row hrow => (hdocs row).mpr (.inr hrow)) ?_ ?_ ?_
  · intro i k hi
    simp [hi]
  · constructor
    · intro document hdocument
      rcases (hdocs document).mp hdocument with rfl | hold
      · exact ⟨request.bytes, hfile, hsize.symm, hsha.symm⟩
      · exact h.rows.stored document hold
    · intro document hdocument
      rcases (hdocs document).mp hdocument with rfl | hold
      · exact ⟨id, List.mem_cons_self⟩
      · obtain ⟨i, hi⟩ := h.rows.committed document hold
        exact ⟨i, List.mem_cons_of_mem _ hi⟩
    · intro a ha b hb hkb hsha'
      rcases (hdocs a).mp ha with rfl | ha <;> rcases (hdocs b).mp hb with rfl | hb
      · rfl
      · exact absurd ⟨hkb.symm, hsha'.symm⟩ (hunique b hb).1
      · exact absurd ⟨hkb, hsha'⟩ (hunique a ha).1
      · exact h.rows.one_document a ha b hb hkb hsha'
    · intro document hdocument
      rcases (hdocs document).mp hdocument with rfl | hold
      · exact ⟨_, (hjobRows _).mpr (.inl rfl), rfl⟩
      · obtain ⟨row, hrow, hd⟩ := h.rows.has_job document hold
        exact ⟨row, (hjobRows row).mpr (.inr hrow), hd⟩
    · intro a ha b hb hab
      rcases (hjobRows a).mp ha with rfl | ha <;> rcases (hjobRows b).mp hb with rfl | hb
      · rfl
      · exact absurd hab.symm (hjobs b hb)
      · exact absurd hab (hjobs a ha)
      · exact h.rows.one_job a ha b hb hab
  · intro k hmem
    rcases List.mem_cons.mp hmem with heq | hold
    · exact ⟨(Prod.mk.inj heq).2, ⟨_, rfl⟩, _, (hdocs _).mpr (.inl rfl), rfl⟩
    · exact absurd hold (h.uncommitted hcall rfl k)
  · refine ⟨⟨fun _ => List.mem_cons_self, fun _ => by rw [hfile]; rfl⟩, ?_⟩
    rintro _ ⟨⟩
    exact ⟨⟨_, (hdocs _).mpr (.inl rfl), rfl, rfl, hsha⟩, fun _ => rfl⟩

theorem Agreement.owned_step (h : Agreement sha256 s) {jobId : UUID} {createdAt : Time}
    (hcall : s.calls id = some ⟨request, .owned d key stage⟩)
    (hstep : ownedStep sha256 maxBytes s id request d key jobId createdAt stage =
      some (t, stage')) : Agreement sha256 (t.withCall id request (.owned d key stage')) := by
  obtain ⟨_, _, hholds⟩ := h.calls _ _ _ _ _ hcall
  -- nothing is committed under the key before the call is done
  have hnone : stage.finished = false → s.files key = none →
      ((s.files key).isSome ↔ (id, key) ∈ s.commits) := by
    intro hopen hfile
    simp [hfile, h.uncommitted hcall hopen key]
  cases stage with
  | store =>
    simp only [ownedStep] at hstep
    split at hstep
    · obtain ⟨rfl, rfl⟩ := Prod.mk.inj (Option.some.inj hstep)
      exact h.moved hcall rfl ⟨hnone rfl hholds, fun _ hr => nomatch hr⟩
    · rename_i content stored hok
      obtain ⟨rfl, hkey, hsize, hsha⟩ := store_ok hok
      obtain ⟨rfl, rfl⟩ := Prod.mk.inj (Option.some.inj hstep)
      refine h.quiet hcall rfl _ (fun _ hk => Function.update_of_ne hk _ _) ?_
      split
      · exact ⟨⟨hkey, hsize, hsha⟩, Function.update_self _ _ _⟩
      · trivial
  | lookup stored =>
    simp only [ownedStep] at hstep
    split at hstep
    · obtain ⟨rfl, rfl⟩ := Prod.mk.inj (Option.some.inj hstep)
      exact h.moved hcall rfl trivial
    · rename_i result hok
      obtain ⟨rfl, rfl⟩ := Prod.mk.inj (Option.some.inj hstep)
      have hdup := findDuplicate_some hok
      exact h.moved hcall rfl ⟨hholds.1, hdup.returned hholds.1, hdup.duplicate⟩
    · obtain ⟨rfl, rfl⟩ := Prod.mk.inj (Option.some.inj hstep)
      exact h.moved hcall rfl hholds
  | deleteDuplicate stored result =>
    obtain ⟨rfl, rfl⟩ := Prod.mk.inj (Option.some.inj hstep)
    obtain ⟨hstored, hreturned, hduplicate⟩ := hholds
    rw [hstored.storageKey]
    exact h.deleted hcall rfl fun hfile => ⟨hstored, hreturned, hduplicate, hfile⟩
  | commitDuplicate stored result =>
    obtain ⟨rfl, rfl⟩ := Prod.mk.inj (Option.some.inj hstep)
    obtain ⟨_, hreturned, hduplicate, hfile⟩ := hholds
    refine h.moved hcall rfl ⟨hnone rfl hfile, ?_⟩
    rintro _ ⟨⟩
    exact ⟨hreturned, fun hfalse => absurd (hduplicate.symm.trans hfalse) (by decide)⟩
  | insert stored =>
    simp only [ownedStep] at hstep
    split at hstep
    · rename_i hok
      obtain ⟨rfl, rfl⟩ := Prod.mk.inj (Option.some.inj hstep)
      exact h.inserted hcall hok
    · obtain ⟨rfl, rfl⟩ := Prod.mk.inj (Option.some.inj hstep)
      exact h.moved hcall rfl hholds.1
  | deleteConflict stored =>
    obtain ⟨rfl, rfl⟩ := Prod.mk.inj (Option.some.inj hstep)
    have hstored : StoredAs sha256 request key stored := hholds
    rw [hstored.storageKey]
    exact h.deleted hcall rfl fun hfile => ⟨hstored, hfile⟩
  | resolve stored =>
    simp only [ownedStep] at hstep
    split at hstep
    · rename_i result hok
      obtain ⟨rfl, rfl⟩ := Prod.mk.inj (Option.some.inj hstep)
      have hdup := resolveConcurrentDuplicate_ok hok
      refine h.moved hcall rfl ⟨hnone rfl hholds.2, ?_⟩
      rintro _ ⟨⟩
      exact ⟨hdup.returned hholds.1, fun hfalse => absurd (hdup.duplicate.symm.trans hfalse) (by decide)⟩
    · obtain ⟨rfl, rfl⟩ := Prod.mk.inj (Option.some.inj hstep)
      exact h.moved hcall rfl trivial
  | cleanup raised =>
    obtain ⟨rfl, rfl⟩ := Prod.mk.inj (Option.some.inj hstep)
    refine h.deleted hcall rfl fun hfile => ⟨?_, fun _ hr => nomatch hr⟩
    have hopen := h.uncommitted hcall rfl key
    exact ⟨fun hsome => absurd hsome (by simp [hfile]), fun hmem => absurd hmem hopen⟩
  | done outcome => cases hstep

theorem Agreement.owned_fail (h : Agreement sha256 s) {error : StepError}
    (hcall : s.calls id = some ⟨request, .owned d key stage⟩)
    (hfail : ownedFail stage error = some stage') :
    Agreement sha256 (s.withCall id request (.owned d key stage')) := by
  obtain ⟨_, _, hholds⟩ := h.calls _ _ _ _ _ hcall
  have hpersist : ∀ stored, StoredAs sha256 request key stored →
      stage.finished = false → persistFailed stored error = some stage' →
      Agreement sha256 (s.withCall id request (.owned d key stage')) := by
    intro stored hstored hopen hfailed
    apply h.moved hcall hopen
    cases error with
    | integrity =>
      obtain rfl := Option.some.inj hfailed
      exact hstored
    | sqlAlchemy =>
      obtain rfl := Option.some.inj hfailed
      trivial
    | storage e => cases hfailed
    | other =>
      obtain rfl := Option.some.inj hfailed
      trivial
  cases stage with
  | store =>
    have hclosed : ((s.files key).isSome ↔ (id, key) ∈ s.commits) := by
      have hfile : s.files key = none := hholds
      simp [hfile, h.uncommitted hcall rfl key]
    cases error with
    | storage e =>
      obtain rfl := Option.some.inj hfail
      exact h.moved hcall rfl ⟨hclosed, fun _ hr => nomatch hr⟩
    | other =>
      obtain rfl := Option.some.inj hfail
      exact h.moved hcall rfl ⟨hclosed, fun _ hr => nomatch hr⟩
    | _ => cases hfail
  | lookup stored => exact hpersist stored hholds.1 rfl hfail
  | commitDuplicate stored result => exact hpersist stored hholds.1 rfl hfail
  | insert stored => exact hpersist stored hholds.1 rfl hfail
  | resolve stored =>
    cases error with
    | storage e => cases hfail
    | _ =>
      obtain rfl := Option.some.inj hfail
      exact h.moved hcall rfl trivial
  | _ => cases hfail

/-- A step of a call writes at most its own file. -/
theorem Agreement.owned_step_files (h : Agreement sha256 s) {jobId : UUID} {createdAt : Time}
    (hcall : s.calls id = some ⟨request, .owned d key stage⟩)
    (hstep : ownedStep sha256 maxBytes s id request d key jobId createdAt stage =
      some (t, stage')) : stage.finished = false ∧ ∀ k, k ≠ key → t.files k = s.files k := by
  obtain ⟨_, _, hholds⟩ := h.calls _ _ _ _ _ hcall
  have hdelete : ∀ k, k ≠ key → (s.delete key).files k = s.files k :=
    fun k hk => Function.update_of_ne hk _ _
  cases stage with
  | store =>
    simp only [ownedStep] at hstep
    split at hstep
    · obtain ⟨rfl, rfl⟩ := Prod.mk.inj (Option.some.inj hstep)
      exact ⟨rfl, fun _ _ => rfl⟩
    · obtain ⟨rfl, rfl⟩ := Prod.mk.inj (Option.some.inj hstep)
      exact ⟨rfl, fun _ hk => Function.update_of_ne hk _ _⟩
  | deleteDuplicate stored result =>
    obtain ⟨rfl, rfl⟩ := Prod.mk.inj (Option.some.inj hstep)
    rw [hholds.1.storageKey]
    exact ⟨rfl, hdelete⟩
  | deleteConflict stored =>
    obtain ⟨rfl, rfl⟩ := Prod.mk.inj (Option.some.inj hstep)
    have hstored : StoredAs sha256 request key stored := hholds
    rw [hstored.storageKey]
    exact ⟨rfl, hdelete⟩
  | cleanup raised =>
    obtain ⟨rfl, rfl⟩ := Prod.mk.inj (Option.some.inj hstep)
    exact ⟨rfl, hdelete⟩
  | done outcome => cases hstep
  | _ =>
    simp only [ownedStep] at hstep
    repeat' split at hstep
    all_goals
      obtain ⟨rfl, rfl⟩ := Prod.mk.inj (Option.some.inj hstep)
      exact ⟨rfl, fun _ _ => rfl⟩

private theorem not_owned {call : UploadCall} (hcall : s.calls id = some call)
    (hstage : ∀ d key st, call.stage ≠ .owned d key st) (r : UploadRequest) (d : UUID) (key : Str)
    (st : OwnedStage) : s.calls id ≠ some ⟨r, .owned d key st⟩ := by
  intro hother
  obtain rfl := Option.some.inj (hcall.symm.trans hother)
  exact hstage d key st rfl

/-- A call that owns no key, before and after. -/
private theorem Agreement.unowned (h : Agreement sha256 s) {stage : UploadStage}
    (hbefore : ∀ r d key st, s.calls id ≠ some ⟨r, .owned d key st⟩)
    (hafter : ∀ d key st, stage ≠ .owned d key st) : Agreement sha256 (s.withCall id request stage) := by
  have hcalls : ∀ i r d key st, (s.withCall id request stage).calls i = some ⟨r, .owned d key st⟩ ↔
      s.calls i = some ⟨r, .owned d key st⟩ := by
    intro i r d key st
    by_cases hi : i = id
    · subst hi
      have hself : (s.withCall i request stage).calls i = some ⟨request, stage⟩ :=
        Function.update_self _ _ _
      rw [hself]
      constructor
      · intro he
        cases he
        exact absurd rfl (hafter d key st)
      · exact fun he => absurd he (hbefore r d key st)
    · rw [show (s.withCall id request stage).calls i = s.calls i from Function.update_of_ne hi _ _]
  constructor
  · exact ⟨h.rows.stored, h.rows.committed, h.rows.one_document, h.rows.has_job, h.rows.one_job⟩
  · intro i k hmem
    obtain ⟨⟨r, d', outcome, howner⟩, hdocument⟩ := h.owners i k hmem
    exact ⟨⟨r, d', outcome, (hcalls _ _ _ _ _).mpr howner⟩, hdocument⟩
  · intro i r d' k st hi
    obtain ⟨hd, hkey, hholds⟩ := h.calls i r d' k st ((hcalls _ _ _ _ _).mp hi)
    exact ⟨hd, hkey, hholds.frame rfl Iff.rfl fun _ hr => hr⟩
  · intro i j r r' d' k k' st st' hi hj
    exact h.apart i j r r' d' k k' st st' ((hcalls _ _ _ _ _).mp hi) ((hcalls _ _ _ _ _).mp hj)
  · intro k hk
    obtain ⟨i, r, d', st, hi⟩ := h.filed k hk
    exact ⟨i, r, d', st, (hcalls _ _ _ _ _).mpr hi⟩

/-- A fresh document id makes a fresh key. -/
theorem Agreement.authorized (h : Agreement sha256 s) (extension : Str)
    (hbefore : ∀ r d key st, s.calls id ≠ some ⟨r, .owned d key st⟩) (hfresh : d ∉ s.issued) :
    Agreement sha256 ({ s with issued := d :: s.issued }.withCall id request
      (.owned d (storageKey request.knowledgeBaseId d extension) .store)) := by
  have hnew : ∀ i r key st, s.calls i ≠ some ⟨r, .owned d key st⟩ := by
    intro i r key st hi
    exact hfresh (h.calls i r d key st hi).1
  have hself : (({ s with issued := d :: s.issued } : UploadState).withCall id request
      (.owned d (storageKey request.knowledgeBaseId d extension) .store)).calls id =
      some ⟨request, .owned d (storageKey request.knowledgeBaseId d extension) .store⟩ :=
    Function.update_self _ _ _
  have hother : ∀ i, i ≠ id → (({ s with issued := d :: s.issued } : UploadState).withCall id request
      (.owned d (storageKey request.knowledgeBaseId d extension) .store)).calls i = s.calls i :=
    fun i hi => Function.update_of_ne hi _ _
  have hkeep : ∀ i r d' key st, s.calls i = some ⟨r, .owned d' key st⟩ → i ≠ id := by
    rintro _ r d' key st hi rfl
    exact hbefore r d' key st hi
  constructor
  · exact ⟨h.rows.stored, h.rows.committed, h.rows.one_document, h.rows.has_job, h.rows.one_job⟩
  · intro i k hmem
    obtain ⟨⟨r, d', outcome, howner⟩, hdocument⟩ := h.owners i k hmem
    exact ⟨⟨r, d', outcome, by rwa [hother i (hkeep _ _ _ _ _ howner)]⟩, hdocument⟩
  · intro i r d' k st hi
    by_cases he : i = id
    · subst he
      rw [hself] at hi
      cases hi
      refine ⟨List.mem_cons_self, ⟨extension, rfl⟩, ?_⟩
      change s.files (storageKey request.knowledgeBaseId d extension) = none
      by_contra hfile
      obtain ⟨j, r', d', st', hj⟩ := h.filed _ (Option.isSome_iff_ne_none.mpr hfile)
      obtain ⟨_, ⟨e', hkey⟩, _⟩ := h.calls _ _ _ _ _ hj
      obtain ⟨_, rfl, _⟩ := storageKey_injective hkey
      exact hnew _ _ _ _ hj
    · rw [hother i he] at hi
      obtain ⟨hd, hkey, hholds⟩ := h.calls i r d' k st hi
      exact ⟨List.mem_cons_of_mem _ hd, hkey, hholds.frame rfl Iff.rfl fun _ hr => hr⟩
  · intro i j r r' d' k k' st st' hi hj
    by_cases hei : i = id <;> by_cases hej : j = id
    · rw [hei, hej]
    · subst hei
      rw [hself] at hi
      cases hi
      rw [hother j hej] at hj
      exact absurd hj (hnew _ _ _ _)
    · subst hej
      rw [hself] at hj
      cases hj
      rw [hother i hei] at hi
      exact absurd hi (hnew _ _ _ _)
    · rw [hother i hei] at hi
      rw [hother j hej] at hj
      exact h.apart i j r r' d' k k' st st' hi hj
  · intro k hk
    obtain ⟨i, r, d', st, hi⟩ := h.filed k hk
    exact ⟨i, r, d', st, by rwa [hother i (hkeep _ _ _ _ _ hi)]⟩

/-- The rows of uploads correspond one to one. -/
private theorem SameUploads.documents {db db' : Database} (h : SameUploads db db') {row : Document}
    (hrow : row ∈ db'.documents) :
    ∃ old ∈ db.documents, Document.uploadColumns old = Document.uploadColumns row := by
  have hmem : Document.uploadColumns row ∈ db'.documents.rows.map Document.uploadColumns :=
    List.mem_map_of_mem hrow
  rw [h.1] at hmem
  exact List.mem_map.mp hmem

private theorem SameUploads.jobs {db db' : Database} (h : SameUploads db db') {job : IngestionJob}
    (hjob : job ∈ db'.ingestionJobs) :
    ∃ old ∈ db.ingestionJobs, old.id = job.id ∧ old.documentId = job.documentId := by
  have hmem : (job.id, job.documentId) ∈ db'.ingestionJobs.rows.map fun j => (j.id, j.documentId) :=
    List.mem_map.mpr ⟨job, hjob, rfl⟩
  rw [h.2] at hmem
  obtain ⟨old, hold, heq⟩ := List.mem_map.mp hmem
  exact ⟨old, hold, (Prod.mk.inj heq).1, (Prod.mk.inj heq).2⟩

private theorem SameUploads.symm {db db' : Database} (h : SameUploads db db') : SameUploads db' db :=
  ⟨h.1.symm, h.2.symm⟩

/-- Whatever else happens to the database, uploads and jobs stay the same rows. -/
theorem Agreement.elsewhere (h : Agreement sha256 s) {db : Database} (hsame : SameUploads s.db db) :
    Agreement sha256 { s with db } := by
  constructor
  · constructor
    · intro row hrow
      obtain ⟨old, hold, heq⟩ := hsame.documents hrow
      simp only [Document.uploadColumns, Prod.mk.injEq] at heq
      obtain ⟨_, _, hsize, hsha, hkey⟩ := heq
      obtain ⟨content, hcontent, hmeta⟩ := h.rows.stored old hold
      exact ⟨content, hkey ▸ hcontent, hsize ▸ hsha ▸ hmeta⟩
    · intro row hrow
      obtain ⟨old, hold, heq⟩ := hsame.documents hrow
      simp only [Document.uploadColumns, Prod.mk.injEq] at heq
      rw [← heq.2.2.2.2]
      exact h.rows.committed old hold
    · intro a ha b hb hkb hsha
      obtain ⟨a', ha', heqa⟩ := hsame.documents ha
      obtain ⟨b', hb', heqb⟩ := hsame.documents hb
      simp only [Document.uploadColumns, Prod.mk.injEq] at heqa heqb
      rw [← heqa.1, ← heqb.1]
      refine h.rows.one_document a' ha' b' hb' ?_ ?_
      · rw [heqa.2.1, heqb.2.1, hkb]
      · rw [heqa.2.2.2.1, heqb.2.2.2.1, hsha]
    · intro row hrow
      obtain ⟨old, hold, heq⟩ := hsame.documents hrow
      obtain ⟨job, hjob, hd⟩ := h.rows.has_job old hold
      obtain ⟨job', hjob', _, hd'⟩ := hsame.symm.jobs hjob
      exact ⟨job', hjob', hd'.trans (hd.trans (Prod.mk.inj heq).1)⟩
    · intro a ha b hb hab
      obtain ⟨a', ha', hid, hd⟩ := hsame.jobs ha
      obtain ⟨b', hb', hid', hd'⟩ := hsame.jobs hb
      rw [← hid, ← hid']
      exact h.rows.one_job a' ha' b' hb' (by rw [hd, hd', hab])
  · intro i k hmem
    obtain ⟨howner, row, hrow, hkey⟩ := h.owners i k hmem
    obtain ⟨row', hrow', heq⟩ := hsame.symm.documents hrow
    simp only [Document.uploadColumns, Prod.mk.injEq] at heq
    exact ⟨howner, row', hrow', heq.2.2.2.2.trans hkey⟩
  · intro i r d' k st hi
    obtain ⟨hd, hkey, hholds⟩ := h.calls i r d' k st hi
    refine ⟨hd, hkey, hholds.frame rfl Iff.rfl ?_⟩
    rintro result ⟨row, hrow, hid, hkb, hsha⟩
    obtain ⟨row', hrow', heq⟩ := hsame.symm.documents hrow
    simp only [Document.uploadColumns, Prod.mk.injEq] at heq
    exact ⟨row', hrow', heq.1.trans hid, heq.2.1.trans hkb, heq.2.2.2.1.trans hsha⟩
  · exact h.apart
  · exact h.filed

theorem Agreement.init (sha256 : Sha256) {db : Database} (hfresh : FreshDatabase db) :
    Agreement sha256 (.init db) := by
  have hdocuments : ∀ row, row ∉ (UploadState.init db).db.documents := by
    intro row hrow
    change row ∈ db.documents.rows at hrow
    rw [hfresh.documents] at hrow
    cases hrow
  have hjobs : ∀ row, row ∉ (UploadState.init db).db.ingestionJobs := by
    intro row hrow
    change row ∈ db.ingestionJobs.rows at hrow
    rw [hfresh.ingestionJobs] at hrow
    cases hrow
  constructor
  · exact ⟨fun row hrow => absurd hrow (hdocuments row), fun row hrow => absurd hrow (hdocuments row),
      fun row hrow => absurd hrow (hdocuments row), fun row hrow => absurd hrow (hdocuments row),
      fun row hrow => absurd hrow (hjobs row)⟩
  · intro id key hmem
    cases hmem
  · intro id r d key st hcall
    cases hcall
  · intro i j r r' d key key' st st' hi
    cases hi
  · intro key hkey
    cases hkey

/-- The effect of a step on files: at most that of an unfinished call on its own key. -/
private theorem uploads_step (h : Agreement sha256 s) {a : UploadAction}
    (hstep : (uploads sha256 maxBytes).step s a = some t) :
    Agreement sha256 t ∧ ∀ document ∈ s.db.documents,
      t.files document.storageKey = s.files document.storageKey := by
  cases a with
  | start id request =>
    simp only [uploads, uploadStep] at hstep
    split at hstep
    · cases hstep
    · rename_i hnone
      have hbefore : ∀ r d key st, s.calls id ≠ some ⟨r, .owned d key st⟩ := by
        intro r d key st hcall
        exact hnone (by rw [hcall]; rfl)
      split at hstep
      · obtain rfl := Option.some.inj hstep
        exact ⟨h.unowned hbefore (fun _ _ _ he => nomatch he), fun _ _ => rfl⟩
      · obtain rfl := Option.some.inj hstep
        exact ⟨h.unowned hbefore (fun _ _ _ he => nomatch he), fun _ _ => rfl⟩
  | authorize id documentId =>
    simp only [uploads, uploadStep] at hstep
    split at hstep
    · rename_i request extension hcall
      have hbefore := not_owned hcall fun _ _ _ he => nomatch he
      split at hstep
      · obtain rfl := Option.some.inj hstep
        exact ⟨h.unowned hbefore (fun _ _ _ he => nomatch he), fun _ _ => rfl⟩
      · split at hstep
        · cases hstep
        · rename_i hfresh
          obtain rfl := Option.some.inj hstep
          exact ⟨h.authorized extension hbefore hfresh, fun _ _ => rfl⟩
    · cases hstep
  | next id jobId createdAt =>
    simp only [uploads, uploadStep] at hstep
    split at hstep
    · rename_i request d key stage hcall
      obtain ⟨⟨mid, stage'⟩, howned, rfl⟩ := Option.map_eq_some_iff.mp hstep
      obtain ⟨hopen, hfiles⟩ := h.owned_step_files hcall howned
      exact ⟨h.owned_step hcall howned, fun document hdocument =>
        hfiles _ (h.row_apart hcall hopen document hdocument)⟩
    · cases hstep
  | fail id error =>
    simp only [uploads, uploadStep] at hstep
    split at hstep
    · rename_i request extension hcall
      have hbefore := not_owned hcall fun _ _ _ he => nomatch he
      cases error with
      | storage e => cases hstep
      | _ =>
        obtain rfl := Option.some.inj hstep
        exact ⟨h.unowned hbefore (fun _ _ _ he => nomatch he), fun _ _ => rfl⟩
    · rename_i request d key stage hcall
      obtain ⟨stage', hfail, rfl⟩ := Option.map_eq_some_iff.mp hstep
      exact ⟨h.owned_fail hcall hfail, fun _ _ => rfl⟩
    · cases hstep
  | elsewhere db =>
    simp only [uploads, uploadStep] at hstep
    split at hstep
    · rename_i hsame
      obtain rfl := Option.some.inj hstep
      exact ⟨h.elsewhere hsame, fun _ _ => rfl⟩
    · cases hstep

/-- Every step keeps the invariant. -/
theorem uploads_step_agreement (s : UploadState) (a : UploadAction) (t : UploadState)
    (h : Agreement sha256 s) (hstep : (uploads sha256 maxBytes).step s a = some t) :
    Agreement sha256 t := (uploads_step h hstep).1

end Steps

/-- What uploads promise of a reachable state. -/
structure UploadsAgree (sha256 : Sha256) (M : Machine UploadState UploadAction) (s : UploadState) :
    Prop where
  stored : ∀ document ∈ s.db.documents, ∃ content, s.files document.storageKey = some content ∧
    content.length = document.sizeBytes ∧ hexdigest sha256 content = document.sha256
  settled : ∀ id request d key outcome, s.calls id = some ⟨request, .owned d key (.done outcome)⟩ →
    ((s.files key).isSome ↔ (id, key) ∈ s.commits)
  committed : ∀ id key, (id, key) ∈ s.commits → ∃ document ∈ s.db.documents, document.storageKey = key
  one_document : ∀ d ∈ s.db.documents, ∀ e ∈ s.db.documents,
    d.knowledgeBaseId = e.knowledgeBaseId → d.sha256 = e.sha256 → d = e
  one_job : ∀ document ∈ s.db.documents, ∃ job ∈ s.db.ingestionJobs, job.documentId = document.id ∧
    ∀ other ∈ s.db.ingestionJobs, other.documentId = document.id → other = job
  same_document : ∀ i j r r' d d' key key' a b,
    s.calls i = some ⟨r, .owned d key (.done (.ok a))⟩ →
    s.calls j = some ⟨r', .owned d' key' (.done (.ok b))⟩ →
    r.knowledgeBaseId = r'.knowledgeBaseId → r.bytes = r'.bytes →
    a.document.id = b.document.id ∧ (a.duplicate = false → b.duplicate = false → i = j)
  never_deleted : ∀ a t, M.step s a = some t → ∀ document ∈ s.db.documents,
    t.files document.storageKey = s.files document.storageKey

theorem uploads_agree (sha256 : Sha256) (maxUploadSizeBytes : Nat) {db : Database}
    (hfresh : FreshDatabase db) {as : List UploadAction} {s : UploadState}
    (hrun : (uploads sha256 maxUploadSizeBytes).run (.init db) as = some s) :
    UploadsAgree sha256 (uploads sha256 maxUploadSizeBytes) s := by
  have h : Agreement sha256 s := Machine.run_invariant uploads_step_agreement (.init sha256 hfresh) hrun
  constructor
  · exact h.rows.stored
  · intro id request d key outcome hcall
    exact (h.calls id request d key _ hcall).2.2.1
  · exact fun id key hmem => (h.owners id key hmem).2
  · intro d hd e he hkb hsha
    exact Table.eq_of_key_eq hd he (h.rows.one_document d hd e he hkb hsha)
  · intro document hdocument
    obtain ⟨job, hjob, hd⟩ := h.rows.has_job document hdocument
    refine ⟨job, hjob, hd, fun other hother hdo => ?_⟩
    exact Table.eq_of_key_eq hother hjob (h.rows.one_job other hother job hjob (hdo.trans hd.symm))
  · intro i j r r' d d' key key' a b hi hj hkb hbytes
    obtain ⟨⟨row, hrow, hid, hrowKb, hrowSha⟩, hown⟩ := (h.calls _ _ _ _ _ hi).2.2.2 a rfl
    obtain ⟨⟨row', hrow', hid', hrowKb', hrowSha'⟩, hown'⟩ := (h.calls _ _ _ _ _ hj).2.2.2 b rfl
    have hsame : a.document.id = b.document.id := by
      rw [← hid, ← hid']
      refine h.rows.one_document row hrow row' hrow' ?_ ?_
      · rw [hrowKb, hrowKb', hkb]
      · rw [hrowSha, hrowSha', hbytes]
    refine ⟨hsame, fun ha hb => ?_⟩
    obtain rfl : d = d' := (hown ha).symm.trans (hsame.trans (hown' hb))
    exact h.apart _ _ _ _ _ _ _ _ _ hi hj
  · exact fun a t hstep => (uploads_step h hstep).2

def exampleRequest : UploadRequest where
  userId := 1
  knowledgeBaseId := 3
  filename := str "a.txt"
  mediaType := "text/plain"
  source := [[0x61]]

/-- Two uploads of one file: both miss the duplicate, one loses the insert, deletes its own file
and returns the other's document. -/
def concurrentUploads : List UploadAction :=
  [.start 0 exampleRequest, .start 1 exampleRequest, .authorize 0 7, .authorize 1 8,
    .next 0 0 0, .next 1 0 0, .next 0 0 0, .next 1 0 0, .next 0 5 100, .next 1 6 100,
    .next 1 0 0, .next 1 0 0]

theorem uploads_agree_example : ∃ s,
    (uploads exampleSha256 1024).run (.init exampleDatabase) concurrentUploads = some s ∧
      UploadsAgree exampleSha256 (uploads exampleSha256 1024) s := by
  have hsome : ((uploads exampleSha256 1024).run (.init exampleDatabase)
      concurrentUploads).isSome := by decide +kernel
  obtain ⟨s, hrun⟩ := Option.isSome_iff_exists.mp hsome
  exact ⟨s, hrun, uploads_agree exampleSha256 1024 exampleDatabase_fresh hrun⟩

end AgenticRag.Services

import AgenticRag.Services.CompletedIndexed
import AgenticRag.Services.ContentPreservation

/-! Where the rows of a document come from, whichever workers ran: bytes of the size and the digest
that the upload recorded. -/
namespace AgenticRag.Services
open Lib Python Db Ingestion Security

/-- A write that leaves the documents as they are, up to their status. -/
def DocumentsKept (db db' : Database) : Prop :=
  ∀ k document, db.documents.find? k = some document →
    ∃ status, db'.documents.find? k = some { document with status }

/-- The claim says what the row of its document says. -/
def ClaimOf (db : Database) (claimed : ClaimedDocument) : Prop :=
  ∃ job document, db.documents.find? claimed.documentId = some document ∧
    claimed = claimedDocument job document

section Documents
variable {db db' db'' : Database}

theorem DocumentsKept.refl (db : Database) : DocumentsKept db db := fun _ document h => ⟨document.status, h⟩

theorem DocumentsKept.trans (h : DocumentsKept db db') (h' : DocumentsKept db' db'') :
    DocumentsKept db db'' := by
  intro k document hk
  obtain ⟨_, hk'⟩ := h k document hk
  obtain ⟨status, hk''⟩ := h' k _ hk'
  exact ⟨status, hk''⟩

theorem ClaimOf.kept {claimed : ClaimedDocument} (h : ClaimOf db claimed) (hkept : DocumentsKept db db') :
    ClaimOf db' claimed := by
  obtain ⟨job, document, hfound, heq⟩ := h
  obtain ⟨status, hfound'⟩ := hkept _ _ hfound
  exact ⟨job, _, hfound', heq⟩

theorem Writes.documentsKept {job job' : IngestionJob} {f : DocumentStatus → DocumentStatus}
    (h : Writes db db' job job' f) : DocumentsKept db db' := by
  intro k document hk
  rw [h.documents, hk, Option.map_some]
  split
  · exact ⟨_, rfl⟩
  · exact ⟨document.status, rfl⟩

theorem insertUpload_documentsKept {document : Document} {jobId : UUID} {job : IngestionJob}
    (h : insertUpload db document jobId = .ok (job, db')) : DocumentsKept db db' := by
  obtain ⟨_, _, _, hdoc, _, _⟩ := insertUpload_ok h
  intro k old hk
  exact ⟨old.status, Table.find?_of_insert? hdoc hk⟩

end Documents

section Provenance
variable (sha256 : Sha256) (uuid5 : UUID → Str → UUID)
  (parse : DocumentArtifact → Except ParseError ParsedDocument)

/-- Chunks of bytes that passed the verification against the claim. -/
def ChunksFrom (claimed : ClaimedDocument) (chunks : List TextChunk) : Prop :=
  ∃ cfg content, verifySource sha256 claimed content = .ok content ∧
    parseAndChunk sha256 cfg parse claimed content = .ok chunks

def RowsFrom (claimed : ClaimedDocument) (rows : List DocumentChunk) : Prop :=
  ∃ chunks, ChunksFrom sha256 parse claimed chunks ∧ rows = durableChunks uuid5 claimed chunks

/-- The chunk rows of the database, document by document. -/
def RowsTraced (db : Database) : Prop :=
  ∀ c ∈ db.documentChunks, ∃ claimed rows, claimed.documentId = c.documentId ∧ ClaimOf db claimed ∧
    RowsFrom sha256 uuid5 parse claimed rows ∧
    ∀ x, x ∈ db.documentChunks ∧ x.documentId = c.documentId ↔ x ∈ rows

def StageTraced : Stage → Prop
  | .work claim (.parseAndChunk content) => verifySource sha256 claim.claimed content = .ok content
  | .work claim (.replaceChunks chunks) => ChunksFrom sha256 parse claim.claimed chunks
  | _ => True

/-- Between the steps, every row and every byte in the hands of a call is traced to a claim. -/
structure Traced (s : WorkerState) : Prop where
  claims : ∀ w call claim, s.calls w = some call → call.stage.claim? = some claim →
    ClaimOf s.db claim.claimed
  stages : ∀ w call, s.calls w = some call → StageTraced sha256 parse call.stage
  rows : RowsTraced sha256 uuid5 parse s.db
  replacements : ∀ c ∈ s.replacements, RowsFrom sha256 uuid5 parse c.claim.claimed c.rows

/-- The workers parse with this parser what their claims name. -/
def ParsesWith (s : WorkerState) : WorkerAction → Prop
  | .call w (.parseAndChunk result) => ∀ call claim content, s.calls w = some call →
      call.stage = .work claim (.parseAndChunk content) →
      result = parse ⟨content, claim.claimed.mediaType, claim.claimed.filename⟩
  | _ => True

end Provenance

section Steps
variable {sha256 : Sha256} {uuid5 : UUID → Str → UUID}
  {parse : DocumentArtifact → Except ParseError ParsedDocument} {s t mid : WorkerState} {w : Str}
  {call call' : Call} {a : CallAction} {next : Option Call} {db : Database}

theorem RowsTraced.kept (h : RowsTraced sha256 uuid5 parse s.db) (hkept : DocumentsKept s.db db)
    (hchunks : db.documentChunks = s.db.documentChunks) : RowsTraced sha256 uuid5 parse db := by
  intro c hc
  rw [hchunks] at hc ⊢
  obtain ⟨claimed, rows, hid, hclaim, hrows⟩ := h c hc
  exact ⟨claimed, rows, hid, hclaim.kept hkept, hrows⟩

/-- A replacement puts the rows of its call in place of the document's. -/
theorem RowsTraced.replaced (h : RowsTraced sha256 uuid5 parse s.db) {svc : IngestionProcessingService}
    {claimed : ClaimedDocument} {rows : List DocumentChunk} {now : Time} (hclaim : ClaimOf s.db claimed)
    (hrows : RowsFrom sha256 uuid5 parse claimed rows)
    (hok : svc.replaceChunks s.db claimed rows now = .ok db) : RowsTraced sha256 uuid5 parse db := by
  obtain ⟨_, _, hw, hdocs, _, hmem⟩ := replaceChunks_writes hok
  intro c hc
  rcases (hmem c).mp hc with hnew | ⟨hold, hother⟩
  · refine ⟨claimed, rows, (hdocs c hnew).symm, hclaim.kept hw.documentsKept, hrows, fun x => ?_⟩
    rw [hmem, hdocs c hnew]
    constructor
    · rintro ⟨hx | ⟨_, hne⟩, hd⟩
      · exact hx
      · exact absurd hd hne
    · exact fun hx => ⟨.inl hx, hdocs x hx⟩
  · obtain ⟨older, rows', hid, hclaim', hrows', hall⟩ := h c hold
    refine ⟨older, rows', hid, hclaim'.kept hw.documentsKept, hrows', fun x => ?_⟩
    rw [hmem, ← hall x]
    constructor
    · rintro ⟨hx | ⟨hx, _⟩, hd⟩
      · exact absurd (hd.symm.trans (hdocs x hx)) hother
      · exact ⟨hx, hd⟩
    · rintro ⟨hx, hd⟩
      exact ⟨.inr ⟨hx, fun he => hother (hd.symm.trans he)⟩, hd⟩

/-- A step of worker `w`'s call. -/
theorem Traced.step (h : Traced sha256 uuid5 parse s) (hkept : DocumentsKept s.db t.db)
    (hcalls : t.calls = s.calls) (hrows : RowsTraced sha256 uuid5 parse t.db)
    (hreplacements : ∀ c ∈ t.replacements, RowsFrom sha256 uuid5 parse c.claim.claimed c.rows)
    (hnext : ∀ call, next = some call → StageTraced sha256 parse call.stage ∧
      ∀ claim, call.stage.claim? = some claim → ClaimOf t.db claim.claimed) :
    Traced sha256 uuid5 parse (t.withCall w next) where
  claims := by
    intro v other claim hother hclaim
    have hother : Function.update t.calls w next v = some other := hother
    by_cases hv : v = w
    · subst hv
      rw [Function.update_self] at hother
      exact (hnext other hother).2 claim hclaim
    · rw [Function.update_of_ne hv, hcalls] at hother
      exact (h.claims v other claim hother hclaim).kept hkept
  stages := by
    intro v other hother
    have hother : Function.update t.calls w next v = some other := hother
    by_cases hv : v = w
    · subst hv
      rw [Function.update_self] at hother
      exact (hnext other hother).1
    · rw [Function.update_of_ne hv, hcalls] at hother
      exact h.stages v other hother
  rows := hrows
  replacements := hreplacements

/-- Recoveries, user retries and uploads. -/
theorem Traced.elsewhere (h : Traced sha256 uuid5 parse s) (hkept : DocumentsKept s.db db)
    (hchunks : db.documentChunks = s.db.documentChunks) : Traced sha256 uuid5 parse (s.withDb db) where
  claims := fun v other claim hother hclaim => (h.claims v other claim hother hclaim).kept hkept
  stages := h.stages
  rows := h.rows.kept hkept hchunks
  replacements := h.replacements

theorem recoverExpiredLeases_kept {svc : IngestionProcessingService} {locked : List UUID} {limit : Int}
    {now : Time} {n : Nat} (hok : svc.recoverExpiredLeases s.db locked limit now = .ok (n, db)) :
    DocumentsKept s.db db ∧ db.documentChunks = s.db.documentChunks :=
  recoverExpiredLeases_induction
    (P := fun db => DocumentsKept s.db db ∧ db.documentChunks = s.db.documentChunks) hok
    (fun _ _ _ hP _ hw hchunks => ⟨hP.1.trans hw.documentsKept, hchunks.trans hP.2⟩) ⟨.refl _, rfl⟩

theorem completeFailure_kept (svc : IngestionProcessingService) (jobId : UUID) (failure : Failure)
    (now : Time) : DocumentsKept s.db (svc.completeFailure s.db jobId failure now) ∧
      (svc.completeFailure s.db jobId failure now).documentChunks = s.db.documentChunks := by
  rcases completeFailure_writes svc s.db jobId failure now with heq | ⟨_, _, hw, hchunks⟩
  · rw [heq]
    exact ⟨.refl _, rfl⟩
  · exact ⟨hw.documentsKept, hchunks⟩

theorem retryIngestionJob_kept {userId jobId : UUID} {job : IngestionJob}
    (hok : retryIngestionJob s.db userId jobId = .ok (job, db)) :
    DocumentsKept s.db db ∧ db.documentChunks = s.db.documentChunks := by
  rcases retryIngestionJob_writes hok with rfl | ⟨_, _, _, hw, hchunks⟩
  · exact ⟨.refl _, rfl⟩
  · exact ⟨hw.documentsKept, hchunks⟩

private theorem stageTraced_withLease {claim : Claim} {outcome : Except Raised Work}
    (h : ∀ work, outcome = .ok work → StageTraced sha256 parse (.work claim work)) :
    StageTraced sha256 parse (call.withLease claim outcome).stage := by
  rcases withLease_cases call claim outcome with ⟨raised, heq⟩ | ⟨work, hok, heq⟩
  · rw [heq]
    trivial
  · rw [heq]
    exact h work hok

theorem verifySource_eq_ok {claimed : ClaimedDocument} {content verified : Bytes} :
    verifySource sha256 claimed content = .ok verified ↔ content = verified ∧
      content.length = claimed.sizeBytes ∧ hexdigest sha256 content = claimed.sha256 := by
  unfold verifySource
  split_ifs with hsize hdigest
  · simp [hsize]
  · simp [hdigest]
  · simp [not_not.mp hsize, not_not.mp hdigest]

/-- The statement that reads the file verifies it, and the next one parses what was verified. -/
theorem callStep_stageTraced (h : StageTraced sha256 parse call.stage) (hcall : s.calls w = some call)
    (hallowed : ParsesWith parse s (.call w a))
    (hstep : callStep sha256 uuid5 s w call a = some (t, some call')) :
    StageTraced sha256 parse call'.stage := by
  cases a with
  | readSource result =>
    simp only [callStep] at hstep
    split at hstep
    · obtain rfl := Option.some.inj (Prod.mk.inj (Option.some.inj hstep)).2
      refine stageTraced_withLease fun work hok => ?_
      obtain ⟨content, _, hok⟩ := bind_eq_ok.mp hok
      obtain ⟨verified, hverified, hok⟩ := bind_eq_ok.mp hok
      obtain rfl := Except.ok.inj hok
      obtain ⟨rfl, _⟩ := verifySource_eq_ok.mp hverified
      exact hverified
    · cases hstep
  | parseAndChunk result =>
    simp only [callStep] at hstep
    split at hstep
    · rename_i claim content hstage
      obtain rfl := Option.some.inj (Prod.mk.inj (Option.some.inj hstep)).2
      refine stageTraced_withLease fun work hok => ?_
      obtain ⟨chunks, hchunks, hok⟩ := bind_eq_ok.mp hok
      obtain rfl := Except.ok.inj hok
      rw [hstage] at h
      rw [hallowed call claim content hcall hstage] at hchunks
      exact ⟨_, content, h, hchunks⟩
    · cases hstep
  | embedChunks result =>
    simp only [callStep] at hstep
    split at hstep
    · obtain rfl := Option.some.inj (Prod.mk.inj (Option.some.inj hstep)).2
      refine stageTraced_withLease fun work hok => ?_
      obtain ⟨records, _, hok⟩ := bind_eq_ok.mp hok
      obtain rfl := Except.ok.inj hok
      trivial
    · cases hstep
  | completeFailure =>
    simp only [callStep] at hstep
    split at hstep
    · obtain ⟨_, _, heq⟩ := Option.map_eq_some_iff.mp hstep
      cases heq
    · cases hstep
  | _ =>
    simp only [callStep] at hstep
    repeat' split at hstep
    all_goals cases hstep
    -- the stage stays, or becomes one that holds neither bytes nor chunks
    all_goals first
      | exact h
      | trivial

private theorem WorkNext.claim? {svc : IngestionProcessingService} {claim : Claim} {work work' : Work}
    (_ : WorkNext svc claim work work') (hstage : call.stage = .work claim work) :
    (Stage.work claim work').claim? = call.stage.claim? := by
  rw [hstage]
  rfl

/-- What a step of a call does to the rows, to the documents and to its own claim. -/
theorem Traced.call_step (h : Traced sha256 uuid5 parse s) (hcall : s.calls w = some call)
    (hallowed : ParsesWith parse s (.call w a))
    (hstep : callStep sha256 uuid5 s w call a = some (mid, next)) :
    Traced sha256 uuid5 parse (mid.withCall w next) := by
  have hstages (call' : Call) (hnext : next = some call') : StageTraced sha256 parse call'.stage := by
    subst hnext
    exact callStep_stageTraced (h.stages w call hcall) hcall hallowed hstep
  have hclaims := h.claims w call
  have hquiet (index : VectorIndex) (call' : Call) (hnext : next = some call')
      (hclaim : ∀ claim, call'.stage.claim? = some claim → call.stage.claim? = some claim) :
      Traced sha256 uuid5 parse ({ s with index }.withCall w next) := by
    refine h.step (.refl _) rfl h.rows h.replacements ?_
    rintro _ hsome
    obtain rfl := Option.some.inj (hsome.symm.trans hnext)
    exact ⟨hstages _ hnext, fun claim hc => hclaims claim hcall (hclaim claim hc)⟩
  cases callStep_inv hstep with
  | readClock => exact hquiet s.index _ rfl fun _ => id
  | ended =>
    refine h.step (.refl _) rfl h.rows h.replacements ?_
    rintro _ ⟨⟩
  | recovered hok =>
    obtain ⟨hkept, hchunks⟩ := recoverExpiredLeases_kept hok
    refine h.step hkept rfl (h.rows.kept hkept hchunks) h.replacements ?_
    rintro _ ⟨⟩
    refine ⟨hstages _ rfl, ?_⟩
    rintro _ ⟨⟩
  | @claimed _ _ job db document _ _ hok hdocument =>
    obtain ⟨_, _, _, hw, hchunks⟩ := claimNext_writes hok
    refine h.step hw.documentsKept rfl (h.rows.kept hw.documentsKept hchunks) h.replacements ?_
    rintro _ ⟨⟩
    refine ⟨hstages _ rfl, ?_⟩
    rintro _ ⟨⟩
    refine ⟨job, document, ?_, rfl⟩
    change db.documents.find? document.id = some document
    rw [Table.find?_key hdocument]
    exact hdocument
  | proceeded hstage hnext =>
    refine hquiet s.index _ rfl fun claim hc => ?_
    rwa [← WorkNext.claim? hnext hstage]
  | raised hstage =>
    refine hquiet s.index _ rfl ?_
    rw [hstage]
    exact fun _ => id
  | @replaced claim chunks now db hstage _ hok =>
    have hclaim : ClaimOf s.db claim.claimed := hclaims claim hcall (by rw [hstage]; rfl)
    have hrows : RowsFrom sha256 uuid5 parse claim.claimed (durableChunks uuid5 claim.claimed chunks) := by
      have hstage' := h.stages w call hcall
      rw [hstage] at hstage'
      exact ⟨chunks, hstage', rfl⟩
    obtain ⟨_, _, hw, _⟩ := replaceChunks_writes hok
    refine h.step hw.documentsKept rfl (h.rows.replaced hclaim hrows hok) ?_ ?_
    · exact List.forall_mem_cons.mpr ⟨hrows, h.replacements⟩
    · rintro _ ⟨⟩
      refine ⟨hstages _ rfl, ?_⟩
      rintro _ ⟨⟩
      exact hclaim.kept hw.documentsKept
  | deleted hstage =>
    refine hquiet _ _ rfl ?_
    rw [hstage]
    exact fun _ => id
  | upserted hstage =>
    refine hquiet _ _ rfl ?_
    rw [hstage]
    exact fun _ => id
  | stopped hstage =>
    refine hquiet s.index _ rfl ?_
    rw [hstage]
    exact fun _ => id
  | succeeded _ hok =>
    obtain ⟨_, _, hw, hchunks⟩ := completeSuccess_writes hok
    refine h.step hw.documentsKept rfl (h.rows.kept hw.documentsKept hchunks) h.replacements ?_
    rintro _ ⟨⟩
  | @failed claim _ failure now =>
    obtain ⟨hkept, hchunks⟩ := completeFailure_kept (s := s) call.svc claim.claimed.jobId failure now
    refine h.step hkept rfl (h.rows.kept hkept hchunks) h.replacements ?_
    rintro _ ⟨⟩
  | heartbeatClock => exact hquiet s.index _ rfl fun _ => id
  | renewed _ _ hok =>
    obtain ⟨_, _, hw, hchunks⟩ := renewLease_writes hok
    refine h.step hw.documentsKept rfl (h.rows.kept hw.documentsKept hchunks) h.replacements ?_
    rintro _ ⟨⟩
    exact ⟨hstages _ rfl, fun claim hc => (hclaims claim hcall hc).kept hw.documentsKept⟩
  | heartbeatLost => exact hquiet s.index _ rfl fun _ => id

theorem Traced.init (hfresh : FreshDatabase db) : Traced sha256 uuid5 parse (.init db) where
  claims := by
    intro w call claim hcall
    cases hcall
  stages := by
    intro w call hcall
    cases hcall
  rows := by
    intro c hc
    have hc : c ∈ db.documentChunks.rows := hc
    rw [hfresh.documentChunks] at hc
    cases hc
  replacements := by
    intro c hc
    cases hc

theorem workers_step_traced (s : WorkerState) (b : WorkerAction) (t : WorkerState)
    (h : Traced sha256 uuid5 parse s) (hallowed : ParsesWith parse s b)
    (hstep : (workers sha256 uuid5).step s b = some t) : Traced sha256 uuid5 parse t := by
  cases b with
  | call w action =>
    simp only [workers, workerStep, bind, Option.bind_eq_some_iff, pure, Option.some.injEq] at hstep
    obtain ⟨call, hcall, ⟨mid, next⟩, hcallStep, rfl⟩ := hstep
    exact h.call_step hcall hallowed hcallStep
  | start svc =>
    cases workerStep_move hstep
    refine h.step (.refl _) rfl h.rows h.replacements ?_
    rintro _ ⟨⟩
    refine ⟨trivial, ?_⟩
    rintro _ ⟨⟩
  | recoverExpiredLeases svc locked limit now =>
    cases workerStep_move hstep with
    | recovered hok =>
      obtain ⟨hkept, hchunks⟩ := recoverExpiredLeases_kept hok
      exact h.elsewhere hkept hchunks
  | retryIngestionJob userId jobId =>
    cases workerStep_move hstep with
    | retried hok =>
      obtain ⟨hkept, hchunks⟩ := retryIngestionJob_kept hok
      exact h.elsewhere hkept hchunks
  | upload document jobId =>
    cases workerStep_move hstep with
    | uploaded hok =>
      obtain ⟨_, _, _, _, _, hdb⟩ := insertUpload_ok hok
      exact h.elsewhere (insertUpload_documentsKept hok) (by rw [hdb])

end Steps

/-- A row says where its characters stand, and carries the digest of what it says. -/
structure RowSound (sha256 : Sha256) (row : DocumentChunk) : Prop where
  offsets : ∃ a, row.startOffset = some a ∧ row.endOffset = some (a + row.normalizedText.length)
  digest : ∃ encoded, encodeUtf8 row.normalizedText = some encoded ∧
    row.contentSha256 = some (hexdigest sha256 encoded)
  printed : row.normalizedText.filter isPrinted ≠ []

/-- The rows come from these bytes of a file of this kind: together they print what the file prints,
and each of them some of it without a gap. -/
structure RowsOfFile (readerFactory : Bytes → Except PdfError PdfReader) (content : Bytes)
    (kind : StoredKind) (rows : List DocumentChunk) : Prop where
  whole : (reassemble rows).filter isPrinted = kind.printed readerFactory content
  excerpt : ∀ row ∈ rows, row.normalizedText.filter isPrinted <:+: kind.printed readerFactory content

/-- Every document with rows has them from bytes of the size and the digest on record; a completed
document has rows. -/
structure Provenance (sha256 : Sha256) (readerFactory : Bytes → Except PdfError PdfReader)
    (db : Database) : Prop where
  source : ∀ document ∈ db.documents, db.chunksOf document.id ≠ [] → ∃ content kind,
    content.length = document.sizeBytes ∧ hexdigest sha256 content = document.sha256 ∧
    storedKind document.mediaType (DocumentParserRegistry.extensionOf document.originalFilename) = some kind ∧
    RowsOfFile readerFactory content kind (db.chunksOf document.id)
  rows : ∀ row ∈ db.documentChunks, RowSound sha256 row
  completed : ∀ document ∈ db.documents, document.status = .completed → db.chunksOf document.id ≠ []

/-- The documents and chunks of this state, whatever the accounts are. -/
def SameContent (db ingested : Database) : Prop :=
  db.documents = ingested.documents ∧ db.documentChunks = ingested.documentChunks

section Provenance
variable {sha256 : Sha256} {uuid5 : UUID → Str → UUID} {readerFactory : Bytes → Except PdfError PdfReader}
  {parse : DocumentArtifact → Except ParseError ParsedDocument} {registry : DocumentParserRegistry}
  {claimed : ClaimedDocument} {rows : List DocumentChunk} {s : WorkerState}

theorem RowsFrom.sound (h : RowsFrom sha256 uuid5 parse claimed rows) : ∀ row ∈ rows, RowSound sha256 row := by
  obtain ⟨chunks, ⟨cfg, content, _, hchunks⟩, rfl⟩ := h
  obtain ⟨parsed, normalized, _, hnormalized, hmade, _⟩ := parseAndChunk_ok hchunks
  obtain ⟨made, hmade', _, hchunked⟩ := @chunk_ok sha256 normalized cfg
    fun c hc => (normalize_sanitized hnormalized hc).1
  obtain rfl := Except.ok.inj (hmade'.symm.trans hmade)
  intro row hrow
  obtain ⟨c, hc, rfl⟩ := List.mem_map.mp hrow
  have hof := hchunked.each c hc
  obtain ⟨encoded, hencoded, hhash⟩ := hof.hash
  refine ⟨⟨c.startOffset, rfl, congrArg some ?_⟩, ⟨encoded, hencoded, congrArg some hhash⟩, ?_⟩
  · have hwithin := hof.within
    have hnonempty := c.range_nonempty
    change c.endOffset = c.startOffset + c.text.length
    rw [hof.text_eq, List.length_take, List.length_drop]
    omega
  · have hsanitized (x : CodePoint) (hx : x ∈ c.text) : Sanitized x :=
      normalize_sanitized hnormalized (hof.mem_text hx)
    exact fun hnone => hof.strip_ne_nil ((strip_eq_nil_iff hsanitized).mpr hnone)

theorem RowsFrom.ne_nil (h : RowsFrom sha256 uuid5 parse claimed rows) : rows ≠ [] := by
  obtain ⟨chunks, ⟨cfg, content, _, hchunks⟩, rfl⟩ := h
  obtain ⟨_, _, _, _, _, hnonempty⟩ := parseAndChunk_ok hchunks
  exact fun hnil => hnonempty (List.map_eq_nil_iff.mp hnil)

/-- Rows of the default registry print what the file prints. -/
theorem RowsFrom.source (hregistry : createDefaultParserRegistry readerFactory = .ok registry)
    (h : RowsFrom sha256 uuid5 registry.parse claimed rows) : ∃ content kind,
      content.length = claimed.sizeBytes ∧ hexdigest sha256 content = claimed.sha256 ∧
      storedKind claimed.mediaType (DocumentParserRegistry.extensionOf claimed.filename) = some kind ∧
      ∀ stored : List DocumentChunk, (∀ row, row ∈ stored ↔ row ∈ rows) →
        RowsOfFile readerFactory content kind stored := by
  obtain ⟨chunks, ⟨cfg, content, hverified, hchunks⟩, rfl⟩ := h
  obtain ⟨_, hsize, hdigest⟩ := verifySource_eq_ok.mp hverified
  obtain ⟨parsed, _, hparsed, _⟩ := parseAndChunk_ok hchunks
  obtain ⟨registry', hregistry', hparse⟩ := createDefaultParserRegistry_ok readerFactory
  obtain rfl := Except.ok.inj (hregistry'.symm.trans hregistry)
  have hkinds := (hparse ⟨content, claimed.mediaType, claimed.filename⟩).symm.trans hparsed
  dsimp only at hkinds
  split at hkinds
  · cases hkinds
  · rename_i kind hkind
    have hreads : Reads (kind.texts readerFactory content) (kind.parse readerFactory content) :=
      kind.parse_reads content
    rw [hkinds] at hreads
    refine ⟨content, kind, hsize, hdigest, hkind, fun stored hstored => ?_⟩
    obtain ⟨hwhole, hexcerpt⟩ := parseAndChunk_printed hchunks hparsed hstored
    rw [hreads.2] at hwhole hexcerpt
    exact ⟨hwhole, hexcerpt⟩

/-- The call that completed a document wrote the rows it has. -/
theorem Fenced.completed_commit (hf : Fenced s) {document : Document} (hdocument : document ∈ s.db.documents)
    (hcompleted : document.status = .completed) : ∃ c ∈ s.replacements,
      c.claim.claimed.documentId = document.id ∧ RowsOf s.db c.claim c.rows := by
  have hfound := Table.find?_of_mem hdocument
  obtain ⟨k, job, hjob, hd⟩ := hf.consistent.has_job _ document hfound
  obtain ⟨other, hother, hlife⟩ := hf.consistent.jobs k job hjob
  have hagrees := hlife.status_agrees
  rw [Option.some.inj (hother.symm.trans (hd ▸ hfound)), hcompleted] at hagrees
  have hstatus : job.status = .completed := by
    cases hs : job.status <;> rw [hs] at hagrees <;> first | rfl | exact absurd hagrees (by decide)
  obtain ⟨c, hc, rfl⟩ := hf.completed k job hjob hstatus
  obtain ⟨hmem, row, hrow, _, hdoc, hrows⟩ := hf.closed c hc
  obtain rfl := Option.some.inj (hrow.symm.trans hjob)
  exact ⟨c, hmem, hdoc.symm.trans hd, hrows⟩

theorem Traced.provenance (hregistry : createDefaultParserRegistry readerFactory = .ok registry)
    (hf : Fenced s) (h : Traced sha256 uuid5 registry.parse s) : Provenance sha256 readerFactory s.db where
  source := by
    intro document hdocument hrows
    obtain ⟨c, hc⟩ := List.exists_mem_of_ne_nil _ hrows
    obtain ⟨hc, hid⟩ := (s.db.mem_chunksOf).mp hc
    obtain ⟨claimed, rows, hclaimed, ⟨job, other, hother, rfl⟩, hfrom, hall⟩ := h.rows c hc
    rw [hclaimed, hid, Table.find?_of_mem hdocument] at hother
    obtain rfl := Option.some.inj hother
    obtain ⟨content, kind, hsize, hdigest, hkind, hprinted⟩ := hfrom.source hregistry
    refine ⟨content, kind, hsize, hdigest, hkind, hprinted _ fun row => ?_⟩
    rw [Database.mem_chunksOf, ← hid]
    exact hall row
  rows := by
    intro row hrow
    obtain ⟨claimed, rows, _, _, hfrom, hall⟩ := h.rows row hrow
    exact hfrom.sound row ((hall row).mp ⟨hrow, rfl⟩)
  completed := by
    intro document hdocument hcompleted
    obtain ⟨c, hc, hid, hrows⟩ := hf.completed_commit hdocument hcompleted
    obtain ⟨row, hrow⟩ := List.exists_mem_of_ne_nil _ (h.replacements c hc).ne_nil
    rw [← hid]
    exact List.ne_nil_of_mem ((s.db.mem_chunksOf).mpr ((hrows row).mpr hrow))

theorem Provenance.congr {db ingested : Database} (h : Provenance sha256 readerFactory ingested)
    (hsame : SameContent db ingested) : Provenance sha256 readerFactory db := by
  have hchunks (documentId : UUID) : db.chunksOf documentId = ingested.chunksOf documentId := by
    rw [Database.chunksOf, hsame.2, Database.chunksOf]
  obtain ⟨hsource, hrows, hcompleted⟩ := h
  constructor
  · simpa only [hsame.1, hchunks] using hsource
  · simpa only [hsame.2] using hrows
  · simpa only [hsame.1, hchunks] using hcompleted

/-- The invariants over a whole run. -/
theorem workers_provenance (hregistry : createDefaultParserRegistry readerFactory = .ok registry)
    {db : Database} (hfresh : FreshDatabase db) {as : List WorkerAction}
    (hallowed : (workers sha256 uuid5).Allowed (ParsesWith registry.parse) (.init db) as)
    (hrun : (workers sha256 uuid5).run (.init db) as = some s) : Provenance sha256 readerFactory s.db := by
  have h : Fenced s ∧ Traced sha256 uuid5 registry.parse s := Machine.run_invariant_of_allowed
    (I := fun s => Fenced s ∧ Traced sha256 uuid5 registry.parse s)
    (fun s a t hI hC hstep => ⟨workers_step_fenced s a t hI.1 hstep, workers_step_traced s a t hI.2 hC hstep⟩)
    ⟨.init hfresh, .init hfresh⟩ hallowed hrun
  exact h.2.provenance hregistry h.1

end Provenance

/-- Whatever the workers do, in whatever order, the rows of a document come from the bytes that its
upload recorded, and say what those bytes print. -/
theorem content_provenance (sha256 : Sha256) (uuid5 : UUID → Str → UUID)
    {readerFactory : Bytes → Except PdfError PdfReader} {registry : DocumentParserRegistry}
    (hregistry : createDefaultParserRegistry readerFactory = .ok registry) {db : Database}
    (hfresh : FreshDatabase db) {as : List WorkerAction}
    (hallowed : (workers sha256 uuid5).Allowed (ParsesWith registry.parse) (.init db) as) {s : WorkerState}
    (hrun : (workers sha256 uuid5).run (.init db) as = some s) : Provenance sha256 readerFactory s.db :=
  workers_provenance hregistry hfresh hallowed hrun

/-- The call parses `exampleUpload`, and its parser reads the letter a. -/
def parsesLetter (s : WorkerState) : WorkerAction → Bool
  | .call w (.parseAndChunk result) =>
    (match result with
      | .ok ⟨[⟨text, none, _⟩]⟩ => text = str "a"
      | _ => false) &&
    (s.calls w).all fun call =>
      match call.stage with
      | .work claim (.parseAndChunk content) =>
        content = [0x61] ∧ claim.claimed.mediaType = "text/plain" ∧ claim.claimed.filename = str "a.txt"
      | _ => true
  | _ => true

theorem parsesWith_of_parsesLetter {registry : DocumentParserRegistry}
    (hregistry : createDefaultParserRegistry (fun _ => .error .other) = .ok registry) {s : WorkerState}
    {a : WorkerAction} (h : parsesLetter s a = true) : ParsesWith registry.parse s a := by
  obtain ⟨registry', hregistry', hparse⟩ := createDefaultParserRegistry_ok fun _ => .error .other
  obtain rfl := Except.ok.inj (hregistry'.symm.trans hregistry)
  unfold ParsesWith
  split
  · intro call claim content hcall hstage
    simp only [parsesLetter, hcall, hstage, Option.all_some, Bool.and_eq_true, decide_eq_true_eq] at h
    obtain ⟨hresult, rfl, hmediaType, hfilename⟩ := h
    rw [hmediaType, hfilename, hparse]
    split at hresult
    · obtain rfl := of_decide_eq_true hresult
      rfl
    · cases hresult
  · trivial

theorem content_provenance_example : ∃ s,
    (workers exampleSha256 exampleUuid5).run (.init exampleDatabase) overtakenActions = some s ∧
      Provenance exampleSha256 (fun _ => .error .other) s.db := by
  obtain ⟨registry, hregistry, _⟩ := createDefaultParserRegistry_ok fun _ => .error .other
  have hsome : ((workers exampleSha256 exampleUuid5).run (.init exampleDatabase)
      overtakenActions).isSome := by decide
  have hallowed : (workers exampleSha256 exampleUuid5).Allowed
      (fun s a => parsesLetter s a = true) (.init exampleDatabase) overtakenActions := by decide +kernel
  obtain ⟨s, hrun⟩ := Option.isSome_iff_exists.mp hsome
  exact ⟨s, hrun, content_provenance exampleSha256 exampleUuid5 hregistry exampleDatabase_fresh
    (hallowed.mono fun _ _ => parsesWith_of_parsesLetter hregistry) hrun⟩

end AgenticRag.Services

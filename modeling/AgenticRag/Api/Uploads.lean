import AgenticRag.Api.Backend
import AgenticRag.Api.Citations

/-! From the evidence of an answer back to the upload of what it quotes, over whole runs of the
backend. -/
namespace AgenticRag.Api
open Lib Python Db Ingestion Security Retrieval Services Program

/-- The bytes of an upload, up to the first empty read. -/
def UploadFile.bytes (file : UploadFile) : Bytes := (file.source.takeWhile fun chunk => chunk ≠ []).flatten

/-- The action of a client that adds a document: the client is logged in as a user who owns or edits
the knowledge base, and what the row records is what its upload sent. -/
structure Uploads {ρ : Type} [LinearOrder ρ] (settings : ApiSettings ρ) (s₀ : KnowledgeState)
    (before : List ApiAction) (p : ApiPool) (client : ApiClient) (uploader : Principal) (file : UploadFile)
    (d : Document) : Prop where
  loggedIn : ∃ row, LoggedIn settings s₀ before client.request.toCredentials client.history p.state.db
    uploader row
  mayEdit : MayEdit p.state.db uploader.userId d.knowledgeBaseId
  operation : client.request.operation = .uploadDocument d.knowledgeBaseId file
  filename : file.filename.getD [] = d.originalFilename
  mediaType : file.contentType = some d.mediaType
  accepted : ∃ extension, validateUploadMetadata d.originalFilename d.mediaType = .ok extension
  sizeBytes : d.sizeBytes = file.bytes.length
  sha256 : d.sha256 = hexdigest settings.intake.sha256 file.bytes

/-- The document was added by an upload of the run. -/
def UploadedIn {ρ : Type} [LinearOrder ρ] (settings : ApiSettings ρ) (s₀ : KnowledgeState)
    (as : List ApiAction) (file : UploadFile) (d : Document) : Prop :=
  ∃ before after id input p client uploader, as = before ++ .step id input :: after ∧
    (api settings).run (.init s₀) before = some p ∧ p.clients id = some client ∧
      Uploads settings s₀ before p client uploader file d

/-- Every document was there, up to its status. -/
def DocumentsFrom (db db' : Database) : Prop :=
  ∀ d ∈ db'.documents, ∃ status, { d with status } ∈ db.documents

section Documents
variable {db db' db'' : Database}

theorem DocumentsFrom.refl (db : Database) : DocumentsFrom db db := fun d hd => ⟨d.status, hd⟩

theorem DocumentsFrom.trans (h : DocumentsFrom db db') (h' : DocumentsFrom db' db'') :
    DocumentsFrom db db'' := by
  intro d hd
  obtain ⟨_, hd'⟩ := h' d hd
  obtain ⟨status, hd''⟩ := h _ hd'
  exact ⟨status, hd''⟩

private theorem documentsFrom_writes {job job' : IngestionJob} {f : DocumentStatus → DocumentStatus}
    (h : Writes db db' job job' f) : DocumentsFrom db db' := by
  intro d hd
  have hfound := Table.find?_of_mem hd
  rw [h.documents] at hfound
  obtain ⟨old, hold, heq⟩ := Option.map_eq_some_iff.mp hfound
  refine ⟨old.status, ?_⟩
  have hsame : { d with status := old.status } = old := by
    rw [← heq]
    split <;> rfl
  rw [hsame]
  exact Table.mem_of_find? hold

private theorem documentsFrom_writesJobs (h : Relation.ReflTransGen WritesJob db db') :
    DocumentsFrom db db' := by
  induction h with
  | refl => exact .refl db
  | tail _ hwrites ih =>
    obtain ⟨_, _, _, hw⟩ := hwrites
    exact ih.trans (documentsFrom_writes hw)

end Documents

section Runs
variable {ρ : Type} [LinearOrder ρ] {settings : ApiSettings ρ} {uuid5 : UUID → Str → UUID}
  {s₀ : KnowledgeState} {as : List BackendAction} {a : BackendAction} {b c : Backend}

theorem UploadedIn.append {as bs : List ApiAction} {file : UploadFile} {d : Document}
    (h : UploadedIn settings s₀ as file d) : UploadedIn settings s₀ (as ++ bs) file d := by
  obtain ⟨before, after, id, input, p, client, uploader, rfl, hrest⟩ := h
  exact ⟨before, after ++ bs, id, input, p, client, uploader, by simp, hrest⟩

theorem UploadedIn.withStatus {as : List ApiAction} {file : UploadFile} {d : Document}
    {status : DocumentStatus} (h : UploadedIn settings s₀ as file { d with status }) :
    UploadedIn settings s₀ as file d := by
  obtain ⟨before, after, id, input, p, client, uploader, hsplit, hrun, hclient, hupload⟩ := h
  refine ⟨before, after, id, input, p, client, uploader, hsplit, hrun, hclient, ?_⟩
  exact ⟨hupload.loggedIn, hupload.mayEdit, hupload.operation, hupload.filename, hupload.mediaType,
    hupload.accepted, hupload.sizeBytes, hupload.sha256⟩

omit [LinearOrder ρ] in
/-- What an upload published are the bytes that it sent. -/
theorem Published.recorded {h : ApiHistory} {knowledgeBaseId documentId : UUID} {extension : Str}
    {file : UploadFile} {stored : Services.StoredFile}
    (hpublished : Published settings h knowledgeBaseId extension file.source documentId stored) :
    stored.sizeBytes = file.bytes.length ∧
      stored.sha256 = hexdigest settings.intake.sha256 file.bytes := by
  obtain ⟨x, _, content, _, hstore⟩ := hpublished
  unfold KnowledgeIntakeService.storeUpload at hstore
  split at hstore
  · cases hstore
  · obtain ⟨_, _, hsize, hdigest⟩ := @store_ok _ _ _ ⟨0, 0, [], "", file.source⟩ _ _
      (mapError_eq_ok.mp hstore)
    exact ⟨hsize, hdigest⟩

/-- A document that a write of a client adds is the client's upload. -/
theorem KnowledgeWrite.documents {p : ApiPool} {client : ApiClient} {principal : Principal}
    {as : List ApiAction} {i : ApiInput} {t : KnowledgeState} {row : UserSession}
    (hrow : LoggedIn settings s₀ as client.request.toCredentials client.history p.state.db principal row)
    (hwrite : KnowledgeWrite settings principal.userId client.history i p.state client.request.operation t)
    {d : Document} (hd : d ∈ t.db.documents) :
    (∃ status, { d with status } ∈ p.state.db.documents) ∨
      ∃ file, Uploads settings s₀ as p client principal file d := by
  generalize hoperation : client.request.operation = operation at hwrite
  cases hwrite with
  | created hadd =>
    obtain ⟨_, _, _, heq⟩ := addWithOwner_some hadd
    rw [heq] at hd
    exact .inl ⟨d.status, hd⟩
  | retried hretry =>
    rcases retryIngestionJob_writes hretry with rfl | ⟨_, _, _, hw, _⟩
    · exact .inl ⟨d.status, hd⟩
    · exact .inl (documentsFrom_writes hw d hd)
  | stored => exact .inl ⟨d.status, hd⟩
  | deleted => exact .inl ⟨d.status, hd⟩
  | @inserted _ _ file _ _ _ _ _ hmedia hmetadata hpublished _ hfind hinsert =>
    obtain ⟨_, _, _, hadded, _, _⟩ := insertUpload_ok hinsert
    rcases (Table.mem_insert? hadded).mp hd with rfl | hold
    · obtain ⟨_, hauthorized, _⟩ := bind_eq_ok.mp hfind
      obtain ⟨hsize, hdigest⟩ := hpublished.recorded
      exact .inr ⟨file, ⟨row, hrow⟩, authorizeUpload_mayEdit hauthorized, hoperation, rfl, hmedia,
        ⟨_, hmetadata⟩, hsize, hdigest⟩
    · exact .inl ⟨d.status, hold⟩

/-- The documents after a step of the backend: those before it, up to their status, and an upload. -/
theorem backend_step_documents (hs₀ : s₀.db.userSessions.rows = [])
    (hrun : (backend settings uuid5).run (.init s₀) as = some b)
    (hstep : (backend settings uuid5).step b a = some c) {d : Document}
    (hd : d ∈ c.pool.state.db.documents) :
    (∃ status, { d with status } ∈ b.pool.state.db.documents) ∨ ∃ id input client uploader file,
      a = .api (.step id input) ∧ b.pool.clients id = some client ∧
        Uploads settings s₀ (apiActions settings uuid5 s₀ as) b.pool client uploader file d := by
  cases backend_step hstep with
  | @api action pool hclient hpool =>
    have hsame (heq : pool.state = b.pool.state) : ∃ status, { d with status } ∈ b.pool.state.db.documents :=
      ⟨d.status, heq ▸ hd⟩
    cases action with
    | start request =>
      obtain rfl := Option.some.inj hpool
      exact .inl (hsame Pool.settle_state)
    | step id input =>
      have hapi := backend_run_api hrun
      obtain ⟨client, hclient, hrecorded, heffect⟩ := step_effect hapi hpool
      rcases heffect.knowledgeKept with hkept | ⟨principal, hprincipal, _, hwrite⟩
      · exact .inl ⟨d.status, hkept.documents ▸ hd⟩
      · obtain ⟨row, hrow⟩ := hprincipal.loggedIn hs₀ hapi hrecorded
        rcases KnowledgeWrite.documents hrow hwrite hd with hold | ⟨file, hupload⟩
        · exact .inl hold
        · exact .inr ⟨id, input, client, principal, file, rfl, hclient, hupload⟩
    | kill id =>
      obtain ⟨_, _, rfl⟩ := Option.map_eq_some_iff.mp hpool
      exact .inl (hsame rfl)
    | elsewhere state => cases hclient
  | worker hworker hworkers => exact .inl (documentsFrom_writesJobs (workerStep_writesJobs hworker hworkers) d hd)
  | operator hwrite => exact .inl ⟨d.status, hwrite.ingestionKept.documents ▸ hd⟩

/-- Every document of a run from a database without documents and sessions was uploaded in it. -/
theorem documents_uploaded (hs₀ : s₀.db.userSessions.rows = []) (hfresh : FreshDatabase s₀.db)
    (hrun : (backend settings uuid5).run (.init s₀) as = some b) :
    ∀ d ∈ b.pool.state.db.documents,
      ∃ file, UploadedIn settings s₀ (apiActions settings uuid5 s₀ as) file d := by
  refine Machine.run_history (C := fun _ _ => True) (I := fun as b => ∀ d ∈ b.pool.state.db.documents,
    ∃ file, UploadedIn settings s₀ (apiActions settings uuid5 s₀ as) file d) ?_ ?_ Machine.allowed_true hrun
  · intro as b a c hrun hI _ hstep d hd
    have hactions : apiActions settings uuid5 s₀ (as ++ [a]) =
        apiActions settings uuid5 s₀ as ++ [seenByApi a c] := by
      rw [apiActions, Machine.labels_append hrun, Machine.labels_cons hstep]
      rfl
    rw [hactions]
    rcases backend_step_documents hs₀ hrun hstep hd with ⟨status, hold⟩ | ⟨id, input, client, uploader,
      file, rfl, hclient, hupload⟩
    · obtain ⟨file, huploaded⟩ := hI _ hold
      exact ⟨file, huploaded.withStatus.append⟩
    · exact ⟨file, _, [], id, input, b.pool, client, uploader, rfl, backend_run_api hrun, hclient, hupload⟩
  · intro d hd
    have hd : d ∈ s₀.db.documents.rows := hd
    rw [hfresh.documents] at hd
    cases hd

/-- The calls of the workers parse with this parser. -/
def BackendParsesWith (parse : DocumentArtifact → Except ParseError ParsedDocument) (b : Backend) :
    BackendAction → Prop
  | .worker action => ParsesWith parse b.ingestion action
  | _ => True

theorem backend_provenance {readerFactory : Bytes → Except PdfError PdfReader} {registry : DocumentParserRegistry}
    (hregistry : createDefaultParserRegistry readerFactory = .ok registry) (hfresh : FreshDatabase s₀.db)
    (hallowed : (backend settings uuid5).Allowed (BackendParsesWith registry.parse) (.init s₀) as)
    (hrun : (backend settings uuid5).run (.init s₀) as = some b) :
    Provenance settings.intake.sha256 readerFactory b.pool.state.db := by
  have htraced : Traced settings.intake.sha256 uuid5 registry.parse b.ingestion := by
    refine backend_keeps (C := ParsesWith registry.parse) (fun _ _ => Traced.kept) workers_step_traced
      (.init hfresh) (hallowed.mono ?_) hrun
    rintro b a hparses w (_ | _ | _)
    · exact hparses
    · trivial
    · trivial
  exact htraced.provenance hregistry (backend_fenced hfresh hrun)

/-- Everything that a retrieval answers, in any run of the backend, was in the file of an upload of
the run: of a user who could then write the knowledge base, to a user who can now read it. -/
theorem evidence_from_uploads {readerFactory : Bytes → Except PdfError PdfReader}
    {registry : DocumentParserRegistry}
    (hregistry : createDefaultParserRegistry readerFactory = .ok registry)
    (hs₀ : s₀.db.userSessions.rows = []) (hfresh : FreshDatabase s₀.db)
    (hallowed : (backend settings uuid5).Allowed (BackendParsesWith registry.parse) (.init s₀) as)
    (hrun : (backend settings uuid5).run (.init s₀) as = some b)
    {served : Served ApiRequest KnowledgeState ApiInput (Except ApiRaised ApiResponse)}
    (hserved : served ∈ b.pool.served) {knowledgeBaseId : UUID} {payload : RetrievalQueryRequest}
    (hoperation : served.request.operation = .retrieveAuthoritativeEvidence knowledgeBaseId payload)
    {response : ApiResponse} (hok : served.result = .ok response) {items : List RetrievedEvidence}
    (hbody : response.body = .evidence items) :
    ∃ reader row before input after r,
      LoggedIn settings s₀ (apiActions settings uuid5 s₀ as) served.request.toCredentials served.history
        b.pool.state.db reader row ∧
      apiActions settings uuid5 s₀ as = before ++ .step served.id input :: after ∧
      (api settings).run (.init s₀) before = some r ∧
      ∀ item ∈ items, ∃ d ∈ r.state.db.documents, ∃ source kind file,
        r.state.db.IsMember reader.userId d.knowledgeBaseId ∧ d.status = .completed ∧
        Quotes settings.intake.sha256 readerFactory d source kind item ∧
        UploadedIn settings s₀ before file d := by
  have hapi := backend_run_api hrun
  obtain ⟨hrecorded, hended⟩ := (Pool.run_kept (meets_serve settings) hapi).served served hserved
  obtain ⟨reader, hreader, x, hx, hshown⟩ := (hended.answered response hok).session (by rw [hoperation]; rfl)
  obtain ⟨row, hrow⟩ := hreader.loggedIn hs₀ hapi hrecorded
  obtain ⟨before, after, r, hsplit, hr, hstate⟩ := hrecorded.of_mem hx
  refine ⟨reader, row, before, x.1, after, r, hrow, hsplit, hr, ?_⟩
  obtain ⟨as₁, as₂, mid, rfl, hmid, _, rfl, rfl⟩ := backend_run_before hrun hsplit hr
  have hprovenance := backend_provenance hregistry hfresh (Machine.allowed_append.mp hallowed).1 hmid
  rw [hbody, ← hstate] at hshown
  cases hshown with
  | evidence hitems =>
    intro item hitem
    obtain ⟨chunk, hchunk, d, hd, hevidence, hmember⟩ := hitems item hitem
    obtain ⟨source, kind, hquotes⟩ := hevidence.quotes hprovenance hchunk hd
    obtain ⟨file, huploaded⟩ := documents_uploaded hs₀ hfresh hmid d hd
    exact ⟨d, hd, source, kind, file, hmember, hevidence.completed, hquotes, huploaded⟩

end Runs

section Example

/-- The same client asks for the letter that it uploaded. -/
def evidenceActions : List BackendAction :=
  backendActions ++ (.start ⟨⟨exampleCookies, some (List.replicate 32 (ord 'b'))⟩,
    .retrieveAuthoritativeEvidence 3 ⟨str " a", 5, by decide⟩⟩ :: exampleSteps 2 12).map .api

/-- The items of a successful retrieval. -/
def retrievedItems (served : Served ApiRequest KnowledgeState ApiInput (Except ApiRaised ApiResponse)) :
    Option (List RetrievedEvidence) :=
  match served.request.operation, served.result with
  | .retrieveAuthoritativeEvidence _ _, .ok ⟨_, .evidence items, _⟩ => some items
  | _, _ => none

/-- `parsesLetter` for the workers' actions. -/
def backendParsesLetter (b : Backend) : BackendAction → Bool
  | .worker action => parsesLetter b.ingestion action
  | _ => true

theorem evidence_from_uploads_ingested : ∃ (b : Backend) (items : List RetrievedEvidence),
    (backend backendSettings exampleUuid5).run (.init backendState) evidenceActions = some b ∧
    items.map RetrievedEvidence.content = [str "a"] ∧
    ∀ item ∈ items, ∃ d source kind file before,
      Quotes exampleSha256 (fun _ => .error .other) d source kind item ∧
      UploadedIn backendSettings backendState before file d := by
  obtain ⟨registry, hregistry, _⟩ := createDefaultParserRegistry_ok fun _ => .error .other
  have hany : ((backend backendSettings exampleUuid5).run (.init backendState) evidenceActions).any
      (fun b => b.pool.served.any fun served => (retrievedItems served).any fun items =>
        items.map RetrievedEvidence.content = [str "a"]) = true := by decide +kernel
  have hallowed : (backend backendSettings exampleUuid5).Allowed
      (fun b a => backendParsesLetter b a = true) (.init backendState) evidenceActions := by decide +kernel
  obtain ⟨b, hrun, hany⟩ := (Option.any_eq_true _ _).mp hany
  obtain ⟨served, hserved, hany⟩ := List.any_eq_true.mp hany
  obtain ⟨items, hitems, hcontent⟩ := (Option.any_eq_true _ _).mp hany
  unfold retrievedItems at hitems
  split at hitems
  · rename_i hoperation hok
    obtain rfl := Option.some.inj hitems
    obtain ⟨_, _, before, _, _, _, _, _, _, hevidence⟩ := evidence_from_uploads hregistry rfl
      backendState_fresh (hallowed.mono fun b a ha => by
        cases a with
        | worker action => exact parsesWith_of_parsesLetter hregistry ha
        | _ => trivial) hrun hserved hoperation hok rfl
    refine ⟨b, _, hrun, of_decide_eq_true hcontent, fun item hitem => ?_⟩
    obtain ⟨d, _, source, kind, file, _, _, hquotes, huploaded⟩ := hevidence item hitem
    exact ⟨d, source, kind, file, before, hquotes, huploaded⟩
  · cases hitems

end Example
end AgenticRag.Api

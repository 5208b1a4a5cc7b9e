import AgenticRag.Api.Disclosure
import AgenticRag.Services.ContentProvenance

/-! Evidence against the file it cites. -/
namespace AgenticRag.Api
open Lib Python Db Ingestion Security Retrieval Services

/-- The item cites this document, whose file is these bytes, and quotes the file. -/
structure Quotes (sha256 : Sha256) (readerFactory : Bytes → Except PdfError PdfReader) (d : Document)
    (file : Bytes) (kind : StoredKind) (item : RetrievedEvidence) : Prop where
  cited : item.documentId = d.id ∧ item.sourceDisplayName = d.originalFilename
  stored : file.length = d.sizeBytes ∧ hexdigest sha256 file = d.sha256
  accepted : storedKind d.mediaType (DocumentParserRegistry.extensionOf d.originalFilename) = some kind
  quoted : item.content.filter isPrinted <:+: kind.printed readerFactory file
  printed : item.content.filter isPrinted ≠ []
  digest : ∃ encoded, encodeUtf8 item.content = some encoded ∧ hexdigest sha256 encoded = item.contentSha256
  offsets : ∃ a, item.characterStart = some a ∧ item.characterEnd = some (a + item.content.length)

section Evidence
variable {ρ : Type} [LinearOrder ρ] {sha256 : Sha256} {readerFactory : Bytes → Except PdfError PdfReader}
  {db : Database}

theorem EvidenceOf.quotes {item : RetrievedEvidence} {chunk : DocumentChunk} {d : Document}
    (h : EvidenceOf item chunk d) (hprovenance : Provenance sha256 readerFactory db)
    (hchunk : chunk ∈ db.documentChunks) (hd : d ∈ db.documents) :
    ∃ file kind, Quotes sha256 readerFactory d file kind item := by
  have hmem : chunk ∈ db.chunksOf d.id := (db.mem_chunksOf).mpr ⟨hchunk, h.joined.symm⟩
  obtain ⟨file, kind, hsize, hdigest, hkind, hrows⟩ :=
    hprovenance.source d hd (List.ne_nil_of_mem hmem)
  obtain ⟨⟨a, hstart, hend⟩, ⟨encoded, hencoded, hsha⟩, hprinted⟩ := hprovenance.rows chunk hchunk
  refine ⟨file, kind, ⟨h.documentId, h.sourceDisplayName⟩, ⟨hsize, hdigest⟩, hkind, ?_, ?_, ?_, ?_⟩
  · rw [h.content]
    exact hrows.excerpt chunk hmem
  · rwa [h.content]
  · rw [h.content]
    exact ⟨encoded, hencoded, Option.some.inj (hsha.symm.trans h.contentSha256)⟩
  · rw [h.content, h.offsets.1, h.offsets.2]
    exact ⟨a, hstart, hend⟩

/-- Whatever the workers did before and whoever asks, the evidence of a retrieval quotes the files
that were uploaded. -/
theorem evidence_quotes_files (uuid5 : UUID → Str → UUID) {registry : DocumentParserRegistry}
    (hregistry : createDefaultParserRegistry readerFactory = .ok registry) {fresh : Database}
    (hfresh : FreshDatabase fresh) {as : List WorkerAction} {s : WorkerState}
    (hallowed : (workers sha256 uuid5).Allowed (ParsesWith registry.parse) (.init fresh) as)
    (hrun : (workers sha256 uuid5).run (.init fresh) as = some s) {collaborators : Collaborators ρ}
    {txns : Transactions} (hfinal : ∀ db, txns.final.sees 1 = some db → SameContent db s.db)
    {proof : SessionAuthenticationProof} {knowledgeBaseId : UUID} {payload : Payload}
    {result : HybridRetrievalResult} {items : List RetrievedEvidence}
    (hretrieve : postgresRetrieve collaborators txns proof knowledgeBaseId payload = .ok result)
    (hproject : projectRetrievedEvidence result = .ok items) :
    ∀ item ∈ items, ∃ d ∈ s.db.documents, ∃ file kind, Quotes sha256 readerFactory d file kind item := by
  obtain ⟨db, hsees, hshown⟩ := postgresRetrieve_shown hretrieve hproject
  have hsame := hfinal db hsees
  have hprovenance := (workers_provenance hregistry hfresh hallowed hrun).congr hsame
  cases hshown with
  | evidence hitems =>
    intro item hitem
    obtain ⟨chunk, hchunk, d, hd, hevidence, _⟩ := hitems item hitem
    exact ⟨d, hsame.1 ▸ hd, hevidence.quotes hprovenance hchunk hd⟩

/-- The database that the overtaken run ends in, with a session of its user. -/
def ingestedDatabase (s : WorkerState) : Database :=
  { s.db with userSessions := readerDatabase.userSessions }

/-- What the session's user is shown of it. -/
def ingestedEvidence (s : WorkerState) : Except RetrievalException (List RetrievedEvidence) := do
  let result ← postgresRetrieve exampleCollaborators
    (.reading exampleClock exampleClock exampleClock (ingestedDatabase s)) exampleProof 3 Retrieval.examplePayload
  projectRetrievedEvidence result

theorem evidence_quotes_files_overtaken : ∃ s,
    (workers exampleSha256 exampleUuid5).run (.init exampleDatabase) overtakenActions = some s ∧
      ∃ items, ingestedEvidence s = .ok items ∧ items.map RetrievedEvidence.content = [str "a"] ∧
        ∀ item ∈ items, ∃ d ∈ s.db.documents, ∃ file kind,
          Quotes exampleSha256 (fun _ => .error .other) d file kind item := by
  obtain ⟨registry, hregistry, _⟩ := createDefaultParserRegistry_ok fun _ => .error .other
  have hany : ((workers exampleSha256 exampleUuid5).run (.init exampleDatabase) overtakenActions).any
      (fun s => (ingestedEvidence s).toOption.any fun items =>
        items.map RetrievedEvidence.content = [str "a"]) = true := by decide +kernel
  have hallowed : (workers exampleSha256 exampleUuid5).Allowed
      (fun s a => parsesLetter s a = true) (.init exampleDatabase) overtakenActions := by decide +kernel
  obtain ⟨s, hrun, hitems⟩ := (Option.any_eq_true _ _).mp hany
  obtain ⟨items, hitems, hcontent⟩ := (Option.any_eq_true _ _).mp hitems
  have hevidence := toOption_eq_some.mp hitems
  obtain ⟨result, hretrieve, hproject⟩ := bind_eq_ok.mp hevidence
  refine ⟨s, hrun, items, hevidence, of_decide_eq_true hcontent, ?_⟩
  refine evidence_quotes_files exampleUuid5 hregistry exampleDatabase_fresh
    (hallowed.mono fun _ _ => parsesWith_of_parsesLetter hregistry) hrun ?_ hretrieve hproject
  rintro _ ⟨⟩
  exact ⟨rfl, rfl⟩

end Evidence
end AgenticRag.Api

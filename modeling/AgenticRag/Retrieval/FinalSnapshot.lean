import AgenticRag.Retrieval.Composition

/-! What a retrieval returns is what the final transaction's snapshot holds and
what the reader may read there. -/
namespace AgenticRag.Retrieval
open Lib Python Db

/-- The session of the proof is usable at `now`, and its user may read the target. -/
structure Authorized (proof : SessionAuthenticationProof) (knowledgeBaseId : UUID) (now : Time)
    (db : Database) : Prop where
  session : ∃ session ∈ db.userSessions, session.id = proof.principal.sessionId ∧
    session.userId = proof.principal.userId ∧ session.tokenSha256 = proof.sessionTokenSha256 ∧
    session.revokedAt = none ∧ now < session.expiresAt
  user : ∃ user ∈ db.users, user.id = proof.principal.userId ∧ user.isActive = true
  membership : ∃ membership ∈ db.memberships, membership.knowledgeBaseId = knowledgeBaseId ∧
    membership.userId = proof.principal.userId ∧
    (membership.role = .owner ∨ membership.role = .editor ∨ membership.role = .viewer)

/-- The record is the snapshot's row of a chunk of a completed document of the target. -/
def Authoritative (db : Database) (knowledgeBaseId : UUID)
    (record : InternalAuthoritativeRetrievalRecord) : Prop :=
  ∃ chunk ∈ db.documentChunks, ∃ document ∈ db.documents, ∃ contentSha256,
    document.id = chunk.documentId ∧ document.knowledgeBaseId = knowledgeBaseId ∧
    document.status = .completed ∧ chunk.contentSha256 = some contentSha256 ∧
    matchesSha256 contentSha256 = true ∧
    record = {
      trusted := {
        knowledgeBaseId := knowledgeBaseId
        documentId := document.id
        chunkId := chunk.id
        contentSha256 := contentSha256
        sourceDisplayName := document.originalFilename
        pageStart := chunk.pageStart
        pageEnd := chunk.pageEnd
        characterStart := chunk.startOffset
        characterEnd := chunk.endOffset }
      documentContent := { text := chunk.normalizedText } }

theorem mem_authenticationRows {proof : SessionAuthenticationProof} {now : Time} {db : Database}
    {session : UserSession} {user : User} :
    (session, user) ∈ authenticationRows proof now db ↔
      session ∈ db.userSessions ∧ user ∈ db.users ∧ user.id = session.userId ∧
        session.id = proof.principal.sessionId ∧ session.userId = proof.principal.userId ∧
        session.tokenSha256 = proof.sessionTokenSha256 ∧ session.revokedAt = none ∧
        now < session.expiresAt ∧ user.isActive = true := by
  simp only [authenticationRows, List.mem_filter, mem_join, beq_iff_eq, Bool.and_eq_true,
    Option.isNone_iff_eq_none, decide_eq_true_eq, Table.mem_rows]
  tauto

theorem mem_targetRows {knowledgeBaseId userId : UUID} {db : Database} {knowledgeBase : KnowledgeBase}
    {membership : KnowledgeBaseMembership} :
    (knowledgeBase, membership) ∈ targetRows knowledgeBaseId db userId ↔
      knowledgeBase ∈ db.knowledgeBases ∧ membership ∈ db.memberships ∧
        membership.knowledgeBaseId = knowledgeBase.id ∧ knowledgeBase.id = knowledgeBaseId ∧
        membership.userId = userId ∧ membership.role ∈ readRoles := by
  simp only [targetRows, List.mem_filter, mem_join, beq_iff_eq, Bool.and_eq_true,
    decide_eq_true_eq, Table.mem_rows]
  tauto

theorem mem_candidateJoin {db : Database} {chunk : DocumentChunk} {document : Document}
    {knowledgeBase : KnowledgeBase} :
    ((chunk, document), knowledgeBase) ∈ candidateJoin db ↔
      chunk ∈ db.documentChunks ∧ document ∈ db.documents ∧ knowledgeBase ∈ db.knowledgeBases ∧
        document.id = chunk.documentId ∧ knowledgeBase.id = document.knowledgeBaseId := by
  simp only [candidateJoin, mem_join, beq_iff_eq, Table.mem_rows]
  tauto

theorem authorized_of_rows {proof : SessionAuthenticationProof} {knowledgeBaseId : UUID} {now : Time}
    {db : Database} (hauth : (authenticationRows proof now db).isEmpty = false)
    (htarget : (targetRows knowledgeBaseId db proof.principal.userId).isEmpty = false) :
    Authorized proof knowledgeBaseId now db := by
  obtain ⟨⟨session, user⟩, hauth⟩ := List.exists_mem_of_ne_nil _ (by simpa using hauth)
  obtain ⟨⟨knowledgeBase, membership⟩, htarget⟩ := List.exists_mem_of_ne_nil _ (by simpa using htarget)
  obtain ⟨hs, hu, hjoin, hid, huser, htoken, hrevoked, hexpires, hactive⟩ :=
    mem_authenticationRows.mp hauth
  obtain ⟨_, hm, hkb, hid', huser', hrole⟩ := mem_targetRows.mp htarget
  refine ⟨⟨session, hs, hid, huser, htoken, hrevoked, hexpires⟩,
    ⟨user, hu, hjoin.trans huser, hactive⟩, ⟨membership, hm, hkb.trans hid', huser', ?_⟩⟩
  simpa [readRoles] using hrole

theorem authoritative_of_row {db : Database} {knowledgeBaseId : UUID} {batch : CandidateBatch}
    {row : FinalCandidateRow} (h : row ∈ finalCandidateStatement knowledgeBaseId db batch) :
    Authoritative db knowledgeBaseId (recordFromRow row) ∧ row.chunkId ∈ batch := by
  obtain ⟨⟨⟨chunk, document⟩, knowledgeBase⟩, hrow, hsome⟩ := List.mem_filterMap.mp h
  obtain ⟨hjoin, hcond⟩ := List.mem_filter.mp hrow
  obtain ⟨hc, hd, _, hdoc, hkb⟩ := mem_candidateJoin.mp hjoin
  simp only [Bool.and_eq_true, beq_iff_eq, decide_eq_true_eq] at hcond
  obtain ⟨⟨hid, hbatch⟩, hstatus⟩ := hcond
  dsimp only [finalCandidateRow] at hsome
  split at hsome
  · cases hsome
  rename_i contentSha256 hsha
  split at hsome
  · rename_i hmatch
    obtain rfl := Option.some.inj hsome
    refine ⟨⟨chunk, hc, document, hd, contentSha256, hdoc, hkb.symm.trans hid, hstatus, hsha, hmatch,
      ?_⟩, hbatch⟩
    rw [recordFromRow, hid]
  · cases hsome

/-- Every record of the dictionary is authoritative in `db` and stored under its chunk. -/
def LoadedFrom (db : Database) (knowledgeBaseId : UUID) (loaded : LoadedRecords) : Prop :=
  ∀ chunkId record, (chunkId, record) ∈ loaded.items →
    Authoritative db knowledgeBaseId record ∧ record.trusted.chunkId = chunkId

theorem loadedFrom_foldl {db : Database} {knowledgeBaseId : UUID} {rows : List FinalCandidateRow}
    {loaded : LoadedRecords} (hrows : ∀ row ∈ rows, Authoritative db knowledgeBaseId (recordFromRow row))
    (h : LoadedFrom db knowledgeBaseId loaded) :
    LoadedFrom db knowledgeBaseId (rows.foldl storeRow loaded) := by
  induction rows generalizing loaded with
  | nil => exact h
  | cons row rows ih =>
    refine ih (fun r hr => hrows r (List.mem_cons_of_mem _ hr)) ?_
    intro chunkId record hmem
    rcases Dict.mem_set.mp hmem with ⟨rfl, rfl⟩ | ⟨_, hmem⟩
    · exact ⟨hrows row List.mem_cons_self, rfl⟩
    · exact h chunkId record hmem

theorem execute_ok {txn : Transaction} {n : Nat} {db : Database} :
    txn.execute n = .ok db ↔ txn.sees n = some db := by
  unfold Transaction.execute
  cases txn.sees n <;> simp

/-- The snapshot in which a final transaction that returned was evaluated. -/
theorem loadInTransaction_ok {clock : ClockReading} {txn : FinalTransaction}
    {proof : SessionAuthenticationProof} {knowledgeBaseId : UUID} {batches : List CandidateBatch}
    {loaded : LoadedRecords} (h : loadInTransaction clock txn proof knowledgeBaseId batches = .ok loaded) :
    ∃ db, txn.sees 1 = some db ∧ txn.isolation = "repeatable read" ∧
      Authorized proof knowledgeBaseId clock.instant db ∧ LoadedFrom db knowledgeBaseId loaded := by
  obtain ⟨_, _, h⟩ := bind_eq_ok.mp h
  obtain ⟨finalNow, hnow, h⟩ := bind_eq_ok.mp h
  obtain ⟨db, hdb, h⟩ := bind_eq_ok.mp h
  have hclock : clock.instant = finalNow := by
    unfold ClockReading.finalNow at hnow
    split at hnow
    · cases hnow
    · exact Except.ok.inj hnow
  rw [hclock]
  dsimp only [finalAuthorizationStatement] at h
  split at h
  · cases h
  rename_i hisolation
  split at h
  · cases h
  split at h
  · cases h
  rename_i hauth
  split at h
  · cases h
  rename_i htarget
  obtain ⟨loaded', hloop, h⟩ := bind_eq_ok.mp h
  obtain ⟨_, _, h⟩ := bind_eq_ok.mp h
  obtain rfl := Except.ok.inj h
  have hsees := execute_ok.mp hdb
  refine ⟨db, hsees, not_not.mp hisolation, authorized_of_rows (by simpa using hauth)
    (by simpa using htarget), ?_⟩
  refine foldlM_invariant (I := LoadedFrom db knowledgeBaseId) ?_
    (fun _ _ h => (List.not_mem_nil h).elim) hloop
  intro loaded batch loaded' _ hI hstep
  obtain ⟨db', hdb', hstep⟩ := bind_eq_ok.mp hstep
  obtain rfl := Except.ok.inj hstep
  -- The level repeatable read fixes the state that the batch's statement sees.
  obtain rfl := txn.repeatable (not_not.mp hisolation) _ _ _ _ (execute_ok.mp hdb') hsees
  exact loadedFrom_foldl (fun row hrow => (authoritative_of_row hrow).1) hI

theorem loadAuthoritativeRecords_ok {clock : ClockReading} {txn : FinalTransaction}
    {proof : SessionAuthenticationProof} {knowledgeBaseId : UUID} {batches : List CandidateBatch}
    {records : List InternalAuthoritativeRetrievalRecord}
    (h : loadAuthoritativeRecords clock txn proof knowledgeBaseId batches = .ok records) :
    ∃ db, txn.sees 1 = some db ∧ txn.isolation = "repeatable read" ∧
      Authorized proof knowledgeBaseId clock.instant db ∧
      ∀ record ∈ records, Authoritative db knowledgeBaseId record := by
  obtain ⟨_, _, h⟩ := bind_eq_ok.mp h
  obtain ⟨loaded, hloaded, h⟩ := bind_eq_ok.mp h
  obtain rfl := Except.ok.inj h
  obtain ⟨db, hdb, hisolation, hauth, hfrom⟩ := loadInTransaction_ok (rescue_eq_ok.mp hloaded)
  refine ⟨db, hdb, hisolation, hauth, ?_⟩
  intro record hrecord
  obtain ⟨chunkId, _, hget⟩ := List.mem_filterMap.mp hrecord
  exact (hfrom chunkId record (Dict.get?_eq_some.mp hget)).1

theorem byChunk_from {keywordRanks denseRanks : Ranks}
    {records : List InternalAuthoritativeRetrievalRecord}
    {byChunk : Dict UUID InternalAuthoritativeRetrievalRecord}
    (h : records.foldlM (byChunkStep keywordRanks denseRanks) Dict.empty = .ok byChunk) :
    ∀ p ∈ byChunk.items, p.2 ∈ records := by
  refine foldlM_invariant (I := fun d : Dict UUID InternalAuthoritativeRetrievalRecord =>
    ∀ p ∈ d.items, p.2 ∈ records) ?_ (fun _ h => (List.not_mem_nil h).elim) h
  intro d record d' hrecord hI hstep
  unfold byChunkStep at hstep
  dsimp only at hstep
  split at hstep
  · cases hstep
  · obtain rfl := Except.ok.inj hstep
    rintro ⟨k, v⟩ hp
    rcases Dict.mem_set.mp hp with ⟨_, rfl⟩ | ⟨_, hp⟩
    · exact hrecord
    · exact hI _ hp

theorem scoreRecord_record {keywordRanks denseRanks : Ranks}
    {item : UUID × InternalAuthoritativeRetrievalRecord} {scored : ScoredRecord}
    (h : scoreRecord keywordRanks denseRanks item = .ok scored) : scored.record = item.2 := by
  obtain ⟨_, _, h⟩ := bind_eq_ok.mp h
  obtain rfl := Except.ok.inj h
  rfl

/-- Fusion invents no record. -/
theorem fused_mem {records : List InternalAuthoritativeRetrievalRecord} {keywordRanks denseRanks : Ranks}
    {requestedCount : Nat} {fused : List FusedInternalAuthoritativeRetrievalRecord}
    (h : fuseAuthoritativeRecords records keywordRanks denseRanks requestedCount = .ok fused) :
    ∀ record ∈ fused, record.authoritative ∈ records := by
  unfold fuseAuthoritativeRecords at h
  split at h
  · obtain ⟨byChunk, hchunk, h⟩ := bind_eq_ok.mp h
    obtain ⟨scored, hscored, h⟩ := bind_eq_ok.mp h
    obtain rfl := Except.ok.inj h
    intro record hrecord
    obtain ⟨⟨item, rank⟩, hitem, rfl⟩ := List.mem_map.mp hrecord
    have hmem := mem_orderBy.mp (List.mem_of_mem_take (List.fst_mem_of_mem_zipIdx hitem))
    obtain ⟨source, hsource, hscore⟩ := exists_of_forall₂ (mapM_eq_ok.mp hscored) hmem
    rw [fusedRecord, scoreRecord_record hscore]
    exact byChunk_from hchunk source hsource
  · cases h

/-- The state that the statements of the final transaction see. -/
structure FinalSnapshot (txn : FinalTransaction) (db : Database) : Prop where
  isolation : txn.isolation = "repeatable read"
  authorization : txn.sees 1 = some db
  fixed : ∀ n d, txn.sees n = some d → d = db

variable {ρ : Type} [LinearOrder ρ]

theorem postgresRetrieve_ok {collaborators : Collaborators ρ} {txns : Transactions}
    {proof : SessionAuthenticationProof} {knowledgeBaseId : UUID} {payload : Payload}
    {result : HybridRetrievalResult}
    (h : postgresRetrieve collaborators txns proof knowledgeBaseId payload = .ok result) :
    ∃ db, FinalSnapshot txns.final db ∧
      Authorized proof knowledgeBaseId txns.finalClock.instant db ∧
      ∀ record ∈ result.records, Authoritative db knowledgeBaseId record.authoritative := by
  obtain ⟨r⟩ := HybridRetrievalService.returned _ _ _ h
  obtain ⟨db, hdb, hisolation, hauth, hrecords⟩ := loadAuthoritativeRecords_ok r.loader_ok
  refine ⟨db, ⟨hisolation, hdb, fun n d hd => txns.final.repeatable hisolation _ _ _ _ hd hdb⟩,
    hauth, ?_⟩
  intro record hrecord
  exact hrecords _ (fused_mem r.fused_ok record hrecord)

/-- A retrieval that returns is authorized in the final snapshot, and each of its
records is a row of that snapshot. Each statement may see any state, so any commits
by others may fall between two of them. -/
theorem final_snapshot_linearization (collaborators : Collaborators ρ) (txns : Transactions)
    (proof : SessionAuthenticationProof) (knowledgeBaseId : UUID) (payload : Payload) :
    (∀ result, postgresRetrieve collaborators txns proof knowledgeBaseId payload = .ok result →
      ∃ db, FinalSnapshot txns.final db ∧
        Authorized proof knowledgeBaseId txns.finalClock.instant db ∧
        ∀ record ∈ result.records, Authoritative db knowledgeBaseId record.authoritative) ∧
    ∀ db, FinalSnapshot txns.final db →
      ¬Authorized proof knowledgeBaseId txns.finalClock.instant db →
      ∀ result, postgresRetrieve collaborators txns proof knowledgeBaseId payload ≠ .ok result := by
  refine ⟨fun _ => postgresRetrieve_ok, ?_⟩
  intro db hdb hnot result h
  obtain ⟨db', hdb', hauth, _⟩ := postgresRetrieve_ok h
  exact hnot (hdb.fixed 1 db' hdb'.authorization ▸ hauth)

theorem final_snapshot_linearization_example :
    ∃ result db, postgresRetrieve exampleCollaborators
        (.reading exampleClock exampleClock exampleClock readerDatabase) exampleProof 3
        examplePayload = .ok result ∧
      Authorized exampleProof 3 10 db ∧
      ∀ record ∈ result.records, Authoritative db 3 record.authoritative := by
  have hsome : (postgresRetrieve exampleCollaborators
      (.reading exampleClock exampleClock exampleClock readerDatabase) exampleProof 3
      examplePayload).toOption.isSome := by decide +kernel
  obtain ⟨result, hresult⟩ := Option.isSome_iff_exists.mp hsome
  have hrun := toOption_eq_some.mp hresult
  obtain ⟨db, _, hauth, hrecords⟩ := (final_snapshot_linearization exampleCollaborators
    (.reading exampleClock exampleClock exampleClock readerDatabase) exampleProof 3
    examplePayload).1 result hrun
  exact ⟨result, db, hrun, hauth, hrecords⟩

end AgenticRag.Retrieval

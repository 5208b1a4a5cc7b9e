import AgenticRag.Retrieval.FinalSnapshot

/-! The canonical batches of the final validation are a normal form of the set of candidates,
and what is loaded for them does not depend on the order in which a query returns its rows. -/
namespace AgenticRag.Retrieval
open Lib Python Db

section Batches

/-- The candidates once each, ascending, in slices of which only the last may be short. -/
structure CanonicalBatches (candidateIds : List UUID) (batches : List CandidateBatch) : Prop where
  ascending : batches.flatten.Pairwise (· < ·)
  exact : ∀ a, a ∈ batches.flatten ↔ a ∈ candidateIds
  nonempty : ∀ batch ∈ batches, batch ≠ []
  full : ∀ i batch, batches[i]? = some batch → i + 1 < batches.length →
    batch.length = finalValidationBatchSize
  bounded : ∀ batch ∈ batches, batch.length ≤ finalValidationBatchSize

theorem canonicalCandidateBatches_canonical {candidateIds : List UUID} {batches : List CandidateBatch}
    (h : canonicalCandidateBatches candidateIds = .ok batches) :
    CanonicalBatches candidateIds batches := by
  obtain ⟨hascending, hexact⟩ := canonicalCandidateBatches_flatten h
  have hbounded := (canonicalCandidateBatches_ok h).2.2
  unfold canonicalCandidateBatches at h
  dsimp only at h
  split at h
  · cases h
  · obtain rfl := Except.ok.inj h
    exact ⟨hascending, hexact, fun _ => ne_nil_of_mem_slices,
      fun _ _ => length_of_getElem?_slices, hbounded⟩

theorem canonicalCandidateBatches_returns {candidateIds : List UUID}
    (h : candidateIds.dedup.length ≤ maxFinalCandidates) :
    ∃ batches, canonicalCandidateBatches candidateIds = .ok batches := by
  refine ⟨_, if_neg ?_⟩
  rw [(orderBy_perm candidateIds.dedup).length_eq]
  exact not_lt.mpr h

/-- Canonical batches are their own normal form. -/
theorem canonicalCandidateBatches_again {candidateIds : List UUID} {batches : List CandidateBatch}
    (h : canonicalCandidateBatches candidateIds = .ok batches) :
    canonicalCandidateBatches batches.flatten = .ok batches := by
  rw [canonicalCandidateBatches_congr (canonicalCandidateBatches_flatten h).2, h]

theorem assertCanonicalBatches_again {candidateIds : List UUID} {batches : List CandidateBatch}
    (h : canonicalCandidateBatches candidateIds = .ok batches) :
    assertCanonicalBatches batches = .ok () := by
  rw [assertCanonicalBatches, canonicalCandidateBatches_again h]
  exact if_neg (not_not.mpr rfl)

end Batches

section Rows

/-- The order in which each statement returns its rows; no `ORDER BY` fixes it. -/
structure RowOrder where
  arrange : Nat → List FinalCandidateRow → List FinalCandidateRow
  perm : ∀ statement rows, (arrange statement rows).Perm rows

/-- The order of the tables. -/
def RowOrder.table : RowOrder := ⟨fun _ rows => rows, fun _ _ => .rfl⟩

variable (order : RowOrder)

/-- `loadBatch`, whose rows come in the given order. -/
def loadBatchIn (txn : Transaction) (knowledgeBaseId : UUID) (loaded : LoadedRecords)
    (batch : CandidateBatch × Nat) : Except RetrievalException LoadedRecords := do
  let db ← txn.execute batch.2
  return (order.arrange batch.2 (finalCandidateStatement knowledgeBaseId db batch.1)).foldl storeRow loaded

/-- `loadInTransaction`, whose rows come in the given order. -/
def loadInTransactionIn (clock : ClockReading) (txn : FinalTransaction)
    (proof : SessionAuthenticationProof) (knowledgeBaseId : UUID)
    (candidateBatches : List CandidateBatch) : Except RetrievalException LoadedRecords := do
  let _ ← txn.execute 0
  let finalNow ← clock.finalNow
  let db ← txn.execute 1
  let authorization := finalAuthorizationStatement proof knowledgeBaseId finalNow db txn.isolation
    txn.readOnly
  if authorization.transactionIsolation ≠ "repeatable read" then .error .unavailable
  else if authorization.transactionReadOnly ≠ "on" then .error .unavailable
  else if !authorization.authenticationValid then .error .authentication
  else if !authorization.targetAccessible then .error .targetNotFound
  else do
    let loaded ← (candidateBatches.zipIdx 2).foldlM (loadBatchIn order txn.toTransaction knowledgeBaseId)
      Dict.empty
    txn.commit
    return loaded

/-- `load_authoritative_records`, whose rows come in the given order. -/
def loadAuthoritativeRecordsIn (clock : ClockReading) (txn : FinalTransaction)
    (proof : SessionAuthenticationProof) (knowledgeBaseId : UUID)
    (candidateBatches : List CandidateBatch) :
    Except RetrievalException (List InternalAuthoritativeRetrievalRecord) := do
  assertCanonicalBatches candidateBatches
  let loaded ← rescue isSqlAlchemyError .unavailable
    (loadInTransactionIn order clock txn proof knowledgeBaseId candidateBatches)
  return candidateBatches.flatten.filterMap loaded.get?

theorem loadAuthoritativeRecordsIn_table : loadAuthoritativeRecordsIn .table = loadAuthoritativeRecords :=
  rfl

end Rows

section Eligible
variable {db : Database} {knowledgeBaseId : UUID}

/-- A chunk has one authoritative record. -/
theorem Authoritative.unique {record record' : InternalAuthoritativeRetrievalRecord}
    (h : Authoritative db knowledgeBaseId record) (h' : Authoritative db knowledgeBaseId record')
    (hid : record.trusted.chunkId = record'.trusted.chunkId) : record = record' := by
  obtain ⟨chunk, hc, document, hd, sha, hdoc, _, _, hsha, _, rfl⟩ := h
  obtain ⟨chunk', hc', document', hd', sha', hdoc', _, _, hsha', _, rfl⟩ := h'
  obtain rfl := Table.eq_of_key_eq hc hc' hid
  obtain rfl := Table.eq_of_key_eq hd hd' (hdoc.trans hdoc'.symm)
  obtain rfl := Option.some.inj (hsha.symm.trans hsha')
  rfl

/-- The rows for a batch are the authoritative records of its candidates. -/
theorem exists_row_iff (hkb : ∃ knowledgeBase ∈ db.knowledgeBases, knowledgeBase.id = knowledgeBaseId)
    {batch : CandidateBatch} {record : InternalAuthoritativeRetrievalRecord} :
    (∃ row ∈ finalCandidateStatement knowledgeBaseId db batch, recordFromRow row = record) ↔
      Authoritative db knowledgeBaseId record ∧ record.trusted.chunkId ∈ batch := by
  constructor
  · rintro ⟨row, hrow, rfl⟩
    exact authoritative_of_row hrow
  · rintro ⟨⟨chunk, hc, document, hd, sha, hdoc, hkbid, hstatus, hsha, hmatch, rfl⟩, hbatch⟩
    obtain ⟨knowledgeBase, hknowledge, rfl⟩ := hkb
    have hjoin : ((chunk, document), knowledgeBase) ∈ candidateJoin db :=
      mem_candidateJoin.mpr ⟨hc, hd, hknowledge, hdoc, hkbid.symm⟩
    have hsome : (finalCandidateRow chunk document knowledgeBase).isSome = true := by
      simp only [finalCandidateRow, hsha, hmatch, if_true, Option.isSome_some]
    obtain ⟨row, hrow⟩ := Option.isSome_iff_exists.mp hsome
    refine ⟨row, List.mem_filterMap.mpr ⟨_, List.mem_filter.mpr ⟨hjoin, ?_⟩, hrow⟩, ?_⟩
    · simp only [beq_self_eq_true, Bool.true_and, Bool.and_eq_true, decide_eq_true_eq]
      exact ⟨hbatch, hstatus⟩
    · simp only [finalCandidateRow, hsha, hmatch, if_true, Option.some_inj] at hrow
      rw [← hrow]
      rfl

/-- The dictionary holds the authoritative records of the candidates, each under its chunk. -/
def HoldsRecords (db : Database) (knowledgeBaseId : UUID) (candidateIds : List UUID)
    (loaded : LoadedRecords) : Prop :=
  ∀ chunkId record, (chunkId, record) ∈ loaded.items ↔
    Authoritative db knowledgeBaseId record ∧ record.trusted.chunkId = chunkId ∧ chunkId ∈ candidateIds

theorem holdsRecords_empty (db : Database) (knowledgeBaseId : UUID) :
    HoldsRecords db knowledgeBaseId [] Dict.empty := by
  intro chunkId record
  constructor
  · intro h
    cases h
  · rintro ⟨_, _, h⟩
    cases h

/-- One row of an authoritative record. -/
private theorem mem_storeRow {loaded : LoadedRecords} {row : FinalCandidateRow}
    (hrow : Authoritative db knowledgeBaseId (recordFromRow row))
    (hloaded : ∀ chunkId record, (chunkId, record) ∈ loaded.items →
      Authoritative db knowledgeBaseId record ∧ record.trusted.chunkId = chunkId)
    {chunkId : UUID} {record : InternalAuthoritativeRetrievalRecord} :
    (chunkId, record) ∈ (storeRow loaded row).items ↔
      (row.chunkId = chunkId ∧ recordFromRow row = record) ∨ (chunkId, record) ∈ loaded.items := by
  rw [storeRow, Dict.mem_set]
  constructor
  · rintro (⟨rfl, rfl⟩ | ⟨_, h⟩)
    · exact .inl ⟨rfl, rfl⟩
    · exact .inr h
  · rintro (⟨rfl, rfl⟩ | h)
    · exact .inl ⟨rfl, rfl⟩
    · by_cases hid : chunkId = row.chunkId
      · obtain ⟨hauthoritative, hchunk⟩ := hloaded chunkId record h
        exact .inl ⟨hid, hauthoritative.unique hrow (hchunk.trans hid)⟩
      · exact .inr ⟨hid, h⟩

/-- The rows of a batch, in any order. -/
private theorem mem_storeRows {rows : List FinalCandidateRow}
    (hrows : ∀ row ∈ rows, Authoritative db knowledgeBaseId (recordFromRow row))
    {loaded : LoadedRecords}
    (hloaded : ∀ chunkId record, (chunkId, record) ∈ loaded.items →
      Authoritative db knowledgeBaseId record ∧ record.trusted.chunkId = chunkId)
    {chunkId : UUID} {record : InternalAuthoritativeRetrievalRecord} :
    (chunkId, record) ∈ (rows.foldl storeRow loaded).items ↔
      (∃ row ∈ rows, row.chunkId = chunkId ∧ recordFromRow row = record) ∨
        (chunkId, record) ∈ loaded.items := by
  induction rows generalizing loaded with
  | nil => simp
  | cons row rows ih =>
    obtain ⟨hrow, hrows⟩ := List.forall_mem_cons.mp hrows
    have hstored : ∀ chunkId record, (chunkId, record) ∈ (storeRow loaded row).items →
        Authoritative db knowledgeBaseId record ∧ record.trusted.chunkId = chunkId := by
      intro chunkId record h
      rcases (mem_storeRow hrow hloaded).mp h with ⟨rfl, rfl⟩ | h
      · exact ⟨hrow, rfl⟩
      · exact hloaded chunkId record h
    rw [List.foldl_cons, ih hrows hstored, mem_storeRow hrow hloaded, List.exists_mem_cons_iff, or_assoc]
    exact or_left_comm

/-- One batch adds the records of its candidates. -/
theorem HoldsRecords.batch
    (hkb : ∃ knowledgeBase ∈ db.knowledgeBases, knowledgeBase.id = knowledgeBaseId)
    {candidateIds : List UUID} {loaded : LoadedRecords}
    (h : HoldsRecords db knowledgeBaseId candidateIds loaded) {batch : CandidateBatch}
    {rows : List FinalCandidateRow} (hrows : rows.Perm (finalCandidateStatement knowledgeBaseId db batch)) :
    HoldsRecords db knowledgeBaseId (candidateIds ++ batch) (rows.foldl storeRow loaded) := by
  have hauthoritative : ∀ row ∈ rows, Authoritative db knowledgeBaseId (recordFromRow row) :=
    fun row hrow => (authoritative_of_row (hrows.mem_iff.mp hrow)).1
  have hloaded : ∀ chunkId record, (chunkId, record) ∈ loaded.items →
      Authoritative db knowledgeBaseId record ∧ record.trusted.chunkId = chunkId := by
    intro chunkId record hmem
    obtain ⟨hrecord, hid, _⟩ := (h chunkId record).mp hmem
    exact ⟨hrecord, hid⟩
  intro chunkId record
  have hstatement : (∃ row ∈ rows, row.chunkId = chunkId ∧ recordFromRow row = record) ↔
      Authoritative db knowledgeBaseId record ∧ record.trusted.chunkId = chunkId ∧ chunkId ∈ batch := by
    constructor
    · rintro ⟨row, hrow, rfl, rfl⟩
      obtain ⟨hrecord, hbatch⟩ := authoritative_of_row (hrows.mem_iff.mp hrow)
      exact ⟨hrecord, rfl, hbatch⟩
    · rintro ⟨hrecord, rfl, hbatch⟩
      obtain ⟨row, hrow, rfl⟩ := (exists_row_iff hkb).mpr ⟨hrecord, hbatch⟩
      exact ⟨row, hrows.mem_iff.mpr hrow, rfl, rfl⟩
  rw [mem_storeRows hauthoritative hloaded, hstatement, h chunkId record, List.mem_append]
  tauto

/-- All batches of a transaction whose statements see one state. -/
theorem HoldsRecords.batches {order : RowOrder} {txn : Transaction}
    (hsees : ∀ n d, txn.sees n = some d → d = db)
    (hkb : ∃ knowledgeBase ∈ db.knowledgeBases, knowledgeBase.id = knowledgeBaseId)
    {candidateIds : List UUID} {loaded loaded' : LoadedRecords}
    (h : HoldsRecords db knowledgeBaseId candidateIds loaded) {batches : List CandidateBatch} {n : Nat}
    (hrun : (batches.zipIdx n).foldlM (loadBatchIn order txn knowledgeBaseId) loaded = .ok loaded') :
    HoldsRecords db knowledgeBaseId (candidateIds ++ batches.flatten) loaded' := by
  induction batches generalizing candidateIds loaded n with
  | nil =>
    obtain rfl := Except.ok.inj hrun
    rwa [List.flatten_nil, List.append_nil]
  | cons batch batches ih =>
    rw [List.zipIdx_cons, List.foldlM_cons] at hrun
    obtain ⟨next, hnext, hrun⟩ := bind_eq_ok.mp hrun
    obtain ⟨d, hd, hnext⟩ := bind_eq_ok.mp hnext
    obtain rfl := Except.ok.inj hnext
    obtain rfl := hsees n d (execute_ok.mp hd)
    have := ih (h.batch hkb (order.perm n _)) hrun
    rwa [List.append_assoc] at this

/-- The records that a loader returns for the candidates. -/
structure ExactRecords (db : Database) (knowledgeBaseId : UUID) (candidateIds : List UUID)
    (records : List InternalAuthoritativeRetrievalRecord) : Prop where
  ascending : records.Pairwise fun r s => r.trusted.chunkId < s.trusted.chunkId
  exact : ∀ record, record ∈ records ↔
    Authoritative db knowledgeBaseId record ∧ record.trusted.chunkId ∈ candidateIds

theorem HoldsRecords.exactRecords {candidateIds : List UUID} {loaded : LoadedRecords}
    (h : HoldsRecords db knowledgeBaseId candidateIds loaded) (hascending : candidateIds.Pairwise (· < ·)) :
    ExactRecords db knowledgeBaseId candidateIds (candidateIds.filterMap loaded.get?) where
  ascending := by
    rw [List.pairwise_filterMap]
    refine hascending.imp fun {a b} hab r hr s hs => ?_
    rw [((h a r).mp (Dict.get?_eq_some.mp hr)).2.1, ((h b s).mp (Dict.get?_eq_some.mp hs)).2.1]
    exact hab
  exact record := by
    rw [List.mem_filterMap]
    constructor
    · rintro ⟨chunkId, hmem, hget⟩
      obtain ⟨hrecord, rfl, _⟩ := (h chunkId record).mp (Dict.get?_eq_some.mp hget)
      exact ⟨hrecord, hmem⟩
    · rintro ⟨hrecord, hmem⟩
      exact ⟨_, hmem, Dict.get?_eq_some.mpr ((h _ record).mpr ⟨hrecord, rfl, hmem⟩)⟩

end Eligible

section Loading
variable {order : RowOrder} {clock : ClockReading} {txn : FinalTransaction}
  {proof : SessionAuthenticationProof} {knowledgeBaseId : UUID} {batches : List CandidateBatch}

/-- What the final transaction needs in order to return: the settings, statements that do not
fail, and access. -/
structure Granted (clock : ClockReading) (txn : FinalTransaction) (proof : SessionAuthenticationProof)
    (knowledgeBaseId : UUID) (statements : Nat) (db : Database) : Prop where
  utc : clock.utcOffset = some 0
  isolation : txn.isolation = "repeatable read"
  readOnly : txn.readOnly = "on"
  sees : ∀ n, n < statements → txn.sees n = some db
  commits : txn.commits = true
  authenticated : (authenticationRows proof clock.instant db).isEmpty = false
  accessible : (targetRows knowledgeBaseId db proof.principal.userId).isEmpty = false

theorem exists_knowledgeBase {db : Database} {userId : UUID}
    (h : (targetRows knowledgeBaseId db userId).isEmpty = false) :
    ∃ knowledgeBase ∈ db.knowledgeBases, knowledgeBase.id = knowledgeBaseId := by
  obtain ⟨⟨knowledgeBase, membership⟩, hrow⟩ := List.exists_mem_of_ne_nil _ (by simpa using h)
  obtain ⟨hmem, _, _, hid, _⟩ := mem_targetRows.mp hrow
  exact ⟨knowledgeBase, hmem, hid⟩

theorem loadInTransactionIn_ok {loaded : LoadedRecords}
    (h : loadInTransactionIn order clock txn proof knowledgeBaseId batches = .ok loaded) :
    ∃ db, FinalSnapshot txn db ∧ HoldsRecords db knowledgeBaseId batches.flatten loaded := by
  obtain ⟨_, _, h⟩ := bind_eq_ok.mp h
  obtain ⟨finalNow, _, h⟩ := bind_eq_ok.mp h
  obtain ⟨db, hdb, h⟩ := bind_eq_ok.mp h
  dsimp only [finalAuthorizationStatement] at h
  split at h
  · cases h
  rename_i hisolation
  split at h
  · cases h
  split at h
  · cases h
  split at h
  · cases h
  rename_i htarget
  obtain ⟨loaded', hloop, h⟩ := bind_eq_ok.mp h
  obtain ⟨_, _, h⟩ := bind_eq_ok.mp h
  obtain rfl := Except.ok.inj h
  have hsees := execute_ok.mp hdb
  have hfixed : ∀ n d, txn.sees n = some d → d = db :=
    fun n d hd => txn.repeatable (not_not.mp hisolation) _ _ _ _ hd hsees
  have hkb := exists_knowledgeBase (by simpa using htarget)
  exact ⟨db, ⟨not_not.mp hisolation, hsees, hfixed⟩,
    (holdsRecords_empty db knowledgeBaseId).batches hfixed hkb hloop⟩

theorem loadAuthoritativeRecordsIn_ok {candidateIds : List UUID}
    (hbatches : CanonicalBatches candidateIds batches)
    {records : List InternalAuthoritativeRetrievalRecord}
    (h : loadAuthoritativeRecordsIn order clock txn proof knowledgeBaseId batches = .ok records) :
    ∃ db, FinalSnapshot txn db ∧ ExactRecords db knowledgeBaseId candidateIds records := by
  obtain ⟨_, _, h⟩ := bind_eq_ok.mp h
  obtain ⟨loaded, hloaded, h⟩ := bind_eq_ok.mp h
  obtain rfl := Except.ok.inj h
  obtain ⟨db, hdb, hholds⟩ := loadInTransactionIn_ok (rescue_eq_ok.mp hloaded)
  have hrecords := hholds.exactRecords hbatches.ascending
  refine ⟨db, hdb, hrecords.ascending, fun record => ?_⟩
  rw [hrecords.exact, hbatches.exact]

private theorem loadBatches_returns {txn : Transaction} {db : Database} {loaded : LoadedRecords} {n : Nat}
    (hsees : ∀ m, m < n + batches.length → txn.sees m = some db) :
    ∃ loaded', (batches.zipIdx n).foldlM (loadBatchIn order txn knowledgeBaseId) loaded = .ok loaded' := by
  induction batches generalizing loaded n with
  | nil => exact ⟨loaded, rfl⟩
  | cons batch batches ih =>
    have hhead : txn.execute n = .ok db := execute_ok.mpr (hsees n (by simp))
    rw [List.zipIdx_cons, List.foldlM_cons, loadBatchIn, hhead]
    exact ih fun m hm => hsees m (by rw [List.length_cons]; omega)

theorem loadAuthoritativeRecordsIn_returns {db : Database} (hassert : assertCanonicalBatches batches = .ok ())
    (h : Granted clock txn proof knowledgeBaseId (batches.length + 2) db) :
    ∃ records, loadAuthoritativeRecordsIn order clock txn proof knowledgeBaseId batches = .ok records := by
  have hexecute : ∀ n, n < batches.length + 2 → txn.execute n = .ok db :=
    fun n hn => execute_ok.mpr (h.sees n hn)
  have hnow : clock.finalNow = .ok clock.instant := if_neg (not_not.mpr h.utc)
  have hloop : ∃ loaded, (batches.zipIdx 2).foldlM
      (loadBatchIn order txn.toTransaction knowledgeBaseId) Dict.empty = .ok loaded :=
    loadBatches_returns fun m hm => h.sees m (by omega)
  obtain ⟨loaded, hloaded⟩ := hloop
  have hrun : loadInTransactionIn order clock txn proof knowledgeBaseId batches = .ok loaded := by
    rw [loadInTransactionIn, hexecute 0 (by omega), hnow, hexecute 1 (by omega)]
    refine (if_neg (not_not.mpr h.isolation)).trans ?_
    refine (if_neg (not_not.mpr h.readOnly)).trans ?_
    refine (if_neg ?_).trans ((if_neg ?_).trans ?_)
    · simp [finalAuthorizationStatement, h.authenticated]
    · simp [finalAuthorizationStatement, h.accessible]
    · rw [hloaded, Transaction.commit, h.commits]
      rfl
  refine ⟨batches.flatten.filterMap loaded.get?, ?_⟩
  rw [loadAuthoritativeRecordsIn, hassert, hrun]
  rfl

/-- The batches of at most 192 candidates are a normal form that the loader accepts, and what
it loads for them is exactly the authoritative records of the snapshot, ascending, whatever the
order of the rows. -/
theorem canonical_candidate_batches {candidateIds : List UUID}
    (h : candidateIds.dedup.length ≤ maxFinalCandidates) :
    ∃ batches, canonicalCandidateBatches candidateIds = .ok batches ∧
      CanonicalBatches candidateIds batches ∧
      (∀ other, (∀ a, a ∈ other ↔ a ∈ candidateIds) → canonicalCandidateBatches other = .ok batches) ∧
      canonicalCandidateBatches batches.flatten = .ok batches ∧
      assertCanonicalBatches batches = .ok () ∧
      ∀ (order : RowOrder) (clock : ClockReading) (txn : FinalTransaction)
        (proof : SessionAuthenticationProof) (knowledgeBaseId : UUID),
        (∀ db, Granted clock txn proof knowledgeBaseId (batches.length + 2) db →
          ∃ records, loadAuthoritativeRecordsIn order clock txn proof knowledgeBaseId batches = .ok records) ∧
        ∀ records, loadAuthoritativeRecordsIn order clock txn proof knowledgeBaseId batches = .ok records →
          ∃ db, FinalSnapshot txn db ∧ ExactRecords db knowledgeBaseId candidateIds records := by
  obtain ⟨batches, hbatches⟩ := canonicalCandidateBatches_returns h
  have hcanonical := canonicalCandidateBatches_canonical hbatches
  have hassert := assertCanonicalBatches_again hbatches
  refine ⟨batches, hbatches, hcanonical, ?_, canonicalCandidateBatches_again hbatches, hassert, ?_⟩
  · intro other hother
    rw [canonicalCandidateBatches_congr hother, hbatches]
  · intro order clock txn proof knowledgeBaseId
    exact ⟨fun db => loadAuthoritativeRecordsIn_returns hassert,
      fun records => loadAuthoritativeRecordsIn_ok hcanonical⟩

/-- Sixty-five candidates, one of them given twice, make two batches. -/
def manyCandidates : List UUID := 7 :: (List.range 65).map fun n => Fin.ofNat _ n

/-- Each batch has one chunk of the document. -/
def twoChunkDatabase : Database :=
  { readerDatabase with documentChunks :=
      ⟨[⟨64, 4, 1, str "b", 1, some exampleDigest, some 1, some 2, none, none⟩,
        ⟨5, 4, 0, str "a", 1, some exampleDigest, some 0, some 1, none, none⟩], by decide⟩ }

theorem canonical_candidate_batches_example : ∃ batches records,
    canonicalCandidateBatches manyCandidates = .ok batches ∧ batches.length = 2 ∧
      CanonicalBatches manyCandidates batches ∧
      loadAuthoritativeRecordsIn .table exampleClock (.reading twoChunkDatabase) exampleProof 3 batches =
        .ok records ∧
      records.map (·.trusted.chunkId) = [5, 64] ∧
      ∃ db, FinalSnapshot (.reading twoChunkDatabase) db ∧ ExactRecords db 3 manyCandidates records := by
  have hlen : manyCandidates.dedup.length ≤ maxFinalCandidates := by decide +kernel
  have hany : (canonicalCandidateBatches manyCandidates).toOption.any (fun batches =>
      batches.length == 2 && (loadAuthoritativeRecordsIn .table exampleClock (.reading twoChunkDatabase)
        exampleProof 3 batches).toOption.any fun records =>
          decide (records.map (·.trusted.chunkId) = [5, 64])) := by decide +kernel
  obtain ⟨batches, hbatches, hcanonical, _, _, _, hload⟩ := canonical_candidate_batches hlen
  rw [hbatches] at hany
  obtain ⟨htwo, hany⟩ := Bool.and_eq_true_iff.mp hany
  have hgranted : Granted exampleClock (.reading twoChunkDatabase) exampleProof 3 (batches.length + 2)
      twoChunkDatabase :=
    ⟨rfl, rfl, rfl, fun _ _ => rfl, rfl, by decide, by decide⟩
  obtain ⟨hreturns, hexact⟩ := hload .table exampleClock (.reading twoChunkDatabase) exampleProof 3
  obtain ⟨records, hrecords⟩ := hreturns twoChunkDatabase hgranted
  rw [hrecords] at hany
  exact ⟨batches, records, hbatches, beq_iff_eq.mp htwo, hcanonical, hrecords, of_decide_eq_true hany,
    hexact records hrecords⟩

end Loading

end AgenticRag.Retrieval

import AgenticRag.Lib.TwoRuns
import AgenticRag.Retrieval.FinalSnapshot

/-! Two states that agree on what a proof may read in its target give one outcome. -/
namespace AgenticRag.Retrieval
open Lib Python Ingestion Db

/-- The states agree on the proof's session and user, the target, the user's membership
in it, and the documents and chunks of the target. -/
structure AgreeOn (proof : SessionAuthenticationProof) (knowledgeBaseId : UUID) (db db' : Database) :
    Prop where
  session : ∀ s : UserSession, s.id = proof.principal.sessionId →
    (s ∈ db.userSessions ↔ s ∈ db'.userSessions)
  user : ∀ u : User, u.id = proof.principal.userId → (u ∈ db.users ↔ u ∈ db'.users)
  knowledgeBase : ∀ k : KnowledgeBase, k.id = knowledgeBaseId →
    (k ∈ db.knowledgeBases ↔ k ∈ db'.knowledgeBases)
  membership : ∀ m : KnowledgeBaseMembership, m.knowledgeBaseId = knowledgeBaseId →
    m.userId = proof.principal.userId → (m ∈ db.memberships ↔ m ∈ db'.memberships)
  document : ∀ d : Document, d.knowledgeBaseId = knowledgeBaseId →
    (d ∈ db.documents ↔ d ∈ db'.documents)
  chunk : ∀ (c : DocumentChunk) (d : Document), d ∈ db.documents →
    d.knowledgeBaseId = knowledgeBaseId → c.documentId = d.id →
    (c ∈ db.documentChunks ↔ c ∈ db'.documentChunks)

section Statements
variable {proof : SessionAuthenticationProof} {knowledgeBaseId : UUID} {now : Time}
  {db db' : Database}

theorem AgreeOn.symm (h : AgreeOn proof knowledgeBaseId db db') :
    AgreeOn proof knowledgeBaseId db' db where
  session s hs := (h.session s hs).symm
  user u hu := (h.user u hu).symm
  knowledgeBase k hk := (h.knowledgeBase k hk).symm
  membership m hm hu := (h.membership m hm hu).symm
  document d hd := (h.document d hd).symm
  chunk c d hd hkb hc := (h.chunk c d ((h.document d hkb).mpr hd) hkb hc).symm

private theorem isEmpty_congr {α : Type} {xs ys : List α} (h : ∀ a, a ∈ xs ↔ a ∈ ys) :
    xs.isEmpty = ys.isEmpty := by
  rw [Bool.eq_iff_iff, List.isEmpty_iff, List.isEmpty_iff, List.eq_nil_iff_forall_not_mem,
    List.eq_nil_iff_forall_not_mem]
  exact forall_congr' fun a => not_congr (h a)

private theorem head?_const {α : Type} (xs : List α) :
    (xs.head?.map fun _ => true) = if xs.isEmpty then none else some true := by
  cases xs <;> rfl

theorem AgreeOn.authenticationRows_iff (h : AgreeOn proof knowledgeBaseId db db')
    (row : UserSession × User) :
    row ∈ authenticationRows proof now db ↔ row ∈ authenticationRows proof now db' := by
  obtain ⟨session, user⟩ := row
  rw [mem_authenticationRows, mem_authenticationRows]
  constructor
  · rintro ⟨hs, hu, hjoin, hid, huser, hrest⟩
    exact ⟨(h.session _ hid).mp hs, (h.user _ (hjoin.trans huser)).mp hu, hjoin, hid, huser, hrest⟩
  · rintro ⟨hs, hu, hjoin, hid, huser, hrest⟩
    exact ⟨(h.session _ hid).mpr hs, (h.user _ (hjoin.trans huser)).mpr hu, hjoin, hid, huser, hrest⟩

theorem AgreeOn.targetRows_iff (h : AgreeOn proof knowledgeBaseId db db')
    (row : KnowledgeBase × KnowledgeBaseMembership) :
    row ∈ targetRows knowledgeBaseId db proof.principal.userId ↔
      row ∈ targetRows knowledgeBaseId db' proof.principal.userId := by
  obtain ⟨knowledgeBase, membership⟩ := row
  rw [mem_targetRows, mem_targetRows]
  constructor
  · rintro ⟨hk, hm, hjoin, hid, huser, hrole⟩
    exact ⟨(h.knowledgeBase _ hid).mp hk, (h.membership _ (hjoin.trans hid) huser).mp hm, hjoin, hid,
      huser, hrole⟩
  · rintro ⟨hk, hm, hjoin, hid, huser, hrole⟩
    exact ⟨(h.knowledgeBase _ hid).mpr hk, (h.membership _ (hjoin.trans hid) huser).mpr hm, hjoin,
      hid, huser, hrole⟩

theorem AgreeOn.initialAuthenticationStatement_eq (h : AgreeOn proof knowledgeBaseId db db') :
    initialAuthenticationStatement proof now db = initialAuthenticationStatement proof now db' := by
  rw [initialAuthenticationStatement, initialAuthenticationStatement, head?_const, head?_const,
    isEmpty_congr h.authenticationRows_iff]

theorem AgreeOn.initialTargetStatement_eq (h : AgreeOn proof knowledgeBaseId db db') :
    initialTargetStatement knowledgeBaseId db proof.principal.userId =
      initialTargetStatement knowledgeBaseId db' proof.principal.userId := by
  rw [initialTargetStatement, initialTargetStatement, head?_const, head?_const,
    isEmpty_congr h.targetRows_iff]

theorem AgreeOn.finalAuthorizationStatement_eq (h : AgreeOn proof knowledgeBaseId db db')
    (isolation readOnly : String) :
    finalAuthorizationStatement proof knowledgeBaseId now db isolation readOnly =
      finalAuthorizationStatement proof knowledgeBaseId now db' isolation readOnly := by
  rw [finalAuthorizationStatement, finalAuthorizationStatement,
    isEmpty_congr h.authenticationRows_iff, isEmpty_congr h.targetRows_iff]

theorem mem_keywordJoin {chunk : DocumentChunk} {document : Document} {knowledgeBase : KnowledgeBase}
    {membership : KnowledgeBaseMembership} {user : User} {session : UserSession} :
    (((((chunk, document), knowledgeBase), membership), user), session) ∈ keywordJoin proof db ↔
      chunk ∈ db.documentChunks ∧ document ∈ db.documents ∧ knowledgeBase ∈ db.knowledgeBases ∧
        membership ∈ db.memberships ∧ user ∈ db.users ∧ session ∈ db.userSessions ∧
        document.id = chunk.documentId ∧ knowledgeBase.id = document.knowledgeBaseId ∧
        membership.knowledgeBaseId = knowledgeBase.id ∧
        membership.userId = proof.principal.userId ∧ user.id = membership.userId ∧
        session.userId = user.id ∧ session.id = proof.principal.sessionId := by
  simp only [keywordJoin, mem_join, beq_iff_eq, Bool.and_eq_true, Table.mem_rows]
  tauto

private theorem nodup_keywordJoin : (keywordJoin proof db).Nodup :=
  nodup_join (nodup_join (nodup_join (nodup_join (nodup_join db.documentChunks.nodup_rows
    db.documents.nodup_rows) db.knowledgeBases.nodup_rows) db.memberships.nodup_rows)
    db.users.nodup_rows) db.userSessions.nodup_rows

private theorem nodup_candidateJoin : (candidateJoin db).Nodup :=
  nodup_join (nodup_join db.documentChunks.nodup_rows db.documents.nodup_rows)
    db.knowledgeBases.nodup_rows

private theorem AgreeOn.keywordJoin_mp (h : AgreeOn proof knowledgeBaseId db db')
    {chunk : DocumentChunk} {document : Document} {knowledgeBase : KnowledgeBase}
    {membership : KnowledgeBaseMembership} {user : User} {session : UserSession}
    (hid : knowledgeBase.id = knowledgeBaseId)
    (hrow : (((((chunk, document), knowledgeBase), membership), user), session) ∈ keywordJoin proof db) :
    (((((chunk, document), knowledgeBase), membership), user), session) ∈ keywordJoin proof db' := by
  obtain ⟨hc, hd, hk, hm, hu, hs, hdoc, hkb, hmember, huser, hu', hs', hsid⟩ := mem_keywordJoin.mp hrow
  have hdkb : document.knowledgeBaseId = knowledgeBaseId := hkb.symm.trans hid
  exact mem_keywordJoin.mpr ⟨(h.chunk _ _ hd hdkb hdoc.symm).mp hc, (h.document _ hdkb).mp hd,
    (h.knowledgeBase _ hid).mp hk, (h.membership _ (hmember.trans hid) huser).mp hm,
    (h.user _ (hu'.trans huser)).mp hu, (h.session _ hsid).mp hs, hdoc, hkb, hmember, huser, hu', hs',
    hsid⟩

variable {ρ : Type} {search : TextSearch ρ} {normalizedQuery : Str}

theorem AgreeOn.eligible_perm (h : AgreeOn proof knowledgeBaseId db db') :
    (eligibleKeywordCandidates proof knowledgeBaseId now db search normalizedQuery).Perm
      (eligibleKeywordCandidates proof knowledgeBaseId now db' search normalizedQuery) := by
  refine (filter_perm nodup_keywordJoin nodup_keywordJoin ?_).map _
  rintro ⟨⟨⟨⟨⟨chunk, document⟩, knowledgeBase⟩, membership⟩, user⟩, session⟩ hcond
  have hid : knowledgeBase.id = knowledgeBaseId := by
    simp only [keywordCondition, Bool.and_eq_true, beq_iff_eq] at hcond
    tauto
  exact ⟨h.keywordJoin_mp hid, h.symm.keywordJoin_mp hid⟩

theorem keywordKey_injective : Function.Injective (keywordKey : UUID × ρ → _) := by
  rintro ⟨a, x⟩ ⟨b, y⟩ h
  obtain ⟨hx, ha⟩ := Prod.mk.inj (toLex.injective h)
  exact Prod.ext ha (OrderDual.toDual_inj.mp hx)

/-- Ranks are taken after scoping, so they do not depend on other knowledge bases. -/
theorem AgreeOn.scopedKeywordStatement_eq [LinearOrder ρ] (h : AgreeOn proof knowledgeBaseId db db') :
    scopedKeywordStatement proof knowledgeBaseId now db search normalizedQuery =
      scopedKeywordStatement proof knowledgeBaseId now db' search normalizedQuery := by
  rw [scopedKeywordStatement, scopedKeywordStatement,
    orderBy_eq_of_perm h.eligible_perm fun _ _ _ _ he => keywordKey_injective he]

private theorem AgreeOn.candidateJoin_mp (h : AgreeOn proof knowledgeBaseId db db')
    {chunk : DocumentChunk} {document : Document} {knowledgeBase : KnowledgeBase}
    (hid : knowledgeBase.id = knowledgeBaseId)
    (hrow : ((chunk, document), knowledgeBase) ∈ candidateJoin db) :
    ((chunk, document), knowledgeBase) ∈ candidateJoin db' := by
  obtain ⟨hc, hd, hk, hdoc, hkb⟩ := mem_candidateJoin.mp hrow
  have hdkb : document.knowledgeBaseId = knowledgeBaseId := hkb.symm.trans hid
  exact mem_candidateJoin.mpr ⟨(h.chunk _ _ hd hdkb hdoc.symm).mp hc, (h.document _ hdkb).mp hd,
    (h.knowledgeBase _ hid).mp hk, hdoc, hkb⟩

theorem AgreeOn.finalCandidateStatement_perm (h : AgreeOn proof knowledgeBaseId db db')
    (batch : CandidateBatch) : (finalCandidateStatement knowledgeBaseId db batch).Perm
      (finalCandidateStatement knowledgeBaseId db' batch) := by
  refine (filter_perm nodup_candidateJoin nodup_candidateJoin ?_).filterMap _
  rintro ⟨⟨chunk, document⟩, knowledgeBase⟩ hcond
  have hid : knowledgeBase.id = knowledgeBaseId := by
    simp only [Bool.and_eq_true, beq_iff_eq] at hcond
    exact hcond.1.1
  exact ⟨h.candidateJoin_mp hid, h.symm.candidateJoin_mp hid⟩

/-- A chunk determines its row. -/
theorem finalCandidateRow_unique {batch : CandidateBatch} {row row' : FinalCandidateRow}
    (h : row ∈ finalCandidateStatement knowledgeBaseId db batch)
    (h' : row' ∈ finalCandidateStatement knowledgeBaseId db batch)
    (hid : row.chunkId = row'.chunkId) : row = row' := by
  obtain ⟨⟨⟨chunk, document⟩, knowledgeBase⟩, hrow, hsome⟩ := List.mem_filterMap.mp h
  obtain ⟨⟨⟨chunk', document'⟩, knowledgeBase'⟩, hrow', hsome'⟩ := List.mem_filterMap.mp h'
  obtain ⟨hc, hd, hk, hdoc, hkb⟩ := mem_candidateJoin.mp (List.mem_filter.mp hrow).1
  obtain ⟨hc', hd', hk', hdoc', hkb'⟩ := mem_candidateJoin.mp (List.mem_filter.mp hrow').1
  have chunkId {c : DocumentChunk} {d : Document} {k : KnowledgeBase} {r : FinalCandidateRow}
      (hr : finalCandidateRow c d k = some r) : r.chunkId = c.id := by
    unfold finalCandidateRow at hr
    split at hr
    · cases hr
    · split at hr
      · obtain rfl := Option.some.inj hr
        rfl
      · cases hr
  have hchunk : chunk = chunk' :=
    Table.eq_of_key_eq hc hc' (((chunkId hsome).symm.trans hid).trans (chunkId hsome'))
  subst hchunk
  have hdocument : document = document' := Table.eq_of_key_eq hd hd' (hdoc.trans hdoc'.symm)
  subst hdocument
  have hknowledgeBase : knowledgeBase = knowledgeBase' :=
    Table.eq_of_key_eq hk hk' (hkb.trans hkb'.symm)
  subst hknowledgeBase
  exact Option.some.inj (hsome.symm.trans hsome')

end Statements

section Loader
variable {proof : SessionAuthenticationProof} {knowledgeBaseId : UUID} {db db' : Database}

/-- The dictionaries give the same record for each chunk. -/
def SameLookups (loaded loaded' : LoadedRecords) : Prop := ∀ chunkId, loaded.get? chunkId = loaded'.get? chunkId

/-- With one row for each chunk, the rows decide what is loaded, not their order. -/
theorem get?_foldl_storeRow {rows : List FinalCandidateRow} {loaded : LoadedRecords} {chunkId : UUID}
    {record : InternalAuthoritativeRetrievalRecord}
    (hunique : ∀ r ∈ rows, ∀ r' ∈ rows, r.chunkId = r'.chunkId → r = r') :
    (rows.foldl storeRow loaded).get? chunkId = some record ↔
      (∃ row ∈ rows, row.chunkId = chunkId ∧ recordFromRow row = record) ∨
        (∀ row ∈ rows, row.chunkId ≠ chunkId) ∧ loaded.get? chunkId = some record := by
  induction rows generalizing loaded with
  | nil => simp
  | cons row rows ih =>
    have hrest : ∀ r ∈ rows, ∀ r' ∈ rows, r.chunkId = r'.chunkId → r = r' := fun r hr r' hr' =>
      hunique r (List.mem_cons_of_mem _ hr) r' (List.mem_cons_of_mem _ hr')
    rw [List.foldl_cons, ih hrest, storeRow, Dict.get?_set]
    by_cases hk : chunkId = row.chunkId
    · subst hk
      rw [if_pos rfl, Option.some_inj]
      constructor
      · rintro (⟨r, hr, h⟩ | ⟨_, h⟩)
        · exact .inl ⟨r, List.mem_cons_of_mem _ hr, h⟩
        · exact .inl ⟨row, List.mem_cons_self, rfl, h⟩
      · rintro (⟨r, hr, hid, rfl⟩ | ⟨h, _⟩)
        · by_cases hin : ∃ q ∈ rows, q.chunkId = row.chunkId
          · obtain ⟨q, hq, hqid⟩ := hin
            rw [hunique r hr q (List.mem_cons_of_mem _ hq) (hid.trans hqid.symm)]
            exact .inl ⟨q, hq, hqid, rfl⟩
          · rw [hunique r hr row List.mem_cons_self hid]
            exact .inr ⟨fun q hq hqid => hin ⟨q, hq, hqid⟩, rfl⟩
        · exact (h row List.mem_cons_self rfl).elim
    · rw [if_neg hk]
      constructor
      · rintro (⟨r, hr, h⟩ | ⟨hne, h⟩)
        · exact .inl ⟨r, List.mem_cons_of_mem _ hr, h⟩
        · refine .inr ⟨?_, h⟩
          intro r hr
          rcases List.mem_cons.mp hr with rfl | hr
          · exact Ne.symm hk
          · exact hne r hr
      · rintro (⟨r, hr, hid, h⟩ | ⟨hne, h⟩)
        · rcases List.mem_cons.mp hr with rfl | hr
          · exact (hk hid.symm).elim
          · exact .inl ⟨r, hr, hid, h⟩
        · exact .inr ⟨fun r hr => hne r (List.mem_cons_of_mem _ hr), h⟩

theorem AgreeOn.sameLookups_batch (h : AgreeOn proof knowledgeBaseId db db') (batch : CandidateBatch)
    {loaded loaded' : LoadedRecords} (hsame : SameLookups loaded loaded') :
    SameLookups ((finalCandidateStatement knowledgeBaseId db batch).foldl storeRow loaded)
      ((finalCandidateStatement knowledgeBaseId db' batch).foldl storeRow loaded') := by
  intro chunkId
  ext record
  rw [get?_foldl_storeRow fun _ hr _ hr' => finalCandidateRow_unique hr hr',
    get?_foldl_storeRow fun _ hr _ hr' => finalCandidateRow_unique hr hr', hsame chunkId]
  simp only [(h.finalCandidateStatement_perm batch).mem_iff]

/-- Statement by statement, both transactions fail, or they see agreeing states. -/
structure TransactionsAgree (proof : SessionAuthenticationProof) (knowledgeBaseId : UUID)
    (txn txn' : Transaction) : Prop where
  commits : txn.commits = txn'.commits
  sees : ∀ n, txn.sees n = none ∧ txn'.sees n = none ∨
    ∃ db db', txn.sees n = some db ∧ txn'.sees n = some db' ∧ AgreeOn proof knowledgeBaseId db db'

variable {txn txn' : Transaction}

theorem TransactionsAgree.execute (h : TransactionsAgree proof knowledgeBaseId txn txn') (n : Nat) :
    Related (AgreeOn proof knowledgeBaseId) (txn.execute n) (txn'.execute n) := by
  rcases h.sees n with ⟨h₁, h₂⟩ | ⟨db, db', h₁, h₂, hagree⟩
  · rw [Transaction.execute, Transaction.execute, h₁, h₂]
    rfl
  · rw [execute_ok.mpr h₁, execute_ok.mpr h₂]
    exact hagree

theorem TransactionsAgree.commit_eq (h : TransactionsAgree proof knowledgeBaseId txn txn') :
    txn.commit = txn'.commit := by
  rw [Transaction.commit, Transaction.commit, h.commits]

theorem verifyInitialAccess_eq (h : TransactionsAgree proof knowledgeBaseId txn txn')
    (clock : ClockReading) : verifyInitialAccess clock txn proof knowledgeBaseId =
      verifyInitialAccess clock txn' proof knowledgeBaseId := by
  unfold verifyInitialAccess
  refine congrArg (clock.now >>= ·) (funext fun now => related_eq.mp (related_rescue ?_))
  refine related_bind (h.execute 0) fun db db' hagree => ?_
  rw [hagree.initialAuthenticationStatement_eq]
  split
  · exact related_eq.mpr rfl
  · refine related_bind (h.execute 1) fun db db' hagree => ?_
    rw [hagree.initialTargetStatement_eq, h.commit_eq]
    exact related_eq.mpr rfl

theorem scopedKeywordCandidates_eq {ρ : Type} [LinearOrder ρ]
    (h : TransactionsAgree proof knowledgeBaseId txn txn') (search : TextSearch ρ)
    (clock : ClockReading) (normalizedQuery : Str) :
    scopedKeywordCandidates search clock txn proof knowledgeBaseId normalizedQuery =
      scopedKeywordCandidates search clock txn' proof knowledgeBaseId normalizedQuery := by
  unfold scopedKeywordCandidates
  refine congrArg (clock.now >>= ·) (funext fun now => congrArg (· >>= _) ?_)
  refine related_eq.mp (related_rescue (related_bind (h.execute 0) fun db db' hagree => ?_))
  rw [hagree.scopedKeywordStatement_eq, h.commit_eq]
  exact related_eq.mpr rfl

/-- Final transactions with the same settings, statement by statement on agreeing states. -/
structure FinalTransactionsAgree (proof : SessionAuthenticationProof) (knowledgeBaseId : UUID)
    (txn txn' : FinalTransaction) : Prop where
  isolation : txn.isolation = txn'.isolation
  readOnly : txn.readOnly = txn'.readOnly
  toTransaction : TransactionsAgree proof knowledgeBaseId txn.toTransaction txn'.toTransaction

theorem loadInTransaction_related {txn txn' : FinalTransaction}
    (h : FinalTransactionsAgree proof knowledgeBaseId txn txn') (clock : ClockReading)
    (batches : List CandidateBatch) :
    Related SameLookups (loadInTransaction clock txn proof knowledgeBaseId batches)
      (loadInTransaction clock txn' proof knowledgeBaseId batches) := by
  unfold loadInTransaction
  refine related_bind (h.toTransaction.execute 0) fun _ _ _ => ?_
  refine related_bind (related_eq.mpr rfl) fun finalNow _ hnow => ?_
  subst hnow
  refine related_bind (h.toTransaction.execute 1) fun db db' hagree => ?_
  rw [hagree.finalAuthorizationStatement_eq, h.isolation, h.readOnly]
  dsimp only
  split
  · rfl
  split
  · rfl
  split
  · rfl
  split
  · rfl
  refine related_bind (related_foldlM (R := SameLookups) ?_ fun _ => rfl)
    fun loaded loaded' hsame => ?_
  · intro loaded loaded' batch hsame
    exact related_bind (h.toTransaction.execute batch.2) fun db db' hagree =>
      hagree.sameLookups_batch batch.1 hsame
  · rw [h.toTransaction.commit_eq]
    exact related_bind (related_eq.mpr rfl) fun _ _ _ => hsame

theorem loadAuthoritativeRecords_eq {txn txn' : FinalTransaction}
    (h : FinalTransactionsAgree proof knowledgeBaseId txn txn') (clock : ClockReading)
    (batches : List CandidateBatch) :
    loadAuthoritativeRecords clock txn proof knowledgeBaseId batches =
      loadAuthoritativeRecords clock txn' proof knowledgeBaseId batches := by
  unfold loadAuthoritativeRecords
  refine congrArg (assertCanonicalBatches batches >>= ·) (funext fun _ => related_eq.mp ?_)
  refine related_bind (related_rescue (loadInTransaction_related h clock batches)) ?_
  intro loaded loaded' hsame
  exact related_eq.mpr (congrArg (fun f => Except.ok (batches.flatten.filterMap f)) (funext hsame))

end Loader

theorem AgreeOn.transactionsAgree {proof : SessionAuthenticationProof} {knowledgeBaseId : UUID}
    {db db' : Database} (h : AgreeOn proof knowledgeBaseId db db') :
    TransactionsAgree proof knowledgeBaseId (.reading db) (.reading db') :=
  ⟨rfl, fun _ => .inr ⟨db, db', rfl, rfl, h⟩⟩

variable {ρ : Type} [LinearOrder ρ]

/-- Whatever the states hold outside the target, the outcome is the same: the same
exception, or the same records with the same ranks and scores. -/
theorem retrieval_noninterference {proof : SessionAuthenticationProof} {knowledgeBaseId : UUID}
    {db db' : Database} (h : AgreeOn proof knowledgeBaseId db db') (collaborators : Collaborators ρ)
    (accessClock keywordClock finalClock : ClockReading) (payload : Payload) :
    postgresRetrieve collaborators (.reading accessClock keywordClock finalClock db) proof
        knowledgeBaseId payload =
      postgresRetrieve collaborators (.reading accessClock keywordClock finalClock db') proof
        knowledgeBaseId payload := by
  have htxn := h.transactionsAgree
  have hfinal : FinalTransactionsAgree proof knowledgeBaseId (.reading db) (.reading db') :=
    ⟨rfl, rfl, htxn⟩
  simp only [postgresRetrieve, HybridRetrievalService.retrieve, HybridRetrievalService.keywordRetrieve,
    HybridRetrievalService.denseStage, HybridRetrievalService.finalStage,
    HybridRetrievalService.validateAndLoad, postgresService, postgresAccess, postgresLoader,
    Transactions.reading, verifyInitialAccess_eq htxn, scopedKeywordCandidates_eq htxn,
    loadAuthoritativeRecords_eq hfinal]

section Example

/-- The reader's state with a document of another knowledge base in it. -/
def strangerDatabase : Database :=
  { readerDatabase with
    knowledgeBases := ⟨[⟨7, str "other", none, 0⟩, ⟨3, str "handbook", none, 0⟩], by decide⟩
    documents := ⟨[⟨8, 7, str "b.txt", "text/plain", 1, exampleDigest, str "k", .completed, 0⟩,
      ⟨4, 3, str "a.txt", "text/plain", 1, exampleDigest, str "k", .completed, 0⟩], by decide⟩
    documentChunks := ⟨[⟨9, 8, 0, str "a", 1, some exampleDigest, some 0, some 1, none, none⟩,
      ⟨5, 4, 0, str "a", 1, some exampleDigest, some 0, some 1, none, none⟩], by decide⟩ }

/-- A provider that names the other knowledge base's chunk. -/
def strangerCollaborators : Collaborators Nat :=
  { exampleCollaborators with
    denseRetrieval := ⟨fun _ _ _ => DenseProviderResult.mk? 1 [⟨some (stableVectorId 9), .finite, 0⟩]⟩ }

theorem stranger_agrees : AgreeOn exampleProof 3 readerDatabase strangerDatabase where
  session _ _ := Iff.rfl
  user _ _ := Iff.rfl
  membership _ _ _ := Iff.rfl
  knowledgeBase k hk := by
    refine ⟨List.mem_cons_of_mem _, fun h => (List.mem_cons.mp h).resolve_left ?_⟩
    rintro rfl
    cases hk
  document d hd := by
    refine ⟨List.mem_cons_of_mem _, fun h => (List.mem_cons.mp h).resolve_left ?_⟩
    rintro rfl
    cases hd
  chunk c d hd _ hc := by
    refine ⟨List.mem_cons_of_mem _, fun h => (List.mem_cons.mp h).resolve_left ?_⟩
    rintro rfl
    obtain rfl := List.mem_singleton.mp hd
    cases hc

theorem retrieval_noninterference_example :
    postgresRetrieve strangerCollaborators
        (.reading exampleClock exampleClock exampleClock readerDatabase) exampleProof 3 examplePayload =
      postgresRetrieve strangerCollaborators
        (.reading exampleClock exampleClock exampleClock strangerDatabase) exampleProof 3
        examplePayload :=
  retrieval_noninterference stranger_agrees strangerCollaborators exampleClock exampleClock
    exampleClock examplePayload

end Example
end AgenticRag.Retrieval

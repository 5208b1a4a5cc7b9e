import AgenticRag.Api.Backend
import AgenticRag.Lib.Paging

/-! Walks through the pages of a listing while the backend goes on: each page is read in a later state
than the one before. -/
namespace AgenticRag.Api
open Lib Python Db Ingestion Security Retrieval Services Program

/-- What a listing goes by is still there. -/
structure ListingKept (db db' : Database) : Prop where
  documents : DocumentsKept db db'
  knowledgeBases : ∀ k row, db.knowledgeBases.find? k = some row → db'.knowledgeBases.find? k = some row
  memberships : ∀ k row, db.memberships.find? k = some row → db'.memberships.find? k = some row

/-- The operator takes no knowledge base and no membership away. -/
def OperatorKeeps (b : Backend) : BackendAction → Prop
  | .operator db => ListingKept b.pool.state.db db
  | _ => True

section Kept
variable {db db' db'' : Database}

theorem ListingKept.refl (db : Database) : ListingKept db db :=
  ⟨.refl db, fun _ _ => id, fun _ _ => id⟩

theorem ListingKept.trans (h : ListingKept db db') (h' : ListingKept db' db'') : ListingKept db db'' :=
  ⟨h.documents.trans h'.documents, fun k row hk => h'.knowledgeBases k row (h.knowledgeBases k row hk),
    fun k row hk => h'.memberships k row (h.memberships k row hk)⟩

theorem AccountsKept.listingKept (h : AccountsKept db db') (hdocuments : DocumentsKept db db') :
    ListingKept db db' :=
  ⟨hdocuments, fun k row hk => by rwa [h.knowledgeBases], fun k row hk => by rwa [h.memberships]⟩

theorem KnowledgeKept.listingKept {s t : KnowledgeState} (h : KnowledgeKept s t) :
    ListingKept s.db t.db :=
  ⟨h.ingestionKept.documentsKept, fun k row hk => by rwa [h.knowledgeBases],
    fun k row hk => by rwa [h.memberships]⟩

private theorem documentsKept_writesJobs (h : Relation.ReflTransGen WritesJob db db') :
    DocumentsKept db db' := by
  induction h with
  | refl => exact .refl db
  | tail _ hwrites ih =>
    obtain ⟨_, _, _, hw⟩ := hwrites
    exact ih.trans hw.documentsKept

theorem KnowledgeWrite.listingKept {ρ : Type} {settings : ApiSettings ρ} {userId : UUID} {h : ApiHistory}
    {i : ApiInput} {operation : ApiOperation} {s t : KnowledgeState}
    (hwrite : KnowledgeWrite settings userId h i s operation t) : ListingKept s.db t.db := by
  cases hwrite with
  | created hadd =>
    obtain ⟨_, hknowledgeBases, hmemberships, heq⟩ := addWithOwner_some hadd
    refine ⟨?_, fun k row => Table.find?_of_insert? hknowledgeBases,
      fun k row => Table.find?_of_insert? hmemberships⟩
    rw [heq]
    exact DocumentsKept.refl s.db
  | retried hretry =>
    rcases Services.retryIngestionJob_ok hretry with ⟨_, _, rfl⟩ | ⟨old, hfound, _, rfl, rfl⟩
    · exact .refl s.db
    · have hid := Table.find?_key hfound
      exact (accountsKept_flush _ _ _).listingKept
        (@writes_touch s.db old (retriedJob old) .pending (hid ▸ hfound) rfl rfl).documentsKept
  | stored => exact .refl s.db
  | inserted _ _ _ _ _ hinsert =>
    obtain ⟨_, _, _, _, _, heq⟩ := insertUpload_ok hinsert
    refine AccountsKept.listingKept ?_ (insertUpload_documentsKept hinsert)
    rw [heq]
    exact ⟨rfl, rfl, rfl, rfl⟩
  | deleted => exact .refl s.db

end Kept

section Steps
variable {ρ : Type} [LinearOrder ρ] {settings : ApiSettings ρ} {uuid5 : UUID → Str → UUID}
  {s₀ : KnowledgeState} {as bs : List BackendAction} {a : BackendAction} {b c : Backend}

theorem backend_step_listingKept (hrun : (backend settings uuid5).run (.init s₀) as = some b)
    (hallowed : OperatorKeeps b a) (hstep : (backend settings uuid5).step b a = some c) :
    ListingKept b.pool.state.db c.pool.state.db := by
  cases backend_step hstep with
  | @api action pool hclient hpool =>
    cases action with
    | start request =>
      obtain rfl := Option.some.inj hpool
      rw [Pool.settle_state]
      exact .refl _
    | step id input =>
      obtain ⟨client, _, _, heffect⟩ := step_effect (backend_run_api hrun) hpool
      rcases heffect.knowledgeKept with hkept | ⟨_, _, _, hwrite⟩
      · exact hkept.listingKept
      · exact hwrite.listingKept
    | kill id =>
      obtain ⟨_, _, rfl⟩ := Option.map_eq_some_iff.mp hpool
      exact .refl _
    | elsewhere state => cases hclient
  | worker hworker hworkers =>
    exact (workerStep_accounts hworker hworkers).listingKept
      (documentsKept_writesJobs (workerStep_writesJobs hworker hworkers))
  | operator => exact hallowed

theorem backend_run_listingKept (hrun : (backend settings uuid5).run (.init s₀) as = some b)
    (hallowed : (backend settings uuid5).Allowed OperatorKeeps b bs)
    (hrest : (backend settings uuid5).run b bs = some c) :
    ListingKept b.pool.state.db c.pool.state.db := by
  refine Machine.run_history (I := fun _ c => ListingKept b.pool.state.db c.pool.state.db) ?_
    (.refl _) hallowed hrest
  intro cs c a d hcs hI hC hstep
  have hreach : (backend settings uuid5).run (.init s₀) (as ++ cs) = some c := by
    rw [Machine.run_append, hrun]
    exact hcs
  exact hI.trans (backend_step_listingKept hreach hC hstep)

end Steps

section Rows
variable {db db' : Database} {userId knowledgeBaseId : UUID}

theorem documentRows_kept (hkept : ListingKept db db')
    {row : (Document × KnowledgeBase) × KnowledgeBaseMembership}
    (hrow : row ∈ documentRows db userId fun d => d.knowledgeBaseId == knowledgeBaseId) :
    ∃ row' ∈ documentRows db' userId fun d => d.knowledgeBaseId == knowledgeBaseId,
      DocumentRepository.listKey row' = DocumentRepository.listKey row := by
  obtain ⟨⟨d, k⟩, m⟩ := row
  obtain ⟨hd, hk, hkd, hm, hmk, hkb, hu⟩ := mem_documentRows.mp hrow
  obtain ⟨status, hd'⟩ := hkept.documents _ _ (Table.find?_of_mem hd)
  have hk' := hkept.knowledgeBases _ _ (Table.find?_of_mem hk)
  have hm' := hkept.memberships _ _ (Table.find?_of_mem hm)
  refine ⟨(({ d with status }, k), m), mem_documentRows.mpr ⟨Table.mem_of_find? hd',
    Table.mem_of_find? hk', hkd, Table.mem_of_find? hm', hmk, hkb, hu⟩, rfl⟩

theorem knowledgeBaseRows_kept (hkept : ListingKept db db') {row : KnowledgeBase × KnowledgeBaseMembership}
    (hrow : row ∈ knowledgeBaseRows db userId fun _ => true) :
    ∃ row' ∈ knowledgeBaseRows db' userId fun _ => true,
      KnowledgeBaseRepository.listKey row' = KnowledgeBaseRepository.listKey row := by
  obtain ⟨k, m⟩ := row
  obtain ⟨hk, hm, hmk, _, hu⟩ := mem_knowledgeBaseRows.mp hrow
  have hk' := hkept.knowledgeBases _ _ (Table.find?_of_mem hk)
  have hm' := hkept.memberships _ _ (Table.find?_of_mem hm)
  exact ⟨(k, m), mem_knowledgeBaseRows.mpr ⟨Table.mem_of_find? hk',
    Table.mem_of_find? hm', hmk, rfl, hu⟩, rfl⟩

/-- No two rows of a listing have one key. -/
theorem documentRows_distinct (condition : Document → Bool) :
    (documentRows db userId condition).Pairwise fun a b =>
      DocumentRepository.listKey a ≠ DocumentRepository.listKey b :=
  (nodup_documentRows condition).imp_of_mem fun ha hb hne hkey => hne (documentRows_unique ha hb hkey)

theorem knowledgeBaseRows_distinct (condition : KnowledgeBase → Bool) :
    (knowledgeBaseRows db userId condition).Pairwise fun a b =>
      KnowledgeBaseRepository.listKey a ≠ KnowledgeBaseRepository.listKey b :=
  (nodup_knowledgeBaseRows condition).imp_of_mem fun ha hb hne hkey =>
    hne (knowledgeBaseRows_unique ha hb hkey)

private theorem page_of_ok {α κ : Type} [LinearOrder κ] {key : α → κ} {limit i : Nat} {rows items : List α}
    (hok : Db.page limit ((limit * i : Nat) : Int) (orderBy key rows) = .ok items) :
    items = pageOf key limit i rows := by
  unfold Db.page at hok
  split at hok
  · obtain rfl := Except.ok.inj hok
    rw [pageOf, Int.toNat_natCast, Int.toNat_natCast]
  · cases hok

/-- What `list_documents` answers is a page of the caller's rows. -/
theorem listDocuments_page {env : CallEnvironment} {limit i : Nat} {items : List Document}
    (hok : KnowledgeIntakeService.listDocuments env db userId knowledgeBaseId limit
      ((limit * i : Nat) : Int) = .ok items) :
    db.IsMember userId knowledgeBaseId ∧ (∃ k ∈ db.knowledgeBases, k.id = knowledgeBaseId) ∧
      items = (pageOf DocumentRepository.listKey limit i
        (documentRows db userId fun d => d.knowledgeBaseId == knowledgeBaseId)).map fun row => row.1.1 := by
  obtain ⟨visible, hvisible, hok⟩ := bind_eq_ok.mp hok
  obtain ⟨_, _, hok⟩ := bind_eq_ok.mp hok
  obtain rfl := Except.ok.inj hok
  obtain ⟨found, hfound, hvisible⟩ := bind_eq_ok.mp (transaction_ok hvisible)
  split at hvisible
  · cases hvisible
  · obtain ⟨_, _, hvisible⟩ := bind_eq_ok.mp hvisible
    obtain ⟨rows, hrows, rfl⟩ := map_eq_ok.mp (mapError_eq_ok.mp hvisible)
    obtain ⟨⟨k, m⟩, hrow, _⟩ := List.mem_map.mp (mem_of_oneOrNone (mapError_eq_ok.mp hfound))
    obtain ⟨hk, hm, hmk, hid, hu⟩ := mem_knowledgeBaseRows.mp hrow
    have hid : k.id = knowledgeBaseId := beq_iff_eq.mp hid
    refine ⟨⟨m, hm, hmk.trans hid, hu⟩, ⟨k, hk, hid⟩, ?_⟩
    rw [page_of_ok hrows, List.map_map]
    rfl

/-- What `list_knowledge_bases` answers is a page of the caller's rows. -/
theorem listKnowledgeBases_page {env : CallEnvironment} {limit i : Nat} {items : List KnowledgeBase}
    (hok : KnowledgeIntakeService.listKnowledgeBases env db userId limit ((limit * i : Nat) : Int) =
      .ok items) :
    items = (pageOf KnowledgeBaseRepository.listKey limit i
      (knowledgeBaseRows db userId fun _ => true)).map Prod.fst := by
  obtain ⟨visible, hvisible, hok⟩ := bind_eq_ok.mp hok
  obtain ⟨_, _, hok⟩ := bind_eq_ok.mp hok
  obtain rfl := Except.ok.inj hok
  obtain ⟨rows, hrows, rfl⟩ := map_eq_ok.mp (mapError_eq_ok.mp (transaction_ok hvisible))
  rw [page_of_ok hrows, List.map_map]
  rfl

end Rows

section Walks
variable {ρ : Type} [LinearOrder ρ] {settings : ApiSettings ρ} {uuid5 : UUID → Str → UUID}
  {s₀ : KnowledgeState} {b : Nat → Backend} {n limit : Nat} {userId : UUID} {env : Nat → CallEnvironment}

/-- Later and later states of a run, in which the operator takes nothing away that is listed. -/
structure Walk (settings : ApiSettings ρ) (uuid5 : UUID → Str → UUID) (s₀ : KnowledgeState) (n : Nat)
    (b : Nat → Backend) : Prop where
  start : ∃ as, (backend settings uuid5).run (.init s₀) as = some (b 0)
  next : ∀ i < n, ∃ bs, (backend settings uuid5).Allowed OperatorKeeps (b i) bs ∧
    (backend settings uuid5).run (b i) bs = some (b (i + 1))

theorem Walk.reached (h : Walk settings uuid5 s₀ n b) {i : Nat} (hi : i ≤ n) :
    ∃ as, (backend settings uuid5).run (.init s₀) as = some (b i) := by
  induction i with
  | zero => exact h.start
  | succ i ih =>
    obtain ⟨as, has⟩ := ih (by omega)
    obtain ⟨bs, _, hbs⟩ := h.next i hi
    refine ⟨as ++ bs, ?_⟩
    rw [Machine.run_append, has]
    exact hbs

theorem Walk.kept (h : Walk settings uuid5 s₀ n b) {i : Nat} (hi : i < n) :
    ListingKept (b i).pool.state.db (b (i + 1)).pool.state.db := by
  obtain ⟨as, has⟩ := h.reached hi.le
  obtain ⟨bs, hallowed, hbs⟩ := h.next i hi
  exact backend_run_listingKept has hallowed hbs

/-- A client that asks for one page of documents after another, until one is not full, has seen every
document that the knowledge base had at the start, whatever happens between the pages. -/
theorem document_pages_complete {knowledgeBaseId : UUID} {pages : Nat → List Document}
    (hwalk : Walk settings uuid5 s₀ n b)
    (hpages : ∀ i ≤ n, KnowledgeIntakeService.listDocuments (env i) (b i).pool.state.db userId
      knowledgeBaseId limit ((limit * i : Nat) : Int) = .ok (pages i))
    (hlast : (pages n).length < limit) :
    ∀ d ∈ (b 0).pool.state.db.documents, d.knowledgeBaseId = knowledgeBaseId →
      ∃ i ≤ n, ∃ d' ∈ pages i, d'.id = d.id := by
  rintro d hd rfl
  obtain ⟨⟨m, hm, hmk, hu⟩, ⟨k, hk, hkd⟩, _⟩ := listDocuments_page (hpages 0 n.zero_le)
  have hrow : ((d, k), m) ∈ documentRows (b 0).pool.state.db userId fun x =>
      x.knowledgeBaseId == d.knowledgeBaseId :=
    mem_documentRows.mpr ⟨hd, hk, hkd, hm, hmk.trans hkd.symm, beq_self_eq_true _, hu⟩
  rw [(listDocuments_page (hpages n le_rfl)).2.2, List.length_map] at hlast
  obtain ⟨i, hi, ⟨⟨d', _⟩, _⟩, hpage, hkey⟩ := pages_complete
    (fun i => documentRows (b i).pool.state.db userId fun x => x.knowledgeBaseId == d.knowledgeBaseId)
    (fun i _ => documentRows_distinct _)
    (fun i hi _ hrow => documentRows_kept (hwalk.kept hi) hrow) hlast hrow
  refine ⟨i, hi, d', ?_, (Prod.mk.inj (toLex.injective hkey)).2⟩
  rw [(listDocuments_page (hpages i hi)).2.2]
  exact List.mem_map.mpr ⟨_, hpage, rfl⟩

/-- A document is listed, and on the second page there is nothing when a worker has ingested it. -/
theorem document_pages_complete_ingested : ∃ (b : Nat → Backend) (pages : Nat → List Document),
    Walk backendSettings exampleUuid5 backendState 1 b ∧ (pages 0).length = 1 ∧ (pages 1).length = 0 ∧
    ∀ d ∈ (b 0).pool.state.db.documents, d.knowledgeBaseId = 3 →
      ∃ i ≤ 1, ∃ d' ∈ pages i, d'.id = d.id := by
  let page (b : Backend) (i : Nat) : Except UploadRaised (List Document) :=
    KnowledgeIntakeService.listDocuments exampleInput.call b.pool.state.db 1 3 1 ((1 * i : Nat) : Int)
  have hany : ((backend backendSettings exampleUuid5).run (.init backendState) uploadActions).any (fun b =>
      ((backend backendSettings exampleUuid5).run b ingestActions).any fun c =>
        (page b 0).toOption.any fun items => items.length = 1 &&
          (page c 1).toOption.any fun rest => rest.length = 0) = true := by decide +kernel
  obtain ⟨b, hb, hany⟩ := (Option.any_eq_true _ _).mp hany
  obtain ⟨c, hc, hany⟩ := (Option.any_eq_true _ _).mp hany
  obtain ⟨items, hitems, hany⟩ := (Option.any_eq_true _ _).mp hany
  obtain ⟨hone, hany⟩ := Bool.and_eq_true_iff.mp hany
  obtain ⟨rest, hrest, hnone⟩ := (Option.any_eq_true _ _).mp hany
  have hone : items.length = 1 := of_decide_eq_true hone
  have hnone : rest.length = 0 := of_decide_eq_true hnone
  let states : Nat → Backend
    | 0 => b
    | _ => c
  let pages : Nat → List Document
    | 0 => items
    | _ => rest
  have hwalk : Walk backendSettings exampleUuid5 backendState 1 states := by
    refine ⟨⟨_, hb⟩, fun i hi => ?_⟩
    obtain rfl : i = 0 := by omega
    refine ⟨ingestActions, Machine.allowed_of_forall fun a ha r => ?_, hc⟩
    obtain ⟨action, _, rfl⟩ := List.mem_map.mp ha
    trivial
  have hpages : ∀ i ≤ 1, KnowledgeIntakeService.listDocuments exampleInput.call
      (states i).pool.state.db 1 3 (1 : Nat) ((1 * i : Nat) : Int) = .ok (pages i) := by
    intro i hi
    match i, hi with
    | 0, _ => exact toOption_eq_some.mp hitems
    | 1, _ => exact toOption_eq_some.mp hrest
  have hlast : (pages 1).length < 1 := by
    change rest.length < 1
    omega
  exact ⟨states, pages, hwalk, hone, hnone, document_pages_complete hwalk hpages hlast⟩

/-- The same for the knowledge bases of a user. -/
theorem knowledge_base_pages_complete {pages : Nat → List KnowledgeBase}
    (hwalk : Walk settings uuid5 s₀ n b)
    (hpages : ∀ i ≤ n, KnowledgeIntakeService.listKnowledgeBases (env i) (b i).pool.state.db userId
      limit ((limit * i : Nat) : Int) = .ok (pages i))
    (hlast : (pages n).length < limit) :
    ∀ k ∈ (b 0).pool.state.db.knowledgeBases, (b 0).pool.state.db.IsMember userId k.id →
      ∃ i ≤ n, ∃ k' ∈ pages i, k'.id = k.id := by
  rintro k hk ⟨m, hm, hmk, hu⟩
  have hrow : (k, m) ∈ knowledgeBaseRows (b 0).pool.state.db userId fun _ => true :=
    mem_knowledgeBaseRows.mpr ⟨hk, hm, hmk, rfl, hu⟩
  rw [listKnowledgeBases_page (hpages n le_rfl), List.length_map] at hlast
  obtain ⟨i, hi, ⟨k', _⟩, hpage, hkey⟩ := pages_complete
    (fun i => knowledgeBaseRows (b i).pool.state.db userId fun _ => true)
    (fun i _ => knowledgeBaseRows_distinct _)
    (fun i hi _ hrow => knowledgeBaseRows_kept (hwalk.kept hi) hrow) hlast hrow
  refine ⟨i, hi, k', ?_, (Prod.mk.inj (toLex.injective hkey)).2⟩
  rw [listKnowledgeBases_page (hpages i hi)]
  exact List.mem_map.mpr ⟨_, hpage, rfl⟩

end Walks
end AgenticRag.Api

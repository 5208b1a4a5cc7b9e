import AgenticRag.Lib.Parts
import AgenticRag.Services.KnowledgeBaseRebuild
import AgenticRag.Services.RebuildConvergence

/-! What the rebuild of a knowledge base reports and leaves in the index, document by document. -/
namespace AgenticRag.Services
open Lib Python Db Ingestion

section Contents

/-- The records of one document. -/
def contentOf (documentId : UUID) (index : VectorIndex) : VectorIndex :=
  fun k => (index k).filter fun r => r.documentId == documentId

/-- Records stand under their ids, and the chunk of a record belongs to its document. -/
def OwnedBy (owner : UUID → UUID) (index : VectorIndex) : Prop :=
  ∀ k r, index k = some r → r.vectorId = k ∧ owner r.chunkId = r.documentId

/-- A part of the records of a document leaves the index. -/
def removeTaken (documentId : UUID) (took : VectorRecord → Bool) (index : VectorIndex) : VectorIndex :=
  fun k => (index k).filter fun r => !(r.documentId == documentId && took r)

theorem deleteByDocument_eq_removeTaken (documentId : UUID) :
    (fun index : VectorIndex => index.deleteByDocument documentId) =
      removeTaken documentId fun _ => true := by
  funext index k
  simp only [VectorIndex.deleteByDocument, removeTaken, Bool.and_true]
  rfl

variable {owner : UUID → UUID} {documentId : UUID}

theorem contentOf_eq_some {index : VectorIndex} {k : Str} {r : VectorRecord} :
    contentOf documentId index k = some r ↔ index k = some r ∧ r.documentId = documentId := by
  simp [contentOf, Option.filter_eq_some_iff]

theorem contentOf_update {index : VectorIndex} {r : VectorRecord} (hr : r.documentId = documentId) :
    contentOf documentId (Function.update index r.vectorId (some r)) =
      Function.update (contentOf documentId index) r.vectorId (some r) := by
  funext k
  rw [contentOf, Function.update_apply, Function.update_apply]
  split
  · simp [hr]
  · rfl

theorem contentOf_upsert {index : VectorIndex} {records : List VectorRecord}
    (hrecords : ∀ r ∈ records, r.documentId = documentId) :
    contentOf documentId (index.upsert records) = (contentOf documentId index).upsert records := by
  induction records generalizing index with
  | nil => rfl
  | cons r records ih =>
    rw [List.forall_mem_cons] at hrecords
    rw [VectorIndex.upsert, VectorIndex.upsert, List.foldl_cons, List.foldl_cons,
      ← contentOf_update hrecords.1]
    exact ih hrecords.2

theorem contentOf_deleteByDocument {index : VectorIndex} :
    contentOf documentId (index.deleteByDocument documentId) = VectorIndex.empty := by
  funext k
  rw [VectorIndex.empty, ← Option.not_isSome_iff_eq_none, Option.isSome_iff_exists]
  rintro ⟨r, hr⟩
  obtain ⟨hdeleted, hdocument⟩ := contentOf_eq_some.mp hr
  exact (VectorIndex.deleteByDocument_eq_some.mp hdeleted).2 hdocument

/-- A record is put in its document only: what it replaces has the same chunk. -/
theorem actsOn_update {r : VectorRecord} (hr : r.documentId = documentId)
    (howner : owner r.chunkId = documentId) :
    ActsOn (OwnedBy owner) contentOf documentId fun index =>
      Function.update index r.vectorId (some r) where
  keeps index h k r' hk := by
    rw [Function.update_apply] at hk
    split at hk
    · rename_i heq
      obtain rfl := Option.some.inj hk
      exact ⟨heq.symm, howner.trans hr.symm⟩
    · exact h k r' hk
  frame index j h hj := by
    funext k
    rw [contentOf, contentOf, Function.update_apply]
    split
    · rename_i heq
      have hput : (some r).filter (fun r => r.documentId == j) = none := by
        simp [hr, Ne.symm hj]
      rw [hput]
      symm
      rw [← Option.not_isSome_iff_eq_none, Option.isSome_iff_exists]
      rintro ⟨old, hold⟩
      obtain ⟨hold, hj'⟩ := Option.filter_eq_some_iff.mp hold
      obtain ⟨hid, howned⟩ := h k old hold
      have hchunk : old.chunkId = r.chunkId := by
        apply stableVectorId_injective
        rw [← old.vectorId_eq, ← r.vectorId_eq, hid, heq]
      refine hj ?_
      rw [← beq_iff_eq.mp hj', ← howned, hchunk, howner]
    · rfl
  inside index index' _ _ h := by rw [contentOf_update hr, contentOf_update hr, h]

theorem actsOn_upsert {batch : List VectorRecord}
    (hbatch : ∀ r ∈ batch, r.documentId = documentId ∧ owner r.chunkId = documentId) :
    ActsOn (OwnedBy owner) contentOf documentId fun index => index.upsert batch := by
  induction batch with
  | nil => exact ActsOn.id
  | cons r batch ih =>
    rw [List.forall_mem_cons] at hbatch
    exact (ih hbatch.2).comp (actsOn_update hbatch.1.1 hbatch.1.2)

theorem actsOn_removeTaken (took : VectorRecord → Bool) :
    ActsOn (OwnedBy owner) contentOf documentId (removeTaken documentId took) where
  keeps index h k r hk := h k r (Option.filter_eq_some_iff.mp hk).1
  frame index j h hj := by
    funext k
    rw [contentOf, contentOf, removeTaken, Option.filter_filter]
    cases index k with
    | none => rfl
    | some r =>
      rw [Option.filter_some, Option.filter_some]
      congr 1
      simp only [Bool.and_eq_true, Bool.not_eq_true', Bool.and_eq_false_iff, beq_eq_false_iff_ne,
        beq_iff_eq, eq_iff_iff]
      constructor
      · exact fun hr => hr.2
      · rintro rfl
        exact ⟨.inl hj, rfl⟩
  inside index index' _ _ h := by
    have hcomm (m : VectorIndex) : contentOf documentId (removeTaken documentId took m) =
        removeTaken documentId took (contentOf documentId m) := by
      funext k
      rw [contentOf, removeTaken, removeTaken, contentOf, Option.filter_filter, Option.filter_filter]
      simp only [Bool.and_comm]
    rw [hcomm, hcomm, h]

end Contents

section Service
variable {owner : UUID → UUID} {documentId : UUID} {svc : IngestionProcessingService}

/-- The part of the index that is one document's. -/
def serviceContent (documentId : UUID) (service : IndexService) : VectorIndex :=
  contentOf documentId service.records

/-- Operations of the service that stay within a document. -/
abbrev Within (owner : UUID → UUID) (documentId : UUID) (f : IndexService → IndexService) : Prop :=
  ActsOn (fun service => OwnedBy owner service.records) serviceContent documentId f

theorem Within.of_records {f : IndexService → IndexService} {g : VectorIndex → VectorIndex}
    (hg : ActsOn (OwnedBy owner) contentOf documentId g) (hf : ∀ service, (f service).records = g service.records) :
    Within owner documentId f where
  keeps service h := by
    rw [hf]
    exact hg.keeps _ h
  frame service j h hj := by
    rw [serviceContent, hf]
    exact hg.frame _ j h hj
  inside service service' h h' heq := by
    rw [serviceContent, serviceContent, hf, hf]
    exact hg.inside _ _ h h' heq

/-- What a call of the index raises, whatever the index holds. -/
def StoreReply.result : StoreReply → Except Raised Unit
  | .returned => .ok ()
  | .lost raised _ => .error raised

theorem within_upsert {batch : List VectorRecord} (reply : StoreReply)
    (hbatch : ∀ r ∈ batch, r.documentId = documentId ∧ owner r.chunkId = documentId) :
    Within owner documentId fun service => (service.upsert batch reply).2 := by
  cases reply with
  | returned => exact Within.of_records (actsOn_upsert hbatch) fun _ => rfl
  | lost raised took =>
    exact Within.of_records (actsOn_upsert fun r hr => hbatch r (List.mem_of_mem_filter hr)) fun _ => rfl

theorem within_deleteByDocument (reply : StoreReply) :
    Within owner documentId fun service => (service.deleteByDocument documentId reply).2 := by
  cases reply with
  | returned =>
    refine Within.of_records (actsOn_removeTaken fun _ => true) fun service => ?_
    exact congrFun (deleteByDocument_eq_removeTaken documentId) service.records
  | lost raised took => exact Within.of_records (actsOn_removeTaken took) fun _ => rfl

variable {upserted : Nat → StoreReply} {batches : List (List VectorRecord)}

theorem upsertBatches_cons (i n : Nat) (batch : List VectorRecord) (service : IndexService) :
    upsertBatches upserted i (batch :: batches) n service =
      match (upserted i).result with
      | .error raised => ((some raised, n), (service.upsert batch (upserted i)).2)
      | .ok _ => upsertBatches upserted (i + 1) batches (n + batch.length)
          (service.upsert batch (upserted i)).2 := by
  rw [upsertBatches]
  cases upserted i <;> rfl

/-- What the loop raises and counts does not depend on the index. -/
theorem upsertBatches_fst (upserted : Nat → StoreReply) (batches : List (List VectorRecord)) (i n : Nat)
    (service service' : IndexService) :
    (upsertBatches upserted i batches n service).1 = (upsertBatches upserted i batches n service').1 := by
  induction batches generalizing i n service service' with
  | nil => rfl
  | cons batch batches ih =>
    rw [upsertBatches_cons, upsertBatches_cons]
    cases (upserted i).result with
    | error raised => rfl
    | ok u => exact ih ..

theorem within_upsertBatches (i n : Nat)
    (h : ∀ batch ∈ batches, ∀ r ∈ batch, r.documentId = documentId ∧ owner r.chunkId = documentId) :
    Within owner documentId fun service => (upsertBatches upserted i batches n service).2 := by
  induction batches generalizing i n with
  | nil => exact ActsOn.id
  | cons batch batches ih =>
    rw [List.forall_mem_cons] at h
    have hfirst : Within owner documentId fun service => (service.upsert batch (upserted i)).2 :=
      within_upsert (upserted i) h.1
    simp only [upsertBatches_cons]
    cases (upserted i).result with
    | error raised => exact hfirst
    | ok u => exact (ih (i + 1) (n + batch.length) h.2).comp hfirst

/-- `indexed_chunks` counts the records of the calls that returned. -/
theorem upsertBatches_counts (upserted : Nat → StoreReply) (batches : List (List VectorRecord)) (i n : Nat)
    (service : IndexService) :
    (upsertBatches upserted i batches n service).2.returned.length + n =
      service.returned.length + (upsertBatches upserted i batches n service).1.2 := by
  induction batches generalizing i n service with
  | nil => rfl
  | cons batch batches ih =>
    rw [upsertBatches_cons]
    cases hreply : upserted i with
    | lost raised took => rfl
    | returned =>
      have hrest := ih (i + 1) (n + batch.length) (service.upsert batch .returned).2
      simp only [StoreReply.result]
      simp only [IndexService.upsert, List.length_append] at hrest ⊢
      omega

/-- A loop that raises nothing has put in every batch. -/
theorem upsertBatches_done (upserted : Nat → StoreReply) (batches : List (List VectorRecord)) (i n : Nat)
    (service : IndexService) (h : (upsertBatches upserted i batches n service).1.1 = none) :
    (upsertBatches upserted i batches n service).1.2 = n + batches.flatten.length ∧
      (upsertBatches upserted i batches n service).2.records = service.records.upsert batches.flatten := by
  induction batches generalizing i n service with
  | nil => exact ⟨rfl, rfl⟩
  | cons batch batches ih =>
    rw [upsertBatches_cons] at h ⊢
    cases hreply : upserted i with
    | lost raised took =>
      rw [hreply] at h
      cases h
    | returned =>
      rw [hreply] at h
      obtain ⟨hcount, hrecords⟩ := ih _ _ _ h
      simp only [StoreReply.result]
      rw [hcount, hrecords, List.flatten_cons, List.length_append, Nat.add_assoc]
      exact ⟨rfl, by simp only [VectorIndex.upsert, IndexService.upsert, List.foldl_append]⟩

end Service

section Document
variable {owner : UUID → UUID} {documentId : UUID} {svc : IngestionProcessingService}
  {environment : RebuildEnvironment} {maxChunks : Int} {document : Document}
  {chunks : List DocumentChunk} {records : List VectorRecord}

/-- Every record is made of one of the chunks. -/
theorem recordsForChunks_mem {answers : Nat → Except Raised Object}
    (h : recordsForChunks svc answers document chunks = .ok records) :
    ∀ r ∈ records, ∃ c ∈ chunks, r.chunkId = c.id ∧ r.documentId = c.documentId := by
  refine foldlM_invariant (I := fun records : List VectorRecord => ∀ r ∈ records, ∃ c ∈ chunks,
    r.chunkId = c.id ∧ r.documentId = c.documentId) ?_ (List.forall_mem_nil _) h
  intro before batch after hbatch hbefore hstep r hr
  obtain ⟨made, hmade, hafter⟩ := bind_eq_ok.mp hstep
  obtain ⟨vectors, _, hmade⟩ := bind_eq_ok.mp hmade
  obtain rfl := Except.ok.inj hafter
  rcases List.mem_append.mp hr with hr | hr
  · exact hbefore r hr
  obtain ⟨_, _, hmade⟩ := bind_eq_ok.mp hmade
  obtain ⟨validated, _, hmade⟩ := bind_eq_ok.mp hmade
  obtain ⟨c, hc, hfields⟩ := exists_of_forall₂ (makeVectorRecords_ok hmade) hr
  have hslice : batch.1 ∈ svc.batches chunks := (List.mem_zipIdx hbatch).2.2 ▸ List.getElem_mem _
  exact ⟨c, mem_of_mem_slices hslice hc, hfields.2.1, hfields.2.2.1⟩

/-- Chunk rows of a load belong to the owner of their ids. -/
def RowsOwned (owner : UUID → UUID) (environment : RebuildEnvironment) : Prop :=
  ∀ db, environment.loaded = .ok db → ∀ c ∈ db.documentChunks, owner c.id = c.documentId

/-- The rows that ingestion writes are so: their ids are made within the namespace of the document. -/
theorem durableChunks_owned {uuid5 : UUID → Str → UUID} {claimed : ClaimedDocument}
    (h : ∀ name, owner (uuid5 claimed.documentId name) = claimed.documentId) (chunks : List TextChunk) :
    ∀ c ∈ durableChunks uuid5 claimed chunks, owner c.id = c.documentId := by
  intro c hc
  obtain ⟨chunk, _, rfl⟩ := List.mem_map.mp hc
  exact h (chunkName chunk)

theorem records_owned {db : Database} {answers : Nat → Except Raised Object}
    (hrows : ∀ c ∈ db.documentChunks, owner c.id = c.documentId)
    (hload : loadRebuildDocument db documentId maxChunks = .ok (document, chunks))
    (h : recordsForChunks svc answers document chunks = .ok records) :
    ∀ r ∈ records, r.documentId = documentId ∧ owner r.chunkId = documentId := by
  intro r hr
  obtain ⟨c, hc, hchunk, hdocument⟩ := recordsForChunks_mem h r hr
  obtain ⟨hmem, hcd⟩ := (Database.mem_chunksOf db).mp ((loadRebuildDocument_ok hload).2.mem_iff.mp hc)
  exact ⟨hdocument.trans hcd, by rw [hchunk, hrows c hmem, hcd]⟩

theorem replaceDocumentVectors_fst (service service' : IndexService) :
    (replaceDocumentVectors svc environment documentId document chunks service).1 =
      (replaceDocumentVectors svc environment documentId document chunks service').1 := by
  unfold replaceDocumentVectors
  cases recordsForChunks svc environment.answers document chunks with
  | error raised => rfl
  | ok records =>
    cases environment.deleted with
    | lost raised took => rfl
    | returned =>
      have hsame := upsertBatches_fst environment.upserted (svc.batches records) 0 0
        (service.deleteByDocument documentId .returned).2
        (service'.deleteByDocument documentId .returned).2
      simp only [IndexService.deleteByDocument] at hsame ⊢
      generalize upsertBatches environment.upserted 0 (svc.batches records) 0 _ = loop at hsame ⊢
      generalize upsertBatches environment.upserted 0 (svc.batches records) 0 _ = loop' at hsame ⊢
      obtain ⟨⟨raised, n⟩, after⟩ := loop
      obtain ⟨⟨raised', n'⟩, after'⟩ := loop'
      obtain ⟨rfl, rfl⟩ := Prod.mk.inj hsame
      cases raised <;> rfl

theorem replaceDocumentVectors_snd {records : List VectorRecord} (service : IndexService)
    (hrecords : recordsForChunks svc environment.answers document chunks = .ok records) :
    (replaceDocumentVectors svc environment documentId document chunks service).2 =
      match environment.deleted.result with
      | .error _ => (service.deleteByDocument documentId environment.deleted).2
      | .ok _ => (upsertBatches environment.upserted 0 (svc.batches records) 0
          (service.deleteByDocument documentId environment.deleted).2).2 := by
  rw [replaceDocumentVectors, hrecords]
  cases environment.deleted with
  | lost raised took => rfl
  | returned =>
    simp only [IndexService.deleteByDocument, StoreReply.result]
    generalize upsertBatches environment.upserted 0 (svc.batches records) 0 _ = loop
    obtain ⟨⟨raised, n⟩, after⟩ := loop
    cases raised <;> rfl

theorem within_replaceDocumentVectors
    (h : ∀ records, recordsForChunks svc environment.answers document chunks = .ok records →
      ∀ r ∈ records, r.documentId = documentId ∧ owner r.chunkId = documentId) :
    Within owner documentId fun service =>
      (replaceDocumentVectors svc environment documentId document chunks service).2 := by
  cases hrecords : recordsForChunks svc environment.answers document chunks with
  | error raised =>
    simp only [replaceDocumentVectors, hrecords]
    exact ActsOn.id
  | ok records =>
    have hdelete : Within owner documentId fun service =>
        (service.deleteByDocument documentId environment.deleted).2 :=
      within_deleteByDocument environment.deleted
    simp only [replaceDocumentVectors_snd _ hrecords]
    cases environment.deleted.result with
    | error raised => exact hdelete
    | ok u =>
      refine (within_upsertBatches 0 0 ?_).comp hdelete
      exact fun batch hbatch r hr => h records hrecords r (mem_of_mem_slices hbatch hr)

/-- A failure is reported for the document, with what was counted. -/
theorem rebuildFailed_ok {indexedChunks : Nat} {raised : Raised} {result : RebuildResult}
    (h : rebuildFailed documentId indexedChunks raised = .ok result) :
    ∃ failure, failure.documentId = documentId ∧ result = ⟨1, 0, indexedChunks, [failure]⟩ := by
  unfold rebuildFailed at h
  split at h
  · obtain rfl := Except.ok.inj h
    exact ⟨_, rfl, rfl⟩
  · cases h

theorem batches_flatten {α : Type} (values : List α) : (svc.batches values).flatten = values :=
  slices_flatten svc.rebuildBatchSize_pos values

/-- One document is counted once: as indexed, or by a failure that names it. -/
def CountedOnce (documentId : UUID) (indexed : Nat) (failures : List RebuildFailure) : Prop :=
  indexed = 1 ∧ failures = [] ∨ indexed = 0 ∧ ∃ failure, failures = [failure] ∧ failure.documentId = documentId

/-- What a rebuild that returns has reported and done. -/
structure DocumentRebuilt (svc : IngestionProcessingService) (environment : RebuildEnvironment)
    (documentId : UUID) (document : Document) (chunks : List DocumentChunk)
    (service service' : IndexService) (result : RebuildResult) : Prop where
  counted : CountedOnce documentId result.documentsIndexed result.failures
  counts : service'.returned.length = service.returned.length + result.chunksIndexed
  indexed : result.documentsIndexed = 1 → ∃ records,
    recordsForChunks svc environment.answers document chunks = .ok records ∧
      service'.records = (service.records.deleteByDocument documentId).upsert records

theorem documentRebuilt_failed {service service' : IndexService} {indexedChunks : Nat} {raised : Raised}
    {result : RebuildResult} (h : rebuildFailed documentId indexedChunks raised = .ok result)
    (hchunks : service'.returned.length = service.returned.length + indexedChunks) :
    DocumentRebuilt svc environment documentId document chunks service service' result := by
  obtain ⟨failure, hfailure, rfl⟩ := rebuildFailed_ok h
  exact ⟨.inr ⟨rfl, failure, rfl, hfailure⟩, hchunks, fun h => by cases h⟩

theorem rebuildFailed_error {indexedChunks : Nat} {raised : Raised} {error : RebuildError}
    (h : rebuildFailed documentId indexedChunks raised = .error error) : error = .raised raised := by
  unfold rebuildFailed at h
  split at h
  · cases h
  · exact (Except.error.inj h).symm

theorem replaceDocumentVectors_error {service : IndexService} {error : RebuildError}
    (h : (replaceDocumentVectors svc environment documentId document chunks service).1 = .error error) :
    ∃ raised, error = .raised raised := by
  unfold replaceDocumentVectors at h
  split at h
  · exact ⟨_, rebuildFailed_error h⟩
  · split at h
    · exact ⟨_, rebuildFailed_error h⟩
    · split at h
      · exact ⟨_, rebuildFailed_error h⟩
      · cases h

theorem replaceDocumentVectors_ok {service : IndexService} {result : RebuildResult}
    (h : (replaceDocumentVectors svc environment documentId document chunks service).1 = .ok result) :
    DocumentRebuilt svc environment documentId document chunks service
      (replaceDocumentVectors svc environment documentId document chunks service).2 result := by
  cases hrecords : recordsForChunks svc environment.answers document chunks with
  | error raised =>
    simp only [replaceDocumentVectors, hrecords] at h ⊢
    exact documentRebuilt_failed h rfl
  | ok records =>
    cases hdeleted : environment.deleted with
    | lost raised took =>
      simp only [replaceDocumentVectors, hrecords, hdeleted, IndexService.deleteByDocument] at h ⊢
      exact documentRebuilt_failed h rfl
    | returned =>
      simp only [replaceDocumentVectors, hrecords, hdeleted, IndexService.deleteByDocument] at h ⊢
      have hcounts := upsertBatches_counts environment.upserted (svc.batches records) 0 0
        { service with records := service.records.deleteByDocument documentId }
      have hdone := upsertBatches_done environment.upserted (svc.batches records) 0 0
        { service with records := service.records.deleteByDocument documentId }
      rw [batches_flatten] at hdone
      generalize upsertBatches environment.upserted 0 (svc.batches records) 0 _ = loop at h hcounts hdone ⊢
      obtain ⟨⟨raised, n⟩, after⟩ := loop
      cases raised with
      | some raised => exact documentRebuilt_failed h hcounts
      | none =>
        obtain rfl := Except.ok.inj h
        obtain ⟨hcount, hafter⟩ := hdone rfl
        refine ⟨.inl ⟨rfl, rfl⟩, ?_, fun _ => ⟨records, hrecords, hafter⟩⟩
        simp only at hcounts hcount ⊢
        omega

end Document

section Listed
variable {owner : UUID → UUID} {svc : IngestionProcessingService} {environments : UUID → RebuildEnvironment}
  {maxChunks : Int} {document loaded : Document} {chunks : List DocumentChunk} {db : Database}

theorem rebuildDocument_initialized {environment : RebuildEnvironment} {documentId : UUID}
    (hmax : 1 ≤ maxChunks) (service : IndexService) :
    rebuildDocument svc environment documentId maxChunks ⟨true, service⟩ =
      ((rebuildInitialized svc environment documentId maxChunks service).1,
        ⟨true, (rebuildInitialized svc environment documentId maxChunks service).2⟩) := by
  rw [rebuildDocument, if_neg (by omega)]
  rfl

/-- What the loop over the documents makes of an error of `rebuild_document`. -/
def refusal (documentId : UUID) : RebuildError → Except RebuildError RebuildTally
  | .limit message => .ok ⟨0, 0, [⟨documentId, "REBUILDLIMITERROR", message⟩]⟩
  | .notReady message => .ok ⟨0, 0, [⟨documentId, "REBUILDNOTREADYERROR", message⟩]⟩
  | error => .error error

theorem refusal_ok {documentId : UUID} {error : RebuildError} {added : RebuildTally}
    (h : refusal documentId error = .ok added) :
    CountedOnce documentId added.indexedDocuments added.failures ∧ added.indexedDocuments = 0 ∧
      added.indexedChunks = 0 := by
  cases error with
  | limit message =>
    obtain rfl := Except.ok.inj h
    exact ⟨.inr ⟨rfl, _, rfl, rfl⟩, rfl, rfl⟩
  | notReady message =>
    obtain rfl := Except.ok.inj h
    exact ⟨.inr ⟨rfl, _, rfl, rfl⟩, rfl, rfl⟩
  | value => cases h
  | raised raised => cases h

/-- A document that is not rebuilt: listed as not completed, or refused when it is loaded. -/
def Refused (environments : UUID → RebuildEnvironment) (maxChunks : Int) (document : Document) : Prop :=
  document.status ≠ .completed ∨ ∃ db error, (environments document.id).loaded = .ok db ∧
    loadRebuildDocument db document.id maxChunks = .error error

theorem rebuildListed_skipped (hstatus : document.status ≠ .completed) (world : RebuildWorld) :
    rebuildListed svc environments maxChunks document world =
      (.ok ⟨0, 0, [⟨document.id, "REBUILD_NOT_READY", "Only completed documents can be rebuilt."⟩]⟩,
        world) :=
  if_pos hstatus

theorem rebuildListed_eq (hmax : 1 ≤ maxChunks) (hstatus : document.status = .completed)
    (service : IndexService) :
    rebuildListed svc environments maxChunks document ⟨true, service⟩ =
      (match (rebuildInitialized svc (environments document.id) document.id maxChunks service).1 with
        | .ok result => .ok ⟨result.documentsIndexed, result.chunksIndexed, result.failures⟩
        | .error error => refusal document.id error,
      ⟨true, (rebuildInitialized svc (environments document.id) document.id maxChunks service).2⟩) := by
  rw [rebuildListed, if_neg (not_not.mpr hstatus), rebuildDocument_initialized hmax]
  generalize rebuildInitialized svc (environments document.id) document.id maxChunks service = outcome
  obtain ⟨result, after⟩ := outcome
  cases result with
  | ok result => rfl
  | error error => cases error <;> rfl

theorem rebuildInitialized_loaded {environment : RebuildEnvironment} {documentId : UUID}
    (hdb : environment.loaded = .ok db)
    (hload : loadRebuildDocument db documentId maxChunks = .ok (document, chunks)) (service : IndexService) :
    rebuildInitialized svc environment documentId maxChunks service =
      replaceDocumentVectors svc environment documentId document chunks service := by
  rw [rebuildInitialized, hdb]
  simp only [hload]

theorem rebuildInitialized_refused {environment : RebuildEnvironment} {documentId : UUID}
    {error : RebuildError} (hdb : environment.loaded = .ok db)
    (hload : loadRebuildDocument db documentId maxChunks = .error error) (service : IndexService) :
    rebuildInitialized svc environment documentId maxChunks service = (.error error, service) := by
  rw [rebuildInitialized, hdb]
  simp only [hload]

theorem rebuildInitialized_fst {environment : RebuildEnvironment} {documentId : UUID}
    (service service' : IndexService) :
    (rebuildInitialized svc environment documentId maxChunks service).1 =
      (rebuildInitialized svc environment documentId maxChunks service').1 := by
  cases hdb : environment.loaded with
  | error raised => simp only [rebuildInitialized, hdb]
  | ok db =>
    cases hload : loadRebuildDocument db documentId maxChunks with
    | error error => rw [rebuildInitialized_refused hdb hload, rebuildInitialized_refused hdb hload]
    | ok found =>
      rw [rebuildInitialized_loaded hdb hload, rebuildInitialized_loaded hdb hload]
      exact replaceDocumentVectors_fst service service'

theorem within_rebuildInitialized {environment : RebuildEnvironment} {documentId : UUID}
    (howned : RowsOwned owner environment) :
    Within owner documentId fun service =>
      (rebuildInitialized svc environment documentId maxChunks service).2 := by
  cases hdb : environment.loaded with
  | error raised =>
    simp only [rebuildInitialized, hdb]
    exact ActsOn.id
  | ok db =>
    cases hload : loadRebuildDocument db documentId maxChunks with
    | error error =>
      simp only [rebuildInitialized_refused hdb hload]
      exact ActsOn.id
    | ok found =>
      simp only [rebuildInitialized_loaded hdb hload]
      exact within_replaceDocumentVectors fun records hrecords =>
        records_owned (howned db hdb) hload hrecords

/-- What a turn of the loop does to the index. -/
def listedService (svc : IngestionProcessingService) (environments : UUID → RebuildEnvironment)
    (maxChunks : Int) (document : Document) (service : IndexService) : IndexService :=
  (rebuildListed svc environments maxChunks document ⟨true, service⟩).2.service

theorem rebuildListed_initialized (hmax : 1 ≤ maxChunks) (service : IndexService) :
    (rebuildListed svc environments maxChunks document ⟨true, service⟩).2 =
      ⟨true, listedService svc environments maxChunks document service⟩ := by
  rw [listedService]
  by_cases hstatus : document.status = .completed
  · rw [rebuildListed_eq hmax hstatus]
  · rw [rebuildListed_skipped hstatus]

theorem rebuildListed_fst (hmax : 1 ≤ maxChunks) (service service' : IndexService) :
    (rebuildListed svc environments maxChunks document ⟨true, service⟩).1 =
      (rebuildListed svc environments maxChunks document ⟨true, service'⟩).1 := by
  by_cases hstatus : document.status = .completed
  · rw [rebuildListed_eq hmax hstatus, rebuildListed_eq hmax hstatus,
      rebuildInitialized_fst service service']
  · rw [rebuildListed_skipped hstatus, rebuildListed_skipped hstatus]

theorem within_listedService (hmax : 1 ≤ maxChunks) (howned : RowsOwned owner (environments document.id)) :
    Within owner document.id (listedService svc environments maxChunks document) := by
  by_cases hstatus : document.status = .completed
  · have hwithin : Within owner document.id fun service =>
        (rebuildInitialized svc (environments document.id) document.id maxChunks service).2 :=
      within_rebuildInitialized howned
    have hsame : listedService svc environments maxChunks document = fun service =>
        (rebuildInitialized svc (environments document.id) document.id maxChunks service).2 := by
      funext service
      rw [listedService, rebuildListed_eq hmax hstatus]
    exact hsame ▸ hwithin
  · have hsame : listedService svc environments maxChunks document = id := by
      funext service
      rw [listedService, rebuildListed_skipped hstatus]
      rfl
    exact hsame ▸ ActsOn.id

/-- A refused document leaves the index as it is. -/
theorem listedService_refused (hmax : 1 ≤ maxChunks) (h : Refused environments maxChunks document)
    (service : IndexService) : listedService svc environments maxChunks document service = service := by
  by_cases hstatus : document.status = .completed
  · obtain ⟨db, error, hdb, hload⟩ := h.resolve_left (not_not.mpr hstatus)
    rw [listedService, rebuildListed_eq hmax hstatus, rebuildInitialized_refused hdb hload]
  · rw [listedService, rebuildListed_skipped hstatus]

/-- The index holds of the document exactly the records made of its rows. -/
def Indexed (svc : IngestionProcessingService) (environment : RebuildEnvironment) (maxChunks : Int)
    (documentId : UUID) (index : VectorIndex) : Prop :=
  ∃ db document chunks records, environment.loaded = .ok db ∧
    loadRebuildDocument db documentId maxChunks = .ok (document, chunks) ∧
    recordsForChunks svc environment.answers document chunks = .ok records ∧
    contentOf documentId index = VectorIndex.empty.upsert records

/-- What one turn of the loop has added to the tally and done to the index. -/
structure ListedRebuilt (svc : IngestionProcessingService) (environments : UUID → RebuildEnvironment)
    (maxChunks : Int) (document : Document) (service : IndexService) (added : RebuildTally) : Prop where
  counted : CountedOnce document.id added.indexedDocuments added.failures
  counts : (listedService svc environments maxChunks document service).returned.length =
    service.returned.length + added.indexedChunks
  indexed : added.indexedDocuments = 1 → Indexed svc (environments document.id) maxChunks document.id
    (listedService svc environments maxChunks document service).records

theorem rebuildListed_ok (hmax : 1 ≤ maxChunks) (howned : RowsOwned owner (environments document.id))
    {service : IndexService} {added : RebuildTally}
    (h : (rebuildListed svc environments maxChunks document ⟨true, service⟩).1 = .ok added) :
    ListedRebuilt svc environments maxChunks document service added := by
  by_cases hstatus : document.status = .completed
  swap
  · rw [rebuildListed_skipped hstatus] at h
    obtain rfl := Except.ok.inj h
    refine ⟨.inr ⟨rfl, _, rfl, rfl⟩, ?_, fun h => by cases h⟩
    rw [listedService, rebuildListed_skipped hstatus]
    rfl
  have hservice : listedService svc environments maxChunks document service =
      (rebuildInitialized svc (environments document.id) document.id maxChunks service).2 := by
    rw [listedService, rebuildListed_eq hmax hstatus]
  rw [rebuildListed_eq hmax hstatus] at h
  cases hdb : (environments document.id).loaded with
  | error raised =>
    simp only [rebuildInitialized, hdb] at h
    cases h
  | ok db =>
    cases hload : loadRebuildDocument db document.id maxChunks with
    | error error =>
      rw [rebuildInitialized_refused hdb hload] at h hservice
      obtain ⟨hcounted, hindexed, hchunks⟩ := refusal_ok h
      refine ⟨hcounted, by rw [hservice, hchunks]; rfl, fun h => ?_⟩
      rw [hindexed] at h
      cases h
    | ok found =>
      obtain ⟨loaded, chunks⟩ := found
      rw [rebuildInitialized_loaded hdb hload] at h hservice
      cases hresult : (replaceDocumentVectors svc (environments document.id) document.id loaded chunks
          service).1 with
      | error error =>
        obtain ⟨raised, rfl⟩ := replaceDocumentVectors_error hresult
        rw [hresult] at h
        cases h
      | ok result =>
        rw [hresult] at h
        obtain rfl := Except.ok.inj h
        have hrebuilt := replaceDocumentVectors_ok hresult
        refine ⟨hrebuilt.counted, by rw [hservice]; exact hrebuilt.counts, fun hone => ?_⟩
        obtain ⟨records, hrecords, hafter⟩ := hrebuilt.indexed hone
        refine ⟨db, loaded, chunks, records, hdb, hload, hrecords, ?_⟩
        rw [hservice, hafter, contentOf_upsert fun r hr =>
          (records_owned (howned db hdb) hload hrecords r hr).1, contentOf_deleteByDocument]

end Listed

section Loop
variable {owner : UUID → UUID} {svc : IngestionProcessingService} {environments : UUID → RebuildEnvironment}
  {maxChunks : Int} {documents : List Document} {entries : List RebuildTally}

/-- The entry that a document adds to the tally, whatever the index holds. -/
def Adds (svc : IngestionProcessingService) (environments : UUID → RebuildEnvironment) (maxChunks : Int)
    (document : Document) (added : RebuildTally) : Prop :=
  ∀ service, (rebuildListed svc environments maxChunks document ⟨true, service⟩).1 = .ok added

/-- The operations of the loop, document by document. -/
def loopOperations (svc : IngestionProcessingService) (environments : UUID → RebuildEnvironment)
    (maxChunks : Int) (documents : List Document) : List (UUID × (IndexService → IndexService)) :=
  documents.map fun document => (document.id, listedService svc environments maxChunks document)

/-- A loop that ends has made every turn, and its tally is the sum of their entries. -/
theorem rebuildEach_ok (hmax : 1 ≤ maxChunks) {tally total : RebuildTally} {service : IndexService}
    {world : RebuildWorld}
    (h : rebuildEach svc environments maxChunks documents tally ⟨true, service⟩ = (.ok total, world)) :
    ∃ entries, List.Forall₂ (Adds svc environments maxChunks) documents entries ∧
      total = entries.foldl RebuildTally.add tally ∧
      world = ⟨true, runAll (loopOperations svc environments maxChunks documents) service⟩ := by
  induction documents generalizing tally service with
  | nil =>
    obtain ⟨htotal, rfl⟩ := Prod.mk.inj h
    exact ⟨[], .nil, (Except.ok.inj htotal).symm, rfl⟩
  | cons document rest ih =>
    have hworld : (rebuildListed svc environments maxChunks document ⟨true, service⟩).2 = _ :=
      rebuildListed_initialized hmax service
    have hsame : ∀ service', (rebuildListed svc environments maxChunks document ⟨true, service⟩).1 =
        (rebuildListed svc environments maxChunks document ⟨true, service'⟩).1 :=
      rebuildListed_fst hmax service
    rw [rebuildEach] at h
    generalize rebuildListed svc environments maxChunks document ⟨true, service⟩ = turn at h hworld hsame
    obtain ⟨result, after⟩ := turn
    cases result with
    | error error => cases (Prod.mk.inj h).1
    | ok added =>
      obtain rfl : after = _ := hworld
      obtain ⟨entries, hentries, rfl, rfl⟩ := ih h
      exact ⟨added :: entries, .cons (fun service' => (hsame service').symm) hentries, rfl, rfl⟩

theorem foldl_add (entries : List RebuildTally) (tally : RebuildTally) :
    entries.foldl RebuildTally.add tally =
      ⟨tally.indexedDocuments + (entries.map RebuildTally.indexedDocuments).sum,
        tally.indexedChunks + (entries.map RebuildTally.indexedChunks).sum,
        tally.failures ++ entries.flatMap RebuildTally.failures⟩ := by
  induction entries generalizing tally with
  | nil => simp
  | cons added entries ih =>
    rw [List.foldl_cons, ih, RebuildTally.add]
    simp [Nat.add_assoc]

theorem CountedOnce.length {documentId : UUID} {n : Nat} {failures : List RebuildFailure}
    (h : CountedOnce documentId n failures) : n + failures.length = 1 := by
  rcases h with ⟨rfl, rfl⟩ | ⟨rfl, failure, rfl, _⟩ <;> rfl

theorem CountedOnce.filter_self {documentId : UUID} {n : Nat} {failures : List RebuildFailure}
    (h : CountedOnce documentId n failures) :
    failures.filter (fun failure => failure.documentId == documentId) = failures := by
  rcases h with ⟨_, rfl⟩ | ⟨_, failure, rfl, hfailure⟩
  · rfl
  · simp [hfailure]

theorem CountedOnce.filter_other {documentId other : UUID} {n : Nat} {failures : List RebuildFailure}
    (h : CountedOnce documentId n failures) (hne : documentId ≠ other) :
    failures.filter (fun failure => failure.documentId == other) = [] := by
  rcases h with ⟨_, rfl⟩ | ⟨_, failure, rfl, hfailure⟩
  · rfl
  · simp [hfailure, hne]

/-- Each document adds one to the documents that are indexed or to the failures. -/
theorem total_of_entries (h : List.Forall₂ (fun document added =>
      CountedOnce document.id added.indexedDocuments added.failures) documents entries) :
    (entries.map RebuildTally.indexedDocuments).sum + (entries.flatMap RebuildTally.failures).length =
      documents.length := by
  induction h with
  | nil => rfl
  | cons hcounted _ ih =>
    have hone := hcounted.length
    simp only [List.map_cons, List.sum_cons, List.flatMap_cons, List.length_append, List.length_cons]
    omega

theorem failures_other (h : List.Forall₂ (fun document added =>
      CountedOnce document.id added.indexedDocuments added.failures) documents entries)
    {documentId : UUID} (hother : ∀ document ∈ documents, document.id ≠ documentId) :
    (entries.flatMap RebuildTally.failures).filter (fun failure => failure.documentId == documentId) = [] := by
  induction h with
  | nil => rfl
  | cons hcounted _ ih =>
    rw [List.forall_mem_cons] at hother
    rw [List.flatMap_cons, List.filter_append, hcounted.filter_other hother.1, ih hother.2]
    rfl

/-- The failures that name a document are those of its own turn. -/
theorem failures_of_document (hadds : List.Forall₂ (Adds svc environments maxChunks) documents entries)
    (h : List.Forall₂ (fun document added =>
      CountedOnce document.id added.indexedDocuments added.failures) documents entries)
    (hnodup : (documents.map Document.id).Nodup) {document : Document} (hdocument : document ∈ documents)
    {added : RebuildTally} (hadded : Adds svc environments maxChunks document added) :
    (entries.flatMap RebuildTally.failures).filter (fun failure => failure.documentId == document.id) =
      added.failures := by
  induction h with
  | nil => cases hdocument
  | @cons first entry rest others hcounted hrest ih =>
    obtain ⟨hfirst, hadds⟩ := List.forall₂_cons.mp hadds
    rw [List.map_cons, List.nodup_cons] at hnodup
    rw [List.flatMap_cons, List.filter_append]
    rcases List.mem_cons.mp hdocument with rfl | hdocument
    · obtain rfl := Except.ok.inj ((hfirst ⟨.empty, []⟩).symm.trans (hadded ⟨.empty, []⟩))
      rw [hcounted.filter_self, failures_other hrest, List.append_nil]
      exact fun other hother he => hnodup.1 (List.mem_map.mpr ⟨other, hother, he⟩)
    · have hne : first.id ≠ document.id := fun he =>
        hnodup.1 (List.mem_map.mpr ⟨document, hdocument, he.symm⟩)
      rw [hcounted.filter_other hne, List.nil_append]
      exact ih hadds hnodup.2 hdocument

theorem returned_of_entries (hmax : 1 ≤ maxChunks)
    (howned : ∀ document ∈ documents, RowsOwned owner (environments document.id))
    (hadds : List.Forall₂ (Adds svc environments maxChunks) documents entries) (service : IndexService) :
    (runAll (loopOperations svc environments maxChunks documents) service).returned.length =
      service.returned.length + (entries.map RebuildTally.indexedChunks).sum := by
  induction hadds generalizing service with
  | nil => rfl
  | @cons document added rest others hadded _ ih =>
    rw [List.forall_mem_cons] at howned
    have hturn := (rebuildListed_ok hmax howned.1 (hadded service)).counts
    have hrest := ih howned.2 (listedService svc environments maxChunks document service)
    simp only [loopOperations, List.map_cons, runAll_cons, List.sum_cons] at hrest ⊢
    omega

end Loop

section Accounts

/-- How many failures of the result name a document. -/
def RebuildResult.named (result : RebuildResult) (documentId : UUID) : Nat :=
  (result.failures.filter fun failure => failure.documentId == documentId).length

/-- The rebuild accounts for every document: what it reports, and what it leaves in the index. -/
structure Accounts (svc : IngestionProcessingService) (environments : UUID → RebuildEnvironment)
    (maxChunks : Int) (documents : List Document) (service service' : IndexService)
    (result : RebuildResult) : Prop where
  seen : result.documentsSeen = documents.length
  total : result.documentsIndexed + result.failures.length = result.documentsSeen
  each : ∀ document ∈ documents, result.named document.id = 1 ∨ result.named document.id = 0 ∧
    Indexed svc (environments document.id) maxChunks document.id service'.records
  listed : ∀ failure ∈ result.failures, ∃ document ∈ documents, document.id = failure.documentId
  chunks : service'.returned.length = service.returned.length + result.chunksIndexed
  untouched : ∀ document ∈ documents, Refused environments maxChunks document →
    serviceContent document.id service' = serviceContent document.id service
  unlisted : ∀ documentId, (∀ document ∈ documents, document.id ≠ documentId) →
    serviceContent documentId service' = serviceContent documentId service
  alone : ∀ document ∈ documents, ∃ added,
    (rebuildListed svc environments maxChunks document ⟨true, service⟩).1 = .ok added ∧
      (result.failures.filter fun failure => failure.documentId == document.id) = added.failures ∧
      serviceContent document.id service' =
        serviceContent document.id (listedService svc environments maxChunks document service)

variable {owner : UUID → UUID} {svc : IngestionProcessingService} {environments : UUID → RebuildEnvironment}
  {maxChunks : Int} {documents : List Document} {entries : List RebuildTally} {service : IndexService}

theorem accounts_of_entries (hmax : 1 ≤ maxChunks) (hnodup : (documents.map Document.id).Nodup)
    (howned : ∀ document ∈ documents, RowsOwned owner (environments document.id))
    (hindex : OwnedBy owner service.records)
    (hadds : List.Forall₂ (Adds svc environments maxChunks) documents entries) :
    Accounts svc environments maxChunks documents service
      (runAll (loopOperations svc environments maxChunks documents) service)
      ⟨documents.length, (entries.map RebuildTally.indexedDocuments).sum,
        (entries.map RebuildTally.indexedChunks).sum, entries.flatMap RebuildTally.failures⟩ := by
  have hcounted : List.Forall₂ (fun document added =>
      CountedOnce document.id added.indexedDocuments added.failures) documents entries := by
    refine List.forall₂_iff_get.mpr ⟨hadds.length_eq, fun i hi hi' => ?_⟩
    have hadded := (List.forall₂_iff_get.mp hadds).2 i hi hi'
    exact (rebuildListed_ok hmax (howned _ (List.get_mem _ _)) (hadded service)).counted
  have hwithin : ∀ p ∈ loopOperations svc environments maxChunks documents, Within owner p.1 p.2 := by
    intro p hp
    obtain ⟨document, hdocument, rfl⟩ := List.mem_map.mp hp
    exact within_listedService hmax (howned document hdocument)
  have hkeys : ((loopOperations svc environments maxChunks documents).map Prod.fst).Nodup := by
    rw [loopOperations, List.map_map]
    exact hnodup
  have hcontent : ∀ document ∈ documents,
      serviceContent document.id (runAll (loopOperations svc environments maxChunks documents) service) =
        serviceContent document.id (listedService svc environments maxChunks document service) := by
    intro document hdocument
    exact part_runAll_of_mem hwithin hkeys hindex (List.mem_map.mpr ⟨document, hdocument, rfl⟩)
  have hentry : ∀ document ∈ documents, ∃ added, Adds svc environments maxChunks document added ∧
      (entries.flatMap RebuildTally.failures).filter (fun failure => failure.documentId == document.id) =
        added.failures := by
    intro document hdocument
    obtain ⟨added, _, hadded⟩ := exists_of_forall₂_left hadds hdocument
    exact ⟨added, hadded, failures_of_document hadds hcounted hnodup hdocument hadded⟩
  refine ⟨rfl, total_of_entries hcounted, ?_, ?_, returned_of_entries hmax howned hadds service, ?_, ?_, ?_⟩
  · intro document hdocument
    obtain ⟨added, hadded, hfailures⟩ := hentry document hdocument
    have hturn := rebuildListed_ok hmax (howned document hdocument) (hadded service)
    rw [RebuildResult.named, hfailures]
    rcases hturn.counted with ⟨hone, hnone⟩ | ⟨_, failure, hfailure, _⟩
    · refine .inr ⟨by rw [hnone]; rfl, ?_⟩
      obtain ⟨db, loaded, chunks, records, hdb, hload, hrecords, hafter⟩ := hturn.indexed hone
      exact ⟨db, loaded, chunks, records, hdb, hload, hrecords, (hcontent document hdocument).trans hafter⟩
    · exact .inl (by rw [hfailure]; rfl)
  · intro failure hfailure
    obtain ⟨added, hadded, hmem⟩ := List.mem_flatMap.mp hfailure
    obtain ⟨document, hdocument, hcount⟩ := exists_of_forall₂ hcounted hadded
    rcases hcount with ⟨_, hnone⟩ | ⟨_, other, hother, hid⟩
    · rw [hnone] at hmem
      cases hmem
    · rw [hother, List.mem_singleton] at hmem
      exact ⟨document, hdocument, by rw [hmem, hid]⟩
  · intro document hdocument hrefused
    rw [hcontent document hdocument, listedService_refused hmax hrefused]
  · intro documentId hother
    refine part_runAll_of_not_mem hwithin hindex fun p hp => ?_
    obtain ⟨document, hdocument, rfl⟩ := List.mem_map.mp hp
    exact (hother document hdocument).symm
  · intro document hdocument
    obtain ⟨added, hadded, hfailures⟩ := hentry document hdocument
    exact ⟨added, hadded service, hfailures, hcontent document hdocument⟩

/-- The documents of a rebuild are those of the knowledge base, each once. -/
theorem listRebuildDocuments_ok {db : Database} {knowledgeBaseId : UUID} {maxDocuments : Int}
    (h : listRebuildDocuments db knowledgeBaseId maxDocuments = .ok documents) :
    documents.Perm (db.documents.rows.filter fun document => document.knowledgeBaseId = knowledgeBaseId) := by
  unfold listRebuildDocuments at h
  split at h
  · cases h
  split at h
  · cases h
  rename_i rows hrows
  split at h
  · cases h
  rename_i hlength
  obtain rfl := Except.ok.inj h
  rw [listForKnowledgeBaseInternal, page] at hrows
  split at hrows
  swap
  · cases hrows
  obtain rfl := Except.ok.inj hrows
  rw [Int.toNat_zero, List.drop_zero, List.length_take] at hlength
  rw [Int.toNat_zero, List.drop_zero, List.take_of_length_le (by omega)]
  exact orderBy_perm _

/-- A rebuild that returns has listed the documents and made every turn of its loop over them. -/
theorem rebuildKnowledgeBase_ok {environment : KnowledgeBaseEnvironment} {knowledgeBaseId : UUID}
    {maxDocuments : Int} {world world' : RebuildWorld} {result : RebuildResult}
    (h : rebuildKnowledgeBase svc environment knowledgeBaseId maxDocuments maxChunks world =
      (.ok result, world')) :
    1 ≤ maxChunks ∧ ∃ db documents entries, environment.listed = .ok db ∧
      documents.Perm (db.documents.rows.filter fun document => document.knowledgeBaseId = knowledgeBaseId) ∧
      List.Forall₂ (Adds svc environment.documents maxChunks) documents entries ∧
      result = ⟨documents.length, (entries.map RebuildTally.indexedDocuments).sum,
        (entries.map RebuildTally.indexedChunks).sum, entries.flatMap RebuildTally.failures⟩ ∧
      world' = ⟨true, runAll (loopOperations svc environment.documents maxChunks documents) world.service⟩ := by
  unfold rebuildKnowledgeBase at h
  split at h
  · cases (Prod.mk.inj h).1
  rename_i hmax
  rw [not_or, not_lt, not_lt] at hmax
  split at h
  · cases (Prod.mk.inj h).1
  rename_i initialized hinitialize
  have hinitialized : initialized = ⟨true, world.service⟩ := by
    unfold RebuildWorld.initializeIndex at hinitialize
    split at hinitialize
    · rename_i htrue
      rw [← (Prod.mk.inj hinitialize).2, ← htrue]
    · split at hinitialize
      · cases (Prod.mk.inj hinitialize).1
      · exact (Prod.mk.inj hinitialize).2.symm
  subst hinitialized
  split at h
  · cases (Prod.mk.inj h).1
  rename_i db hdb
  split at h
  · cases (Prod.mk.inj h).1
  rename_i documents hdocuments
  split at h
  · cases (Prod.mk.inj h).1
  rename_i tally after hloop
  obtain ⟨hresult, rfl⟩ := Prod.mk.inj h
  obtain rfl := Except.ok.inj hresult
  obtain ⟨entries, hadds, rfl, hafter⟩ := rebuildEach_ok hmax.2 hloop
  refine ⟨hmax.2, db, documents, entries, hdb, listRebuildDocuments_ok hdocuments, hadds, ?_, hafter⟩
  simp only [foldl_add, Nat.zero_add, List.nil_append]

theorem nodup_of_perm_rows {db : Database} {condition : Document → Bool}
    (hperm : documents.Perm (db.documents.rows.filter condition)) : (documents.map Document.id).Nodup :=
  (hperm.map Document.id).nodup_iff.mpr (db.documents.nodup.sublist (List.filter_sublist.map _))

/-- Whenever `rebuild_knowledge_base` returns, every document of the knowledge base is accounted for.
Chunk ids name their document, in the rows of every load and in the index. -/
theorem rebuild_accounts (svc : IngestionProcessingService) (environment : KnowledgeBaseEnvironment)
    (knowledgeBaseId : UUID) (maxDocuments maxChunksPerDocument : Int) (owner : UUID → UUID)
    (hrows : ∀ documentId, RowsOwned owner (environment.documents documentId))
    (world world' : RebuildWorld) (hindex : OwnedBy owner world.service.records) (result : RebuildResult)
    (h : rebuildKnowledgeBase svc environment knowledgeBaseId maxDocuments maxChunksPerDocument world =
      (.ok result, world')) :
    ∃ db documents, environment.listed = .ok db ∧
      documents.Perm (db.documents.rows.filter fun document => document.knowledgeBaseId = knowledgeBaseId) ∧
      Accounts svc environment.documents maxChunksPerDocument documents world.service world'.service result := by
  obtain ⟨hmax, db, documents, entries, hdb, hperm, hadds, rfl, rfl⟩ := rebuildKnowledgeBase_ok h
  refine ⟨db, documents, hdb, hperm, ?_⟩
  exact accounts_of_entries hmax (nodup_of_perm_rows hperm) (fun document _ => hrows document.id) hindex hadds

end Accounts

section Example

/-- One document for each outcome: rebuilt, not completed, reset after the listing, too large, and
cut off in its second batch. -/
def rebuildListing : List Document :=
  [{ exampleDocument with status := .completed }, { exampleDocument with id := 12 },
    { exampleDocument with id := 13, status := .completed },
    { exampleDocument with id := 14, status := .completed },
    { exampleDocument with id := 15, status := .completed }]

def listedDatabase : Database :=
  { exampleDatabase with
    documents := ⟨rebuildListing, by decide⟩
    documentChunks := ⟨[rebuildRow 7 0, rebuildRow 8 1, { rebuildRow 20 0 with documentId := 14 },
      { rebuildRow 21 1 with documentId := 14 }, { rebuildRow 22 2 with documentId := 14 },
      { rebuildRow 30 0 with documentId := 15 }, { rebuildRow 31 1 with documentId := 15 }], by decide⟩ }

def chunkOwner (chunkId : UUID) : UUID := if chunkId < 10 then 2 else if chunkId < 30 then 14 else 15

def mixedEnvironment : KnowledgeBaseEnvironment where
  initialized := none
  listed := .ok listedDatabase
  documents documentId :=
    { initialized := none
      loaded := .ok (if documentId = 13 then listedDatabase.flushDocumentStatus 13 .pending else listedDatabase)
      answers := fun _ => .ok (constantAnswer 1)
      deleted := .returned
      upserted := fun i =>
        if documentId = 15 ∧ i = 1 then .lost (.expected .vectorStoreRequest) fun _ => true else .returned }

theorem ownedBy_upsert {owner : UUID → UUID} {records : List VectorRecord}
    (hnodup : (records.map VectorRecord.vectorId).Nodup) (h : ∀ r ∈ records, owner r.chunkId = r.documentId) :
    OwnedBy owner (VectorIndex.empty.upsert records) := by
  intro k r hr
  rcases VectorIndex.upsert_eq_some hnodup hr with ⟨hmem, hk⟩ | ⟨_, hempty⟩
  · exact ⟨hk, h r hmem⟩
  · cases hempty

theorem mixedEnvironment_owned (documentId : UUID) : RowsOwned chunkOwner (mixedEnvironment.documents documentId) := by
  intro db hdb
  obtain rfl := Except.ok.inj hdb
  have hrows : ∀ c ∈ listedDatabase.documentChunks.rows, chunkOwner c.id = c.documentId := by decide
  split
  · exact hrows
  · exact hrows

/-- The index holds a vector of the document that is too large, and a stale one. -/
def mixedWorld : RebuildWorld := ⟨false, ⟨VectorIndex.empty.upsert [rebuildRecord 14 20, rebuildRecord 2 6], []⟩⟩

theorem rebuild_accounts_example : ∃ result world' db documents,
    rebuildKnowledgeBase (rebuildProcess 0).svc mixedEnvironment 3 5 2 mixedWorld = (.ok result, world') ∧
    mixedEnvironment.listed = .ok db ∧
    documents.Perm (db.documents.rows.filter fun document => document.knowledgeBaseId = 3) ∧
    Accounts (rebuildProcess 0).svc mixedEnvironment.documents 2 documents mixedWorld.service world'.service
      result := by
  have hreturned : (rebuildKnowledgeBase (rebuildProcess 0).svc mixedEnvironment 3 5 2
      mixedWorld).1.toOption.any
        (fun result => result.documentsIndexed = 1 ∧ result.chunksIndexed = 3) = true := by decide +kernel
  obtain ⟨result, hresult, _⟩ := Option.any_eq_true _ _ |>.mp hreturned
  generalize hrun : rebuildKnowledgeBase (rebuildProcess 0).svc mixedEnvironment 3 5 2 mixedWorld = outcome
    at hresult
  obtain ⟨returned, world'⟩ := outcome
  obtain rfl : returned = .ok result := toOption_eq_some.mp hresult
  obtain ⟨db, documents, haccounts⟩ := rebuild_accounts (rebuildProcess 0).svc mixedEnvironment 3 5 2 chunkOwner
    mixedEnvironment_owned mixedWorld world' (ownedBy_upsert (by decide) (by decide)) result hrun
  exact ⟨result, world', db, documents, rfl, haccounts⟩

end Example
end AgenticRag.Services

import AgenticRag.Lib.Slots
import AgenticRag.Services.CompletedIndexed
import AgenticRag.Services.Rebuild

/-! Concurrent rebuilds of one document. A deletion can fall between two batches of another run;
whichever deletion is last, its run still writes every record after it. -/
namespace AgenticRag.Services
open Lib Python Db Ingestion

/-- The record that a rebuild makes of a row when each text has its own vector. -/
structure RebuiltRecord (knowledgeBaseId : UUID) (vectorOf : Str → EmbeddingVector)
    (c : DocumentChunk) (r : VectorRecord) : Prop extends RecordOf c r where
  knowledgeBaseId : r.knowledgeBaseId = knowledgeBaseId
  embedding : r.embedding = vectorOf c.normalizedText

/-- The index after a rebuild: a record for each row and no other of the document; what other
documents have stays, unless it is kept under the id of one of the rows. -/
structure Rebuilt (document : Document) (rows : List DocumentChunk)
    (vectorOf : Str → EmbeddingVector) (before after : VectorIndex) : Prop where
  chunks : ∀ c ∈ rows, ∃ r, after (stableVectorId c.id) = some r ∧
    RebuiltRecord document.knowledgeBaseId vectorOf c r
  only : ∀ k r, after k = some r → r.documentId = document.id → ∃ c ∈ rows, k = stableVectorId c.id
  others : ∀ k, (∀ c ∈ rows, k ≠ stableVectorId c.id) → ∀ r, r.documentId ≠ document.id →
    (after k = some r ↔ before k = some r)

/-- A valid answer of the model holds for each text the vector of that text. -/
def PointwiseEmbedding (processes : Nat → RebuildProcess) (vectorOf : Str → EmbeddingVector)
    (s : RebuildState) : RebuildLabel → Prop
  | .act i (.embed (.ok vectors)) => ∀ run document records batch remaining validated,
      s.runs i = some run → run.stage = .embed document records (batch :: remaining) →
      validateEmbeddingBatch (batch.map DocumentChunk.normalizedText) vectors
        (processes run.process).svc.embeddingDimension = .ok validated →
      validated = batch.map fun c => vectorOf c.normalizedText
  | _ => True

namespace RebuildStage

def Succeeded : RebuildStage → Prop
  | .returned result => result.failures = []
  | _ => False

instance decidableSucceeded : DecidablePred Succeeded
  | .returned ⟨_, _, _, []⟩ => .isTrue rfl
  | .returned ⟨_, _, _, failure :: failures⟩ => .isFalse (List.cons_ne_nil failure failures)
  | .initializing | .load | .embed _ _ _ | .delete _ | .upsert _ _ _ | .raised _ => .isFalse not_false

def Failed : RebuildStage → Prop
  | .returned result => result.failures ≠ []
  | .raised _ => True
  | _ => False

def BeforeDelete : RebuildStage → Prop
  | .initializing | .load | .embed _ _ _ | .delete _ => True
  | _ => False

/-- The call has ended. -/
def Over : RebuildStage → Prop
  | .returned _ | .raised _ => True
  | _ => False

/-- The batches of records that a run has still to send. -/
def unsent : RebuildStage → List (List VectorRecord)
  | .upsert _ _ remaining => remaining
  | _ => []

/-- The run has deleted the old records and not failed since. -/
def Writing : RebuildStage → Prop
  | .upsert _ _ _ => True
  | .returned result => result.failures = []
  | _ => False

variable {stage : RebuildStage}

theorem fail_failed (stage : RebuildStage) (documentId : UUID) (raised : Raised) :
    (stage.fail documentId raised).Failed := by
  rw [fail]
  cases raised.rebuildFailure? with
  | none => trivial
  | some failure => exact List.cons_ne_nil _ _

theorem Failed.over (h : stage.Failed) : stage.Over := by
  cases stage with
  | returned result => trivial
  | raised error => trivial
  | _ => cases h

theorem BeforeDelete.not_failed (h : stage.BeforeDelete) : ¬stage.Failed := by
  cases stage with
  | returned result => cases h
  | raised error => cases h
  | _ => exact not_false

theorem BeforeDelete.not_writing (h : stage.BeforeDelete) : ¬stage.Writing := by
  cases stage with
  | returned result => cases h
  | upsert records n remaining => cases h
  | _ => exact not_false

theorem Succeeded.not_failed (h : stage.Succeeded) : ¬stage.Failed := by
  cases stage with
  | returned result => exact not_not.mpr h
  | _ => cases h

theorem Succeeded.not_beforeDelete (h : stage.Succeeded) : ¬stage.BeforeDelete := by
  cases stage with
  | returned result => exact not_false
  | _ => cases h

theorem Succeeded.unsent (h : stage.Succeeded) : stage.unsent = [] := by
  cases stage with
  | returned result => rfl
  | _ => cases h

theorem embedding_beforeDelete (document : Document) (records : List VectorRecord)
    (remaining : List (List DocumentChunk)) : (embedding document records remaining).BeforeDelete := by
  cases remaining <;> trivial

theorem upserting_writing (records : List VectorRecord) (n : Nat) (remaining : List (List VectorRecord)) :
    (upserting records n remaining).Writing := by
  cases remaining with
  | nil => exact rfl
  | cons batch remaining => trivial

theorem upserting_unsent (records : List VectorRecord) (n : Nat) (remaining : List (List VectorRecord)) :
    (upserting records n remaining).unsent = remaining := by
  cases remaining <;> rfl

end RebuildStage

section Records
variable {knowledgeBaseId : UUID} {vectorOf : Str → EmbeddingVector} {c : DocumentChunk}
  {r r' : VectorRecord}

theorem RebuiltRecord.unique (h : RebuiltRecord knowledgeBaseId vectorOf c r)
    (h' : RebuiltRecord knowledgeBaseId vectorOf c r') : r = r' := by
  have hhash : r.contentHash = r'.contentHash :=
    Option.some.inj (h.contentHash.symm.trans h'.contentHash)
  have hvector := h.vectorId.trans h'.vectorId.symm
  have hembedding := h.embedding.trans h'.embedding.symm
  have hbase := h.knowledgeBaseId.trans h'.knowledgeBaseId.symm
  have hdocument := h.documentId.trans h'.documentId.symm
  have hchunk := h.chunkId.trans h'.chunkId.symm
  have hindex := h.chunkIndex.trans h'.chunkIndex.symm
  have htext := h.normalizedText.trans h'.normalizedText.symm
  cases r
  cases r'
  simp_all

/-- Records are made row by row, each with the vector at its place. -/
theorem makeVectorRecords_rebuilt {chunks : List DocumentChunk} {records : List VectorRecord}
    (h : makeVectorRecords knowledgeBaseId chunks (chunks.map fun c => vectorOf c.normalizedText) =
      .ok records) :
    List.Forall₂ (RebuiltRecord knowledgeBaseId vectorOf) chunks records := by
  rw [makeVectorRecords, if_neg (by rw [List.length_map, not_not])] at h
  have hall := mapM_eq_ok.mp h
  rw [← List.map_prod_left_eq_zip, List.forall₂_map_left_iff] at hall
  refine hall.imp fun c r hr => ?_
  dsimp only at hr
  split at hr
  · cases hr
  · rename_i hash hhash
    split at hr
    · rename_i record hrecord
      obtain rfl := Except.ok.inj hr
      obtain ⟨h₁, h₂, h₃, h₄, h₅, h₆, h₇, h₈⟩ := VectorRecord.mk?_fields hrecord
      exact ⟨⟨h₁, h₅, h₄, h₆, h₇, by rw [hhash, h₈]⟩, h₃, h₂⟩
    · cases hr

variable {document : Document} {rows : List DocumentChunk} {before after after' : VectorIndex}

/-- What a rebuild leaves does not depend on how it came about. -/
theorem Rebuilt.unique (h : Rebuilt document rows vectorOf before after)
    (h' : Rebuilt document rows vectorOf before after') : after = after' := by
  funext k
  by_cases hk : ∃ c ∈ rows, k = stableVectorId c.id
  · obtain ⟨c, hc, rfl⟩ := hk
    obtain ⟨r, hr, hrecord⟩ := h.chunks c hc
    obtain ⟨r', hr', hrecord'⟩ := h'.chunks c hc
    rw [hr, hr', hrecord.unique hrecord']
  · have hother : ∀ c ∈ rows, k ≠ stableVectorId c.id := fun c hc he => hk ⟨c, hc, he⟩
    apply Option.ext
    intro r
    by_cases hr : r.documentId = document.id
    · exact iff_of_false (fun hsome => hk (h.only k r hsome hr)) (fun hsome => hk (h'.only k r hsome hr))
    · rw [h.others k hother r hr, h'.others k hother r hr]

end Records

section Steps
variable {processes : Nat → RebuildProcess} {documentId : UUID} {s t : RebuildState} {run : RebuildRun}

/-- The steps of a run by their outcome, with the store and the stage that they leave. -/
inductive RunStep (processes : Nat → RebuildProcess) (documentId : UUID) (s : RebuildState)
    (run : RebuildRun) : RebuildAction → InMemoryVectorStore → RebuildStage → Prop where
  | initialized {store} (hstage : run.stage = .initializing)
      (hrecords : store.records = s.store.records) :
      RunStep processes documentId s run .initializeCollection store .load
  | loaded {document chunks} (hstage : run.stage = .load)
      (hload : loadRebuildDocument s.db documentId run.maxChunks = .ok (document, chunks)) :
      RunStep processes documentId s run .load s.store
        (.embedding document [] ((processes run.process).svc.batches chunks))
  | embedded {answer document records batch remaining made}
      (hstage : run.stage = .embed document records (batch :: remaining))
      (hmade : recordsForBatch (processes run.process).svc document batch answer = .ok made) :
      RunStep processes documentId s run (.embed answer) s.store
        (.embedding document (records ++ made) remaining)
  | deleted {records store} (hstage : run.stage = .delete records)
      (hstore : store.records = s.store.records.deleteByDocument documentId) :
      RunStep processes documentId s run .delete store
        (.upserting records 0 ((processes run.process).svc.batches records))
  | upserted {records n batch remaining store} (hstage : run.stage = .upsert records n (batch :: remaining))
      (hnodup : (batch.map VectorRecord.vectorId).Nodup)
      (hstore : store.records = s.store.records.upsert batch) :
      RunStep processes documentId s run .upsert store
        (.upserting records (n + batch.length) remaining)
  | failed {a stage} (hrunning : ¬run.stage.Over) (hfailed : stage.Failed) :
      RunStep processes documentId s run a s.store stage
  | lostDelete {raised records store stage} (hstage : run.stage = .delete records)
      (hstore : store.records = s.store.records.deleteByDocument documentId) (hfailed : stage.Failed) :
      RunStep processes documentId s run (.loseReply raised) store stage
  | lostUpsert {raised records n batch remaining store stage}
      (hstage : run.stage = .upsert records n (batch :: remaining))
      (hnodup : (batch.map VectorRecord.vectorId).Nodup)
      (hstore : store.records = s.store.records.upsert batch) (hfailed : stage.Failed) :
      RunStep processes documentId s run (.loseReply raised) store stage

theorem rebuildAct_cases {a : RebuildAction} {stage : RebuildStage}
    (h : rebuildAct processes documentId s run a = some (t, stage)) :
    t.db = s.db ∧ t.runs = s.runs ∧ RunStep processes documentId s run a t.store stage := by
  obtain ⟨process, maxChunks, from'⟩ := run
  cases a with
  | initializeCollection =>
    cases from' with
    | initializing =>
      simp only [rebuildAct] at h
      split at h
      · obtain ⟨rfl, rfl⟩ := Prod.mk.inj (Option.some.inj h)
        exact ⟨rfl, rfl, .initialized rfl rfl⟩
      · split at h
        · rename_i store hstore
          obtain ⟨rfl, rfl⟩ := Prod.mk.inj (Option.some.inj h)
          exact ⟨rfl, rfl, .initialized rfl (InMemoryVectorStore.initializeCollection_ok hstore)⟩
        · obtain ⟨rfl, rfl⟩ := Prod.mk.inj (Option.some.inj h)
          exact ⟨rfl, rfl, .failed not_false trivial⟩
    | _ => cases h
  | load =>
    cases from' with
    | load =>
      simp only [rebuildAct] at h
      split at h
      · rename_i hload
        obtain ⟨rfl, rfl⟩ := Prod.mk.inj (Option.some.inj h)
        exact ⟨rfl, rfl, .loaded rfl hload⟩
      · obtain ⟨rfl, rfl⟩ := Prod.mk.inj (Option.some.inj h)
        exact ⟨rfl, rfl, .failed not_false trivial⟩
    | _ => cases h
  | embed answer =>
    cases from' with
    | embed document records remaining =>
      cases remaining with
      | nil => cases h
      | cons batch remaining =>
        simp only [rebuildAct] at h
        split at h
        · rename_i made hmade
          obtain ⟨rfl, rfl⟩ := Prod.mk.inj (Option.some.inj h)
          exact ⟨rfl, rfl, .embedded rfl hmade⟩
        · obtain ⟨rfl, rfl⟩ := Prod.mk.inj (Option.some.inj h)
          exact ⟨rfl, rfl, .failed not_false (RebuildStage.fail_failed _ _ _)⟩
    | _ => cases h
  | delete =>
    cases from' with
    | delete records =>
      simp only [rebuildAct] at h
      split at h
      · rename_i store hstore
        obtain ⟨rfl, rfl⟩ := Prod.mk.inj (Option.some.inj h)
        exact ⟨rfl, rfl, .deleted rfl (InMemoryVectorStore.deleteByDocument_ok hstore)⟩
      · obtain ⟨rfl, rfl⟩ := Prod.mk.inj (Option.some.inj h)
        exact ⟨rfl, rfl, .failed not_false (RebuildStage.fail_failed _ _ _)⟩
    | _ => cases h
  | upsert =>
    cases from' with
    | upsert records n remaining =>
      cases remaining with
      | nil => cases h
      | cons batch remaining =>
        simp only [rebuildAct] at h
        split at h
        · rename_i store hstore
          obtain ⟨hnodup, hrecords⟩ := InMemoryVectorStore.upsert_ok hstore
          obtain ⟨rfl, rfl⟩ := Prod.mk.inj (Option.some.inj h)
          exact ⟨rfl, rfl, .upserted rfl hnodup hrecords⟩
        · obtain ⟨rfl, rfl⟩ := Prod.mk.inj (Option.some.inj h)
          exact ⟨rfl, rfl, .failed not_false (RebuildStage.fail_failed _ _ _)⟩
    | _ => cases h
  | interrupt raised =>
    cases from' with
    | returned result => cases h
    | raised error => cases h
    | initializing =>
      obtain ⟨rfl, rfl⟩ := Prod.mk.inj (Option.some.inj h)
      exact ⟨rfl, rfl, .failed not_false trivial⟩
    | load =>
      obtain ⟨rfl, rfl⟩ := Prod.mk.inj (Option.some.inj h)
      exact ⟨rfl, rfl, .failed not_false trivial⟩
    | _ =>
      obtain ⟨rfl, rfl⟩ := Prod.mk.inj (Option.some.inj h)
      exact ⟨rfl, rfl, .failed not_false (RebuildStage.fail_failed _ _ _)⟩
  | loseReply raised =>
    cases from' with
    | delete records =>
      simp only [rebuildAct] at h
      split at h
      · rename_i store hstore
        obtain ⟨rfl, rfl⟩ := Prod.mk.inj (Option.some.inj h)
        exact ⟨rfl, rfl, .lostDelete rfl (InMemoryVectorStore.deleteByDocument_ok hstore)
          (RebuildStage.fail_failed _ _ _)⟩
      · cases h
    | upsert records n remaining =>
      cases remaining with
      | nil => cases h
      | cons batch remaining =>
        simp only [rebuildAct] at h
        split at h
        · rename_i store hstore
          obtain ⟨hnodup, hrecords⟩ := InMemoryVectorStore.upsert_ok hstore
          obtain ⟨rfl, rfl⟩ := Prod.mk.inj (Option.some.inj h)
          exact ⟨rfl, rfl, .lostUpsert rfl hnodup hrecords (RebuildStage.fail_failed _ _ _)⟩
        · cases h
    | _ => cases h

theorem RunStep.running {a : RebuildAction} {store : InMemoryVectorStore} {stage : RebuildStage}
    (h : RunStep processes documentId s run a store stage) : ¬run.stage.Over := by
  cases h with
  | failed hrunning => exact hrunning
  | _ hstage =>
    rw [hstage]
    exact not_false

end Steps

section Invariant
variable {processes : Nat → RebuildProcess} {document : Document} {rows : List DocumentChunk}
  {vectorOf : Str → EmbeddingVector} {before : VectorIndex} {s t : RebuildState}

/-- The record of one of the rows. -/
def RecordOfRow (document : Document) (rows : List DocumentChunk) (vectorOf : Str → EmbeddingVector)
    (r : VectorRecord) : Prop :=
  ∃ c ∈ rows, RebuiltRecord document.knowledgeBaseId vectorOf c r

/-- The records of all the rows. -/
structure RecordsOfRows (document : Document) (rows : List DocumentChunk)
    (vectorOf : Str → EmbeddingVector) (records : List VectorRecord) : Prop where
  each : ∀ c ∈ rows, ∃ r ∈ records, RebuiltRecord document.knowledgeBaseId vectorOf c r
  only : ∀ r ∈ records, RecordOfRow document rows vectorOf r

/-- What a run holds: the records of the batches that it has embedded, then those of all rows. -/
def StageKept (document : Document) (rows : List DocumentChunk) (vectorOf : Str → EmbeddingVector) :
    RebuildStage → Prop
  | .embed document' records remaining => document' = document ∧ ∃ done,
      (done ++ remaining.flatten).Perm rows ∧
        List.Forall₂ (RebuiltRecord document.knowledgeBaseId vectorOf) done records
  | .delete records => RecordsOfRows document rows vectorOf records
  | .upsert records _ remaining => RecordsOfRows document rows vectorOf records ∧
      ∀ batch ∈ remaining, ∀ r ∈ batch, r ∈ records
  | _ => True

/-- What every step keeps: the document and its rows, what the runs hold, and the records of
other documents outside the ids of the rows. -/
structure RebuildKept (document : Document) (rows : List DocumentChunk)
    (vectorOf : Str → EmbeddingVector) (before : VectorIndex) (s : RebuildState) : Prop where
  found : s.db.documents.find? document.id = some document
  chunks : (s.db.chunksOf document.id).Perm rows
  stages : ∀ i run, s.runs i = some run → StageKept document rows vectorOf run.stage
  others : ∀ k, (∀ c ∈ rows, k ≠ stableVectorId c.id) → ∀ r, r.documentId ≠ document.id →
    (s.store.records k = some r ↔ before k = some r)

theorem recordsOfRows {done : List DocumentChunk} {records : List VectorRecord} (hperm : done.Perm rows)
    (h : List.Forall₂ (RebuiltRecord document.knowledgeBaseId vectorOf) done records) :
    RecordsOfRows document rows vectorOf records where
  each c hc := by
    obtain ⟨r, hr, hrecord⟩ := exists_of_forall₂_left h (hperm.mem_iff.mpr hc)
    exact ⟨r, hr, hrecord⟩
  only r hr := by
    obtain ⟨c, hc, hrecord⟩ := exists_of_forall₂ h hr
    exact ⟨c, hperm.mem_iff.mp hc, hrecord⟩

theorem stageKept_embedding {done : List DocumentChunk} {records : List VectorRecord}
    {remaining : List (List DocumentChunk)} (hperm : (done ++ remaining.flatten).Perm rows)
    (h : List.Forall₂ (RebuiltRecord document.knowledgeBaseId vectorOf) done records) :
    StageKept document rows vectorOf (.embedding document records remaining) := by
  cases remaining with
  | nil =>
    rw [List.flatten_nil, List.append_nil] at hperm
    exact recordsOfRows hperm h
  | cons batch remaining => exact ⟨rfl, done, hperm, h⟩

theorem stageKept_upserting {records : List VectorRecord} {remaining : List (List VectorRecord)} (n : Nat)
    (h : RecordsOfRows document rows vectorOf records)
    (hbatches : ∀ batch ∈ remaining, ∀ r ∈ batch, r ∈ records) :
    StageKept document rows vectorOf (.upserting records n remaining) := by
  cases remaining with
  | nil => trivial
  | cons batch remaining => exact ⟨h, hbatches⟩

theorem stageKept_failed {stage : RebuildStage} (h : stage.Failed) :
    StageKept document rows vectorOf stage := by
  cases stage with
  | returned result => trivial
  | raised error => trivial
  | _ => cases h

/-- A load that succeeds has every row of the document, in the order of the chunks. -/
theorem loadRebuildDocument_sorted {db : Database} {documentId : UUID} {maxChunks : Int}
    {document : Document} {chunks : List DocumentChunk}
    (h : loadRebuildDocument db documentId maxChunks = .ok (document, chunks)) :
    db.documents.find? documentId = some document ∧
      chunks = orderBy DocumentChunk.chunkIndex (db.chunksOf documentId) := by
  unfold loadRebuildDocument at h
  split at h
  · cases h
  rename_i found hfound
  split at h
  · cases h
  split at h
  · cases h
  rename_i rows hrows
  split at h
  · cases h
  rename_i hlength
  split at h
  · cases h
  split at h
  · cases h
  obtain ⟨rfl, rfl⟩ := Prod.mk.inj (Except.ok.inj h)
  refine ⟨hfound, ?_⟩
  rw [listForDocumentInternal] at hrows
  split at hrows
  · cases hrows
  obtain rfl := Except.ok.inj hrows
  rw [List.length_take] at hlength
  rw [List.take_of_length_le (by omega)]

theorem loadRebuildDocument_ok {db : Database} {documentId : UUID} {maxChunks : Int}
    {document : Document} {chunks : List DocumentChunk}
    (h : loadRebuildDocument db documentId maxChunks = .ok (document, chunks)) :
    db.documents.find? documentId = some document ∧ chunks.Perm (db.chunksOf documentId) := by
  obtain ⟨hfound, rfl⟩ := loadRebuildDocument_sorted h
  exact ⟨hfound, orderBy_perm _⟩

theorem recordsForBatch_ok {svc : IngestionProcessingService} {batch : List DocumentChunk}
    {answer : Except EmbeddingError Object} {made : List VectorRecord}
    (h : recordsForBatch svc document batch answer = .ok made)
    (hpointwise : ∀ vectors validated, answer = .ok vectors →
      validateEmbeddingBatch (batch.map DocumentChunk.normalizedText) vectors svc.embeddingDimension =
        .ok validated → validated = batch.map fun c => vectorOf c.normalizedText) :
    List.Forall₂ (RebuiltRecord document.knowledgeBaseId vectorOf) batch made := by
  obtain ⟨vectors, hanswer, hrest⟩ := bind_eq_ok.mp h
  obtain ⟨validated, hvalidated, hmade⟩ := bind_eq_ok.mp hrest
  obtain rfl := hpointwise vectors validated (mapError_eq_ok.mp hanswer) (mapError_eq_ok.mp hvalidated)
  exact makeVectorRecords_rebuilt hmade

/-- A run that takes a step goes on with records of the rows. -/
theorem RunStep.kept {i : Nat} {run : RebuildRun} {a : RebuildAction} {store : InMemoryVectorStore}
    {stage : RebuildStage} (hs : RebuildKept document rows vectorOf before s)
    (hrun : s.runs i = some run) (hpointwise : PointwiseEmbedding processes vectorOf s (.act i a))
    (h : RunStep processes document.id s run a store stage) : StageKept document rows vectorOf stage := by
  have hkept := hs.stages i run hrun
  cases h with
  | initialized => trivial
  | loaded hstage hload =>
    obtain ⟨hdocument, hchunks⟩ := loadRebuildDocument_ok hload
    obtain rfl := Option.some.inj (hs.found.symm.trans hdocument)
    refine stageKept_embedding ?_ .nil
    rw [List.nil_append, IngestionProcessingService.batches,
      slices_flatten (processes run.process).svc.rebuildBatchSize_pos]
    exact hchunks.trans hs.chunks
  | @embedded answer document' records batch remaining made hstage hmade =>
    rw [hstage] at hkept
    obtain ⟨hdocument, done, hperm, hdone⟩ := hkept
    subst document'
    have hbatch : List.Forall₂ (RebuiltRecord document.knowledgeBaseId vectorOf) batch made := by
      refine recordsForBatch_ok hmade fun vectors validated hanswer hvalidated => ?_
      subst hanswer
      exact hpointwise run document records batch remaining validated hrun hstage hvalidated
    have hbatches : (done ++ batch ++ remaining.flatten).Perm rows := by
      rw [List.append_assoc, ← List.flatten_cons]
      exact hperm
    exact stageKept_embedding hbatches (List.rel_append hdone hbatch)
  | deleted hstage hstore =>
    rw [hstage] at hkept
    exact stageKept_upserting 0 hkept fun batch hbatch r hr => mem_of_mem_slices hbatch hr
  | upserted hstage hnodup hstore =>
    rw [hstage] at hkept
    exact stageKept_upserting _ hkept.1 fun batch hbatch => hkept.2 batch (List.mem_cons_of_mem _ hbatch)
  | failed hrunning hfailed => exact stageKept_failed hfailed
  | lostDelete hstage hstore hfailed => exact stageKept_failed hfailed
  | lostUpsert hstage hnodup hstore hfailed => exact stageKept_failed hfailed

section Index
variable {index : VectorIndex} {batch : List VectorRecord}

theorem RecordOfRow.unique {r r' : VectorRecord} (hids : (rows.map DocumentChunk.id).Nodup)
    (h : RecordOfRow document rows vectorOf r) (h' : RecordOfRow document rows vectorOf r')
    (hid : r.vectorId = r'.vectorId) : r = r' := by
  obtain ⟨c, hc, hrecord⟩ := h
  obtain ⟨c', hc', hrecord'⟩ := h'
  rw [hrecord.vectorId, hrecord'.vectorId] at hid
  obtain rfl := List.inj_on_of_nodup_map hids hc hc' (stableVectorId_injective hid)
  exact hrecord.unique hrecord'

/-- Records of the rows stay clear of every other key. -/
theorem upsert_outside (hbatch : ∀ r ∈ batch, RecordOfRow document rows vectorOf r) {k : Str}
    (hk : ∀ c ∈ rows, k ≠ stableVectorId c.id) : index.upsert batch k = index k := by
  refine VectorIndex.upsert_of_not_mem fun r hr he => ?_
  obtain ⟨c, hc, hrecord⟩ := hbatch r hr
  exact hk c hc (he.symm.trans hrecord.vectorId)

/-- What is in the batch or in the index already is in the index after the batch. -/
theorem upsert_present {r : VectorRecord} (hids : (rows.map DocumentChunk.id).Nodup)
    (hbatch : ∀ r ∈ batch, RecordOfRow document rows vectorOf r)
    (hnodup : (batch.map VectorRecord.vectorId).Nodup) (hr : RecordOfRow document rows vectorOf r)
    (h : r ∈ batch ∨ index r.vectorId = some r) : index.upsert batch r.vectorId = some r := by
  by_cases hmem : r ∈ batch
  · exact VectorIndex.upsert_of_mem hnodup hmem
  · rw [VectorIndex.upsert_of_not_mem, h.resolve_left hmem]
    intro x hx hid
    exact hmem (RecordOfRow.unique hids (hbatch x hx) hr hid ▸ hx)

end Index

theorem RebuildKept.ids (h : RebuildKept document rows vectorOf before s) :
    (rows.map DocumentChunk.id).Nodup :=
  (h.chunks.map DocumentChunk.id).nodup_iff.mp
    (s.db.documentChunks.nodup.sublist (List.filter_sublist.map DocumentChunk.id))

/-- The batch that a run sends is one of its records. -/
theorem RebuildKept.batch {i n : Nat} {run : RebuildRun} {records batch : List VectorRecord}
    {remaining : List (List VectorRecord)} (h : RebuildKept document rows vectorOf before s)
    (hrun : s.runs i = some run) (hstage : run.stage = .upsert records n (batch :: remaining)) :
    ∀ r ∈ batch, RecordOfRow document rows vectorOf r := by
  intro r hr
  have hkept := h.stages i run hrun
  rw [hstage] at hkept
  exact hkept.1.only r (hkept.2 batch List.mem_cons_self r hr)

theorem deleteByDocument_other {index : VectorIndex} {d : UUID} {k : Str} {r : VectorRecord}
    (hr : r.documentId ≠ d) : index.deleteByDocument d k = some r ↔ index k = some r := by
  rw [VectorIndex.deleteByDocument_eq_some]
  exact and_iff_left hr

/-- A step of a run leaves the records of other documents, but for the ids of the rows. -/
theorem RunStep.others {i : Nat} {run : RebuildRun} {a : RebuildAction} {store : InMemoryVectorStore}
    {stage : RebuildStage} (hs : RebuildKept document rows vectorOf before s)
    (hrun : s.runs i = some run) (h : RunStep processes document.id s run a store stage) {k : Str}
    (hk : ∀ c ∈ rows, k ≠ stableVectorId c.id) {r : VectorRecord} (hr : r.documentId ≠ document.id) :
    store.records k = some r ↔ s.store.records k = some r := by
  cases h with
  | initialized hstage hrecords => rw [hrecords]
  | loaded | embedded | failed => exact Iff.rfl
  | deleted hstage hstore => rw [hstore, deleteByDocument_other hr]
  | upserted hstage hnodup hstore => rw [hstore, upsert_outside (hs.batch hrun hstage) hk]
  | lostDelete hstage hstore hfailed => rw [hstore, deleteByDocument_other hr]
  | lostUpsert hstage hnodup hstore hfailed => rw [hstore, upsert_outside (hs.batch hrun hstage) hk]

theorem rebuildStep_act {documentId : UUID} {i : Nat} {a : RebuildAction}
    (h : (rebuilds processes documentId).step s (.act i a) = some t) : ∃ run stage,
      s.runs i = some run ∧ RunStep processes documentId s run a t.store stage ∧ t.db = s.db ∧
        t.runs = Function.update s.runs i (some { run with stage }) := by
  obtain ⟨run, hrun, hrest⟩ := Option.bind_eq_some_iff.mp h
  obtain ⟨⟨u, stage⟩, hact, ht⟩ := Option.bind_eq_some_iff.mp hrest
  obtain ⟨hdb, hruns, hstep⟩ := rebuildAct_cases hact
  obtain rfl := Option.some.inj ht
  exact ⟨run, stage, hrun, hstep, hdb, by rw [← hruns]⟩

theorem rebuildStep_begin {documentId : UUID} {i process : Nat} {maxChunks : Int}
    (h : (rebuilds processes documentId).step s (.begin i process maxChunks) = some t) :
    s.runs i = none ∧ t.db = s.db ∧ t.store = s.store ∧ ∃ run,
      t.runs = Function.update s.runs i (some run) ∧
        (run.stage = .initializing ∨ run.stage = .raised .value) := by
  rw [rebuilds] at h
  simp only [rebuildStep] at h
  split at h
  · cases h
  · rename_i hnone
    obtain rfl := Option.some.inj h
    refine ⟨hnone, rfl, rfl, _, rfl, ?_⟩
    dsimp only
    split
    · exact .inr rfl
    · exact .inl rfl

theorem rebuildStep_change {documentId : UUID} {db : Database}
    (h : (rebuilds processes documentId).step s (.change db) = some t) :
    t = { s with db } ∧ db.documents.find? documentId = s.db.documents.find? documentId ∧
      (db.chunksOf documentId).Perm (s.db.chunksOf documentId) := by
  rw [rebuilds] at h
  simp only [rebuildStep] at h
  split at h
  · rename_i hsame
    exact ⟨(Option.some.inj h).symm, hsame.1, List.isPerm_iff.mp hsame.2⟩
  · cases h

/-- Every step keeps the invariant. -/
theorem rebuildStep_kept {a : RebuildLabel} (hs : RebuildKept document rows vectorOf before s)
    (hpointwise : PointwiseEmbedding processes vectorOf s a)
    (h : (rebuilds processes document.id).step s a = some t) :
    RebuildKept document rows vectorOf before t := by
  cases a with
  | change db =>
    obtain ⟨rfl, hfound, hchunks⟩ := rebuildStep_change h
    exact ⟨hfound.trans hs.found, hchunks.trans hs.chunks, hs.stages, hs.others⟩
  | begin i process maxChunks =>
    obtain ⟨_, hdb, hstore, run, hruns, hstage⟩ := rebuildStep_begin h
    refine ⟨hdb ▸ hs.found, hdb ▸ hs.chunks, fun j run' hrun' => ?_, hstore ▸ hs.others⟩
    rw [hruns] at hrun'
    rcases of_update_eq_some hrun' with ⟨_, hsame⟩ | hrun'
    · obtain rfl := Option.some.inj hsame
      rcases hstage with hstage | hstage <;> rw [hstage] <;> trivial
    · exact hs.stages j run' hrun'
  | act i a =>
    obtain ⟨run, stage, hrun, hstep, hdb, hruns⟩ := rebuildStep_act h
    refine ⟨hdb ▸ hs.found, hdb ▸ hs.chunks, fun j run' hrun' => ?_, fun k hk r hr => ?_⟩
    · rw [hruns] at hrun'
      rcases of_update_eq_some hrun' with ⟨_, hsame⟩ | hrun'
      · obtain rfl := Option.some.inj hsame
        exact hstep.kept hs hrun hpointwise
      · exact hs.stages j run' hrun'
    · rw [hstep.others hs hrun hk hr, hs.others k hk r hr]

/-- The labels of the runs in `A`, and the changes of other rows. -/
def RebuildLabel.Of (A : Nat → Prop) : RebuildLabel → Prop
  | .change _ => True
  | .begin i _ _ | .act i _ => A i

/-- How far the runs in `A` have come: one has failed, none has deleted yet, or the index has
nothing of the document but records of the rows, and lacks only what some run is still to send. -/
inductive Progress (document : Document) (rows : List DocumentChunk) (vectorOf : Str → EmbeddingVector)
    (A : Nat → Prop) (s : RebuildState) : Prop where
  | failed {i run} (hi : A i) (hrun : s.runs i = some run) (hfailed : run.stage.Failed)
  | before (h : ∀ i run, A i → s.runs i = some run → run.stage.BeforeDelete)
  | after {i run} (hi : A i) (hrun : s.runs i = some run) (hwriting : run.stage.Writing)
      (heach : ∀ c ∈ rows, ∃ r, RebuiltRecord document.knowledgeBaseId vectorOf c r)
      (hclean : ∀ k r, s.store.records k = some r → r.documentId = document.id →
        RecordOfRow document rows vectorOf r ∧ r.vectorId = k)
      (hsent : ∀ r, RecordOfRow document rows vectorOf r → (∀ batch ∈ run.stage.unsent, r ∉ batch) →
        s.store.records r.vectorId = some r)

section Progress
variable {A : Nat → Prop} {i : Nat} {run : RebuildRun} {stage : RebuildStage}

/-- A run that fails, of those in `A`. -/
theorem Progress.fails (hi : A i) (hruns : t.runs = Function.update s.runs i (some { run with stage }))
    (hfailed : stage.Failed) : Progress document rows vectorOf A t := by
  have hown : t.runs i = some { run with stage } := by rw [hruns, Function.update_self]
  exact .failed hi hown hfailed

/-- The run that takes a step is not one that is in another stage. -/
theorem runs_of_ne {j : Nat} {run' : RebuildRun}
    (hruns : t.runs = Function.update s.runs i (some { run with stage })) (hrun : s.runs i = some run)
    (hrun' : s.runs j = some run') (hne : run'.stage ≠ run.stage) : t.runs j = some run' := by
  rw [hruns, Function.update_of_ne, hrun']
  rintro rfl
  obtain rfl := Option.some.inj (hrun.symm.trans hrun')
  exact hne rfl

/-- A step before the deletion leaves the index alone. -/
theorem Progress.prepares (hp : Progress document rows vectorOf A s)
    (hrun : s.runs i = some run) (hbefore : run.stage.BeforeDelete)
    (hruns : t.runs = Function.update s.runs i (some { run with stage }))
    (hstage : stage.BeforeDelete) (hrecords : t.store.records = s.store.records) :
    Progress document rows vectorOf A t := by
  cases hp with
  | @failed j run' hj hrun' hfailed =>
    have hne : run'.stage ≠ run.stage := fun heq => hbefore.not_failed (heq ▸ hfailed)
    exact .failed hj (runs_of_ne hruns hrun hrun' hne) hfailed
  | before h =>
    refine .before fun j run' hj hrun' => ?_
    rw [hruns] at hrun'
    rcases of_update_eq_some hrun' with ⟨_, hsame⟩ | hrun'
    · obtain rfl := Option.some.inj hsame
      exact hstage
    · exact h j run' hj hrun'
  | @after j run' hj hrun' hwriting heach hclean hsent =>
    have hne : run'.stage ≠ run.stage := fun heq => hbefore.not_writing (heq ▸ hwriting)
    exact .after hj (runs_of_ne hruns hrun hrun' hne) hwriting heach (hrecords ▸ hclean)
      (hrecords ▸ hsent)

/-- After a deletion the index has nothing of the document, and its run sends everything. -/
theorem Progress.deletes {records : List VectorRecord} {remaining : List (List VectorRecord)} {n : Nat}
    (hi : A i) (hrecords : RecordsOfRows document rows vectorOf records)
    (hall : remaining.flatten = records)
    (hruns : t.runs = Function.update s.runs i (some { run with stage := .upserting records n remaining }))
    (hstore : t.store.records = s.store.records.deleteByDocument document.id) :
    Progress document rows vectorOf A t := by
  have hown : t.runs i = some { run with stage := .upserting records n remaining } := by
    rw [hruns, Function.update_self]
  refine .after hi hown (RebuildStage.upserting_writing records n remaining) (fun c hc => ?_)
    (fun k r hr hdocument => ?_) (fun r hr hunsent => ?_)
  · obtain ⟨r, _, hrecord⟩ := hrecords.each c hc
    exact ⟨r, hrecord⟩
  · rw [hstore, VectorIndex.deleteByDocument_eq_some] at hr
    exact absurd hdocument hr.2
  · rw [RebuildStage.upserting_unsent] at hunsent
    obtain ⟨c, hc, hrecord⟩ := hr
    obtain ⟨r', hr', hrecord'⟩ := hrecords.each c hc
    obtain rfl := hrecord.unique hrecord'
    rw [← hall] at hr'
    obtain ⟨batch, hbatch, hmem⟩ := List.mem_flatten.mp hr'
    exact absurd hmem (hunsent batch hbatch)

/-- A batch adds records of the rows only, and the run that sends it lacks them no longer. -/
theorem Progress.upserts {records batch : List VectorRecord} {remaining : List (List VectorRecord)}
    {n m : Nat} (hs : RebuildKept document rows vectorOf before s)
    (hp : Progress document rows vectorOf A s) (hi : A i) (hrun : s.runs i = some run)
    (hstage : run.stage = .upsert records n (batch :: remaining))
    (hnodup : (batch.map VectorRecord.vectorId).Nodup)
    (hruns : t.runs = Function.update s.runs i (some { run with stage := .upserting records m remaining }))
    (hstore : t.store.records = s.store.records.upsert batch) :
    Progress document rows vectorOf A t := by
  have hbatch := hs.batch hrun hstage
  have hown : t.runs i = some { run with stage := .upserting records m remaining } := by
    rw [hruns, Function.update_self]
  cases hp with
  | @failed j run' hj hrun' hfailed =>
    have hne : run'.stage ≠ run.stage := by
      intro heq
      rw [heq, hstage] at hfailed
      exact hfailed
    exact .failed hj (runs_of_ne hruns hrun hrun' hne) hfailed
  | before h =>
    have hbefore := h i run hi hrun
    rw [hstage] at hbefore
    exact hbefore.elim
  | @after j run' hj hrun' hwriting heach hclean hsent =>
    have hclean' : ∀ k r, t.store.records k = some r → r.documentId = document.id →
        RecordOfRow document rows vectorOf r ∧ r.vectorId = k := by
      intro k r hr hdocument
      rw [hstore] at hr
      rcases VectorIndex.upsert_eq_some hnodup hr with ⟨hmem, hid⟩ | ⟨_, hold⟩
      · exact ⟨hbatch r hmem, hid⟩
      · exact hclean k r hold hdocument
    by_cases hsame : j = i
    · subst hsame
      obtain rfl := Option.some.inj (hrun.symm.trans hrun')
      refine .after hj hown (RebuildStage.upserting_writing records m remaining) heach hclean'
        fun r hr hunsent => ?_
      rw [RebuildStage.upserting_unsent] at hunsent
      rw [hstore]
      refine upsert_present hs.ids hbatch hnodup hr ?_
      by_cases hmem : r ∈ batch
      · exact .inl hmem
      · refine .inr (hsent r hr ?_)
        rw [hstage]
        exact List.forall_mem_cons.mpr ⟨hmem, hunsent⟩
    · have hrun'' : t.runs j = some run' := by rw [hruns, Function.update_of_ne hsame, hrun']
      refine .after hj hrun'' hwriting heach hclean' fun r hr hunsent => ?_
      rw [hstore]
      exact upsert_present hs.ids hbatch hnodup hr (.inr (hsent r hr hunsent))

theorem rebuildStep_progress {a : RebuildLabel} (hs : RebuildKept document rows vectorOf before s)
    (hp : Progress document rows vectorOf A s) (ha : a.Of A)
    (h : (rebuilds processes document.id).step s a = some t) :
    Progress document rows vectorOf A t := by
  cases a with
  | change db =>
    obtain ⟨rfl, _⟩ := rebuildStep_change h
    cases hp with
    | failed hi hrun hfailed => exact .failed hi hrun hfailed
    | before h => exact .before h
    | after hi hrun hwriting heach hclean hsent => exact .after hi hrun hwriting heach hclean hsent
  | begin i process maxChunks =>
    obtain ⟨hnone, _, hstore, run, hruns, hstage⟩ := rebuildStep_begin h
    have hother : ∀ j run', s.runs j = some run' → t.runs j = some run' := by
      intro j run' hrun'
      rw [hruns, Function.update_of_ne, hrun']
      rintro rfl
      rw [hnone] at hrun'
      cases hrun'
    have hown : t.runs i = some run := by rw [hruns, Function.update_self]
    cases hp with
    | failed hj hrun' hfailed => exact .failed hj (hother _ _ hrun') hfailed
    | before h =>
      rcases hstage with hstage | hstage
      · refine .before fun j run' hj hrun' => ?_
        rw [hruns] at hrun'
        rcases of_update_eq_some hrun' with ⟨_, hsame⟩ | hrun'
        · obtain rfl := Option.some.inj hsame
          rw [hstage]
          trivial
        · exact h j run' hj hrun'
      · exact .failed ha hown (hstage ▸ trivial)
    | after hj hrun' hwriting heach hclean hsent =>
      exact .after hj (hother _ _ hrun') hwriting heach (hstore ▸ hclean) (hstore ▸ hsent)
  | act i a =>
    obtain ⟨run, stage, hrun, hstep, _, hruns⟩ := rebuildStep_act h
    have hkept := hs.stages i run hrun
    generalize hafter : t.store = store at hstep
    cases hstep with
    | initialized hstage hrecords =>
      exact hp.prepares hrun (hstage ▸ trivial) hruns trivial (hafter ▸ hrecords)
    | loaded hstage hload =>
      exact hp.prepares hrun (hstage ▸ trivial) hruns (RebuildStage.embedding_beforeDelete _ _ _)
        (by rw [hafter])
    | embedded hstage hmade =>
      exact hp.prepares hrun (hstage ▸ trivial) hruns (RebuildStage.embedding_beforeDelete _ _ _)
        (by rw [hafter])
    | deleted hstage hstore =>
      rw [hstage] at hkept
      exact .deletes ha hkept (slices_flatten (processes run.process).svc.rebuildBatchSize_pos _) hruns
        (hafter ▸ hstore)
    | upserted hstage hnodup hstore => exact hp.upserts hs ha hrun hstage hnodup hruns (hafter ▸ hstore)
    | failed hrunning hfailed => exact .fails ha hruns hfailed
    | lostDelete hstage hstore hfailed => exact .fails ha hruns hfailed
    | lostUpsert hstage hnodup hstore hfailed => exact .fails ha hruns hfailed

end Progress

/-- The run has not come to its deletion. -/
def RebuildLabel.Spares (i : Nat) : RebuildLabel → Prop
  | .act j .delete | .act j (.loseReply _) => j ≠ i
  | _ => True

/-- One run, from its call to its result, while no other run takes a step. -/
def SucceedsAlone (processes : Nat → RebuildProcess) (documentId : UUID)
    (vectorOf : Str → EmbeddingVector) (i : Nat) (s t : RebuildState) : Prop :=
  s.runs i = none ∧ ∃ as run, (∀ a ∈ as, a.Of (· = i)) ∧
    (rebuilds processes documentId).Allowed (PointwiseEmbedding processes vectorOf) s as ∧
    (rebuilds processes documentId).run s as = some t ∧ t.runs i = some run ∧ run.stage.Succeeded

section Runs
variable {A : Nat → Prop} {as : List RebuildLabel}

theorem RebuildKept.init (hfound : s.db.documents.find? document.id = some document)
    (hidle : ∀ i, s.runs i = none) :
    RebuildKept document (s.db.chunksOf document.id) vectorOf s.store.records s where
  found := hfound
  chunks := .refl _
  stages i run hrun := by
    rw [hidle i] at hrun
    cases hrun
  others _ _ _ _ := Iff.rfl

theorem rebuilds_kept (hs : RebuildKept document rows vectorOf before s)
    (hpointwise : (rebuilds processes document.id).Allowed (PointwiseEmbedding processes vectorOf) s as)
    (hrun : (rebuilds processes document.id).run s as = some t) :
    RebuildKept document rows vectorOf before t :=
  Machine.run_invariant_of_allowed (fun _ _ _ hkept hlabel hstep => rebuildStep_kept hkept hlabel hstep)
    hs hpointwise hrun

/-- Once every run in `A` that was called has succeeded, the index is rebuilt. -/
theorem rebuilt_of_succeeded (hs : RebuildKept document rows vectorOf before s)
    (hidle : ∀ i, A i → s.runs i = none) (hA : ∀ a ∈ as, a.Of A)
    (hpointwise : (rebuilds processes document.id).Allowed (PointwiseEmbedding processes vectorOf) s as)
    (hrun : (rebuilds processes document.id).run s as = some t)
    (hcalled : ∃ i run, A i ∧ t.runs i = some run)
    (hsucceeded : ∀ i run, A i → t.runs i = some run → run.stage.Succeeded) :
    Rebuilt document rows vectorOf before t.store.records := by
  have hstart : Progress document rows vectorOf A s := by
    refine .before fun i run hi hrun => ?_
    rw [hidle i hi] at hrun
    cases hrun
  have hboth : RebuildKept document rows vectorOf before t ∧ Progress document rows vectorOf A t := by
    refine Machine.run_invariant_of_allowed
      (I := fun s => RebuildKept document rows vectorOf before s ∧ Progress document rows vectorOf A s)
      (fun r a u hI hC hstep => ?_) ⟨hs, hstart⟩ (hpointwise.and_forall hA) hrun
    exact ⟨rebuildStep_kept hI.1 hC.1 hstep, rebuildStep_progress hI.1 hI.2 hC.2 hstep⟩
  obtain ⟨hkept, hprogress⟩ := hboth
  cases hprogress with
  | failed hi hrun hfailed => exact absurd hfailed (hsucceeded _ _ hi hrun).not_failed
  | before h =>
    obtain ⟨i, run, hi, hrun⟩ := hcalled
    exact absurd (h i run hi hrun) (hsucceeded i run hi hrun).not_beforeDelete
  | @after i run hi hrun hwriting heach hclean hsent =>
    refine ⟨fun c hc => ?_, fun k r hr hdocument => ?_, hkept.others⟩
    · obtain ⟨r, hrecord⟩ := heach c hc
      refine ⟨r, hrecord.vectorId ▸ hsent r ⟨c, hc, hrecord⟩ ?_, hrecord⟩
      rw [(hsucceeded i run hi hrun).unsent]
      exact List.forall_mem_nil _
    · obtain ⟨⟨c, hc, hrecord⟩, hid⟩ := hclean k r hr hdocument
      exact ⟨c, hc, hid.symm.trans hrecord.vectorId⟩

theorem SucceedsAlone.rebuilt {i : Nat} (hs : RebuildKept document rows vectorOf before s)
    (h : SucceedsAlone processes document.id vectorOf i s t) :
    Rebuilt document rows vectorOf before t.store.records := by
  obtain ⟨hnone, as, run, hlabels, hpointwise, hrun, hfound, hsucceeded⟩ := h
  refine rebuilt_of_succeeded hs ?_ hlabels hpointwise hrun ⟨i, run, rfl, hfound⟩ ?_
  · rintro _ rfl
    exact hnone
  · rintro _ run' rfl hrun'
    obtain rfl := Option.some.inj (hfound.symm.trans hrun')
    exact hsucceeded

/-- Runs that take no step stay as they are. -/
theorem runs_outside {documentId : UUID} {i : Nat} (hi : ¬A i) (hA : ∀ a ∈ as, a.Of A)
    (hrun : (rebuilds processes documentId).run s as = some t) : t.runs i = s.runs i := by
  refine Machine.run_invariant_of_allowed (C := fun _ a => a.Of A) (I := fun r => r.runs i = s.runs i)
    (fun r a u hr ha hstep => ?_) rfl (Machine.allowed_of_forall fun a ha _ => hA a ha) hrun
  rw [← hr]
  cases a with
  | change db =>
    obtain ⟨rfl, _⟩ := rebuildStep_change hstep
    rfl
  | begin j process maxChunks =>
    obtain ⟨_, _, _, run, hruns, _⟩ := rebuildStep_begin hstep
    rw [hruns, Function.update_of_ne]
    rintro rfl
    exact hi ha
  | act j a =>
    obtain ⟨run, stage, _, _, _, hruns⟩ := rebuildStep_act hstep
    rw [hruns, Function.update_of_ne]
    rintro rfl
    exact hi ha

/-- A run that never came to its deletion has not deleted: it is before it, or over. -/
theorem spared_step {documentId : UUID} {i : Nat} {a : RebuildLabel} (ha : a.Spares i)
    (h : ∀ run, s.runs i = some run → run.stage.BeforeDelete ∨ run.stage.Over)
    (hstep : (rebuilds processes documentId).step s a = some t) :
    ∀ run, t.runs i = some run → run.stage.BeforeDelete ∨ run.stage.Over := by
  intro run hrun
  cases a with
  | change db =>
    obtain ⟨rfl, _⟩ := rebuildStep_change hstep
    exact h run hrun
  | begin j process maxChunks =>
    obtain ⟨_, _, _, run', hruns, hstage⟩ := rebuildStep_begin hstep
    rw [hruns] at hrun
    rcases of_update_eq_some hrun with ⟨_, hsame⟩ | hrun
    · obtain rfl := Option.some.inj hsame
      rcases hstage with hstage | hstage
      · exact .inl (hstage ▸ trivial)
      · exact .inr (hstage ▸ trivial)
    · exact h run hrun
  | act j a =>
    obtain ⟨run', stage, hrun', hact, _, hruns⟩ := rebuildStep_act hstep
    generalize t.store = store at hact
    rw [hruns] at hrun
    rcases of_update_eq_some hrun with ⟨rfl, hsame⟩ | hrun
    · obtain rfl := Option.some.inj hsame
      cases hact with
      | initialized => exact .inl trivial
      | loaded | embedded => exact .inl (RebuildStage.embedding_beforeDelete _ _ _)
      | deleted => exact absurd rfl ha
      | upserted hstage =>
        have hbefore := h run' hrun'
        rw [hstage] at hbefore
        exact (hbefore.elim id id).elim
      | failed hrunning hfailed => exact .inr hfailed.over
      | lostDelete => exact absurd rfl ha
      | lostUpsert => exact absurd rfl ha
    · exact h run hrun

/-- Until its deletion a run leaves the index as it is. -/
theorem spared_records {documentId : UUID} {i : Nat} {a : RebuildAction}
    (ha : (RebuildLabel.act i a).Spares i)
    (h : ∀ run, s.runs i = some run → run.stage.BeforeDelete ∨ run.stage.Over)
    (hstep : (rebuilds processes documentId).step s (.act i a) = some t) :
    t.store.records = s.store.records := by
  obtain ⟨run, stage, hrun, hact, _, _⟩ := rebuildStep_act hstep
  generalize t.store = store at hact
  cases hact with
  | initialized _ hrecords => exact hrecords
  | loaded | embedded | failed => rfl
  | deleted => exact absurd rfl ha
  | upserted hstage =>
    have hbefore := h run hrun
    rw [hstage] at hbefore
    exact (hbefore.elim id id).elim
  | lostDelete => exact absurd rfl ha
  | lostUpsert => exact absurd rfl ha

end Runs
end Invariant

/-- When all of the runs succeed, in whatever order they took their steps, the index is rebuilt,
as each run alone would have done. Whatever failed or was interrupted, one later run alone does the
same; and a run leaves the index as it is until its deletion. -/
theorem rebuilds_converge {processes : Nat → RebuildProcess} {documentId : UUID} {document : Document}
    {vectorOf : Str → EmbeddingVector} {s t : RebuildState} {as : List RebuildLabel}
    (hdocument : s.db.documents.find? documentId = some document) (hidle : ∀ i, s.runs i = none)
    (hpointwise : (rebuilds processes documentId).Allowed (PointwiseEmbedding processes vectorOf) s as)
    (hrun : (rebuilds processes documentId).run s as = some t) :
    ((∃ i run, t.runs i = some run) → (∀ i run, t.runs i = some run → run.stage.Succeeded) →
      Rebuilt document (s.db.chunksOf documentId) vectorOf s.store.records t.store.records ∧
        ∀ i u, SucceedsAlone processes documentId vectorOf i s u → t.store.records = u.store.records) ∧
    (∀ i u, SucceedsAlone processes documentId vectorOf i t u →
      Rebuilt document (s.db.chunksOf documentId) vectorOf s.store.records u.store.records) ∧
    ∀ i a u, (∀ b ∈ as, b.Spares i) → (RebuildLabel.act i a).Spares i →
      (rebuilds processes documentId).step t (.act i a) = some u →
      u.store.records = t.store.records := by
  obtain rfl := Table.find?_key hdocument
  have hinit : RebuildKept document (s.db.chunksOf document.id) vectorOf s.store.records s :=
    .init hdocument hidle
  refine ⟨fun ⟨i, run, hcalled⟩ hsucceeded => ?_, fun i u halone => ?_, fun i a u has ha hstep => ?_⟩
  · have hrebuilt : Rebuilt document (s.db.chunksOf document.id) vectorOf s.store.records
        t.store.records := by
      refine rebuilt_of_succeeded (A := fun _ => True) hinit (fun i _ => hidle i) (fun a _ => ?_)
        hpointwise hrun ⟨i, run, trivial, hcalled⟩ fun i run _ => hsucceeded i run
      cases a <;> trivial
    exact ⟨hrebuilt, fun i u halone => hrebuilt.unique (halone.rebuilt hinit)⟩
  · exact halone.rebuilt (rebuilds_kept hinit hpointwise hrun)
  · refine spared_records ha ?_ hstep
    refine Machine.run_invariant_of_allowed (fun r b v h hb hv => spared_step hb h hv) ?_
      (Machine.allowed_of_forall fun b hb _ => has b hb) hrun
    intro run hfound
    rw [hidle i] at hfound
    cases hfound

section Example

def rebuildRow (id : UUID) (chunkIndex : Nat) : DocumentChunk where
  id := id
  documentId := 2
  chunkIndex := chunkIndex
  normalizedText := str "text"
  tokenCount := 1
  contentSha256 := some (List.replicate 64 (ord '0'))
  startOffset := none
  endOffset := none
  pageStart := none
  pageEnd := none

def rebuildRecord (documentId chunkId : UUID) : VectorRecord where
  vectorId := stableVectorId chunkId
  embedding := [⟨1⟩]
  knowledgeBaseId := 3
  documentId := documentId
  chunkId := chunkId
  chunkIndex := 0
  normalizedText := str "text"
  contentHash := List.replicate 64 (ord '0')
  vectorId_eq := rfl
  text_nonblank := by decide
  contentHash_hex := by decide
  embedding_nonempty := List.cons_ne_nil _ _
  embedding_finite := by decide

/-- A completed document with two rows, and what the index holds so far. -/
def rebuildStart (records : List VectorRecord) : RebuildState where
  db := { exampleDatabase with
    documents := ⟨[{ exampleDocument with status := .completed }], List.nodup_singleton _⟩
    documentChunks := ⟨[rebuildRow 7 0, rebuildRow 8 1], by decide⟩ }
  store := ⟨none, none, VectorIndex.empty.upsert records⟩
  initialized _ := false
  runs _ := none

/-- Processes of every batch size. -/
def rebuildProcess (n : Nat) : RebuildProcess where
  svc := { exampleService with rebuildBatchSize := n + 1, rebuildBatchSize_pos := n.succ_pos }
  modelId := str "model"

def constantAnswer (n : Nat) : Object := .tuple (.replicate n (.tuple [.float ⟨0⟩]))

/-- The second run deletes between the two batches of the first. -/
def overlappingRebuilds : List RebuildLabel :=
  [.begin 0 0 2, .begin 1 1 2, .act 0 .initializeCollection, .act 1 .initializeCollection, .act 0 .load,
    .act 1 .load, .act 0 (.embed (.ok (constantAnswer 1))), .act 1 (.embed (.ok (constantAnswer 2))),
    .act 0 (.embed (.ok (constantAnswer 1))), .act 0 .delete, .act 0 .upsert, .act 1 .delete,
    .act 0 .upsert, .act 1 .upsert]

theorem constantAnswer_pointwise (s : RebuildState) (i n : Nat) :
    PointwiseEmbedding rebuildProcess (fun _ => [⟨0⟩]) s (.act i (.embed (.ok (constantAnswer n)))) := by
  intro run document records batch remaining validated _ _ hvalidated
  have hlength := (validateEmbeddingBatch_ok hvalidated).2.1
  rw [List.length_map] at hlength
  rw [List.map_const', ← hlength, List.eq_replicate_iff]
  refine ⟨rfl, fun vector hvector => ?_⟩
  rw [validateEmbeddingBatch] at hvalidated
  split at hvalidated
  · cases hvalidated
  simp only [constantAnswer, Object.sequence?] at hvalidated
  split at hvalidated
  · cases hvalidated
  obtain ⟨entry, hentry, hvector⟩ := exists_of_forall₂ (mapM_eq_ok.mp hvalidated) hvector
  obtain rfl := List.eq_of_mem_replicate hentry
  simp only [validateVector, Object.sequence?] at hvector
  split at hvector
  · cases hvector
  · exact (Except.ok.inj hvector).symm

theorem overlappingRebuilds_pointwise (s : RebuildState) :
    (rebuilds rebuildProcess 2).Allowed (PointwiseEmbedding rebuildProcess fun _ => [⟨0⟩]) s
      overlappingRebuilds := by
  refine Machine.allowed_of_forall fun a ha r => ?_
  simp only [overlappingRebuilds, List.mem_cons, List.not_mem_nil, or_false] at ha
  rcases ha with rfl | rfl | rfl | rfl | rfl | rfl | rfl | rfl | rfl | rfl | rfl | rfl | rfl | rfl
  all_goals first | trivial | exact constantAnswer_pointwise r _ _

/-- What the runs in question leave: each has succeeded, and the others were never called. -/
theorem succeeded_of_list {s t : RebuildState} {as : List RebuildLabel} {called : List Nat}
    (hidle : ∀ i, s.runs i = none) (hA : ∀ a ∈ as, a.Of (· ∈ called))
    (hrun : (rebuilds rebuildProcess 2).run s as = some t)
    (h : ∀ i ∈ called, (t.runs i).any fun run => run.stage.Succeeded) :
    ∀ i run, t.runs i = some run → run.stage.Succeeded := by
  intro i run hfound
  by_cases hi : i ∈ called
  · have hany := h i hi
    rw [hfound] at hany
    exact of_decide_eq_true hany
  · rw [runs_outside hi hA hrun, hidle i] at hfound
    cases hfound

theorem rebuilds_converge_example : ∃ t,
    (rebuilds rebuildProcess 2).run (rebuildStart [rebuildRecord 2 6, rebuildRecord 9 5])
      overlappingRebuilds = some t ∧
    Rebuilt { exampleDocument with status := .completed } [rebuildRow 7 0, rebuildRow 8 1]
      (fun _ => [⟨0⟩]) (VectorIndex.empty.upsert [rebuildRecord 2 6, rebuildRecord 9 5])
      t.store.records := by
  have hany : ((rebuilds rebuildProcess 2).run (rebuildStart [rebuildRecord 2 6, rebuildRecord 9 5])
      overlappingRebuilds).any fun t => [0, 1].all fun i => (t.runs i).any fun run =>
        run.stage.Succeeded := by decide +kernel
  obtain ⟨t, hrun, hcalled⟩ := Option.any_eq_true _ _ |>.mp hany
  have hsucceeded := succeeded_of_list (fun _ => rfl) (by simp [overlappingRebuilds, RebuildLabel.Of])
    hrun (List.all_eq_true.mp hcalled)
  have hfirst := List.all_eq_true.mp hcalled 0 List.mem_cons_self
  obtain ⟨run, hfound, _⟩ := Option.any_eq_true _ _ |>.mp hfirst
  exact ⟨t, hrun, ((rebuilds_converge rfl (fun _ => rfl) (overlappingRebuilds_pointwise _) hrun).1
    ⟨0, run, hfound⟩ hsucceeded).1⟩

/-- A record of another document under the id of a row is replaced. -/
theorem rebuilds_converge_fails : ¬∀ (processes : Nat → RebuildProcess) (documentId : UUID)
    (document : Document) (vectorOf : Str → EmbeddingVector) (s t : RebuildState)
    (as : List RebuildLabel), s.db.documents.find? documentId = some document →
    document.status = .completed → (∀ i, s.runs i = none) →
    (rebuilds processes documentId).Allowed (PointwiseEmbedding processes vectorOf) s as →
    (rebuilds processes documentId).run s as = some t → (∃ i run, t.runs i = some run) →
    (∀ i run, t.runs i = some run → run.stage.Succeeded) →
    ∀ k r, r.documentId ≠ documentId → (t.store.records k = some r ↔ s.store.records k = some r) := by
  intro h
  have hany : ((rebuilds rebuildProcess 2).run (rebuildStart [rebuildRecord 9 7])
      overlappingRebuilds).any fun t => ([0, 1].all fun i => (t.runs i).any fun run =>
        run.stage.Succeeded) && (t.store.records (stableVectorId 7)).all fun r => r.documentId = 2 := by
    decide +kernel
  obtain ⟨t, hrun, hfinal⟩ := Option.any_eq_true _ _ |>.mp hany
  obtain ⟨hcalled, hreplaced⟩ := Bool.and_eq_true_iff.mp hfinal
  have hsucceeded := succeeded_of_list (fun _ => rfl) (by simp [overlappingRebuilds, RebuildLabel.Of])
    hrun (List.all_eq_true.mp hcalled)
  have hfirst := List.all_eq_true.mp hcalled 0 List.mem_cons_self
  obtain ⟨run, hfound, _⟩ := Option.any_eq_true _ _ |>.mp hfirst
  have hkept := (h rebuildProcess 2 _ (fun _ => [⟨0⟩]) _ t _ rfl rfl (fun _ => rfl)
    (overlappingRebuilds_pointwise _) hrun ⟨0, run, hfound⟩ hsucceeded (stableVectorId 7)
    (rebuildRecord 9 7) (by decide)).mpr (VectorIndex.upsert_of_mem (by decide) List.mem_cons_self)
  rw [hkept] at hreplaced
  exact absurd hreplaced (by decide)

end Example
end AgenticRag.Services

import AgenticRag.Services.LeaseFencing

/-! Completed documents and the vector index. The index is outside the fence: a request that
waits past its lease lands in the vectors of whoever holds the job by then. -/
namespace AgenticRag.Services
open Lib Python Db Ingestion Security

/-- The record a chunk row is indexed by. -/
structure RecordOf (c : DocumentChunk) (r : VectorRecord) : Prop where
  vectorId : r.vectorId = stableVectorId c.id
  chunkId : r.chunkId = c.id
  documentId : r.documentId = c.documentId
  chunkIndex : r.chunkIndex = c.chunkIndex
  normalizedText : r.normalizedText = c.normalizedText
  contentHash : c.contentSha256 = some r.contentHash

/-- One record for each row, under the row's stable id, and no other record of the document. -/
structure IndexedExactly (index : VectorIndex) (documentId : UUID) (rows : List DocumentChunk) :
    Prop where
  present : ∀ c ∈ rows, ∃ r, index (stableVectorId c.id) = some r ∧ RecordOf c r
  only : ∀ k r, index k = some r → r.documentId = documentId →
    ∃ c ∈ rows, k = stableVectorId c.id ∧ RecordOf c r

def CompletedIndexed (s : WorkerState) : Prop :=
  ∀ document ∈ s.db.documents, document.status = .completed →
    IndexedExactly s.index document.id (s.db.chunksOf document.id)

/-- The rows a call indexes, their records and the batches still to be sent, from its deletion of
the old vectors on. -/
def Work.indexing? : Work → Option (List DocumentChunk × List VectorRecord × List (List VectorRecord))
  | .upsertVectors rows records remaining => some (rows, records, remaining)
  | .completeSuccess rows records => some (rows, records, [])
  | _ => none

/-- The vectors of a document are settled, or being written by the holder of its claim. -/
def VectorsTaken (s : WorkerState) (claim : Claim) : Prop :=
  (∃ job, s.db.ingestionJobs.find? claim.claimed.jobId = some job ∧ job.status = .completed) ∨
    ∃ w call holder work, s.calls w = some call ∧ call.stage = .work holder work ∧
      work.indexing?.isSome ∧ holder.claimed.jobId = claim.claimed.jobId ∧ InClaim s.db w holder

/-- A vector-store request is issued in the claim of its call; or the vectors are nobody else's
yet, and an upsert is of rows that the document still has. -/
def RequestFenced (s : WorkerState) : WorkerAction → Prop
  | .call w .deleteVectors => ∀ call claim rows, s.calls w = some call →
      call.stage.rows? = some (claim, rows) → InClaim s.db w claim ∨ ¬VectorsTaken s claim
  | .call w .upsertVectors => ∀ call claim rows, s.calls w = some call →
      call.stage.rows? = some (claim, rows) →
      InClaim s.db w claim ∨ ¬VectorsTaken s claim ∧ ∀ c ∈ rows, c ∈ s.db.documentChunks
  | _ => True

/-- Of one document the index holds exactly these records. -/
structure HasRecords (index : VectorIndex) (documentId : UUID) (records : List VectorRecord) :
    Prop where
  document : ∀ r ∈ records, r.documentId = documentId
  present : ∀ r ∈ records, index r.vectorId = some r
  only : ∀ k r, index k = some r → r.documentId = documentId → r ∈ records ∧ r.vectorId = k

section Index
variable {index : VectorIndex} {d d' : UUID} {records batch : List VectorRecord}
  {rows : List DocumentChunk}

/-- Right after the deletion. -/
theorem hasRecords_deleted (index : VectorIndex) (d : UUID) :
    HasRecords (index.deleteByDocument d) d [] where
  document := nofun
  present := nofun
  only := by
    intro k r hk hd
    exact absurd hd (VectorIndex.deleteByDocument_eq_some.mp hk).2

/-- The deletion of another document's vectors. -/
theorem HasRecords.deleteByDocument (h : HasRecords index d records) (hne : d ≠ d') :
    HasRecords (index.deleteByDocument d') d records where
  document := h.document
  present := by
    intro r hr
    rw [VectorIndex.deleteByDocument_eq_some]
    exact ⟨h.present r hr, fun he => hne ((h.document r hr).symm.trans he)⟩
  only := fun k r hk => h.only k r (VectorIndex.deleteByDocument_eq_some.mp hk).1

/-- A batch of another document, under ids of its own. -/
theorem HasRecords.upsert (h : HasRecords index d records)
    (hbatch : (batch.map VectorRecord.vectorId).Nodup) (hdoc : ∀ r ∈ batch, r.documentId = d')
    (hne : d ≠ d') (hids : ∀ x ∈ batch, ∀ r ∈ records, x.vectorId ≠ r.vectorId) :
    HasRecords (index.upsert batch) d records where
  document := h.document
  present := by
    intro r hr
    rw [VectorIndex.upsert_of_not_mem fun x hx => hids x hx r hr]
    exact h.present r hr
  only := by
    intro k r hk hd
    rcases VectorIndex.upsert_eq_some hbatch hk with ⟨hr, _⟩ | ⟨_, hold⟩
    · exact absurd (hd.symm.trans (hdoc r hr)) hne
    · exact h.only k r hold hd

/-- The next batch of the document itself. -/
theorem HasRecords.append (h : HasRecords index d records)
    (hbatch : (batch.map VectorRecord.vectorId).Nodup) (hdoc : ∀ r ∈ batch, r.documentId = d)
    (hids : ∀ x ∈ batch, ∀ r ∈ records, x.vectorId ≠ r.vectorId) :
    HasRecords (index.upsert batch) d (records ++ batch) where
  document := by
    intro r hr
    rcases List.mem_append.mp hr with hr | hr
    · exact h.document r hr
    · exact hdoc r hr
  present := by
    intro r hr
    rcases List.mem_append.mp hr with hr | hr
    · rw [VectorIndex.upsert_of_not_mem fun x hx => hids x hx r hr]
      exact h.present r hr
    · exact VectorIndex.upsert_of_mem hbatch hr
  only := by
    intro k r hk hd
    rcases VectorIndex.upsert_eq_some hbatch hk with ⟨hr, he⟩ | ⟨_, hold⟩
    · exact ⟨List.mem_append_right _ hr, he⟩
    · obtain ⟨hr, he⟩ := h.only k r hold hd
      exact ⟨List.mem_append_left _ hr, he⟩

/-- Records of distinct rows have distinct ids. -/
theorem vectorIds_nodup (h : List.Forall₂ RecordOf rows records)
    (hrows : (rows.map DocumentChunk.id).Nodup) : (records.map VectorRecord.vectorId).Nodup := by
  have hids : records.map VectorRecord.vectorId = (rows.map DocumentChunk.id).map stableVectorId := by
    induction h with
    | nil => rfl
    | cons hr _ ih =>
      rw [List.map_cons, List.nodup_cons] at hrows
      rw [List.map_cons, List.map_cons, List.map_cons, hr.vectorId, ih hrows.2]
  rw [hids]
  exact hrows.map stableVectorId_injective

theorem HasRecords.indexedExactly (h : HasRecords index d records)
    (hrows : List.Forall₂ RecordOf rows records) : IndexedExactly index d rows where
  present := by
    intro c hc
    obtain ⟨r, hr, hof⟩ := exists_of_forall₂ hrows.flip hc
    exact ⟨r, hof.vectorId ▸ h.present r hr, hof⟩
  only := by
    intro k r hk hd
    obtain ⟨hr, hid⟩ := h.only k r hk hd
    obtain ⟨c, hc, hof⟩ := exists_of_forall₂ hrows hr
    exact ⟨c, hc, hid.symm.trans hof.vectorId, hof⟩

theorem IndexedExactly.congr {rows' : List DocumentChunk} (h : IndexedExactly index d rows)
    (hrows : ∀ c, c ∈ rows' ↔ c ∈ rows) : IndexedExactly index d rows' where
  present := fun c hc => h.present c ((hrows c).mp hc)
  only := by
    intro k r hk hd
    obtain ⟨c, hc, hof⟩ := h.only k r hk hd
    exact ⟨c, (hrows c).mpr hc, hof⟩

end Index

/-- Between the steps of a call: its records are those of its rows, and while its claim is held
the index has exactly the ones sent so far. -/
structure IndexingStage (db : Database) (index : VectorIndex) (w : Str) (stage : Stage) : Prop where
  records : ∀ claim rows records, stage = .work claim (.deleteVectors rows records) →
    List.Forall₂ RecordOf rows records
  indexing : ∀ claim work rows records remaining, stage = .work claim work →
    work.indexing? = some (rows, records, remaining) →
    List.Forall₂ RecordOf rows records ∧ ∃ done, done ++ remaining.flatten = records ∧
      (InClaim db w claim → HasRecords index claim.claimed.documentId done)

structure Indexing (s : WorkerState) : Prop where
  calls : ∀ w call, s.calls w = some call → IndexingStage s.db s.index w call.stage
  completed : ∀ c ∈ s.completions, ∃ records, List.Forall₂ RecordOf c.rows records ∧
    HasRecords s.index c.claim.claimed.documentId records

section Steps
variable {uuid5 : UUID → Str → UUID} {s t mid : WorkerState} {w : Str} {call : Call}
  {a : CallAction} {next : Option Call} {writer : Option Str} {done : UUID → Prop}

theorem Work.rows?_of_indexing? {work : Work} {rows : List DocumentChunk}
    {records : List VectorRecord} {remaining : List (List VectorRecord)}
    (h : work.indexing? = some (rows, records, remaining)) : work.rows? = some rows := by
  cases work <;> cases h <;> rfl

/-- A stage of a worker other than the one that wrote. -/
theorem IndexingStage.advance {db db' : Database} {index : VectorIndex} {stage : Stage}
    (h : IndexingStage db index w stage)
    (hkept : ∀ claim, stage.claim? = some claim → ClaimKept db w claim)
    (hadv : Advances writer done db db') (hne : some w ≠ writer) :
    IndexingStage db' index w stage where
  records := h.records
  indexing := by
    intro claim work rows records remaining hstage hwork
    obtain ⟨hrecords, sent, hsent, hhas⟩ := h.indexing claim work rows records remaining hstage hwork
    refine ⟨hrecords, sent, hsent, fun hin => hhas ?_⟩
    exact (hin.before (hkept claim (by rw [hstage]; rfl)) hadv hne).1

/-- A step of worker `w`'s call that writes no vectors and completes no job. -/
theorem Indexing.step (hf : Fenced s) (h : Indexing s) (hadv : Advances writer done s.db t.db)
    (hwriter : ∀ v, v ≠ w → some v ≠ writer) (hcalls : t.calls = s.calls)
    (hindex : t.index = s.index) (hcompletions : t.completions = s.completions)
    (hnext : ∀ call, next = some call → IndexingStage t.db t.index w call.stage) :
    Indexing (t.withCall w next) where
  calls := by
    intro v other hother
    have hother : Function.update t.calls w next v = some other := hother
    by_cases hv : v = w
    · subst hv
      rw [Function.update_self] at hother
      exact hnext other hother
    · rw [Function.update_of_ne hv, hcalls] at hother
      have hstage := (h.calls v other hother).advance (hf.calls v other hother).claim hadv
        (hwriter v hv)
      change IndexingStage t.db t.index v other.stage
      rw [hindex]
      exact hstage
  completed := by
    intro c hc
    change ∃ records, _ ∧ HasRecords t.index _ records
    rw [hindex]
    exact h.completed c (hcompletions ▸ hc)

/-- Recoveries, user retries and uploads. -/
theorem Indexing.elsewhere (hf : Fenced s) (h : Indexing s) {db : Database}
    (hadv : Advances none done s.db db) : Indexing (s.withDb db) where
  calls := fun v other hother =>
    (h.calls v other hother).advance (hf.calls v other hother).claim hadv (by simp)
  completed := h.completed

/-- The document of a fenced request is neither completed nor being indexed by another call. -/
theorem Fenced.request_apart (hf : Fenced s) {claim : Claim} (hcall : s.calls w = some call)
    (hclaim : call.stage.claim? = some claim)
    (hfenced : InClaim s.db w claim ∨ ¬VectorsTaken s claim) :
    (∀ c ∈ s.completions, c.claim.claimed.documentId ≠ claim.claimed.documentId) ∧
      ∀ v other holder work, v ≠ w → s.calls v = some other → other.stage = .work holder work →
        work.indexing?.isSome → InClaim s.db v holder →
        holder.claimed.documentId ≠ claim.claimed.documentId := by
  obtain ⟨job, hjob, hd, _⟩ := (hf.calls w call hcall).claim claim hclaim
  constructor
  · intro c hc he
    obtain ⟨_, row, hrow, hcompleted, hdoc, _⟩ := hf.closed c hc
    have hid := hf.consistent.one_job _ _ _ _ hrow hjob (hdoc.trans (he.trans hd.symm))
    rcases hfenced with ⟨held, hheld, hp, _⟩ | hnot
    · obtain rfl := Option.some.inj (hheld.symm.trans (hid ▸ hrow))
      rw [hp] at hcompleted
      cases hcompleted
    · exact hnot (.inl ⟨row, hid ▸ hrow, hcompleted⟩)
  · intro v other holder work hv hother hstage hwork hin he
    obtain ⟨row, hrow, hdoc, _⟩ := (hf.calls v other hother).claim holder (by rw [hstage]; rfl)
    have hid := hf.consistent.one_job _ _ _ _ hrow hjob (hdoc.trans (he.trans hd.symm))
    rcases hfenced with ⟨held, hheld, _, hby, _⟩ | hnot
    · obtain ⟨held', hheld', _, hby', _⟩ := hin
      rw [hid] at hheld'
      obtain rfl := Option.some.inj (hheld.symm.trans hheld')
      exact hv (Option.some.inj (hby'.symm.trans hby))
    · exact hnot (.inr ⟨v, other, holder, work, hother, hstage, hwork, hid, hin⟩)

/-- A fenced request, given that it keeps the records of the other documents' current rows. -/
theorem Indexing.request (hf : Fenced s) (h : Indexing s) {claim : Claim} {index : VectorIndex}
    {call' : Call} (hcall : s.calls w = some call) (hclaim : call.stage.claim? = some claim)
    (hfenced : InClaim s.db w claim ∨ ¬VectorsTaken s claim)
    (hkeep : ∀ d records, d ≠ claim.claimed.documentId →
      (∀ r ∈ records, ∃ c ∈ s.db.documentChunks, RecordOf c r) →
      HasRecords s.index d records → HasRecords index d records)
    (hnext : IndexingStage s.db index w call'.stage) :
    Indexing ({ s with index }.withCall w (some call')) where
  calls := by
    intro v other hother
    have hother : Function.update s.calls w (some call') v = some other := hother
    by_cases hv : v = w
    · subst hv
      rw [Function.update_self] at hother
      obtain rfl := Option.some.inj hother
      exact hnext
    · rw [Function.update_of_ne hv] at hother
      have hold := h.calls v other hother
      refine ⟨hold.records, ?_⟩
      intro holder work rows records remaining hstage hwork
      obtain ⟨hrecords, sent, hsent, hhas⟩ :=
        hold.indexing holder work rows records remaining hstage hwork
      refine ⟨hrecords, sent, hsent, fun hin => ?_⟩
      refine hkeep _ sent ?_ ?_ (hhas hin)
      · exact (hf.request_apart hcall hclaim hfenced).2 v other holder work hv hother hstage
          (by rw [hwork]; rfl) hin
      · intro r hr
        have hmem : r ∈ records := by
          rw [← hsent]
          exact List.mem_append_left _ hr
        obtain ⟨c, hc, hof⟩ := exists_of_forall₂ hrecords hmem
        have hrows : other.stage.rows? = some (holder, rows) := by
          rw [hstage, Stage.rows?, Work.rows?_of_indexing? hwork]
          rfl
        obtain ⟨_, _, _, hcur⟩ := (hf.calls v other hother).rows holder rows hrows
        exact ⟨c, ((hcur hin c).mpr hc).1, hof⟩
  completed := by
    intro c hc
    obtain ⟨records, hrecords, hhas⟩ := h.completed c hc
    refine ⟨records, hrecords, hkeep _ records ?_ ?_ hhas⟩
    · exact (hf.request_apart hcall hclaim hfenced).1 c hc
    · intro r hr
      obtain ⟨_, _, _, _, _, hrows⟩ := hf.closed c hc
      obtain ⟨row, hrow, hof⟩ := exists_of_forall₂ hrecords hr
      exact ⟨row, ((hrows row).mpr hrow).1, hof⟩

/-- A step of the call that leaves the rows and the index alone. -/
private theorem Indexing.quiet (hf : Fenced s) (h : Indexing s) {call' : Call}
    (hnext : IndexingStage s.db s.index w call'.stage) : Indexing (s.withCall w (some call')) := by
  refine h.step hf (.refl none (fun _ => False) _) (by simp) rfl rfl rfl ?_
  rintro _ ⟨⟩
  exact hnext

/-- A stage without vectors. -/
private theorem indexingStage_none {db : Database} {index : VectorIndex} {stage : Stage}
    (h : ∀ claim work, stage = .work claim work → work.indexing? = none ∧
      ∀ rows records, work ≠ .deleteVectors rows records) : IndexingStage db index w stage where
  records := by
    intro claim rows records hstage
    exact absurd rfl ((h _ _ hstage).2 rows records)
  indexing := by
    intro claim work rows records remaining hstage hwork
    rw [(h _ _ hstage).1] at hwork
    cases hwork

private theorem embedChunks_recordOf {embed : List Str → Except EmbeddingError Object}
    {dimension : Int} {claimed : ClaimedDocument} {rows : List DocumentChunk}
    {records : List VectorRecord} (hok : embedChunks embed dimension claimed rows = .ok records) :
    List.Forall₂ RecordOf rows records := by
  obtain ⟨_, _, hok⟩ := bind_eq_ok.mp hok
  obtain ⟨_, _, hok⟩ := bind_eq_ok.mp hok
  obtain ⟨_, _, hok⟩ := bind_eq_ok.mp hok
  exact (makeVectorRecords_ok hok).imp fun _ _ hr =>
    ⟨hr.1, hr.2.1, hr.2.2.1, hr.2.2.2.1, hr.2.2.2.2.1, hr.2.2.2.2.2.1⟩

theorem Indexing.deleted (hf : Fenced s) (h : Indexing s) (hcall : s.calls w = some call)
    (hallowed : RequestFenced s (.call w .deleteVectors)) {claim : Claim}
    {rows : List DocumentChunk} {records : List VectorRecord}
    (hstage : call.stage = .work claim (.deleteVectors rows records)) :
    Indexing ({ s with index := s.index.deleteByDocument claim.claimed.documentId }.withCall w
      (some { call with
        stage := .work claim (.upsertVectors rows records (call.svc.batches records)) })) := by
  have hclaim : call.stage.claim? = some claim := by
    rw [hstage]
    rfl
  refine h.request hf hcall hclaim (hallowed call claim rows hcall (by rw [hstage]; rfl)) ?_ ⟨nofun, ?_⟩
  · exact fun _ _ hne _ hhas => hhas.deleteByDocument hne
  · rintro _ _ _ _ _ ⟨⟩ ⟨⟩
    refine ⟨(h.calls w call hcall).records claim rows records hstage, [], ?_, fun _ => ?_⟩
    · exact slices_flatten call.svc.rebuildBatchSize_pos records
    · exact hasRecords_deleted _ _

theorem Indexing.upserted (hf : Fenced s) (h : Indexing s) (hcall : s.calls w = some call)
    (hallowed : RequestFenced s (.call w .upsertVectors)) {claim : Claim}
    {rows : List DocumentChunk} {records batch : List VectorRecord}
    {remaining : List (List VectorRecord)}
    (hstage : call.stage = .work claim (.upsertVectors rows records (batch :: remaining)))
    (hbatch : (batch.map VectorRecord.vectorId).Nodup) :
    Indexing ({ s with index := s.index.upsert batch }.withCall w
      (some { call with stage := .work claim (.upsertVectors rows records remaining) })) := by
  have hclaim : call.stage.claim? = some claim := by
    rw [hstage]
    rfl
  have hrows : call.stage.rows? = some (claim, rows) := by
    rw [hstage]
    rfl
  obtain ⟨hids, hdocs, _, hcur⟩ := (hf.calls w call hcall).rows claim rows hrows
  obtain ⟨hrecords, sent, hsent, hhas⟩ :=
    (h.calls w call hcall).indexing claim _ rows records _ hstage rfl
  rw [List.flatten_cons] at hsent
  have hof : ∀ x ∈ batch, ∃ c ∈ rows, RecordOf c x := by
    intro x hx
    apply exists_of_forall₂ hrecords
    rw [← hsent]
    exact List.mem_append_right _ (List.mem_append_left _ hx)
  have hbatchDoc : ∀ x ∈ batch, x.documentId = claim.claimed.documentId := by
    intro x hx
    obtain ⟨c, hc, hcx⟩ := hof x hx
    exact hcx.documentId.trans (hdocs c hc)
  have hfenced := hallowed call claim rows hcall hrows
  have hcurrent : ∀ c ∈ rows, c ∈ s.db.documentChunks := by
    intro c hc
    rcases hfenced with hin | ⟨_, hcurrent⟩
    · exact ((hcur hin c).mpr hc).1
    · exact hcurrent c hc
  refine h.request hf hcall hclaim (hfenced.imp_right And.left) ?_ ⟨nofun, ?_⟩
  · intro d others hne hothers hhas
    refine hhas.upsert hbatch hbatchDoc hne ?_
    intro x hx r hr he
    obtain ⟨c, hc, hcx⟩ := hof x hx
    obtain ⟨c', hc', hcr⟩ := hothers r hr
    have hid : c.id = c'.id :=
      stableVectorId_injective (hcx.vectorId.symm.trans (he.trans hcr.vectorId))
    obtain rfl := Table.eq_of_key_eq (hcurrent c hc) hc' hid
    exact hne ((hhas.document r hr).symm.trans (hcr.documentId.trans (hdocs c hc)))
  · rintro _ _ _ _ _ ⟨⟩ ⟨⟩
    refine ⟨hrecords, sent ++ batch, by rw [List.append_assoc, hsent], fun hin => ?_⟩
    refine (hhas hin).append hbatch hbatchDoc ?_
    intro x hx r hr he
    have hnodup := vectorIds_nodup hrecords hids
    rw [← hsent, List.map_append, List.map_append] at hnodup
    exact List.disjoint_of_nodup_append hnodup (List.mem_map_of_mem hr)
      (List.mem_append_left _ (he ▸ List.mem_map_of_mem hx))

/-- The success transition: the index has exactly the records of the rows. -/
theorem Indexing.succeeded (hf : Fenced s) (h : Indexing s) (hcall : s.calls w = some call)
    {claim : Claim} {rows : List DocumentChunk} {records : List VectorRecord} {now : Time}
    {db : Database} (hstage : call.stage = .work claim (.completeSuccess rows records))
    (hok : call.svc.completeSuccess s.db claim.claimed.jobId now = some db) :
    Indexing ({ s.withDb db with
      completions := ⟨w, claim, rows⟩ :: s.completions }.withCall w none) where
  calls := by
    intro v other hother
    have hother : Function.update s.calls w none v = some other := hother
    by_cases hv : v = w
    · subst hv
      rw [Function.update_self] at hother
      cases hother
    · rw [Function.update_of_ne hv] at hother
      exact (h.calls v other hother).advance (hf.calls v other hother).claim
        (completeSuccess_advances hf.consistent hok) (by simp)
  completed := by
    intro c hc
    rcases List.mem_cons.mp hc with rfl | hc
    · obtain ⟨hrecords, sent, hsent, hhas⟩ :=
        (h.calls w call hcall).indexing claim _ rows records [] hstage rfl
      obtain rfl : sent = records := by simpa using hsent
      obtain ⟨job, howned, hw, _⟩ := completeSuccess_writes hok
      exact ⟨sent, hrecords,
        hhas ((hf.calls w call hcall).in_claim (by rw [hstage]; rfl) howned hw.found)⟩
    · exact h.completed c hc

theorem Indexing.call_step (hf : Fenced s) (h : Indexing s) (hcall : s.calls w = some call)
    (hallowed : RequestFenced s (.call w a)) (hstep : CallStep uuid5 s w call a mid next) :
    Indexing (mid.withCall w next) := by
  have hold := h.calls w call hcall
  cases hstep with
  | readClock => exact h.quiet hf hold
  | ended =>
    refine h.step hf (.refl none (fun _ => False) _) (by simp) rfl rfl rfl ?_
    rintro _ ⟨⟩
  | recovered hok =>
    refine h.step hf (recoverExpiredLeases_advances hf.consistent hok) (by simp) rfl rfl rfl ?_
    rintro _ ⟨⟩
    exact indexingStage_none nofun
  | claimed _ _ hok =>
    have hworker := (hf.calls w call hcall).worker
    subst hworker
    refine h.step hf (claimNext_advances hf.consistent (fun _ => False) hok)
      (fun v hv he => hv (Option.some.inj he)) rfl rfl rfl ?_
    rintro _ ⟨⟩
    refine indexingStage_none ?_
    rintro _ _ ⟨⟩
    exact ⟨rfl, nofun⟩
  | proceeded hstage hnext =>
    refine h.quiet hf ?_
    cases hnext with
    | readSource =>
      refine indexingStage_none ?_
      rintro _ _ ⟨⟩
      exact ⟨rfl, nofun⟩
    | parseAndChunk =>
      refine indexingStage_none ?_
      rintro _ _ ⟨⟩
      exact ⟨rfl, nofun⟩
    | embedChunks hok =>
      refine ⟨?_, ?_⟩
      · rintro _ _ _ ⟨⟩
        exact embedChunks_recordOf hok
      · rintro _ _ _ _ _ ⟨⟩ ⟨⟩
  | raised => exact h.quiet hf (indexingStage_none nofun)
  | replaced hstage _ hok =>
    obtain ⟨job, hjob, hd, _⟩ := (hf.calls w call hcall).claim _ (by rw [hstage]; rfl)
    have hworker := (hf.calls w call hcall).worker
    subst hworker
    have hadv := replaceChunks_advances hf.consistent (fun _ => False) hok fun row hrow =>
      (Option.some.inj (hrow.symm.trans hjob)) ▸ hd
    refine h.step hf hadv (fun v hv he => hv (Option.some.inj he)) rfl rfl rfl ?_
    rintro _ ⟨⟩
    refine indexingStage_none ?_
    rintro _ _ ⟨⟩
    exact ⟨rfl, nofun⟩
  | deleted hstage => exact h.deleted hf hcall hallowed hstage
  | upserted hstage hbatch => exact h.upserted hf hcall hallowed hstage hbatch
  | stopped hstage =>
    obtain ⟨hrecords, sent, hsent, hhas⟩ := hold.indexing _ _ _ _ _ hstage rfl
    refine h.quiet hf ⟨nofun, ?_⟩
    rintro _ _ _ _ _ ⟨⟩ ⟨⟩
    exact ⟨hrecords, sent, hsent, hhas⟩
  | succeeded hstage hok => exact h.succeeded hf hcall hstage hok
  | @failed claim _ failure now =>
    have hadv := completeFailure_advances hf.consistent call.svc claim.claimed.jobId failure now
    refine h.step hf hadv (by simp) rfl rfl rfl ?_
    rintro _ ⟨⟩
  | heartbeatClock => exact h.quiet hf hold
  | renewed _ _ hok =>
    have hadv := renewLease_advances hf.consistent none (fun _ => False) hok
    refine h.step hf hadv (by simp) rfl rfl rfl ?_
    rintro _ ⟨⟩
    exact hold.advance (hf.calls w call hcall).claim hadv (by simp)
  | heartbeatLost => exact h.quiet hf hold

theorem Indexing.init (db : Database) : Indexing (.init db) where
  calls := by
    intro w call hcall
    cases hcall
  completed := by
    intro c hc
    cases hc

/-- Every step keeps the invariant whose vector-store requests are fenced. -/
theorem workers_step_indexing {sha256 : Sha256} (s : WorkerState) (b : WorkerAction)
    (t : WorkerState) (hf : Fenced s) (h : Indexing s) (hallowed : RequestFenced s b)
    (hstep : (workers sha256 uuid5).step s b = some t) : Indexing t := by
  cases workerStep_move hstep with
  | start =>
    refine h.quiet hf (indexingStage_none ?_)
    rintro _ _ ⟨⟩
  | call hcall hcallStep => exact h.call_step hf hcall hallowed hcallStep
  | recovered hok => exact h.elsewhere hf (recoverExpiredLeases_advances hf.consistent hok)
  | retried hok => exact h.elsewhere hf (retryIngestionJob_advances hf.consistent hok)
  | uploaded hok => exact h.elsewhere hf (insertUpload_advances hok)

/-- A completed document has a completed job, and the completing call left the index exact. -/
theorem Indexing.completedIndexed (hf : Fenced s) (h : Indexing s) : CompletedIndexed s := by
  intro document hdocument hcompleted
  have hfound := Table.find?_of_mem hdocument
  obtain ⟨k, job, hjob, hd⟩ := hf.consistent.has_job _ document hfound
  obtain ⟨document', hfound', hlife⟩ := hf.consistent.jobs k job hjob
  have heq : document' = document := Option.some.inj (hfound'.symm.trans (hd ▸ hfound))
  have hstatus : job.status = .completed := by
    have hagrees := hlife.status_agrees
    rw [heq, hcompleted] at hagrees
    cases hs : job.status <;> rw [hs] at hagrees <;> first | rfl | exact absurd hagrees (by decide)
  obtain ⟨c, hc, rfl⟩ := hf.completed k job hjob hstatus
  obtain ⟨_, row, hrow, _, hdoc, hrows⟩ := hf.closed c hc
  obtain rfl := Option.some.inj (hrow.symm.trans hjob)
  obtain ⟨records, hrecords, hhas⟩ := h.completed c hc
  have hid : document.id = c.claim.claimed.documentId := hd.symm.trans hdoc
  rw [hid]
  refine (hhas.indexedExactly hrecords).congr fun r => ?_
  rw [Database.mem_chunksOf]
  exact hrows r

end Steps

/-- While every vector-store request is fenced, completed documents are indexed exactly. -/
theorem completed_indexed (sha256 : Sha256) (uuid5 : UUID → Str → UUID) {db : Database}
    (hfresh : FreshDatabase db) {as : List WorkerAction}
    (hallowed : (workers sha256 uuid5).Allowed RequestFenced (.init db) as) {s : WorkerState}
    (hrun : (workers sha256 uuid5).run (.init db) as = some s) : CompletedIndexed s := by
  have h : Fenced s ∧ Indexing s := Machine.run_invariant_of_allowed
    (I := fun s => Fenced s ∧ Indexing s) (fun s a t hI hC hstep => ⟨workers_step_fenced s a t hI.1 hstep,
      workers_step_indexing s a t hI.1 hI.2 hC hstep⟩)
    ⟨.init hfresh, .init db⟩ hallowed hrun
  exact h.2.completedIndexed h.1

/-- The request is issued in the claim of its call. -/
def requestInClaim (s : WorkerState) : WorkerAction → Bool
  | .call w .deleteVectors | .call w .upsertVectors =>
    (s.calls w).all fun call => call.stage.claim?.all fun claim => InClaim s.db w claim
  | _ => true

theorem requestFenced_of_inClaim {s : WorkerState} {a : WorkerAction}
    (h : requestInClaim s a = true) : RequestFenced s a := by
  have hheld : ∀ w call claim rows, (s.calls w).all (fun call =>
      call.stage.claim?.all fun claim => InClaim s.db w claim) = true → s.calls w = some call →
      call.stage.rows? = some (claim, rows) → InClaim s.db w claim := by
    intro w call claim rows hall hcall hrows
    rw [hcall, Option.all_some, Stage.claim?_of_rows? hrows, Option.all_some] at hall
    exact of_decide_eq_true hall
  cases a with
  | call w action =>
    cases action with
    | deleteVectors => exact fun call claim rows hcall hrows => .inl (hheld w call claim rows h hcall hrows)
    | upsertVectors => exact fun call claim rows hcall hrows => .inl (hheld w call claim rows h hcall hrows)
    | _ => trivial
  | _ => trivial

/-- The second worker recovers the first one's lease and completes the job, and the first one issues
no request any more. -/
theorem completed_indexed_example : ∃ s,
    (workers exampleSha256 exampleUuid5).run (.init exampleDatabase) overtakenActions = some s ∧
      (∃ document ∈ s.db.documents.rows, document.status = .completed) ∧ CompletedIndexed s := by
  have hany : ((workers exampleSha256 exampleUuid5).run (.init exampleDatabase) overtakenActions).any
      (fun s => s.db.documents.rows.any fun document => decide (document.status = .completed)) := by
    decide +kernel
  have hallowed : (workers exampleSha256 exampleUuid5).Allowed
      (fun s a => requestInClaim s a = true) (.init exampleDatabase) overtakenActions := by decide +kernel
  obtain ⟨s, hrun, hdocument⟩ := Option.any_eq_true _ _ |>.mp hany
  obtain ⟨document, hdocument, hcompleted⟩ := List.any_eq_true.mp hdocument
  exact ⟨s, hrun, ⟨document, hdocument, of_decide_eq_true hcompleted⟩,
    completed_indexed exampleSha256 exampleUuid5 exampleDatabase_fresh
      (hallowed.mono fun _ _ => requestFenced_of_inClaim) hrun⟩

/-- The overtaken worker's deletion leaves the completed document without its vector. -/
theorem overtaken_request_unindexed : ¬∀ (db : Database), FreshDatabase db → ∀ as s,
    (workers exampleSha256 exampleUuid5).run (.init db) as = some s → CompletedIndexed s := by
  intro h
  have hany : ((workers exampleSha256 exampleUuid5).run (.init exampleDatabase)
      (overtakenActions ++ [.call exampleService.workerId.value .deleteVectors])).any (fun s =>
        s.db.documents.rows.any fun document => document.status = .completed ∧
          (s.db.chunksOf document.id).any fun c => (s.index (stableVectorId c.id)).isNone) := by
    decide +kernel
  obtain ⟨s, hrun, hdocument⟩ := Option.any_eq_true _ _ |>.mp hany
  obtain ⟨document, hdocument, hrow⟩ := List.any_eq_true.mp hdocument
  obtain ⟨hcompleted, hchunk⟩ := of_decide_eq_true hrow
  obtain ⟨c, hc, hnone⟩ := List.any_eq_true.mp hchunk
  have hindexed := h exampleDatabase exampleDatabase_fresh _ s hrun document hdocument hcompleted
  obtain ⟨r, hr, _⟩ := hindexed.present c hc
  rw [hr] at hnone
  cases hnone

end AgenticRag.Services

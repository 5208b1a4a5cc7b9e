import AgenticRag.Retrieval.Ranking
import Mathlib.Algebra.Order.Field.Basic

/-! Fusion compared on two runs: a better rank never places its record worse and leaves the
others in order, and the order in which records and ranks are found does not matter. -/
namespace AgenticRag.Retrieval
open Lib Python

section Scores

/-- The part of the score that one rank makes. -/
def reciprocalRank (rank : Option Nat) : Rat := rank.elim 0 fun r => 1 / ((60 + r : Nat) : Rat)

/-- A better rank makes more. -/
theorem reciprocalRank_lt {rank rank' : Option Nat} (h : absentLast rank' < absentLast rank) :
    reciprocalRank rank < reciprocalRank rank' := by
  cases rank' with
  | none => exact absurd h (not_lt.mpr le_top)
  | some n' =>
    have hpos : (0 : Rat) < ((60 + n' : Nat) : Rat) := by
      rw [Nat.cast_pos]
      omega
    cases rank with
    | none => exact one_div_pos.mpr hpos
    | some n =>
      have hlt : n' < n := WithTop.coe_lt_coe.mp h
      refine one_div_lt_one_div_of_lt hpos ?_
      rw [Nat.cast_lt]
      omega

theorem absentLast_injective : Function.Injective absentLast := by
  intro a b h
  cases a with
  | none =>
    cases b with
    | none => rfl
    | some m => cases h
  | some n =>
    cases b with
    | none => cases h
    | some m => rw [WithTop.coe_injective h]

theorem reciprocalRank_mono {rank rank' : Option Nat} (h : absentLast rank' ≤ absentLast rank) :
    rank' = rank ∨ reciprocalRank rank < reciprocalRank rank' := by
  rcases h.eq_or_lt with heq | hlt
  · exact .inl (absentLast_injective heq)
  · exact .inr (reciprocalRank_lt hlt)

end Scores

section Runs

/-- The ranks of one chunk are at least as good, and nothing else changes. -/
structure Improved (keywordRanks denseRanks keywordRanks' denseRanks' : Ranks) (id : UUID) : Prop where
  keyword : absentLast (keywordRanks'.get? id) ≤ absentLast (keywordRanks.get? id)
  dense : absentLast (denseRanks'.get? id) ≤ absentLast (denseRanks.get? id)
  keyword_other : ∀ other, other ≠ id → keywordRanks'.get? other = keywordRanks.get? other
  dense_other : ∀ other, other ≠ id → denseRanks'.get? other = denseRanks.get? other

variable {keywordRanks denseRanks keywordRanks' denseRanks' : Ranks} {id : UUID}
  {records : List InternalAuthoritativeRetrievalRecord}

theorem scoredRecord_congr {record : InternalAuthoritativeRetrievalRecord}
    (hkeyword : keywordRanks'.get? record.trusted.chunkId = keywordRanks.get? record.trusted.chunkId)
    (hdense : denseRanks'.get? record.trusted.chunkId = denseRanks.get? record.trusted.chunkId) :
    scoredRecord keywordRanks' denseRanks' record = scoredRecord keywordRanks denseRanks record := by
  simp only [scoredRecord, hkeyword, hdense]

/-- The score comes first in the key, so that a better rank makes the key smaller. -/
theorem Improved.key_le (h : Improved keywordRanks denseRanks keywordRanks' denseRanks' id)
    (record : InternalAuthoritativeRetrievalRecord) :
    (scoredRecord keywordRanks' denseRanks' record).key ≤
      (scoredRecord keywordRanks denseRanks record).key := by
  by_cases hid : record.trusted.chunkId = id
  · have hkeyword := reciprocalRank_mono (hid ▸ h.keyword)
    have hdense := reciprocalRank_mono (hid ▸ h.dense)
    by_cases hsame : keywordRanks'.get? record.trusted.chunkId = keywordRanks.get? record.trusted.chunkId ∧
        denseRanks'.get? record.trusted.chunkId = denseRanks.get? record.trusted.chunkId
    · rw [scoredRecord_congr hsame.1 hsame.2]
    · have hscore : (scoredRecord keywordRanks denseRanks record).score <
          (scoredRecord keywordRanks' denseRanks' record).score := by
        change reciprocalRank _ + reciprocalRank _ < reciprocalRank _ + reciprocalRank _
        rcases hkeyword with hkeyword | hkeyword
        · rcases hdense with hdense | hdense
          · exact absurd ⟨hkeyword, hdense⟩ hsame
          · rw [hkeyword]
            exact add_lt_add_right hdense _
        · rcases hdense with hdense | hdense
          · rw [hdense]
            exact add_lt_add_left hkeyword _
          · exact add_lt_add hkeyword hdense
      refine le_of_lt (Prod.Lex.toLex_lt_toLex.mpr (.inl ?_))
      exact neg_lt_neg hscore
  · rw [scoredRecord_congr (h.keyword_other _ hid) (h.dense_other _ hid)]

/-- How many of the records come before the record. -/
def placesBefore (keywordRanks denseRanks : Ranks) (records : List InternalAuthoritativeRetrievalRecord)
    (record : InternalAuthoritativeRetrievalRecord) : Nat :=
  below ScoredRecord.key (records.map (scoredRecord keywordRanks denseRanks))
    (scoredRecord keywordRanks denseRanks record).key

theorem placesBefore_eq (record : InternalAuthoritativeRetrievalRecord) :
    placesBefore keywordRanks denseRanks records record = records.countP fun other =>
      (scoredRecord keywordRanks denseRanks other).key < (scoredRecord keywordRanks denseRanks record).key := by
  rw [placesBefore, below, List.countP_map]
  rfl

/-- Distinct records have distinct keys. -/
theorem scored_pairwise (hnodup : (records.map fun r => r.trusted.chunkId).Nodup) :
    (records.map (scoredRecord keywordRanks denseRanks)).Pairwise fun a b => a.key ≠ b.key := by
  rw [List.pairwise_map]
  exact (List.pairwise_map.mp hnodup).imp fun hne heq => hne (key_inj heq)

private theorem getElem?_take_eq_some {α : Type} {xs : List α} {n i : Nat} {a : α} :
    (xs.take n)[i]? = some a ↔ xs[i]? = some a ∧ i < n := by
  rw [List.getElem?_take]
  split
  · rename_i h
    exact (and_iff_left h).symm
  · rename_i h
    constructor
    · intro ha
      cases ha
    · exact fun ha => absurd ha.2 h

/-- The records that fusion returns are those with fewer than `requestedCount` before them. -/
theorem mem_fused {requestedCount : Nat} (hnodup : (records.map fun r => r.trusted.chunkId).Nodup)
    {fused : FusedInternalAuthoritativeRetrievalRecord} :
    fused ∈ (((orderBy ScoredRecord.key (records.map (scoredRecord keywordRanks denseRanks))).take
      requestedCount).zipIdx 1).map fusedRecord ↔
    ∃ record ∈ records, placesBefore keywordRanks denseRanks records record < requestedCount ∧
      fused = fusedRecord (scoredRecord keywordRanks denseRanks record,
        placesBefore keywordRanks denseRanks records record + 1) := by
  rw [List.mem_map]
  constructor
  · rintro ⟨⟨item, n⟩, hitem, rfl⟩
    obtain ⟨hn, hget⟩ := List.mk_mem_zipIdx_iff_le_and_getElem?_sub.mp hitem
    rw [getElem?_take_eq_some, getElem?_orderBy (scored_pairwise hnodup)] at hget
    obtain ⟨⟨hmem, hplace⟩, hlt⟩ := hget
    obtain ⟨record, hrecord, rfl⟩ := List.mem_map.mp hmem
    refine ⟨record, hrecord, ?_, ?_⟩
    · rw [placesBefore, hplace]
      exact hlt
    · rw [placesBefore, hplace, Nat.sub_add_cancel hn]
  · rintro ⟨record, hrecord, hlt, rfl⟩
    refine ⟨_, List.mk_mem_zipIdx_iff_le_and_getElem?_sub.mpr ⟨Nat.le_add_left 1 _, ?_⟩, rfl⟩
    rw [Nat.add_sub_cancel, getElem?_take_eq_some, getElem?_orderBy (scored_pairwise hnodup)]
    exact ⟨⟨List.mem_map_of_mem hrecord, rfl⟩, hlt⟩

/-- A record of better rank has fewer records before it. -/
theorem Improved.placesBefore_le (h : Improved keywordRanks denseRanks keywordRanks' denseRanks' id)
    {record : InternalAuthoritativeRetrievalRecord}
    (hrecords : ∀ other ∈ records, other.trusted.chunkId = id → other = record) :
    placesBefore keywordRanks' denseRanks' records record ≤
      placesBefore keywordRanks denseRanks records record := by
  rw [placesBefore_eq, placesBefore_eq]
  refine List.countP_mono_left fun other hother hlt => ?_
  rw [decide_eq_true_eq] at hlt ⊢
  by_cases hsame : other.trusted.chunkId = id
  · rw [hrecords other hother hsame] at hlt
    exact absurd hlt (lt_irrefl _)
  · rw [scoredRecord_congr (h.keyword_other _ hsame) (h.dense_other _ hsame)] at hlt
    exact hlt.trans_le (h.key_le record)

/-- Records of other chunks compare as before. -/
theorem Improved.placesBefore_lt_iff (h : Improved keywordRanks denseRanks keywordRanks' denseRanks' id)
    {a b : InternalAuthoritativeRetrievalRecord} (ha : a ∈ records) (haid : a.trusted.chunkId ≠ id)
    (hbid : b.trusted.chunkId ≠ id) :
    placesBefore keywordRanks denseRanks records a < placesBefore keywordRanks denseRanks records b ↔
      placesBefore keywordRanks' denseRanks' records a < placesBefore keywordRanks' denseRanks' records b := by
  rw [placesBefore, placesBefore, placesBefore, placesBefore, below_lt_iff (List.mem_map_of_mem ha),
    below_lt_iff (List.mem_map_of_mem ha),
    scoredRecord_congr (h.keyword_other _ haid) (h.dense_other _ haid),
    scoredRecord_congr (h.keyword_other _ hbid) (h.dense_other _ hbid)]

theorem Improved.ranked (h : Improved keywordRanks denseRanks keywordRanks' denseRanks' id)
    {record : InternalAuthoritativeRetrievalRecord} (hranked : Ranked keywordRanks denseRanks record) :
    Ranked keywordRanks' denseRanks' record := by
  have hmem {ranks ranks' : Ranks} (hle : absentLast (ranks'.get? id) ≤ absentLast (ranks.get? id))
      (hother : ∀ other, other ≠ id → ranks'.get? other = ranks.get? other)
      (hkey : record.trusted.chunkId ∈ ranks.keys) : record.trusted.chunkId ∈ ranks'.keys := by
    by_contra habsent
    rw [← Dict.get?_eq_none] at habsent
    refine (Dict.get?_eq_none.mp ?_ : record.trusted.chunkId ∉ ranks.keys) hkey
    by_cases hid : record.trusted.chunkId = id
    · rw [← hid, habsent] at hle
      exact absentLast_injective (top_unique hle)
    · rw [← hother _ hid]
      exact habsent
  exact hranked.imp (hmem h.keyword h.keyword_other) (hmem h.dense h.dense_other)

/-- The order of the records and of the maps does not matter. -/
theorem fuseAuthoritativeRecords_perm {records' : List InternalAuthoritativeRetrievalRecord}
    {requestedCount : Nat} (hnodup : (records.map fun r => r.trusted.chunkId).Nodup)
    (hranked : ∀ r ∈ records, Ranked keywordRanks denseRanks r) (hrecords : records'.Perm records)
    (hkeyword : keywordRanks'.items.Perm keywordRanks.items)
    (hdense : denseRanks'.items.Perm denseRanks.items) :
    fuseAuthoritativeRecords records' keywordRanks' denseRanks' requestedCount =
      fuseAuthoritativeRecords records keywordRanks denseRanks requestedCount := by
  by_cases hcount : 1 ≤ requestedCount ∧ requestedCount ≤ 50
  · have hscored : scoredRecord keywordRanks' denseRanks' = scoredRecord keywordRanks denseRanks := by
      funext record
      exact scoredRecord_congr (Dict.get?_congr (fun _ => hkeyword.mem_iff) _)
        (Dict.get?_congr (fun _ => hdense.mem_iff) _)
    have hnodup' : (records'.map fun r => r.trusted.chunkId).Nodup := (hrecords.map _).nodup_iff.mpr hnodup
    have hranked' : ∀ r ∈ records', Ranked keywordRanks' denseRanks' r := by
      intro r hr
      refine (hranked r (hrecords.mem_iff.mp hr)).imp ?_ ?_
      · exact (hkeyword.map Prod.fst).mem_iff.mpr
      · exact (hdense.map Prod.fst).mem_iff.mpr
    have horder : orderBy ScoredRecord.key (records'.map (scoredRecord keywordRanks' denseRanks')) =
        orderBy ScoredRecord.key (records.map (scoredRecord keywordRanks denseRanks)) := by
      rw [hscored]
      refine orderBy_eq_of_perm (hrecords.map _) ?_
      intro a ha b hb hkey
      obtain ⟨record, hrecord, rfl⟩ := List.mem_map.mp ha
      obtain ⟨other, hother, rfl⟩ := List.mem_map.mp hb
      exact congrArg _ (List.inj_on_of_nodup_map hnodup' hrecord hother (key_inj hkey))
    rw [fuseAuthoritativeRecords_eq hcount hnodup' hranked', fuseAuthoritativeRecords_eq hcount hnodup hranked,
      horder]
  · rw [fuseAuthoritativeRecords, fuseAuthoritativeRecords, if_neg hcount, if_neg hcount]

/-- The returned records of a run with the better ranks, against those of a run without. -/
structure NoWorse (id : UUID) (out out' : List FusedInternalAuthoritativeRetrievalRecord) : Prop where
  stays : ∀ r ∈ out, r.chunkId = id → ∃ r' ∈ out', r'.chunkId = id
  rank_le : ∀ r ∈ out, ∀ r' ∈ out', r.chunkId = id → r'.chunkId = id → r'.fusedRank ≤ r.fusedRank
  order : ∀ r ∈ out, ∀ s ∈ out, ∀ r' ∈ out', ∀ s' ∈ out', r.chunkId ≠ id → s.chunkId ≠ id →
    r'.chunkId = r.chunkId → s'.chunkId = s.chunkId →
    (r.fusedRank < s.fusedRank ↔ r'.fusedRank < s'.fusedRank)

theorem Improved.noWorse (h : Improved keywordRanks denseRanks keywordRanks' denseRanks' id)
    (hnodup : (records.map fun r => r.trusted.chunkId).Nodup) (requestedCount : Nat) :
    NoWorse id
      ((((orderBy ScoredRecord.key (records.map (scoredRecord keywordRanks denseRanks))).take
        requestedCount).zipIdx 1).map fusedRecord)
      ((((orderBy ScoredRecord.key (records.map (scoredRecord keywordRanks' denseRanks'))).take
        requestedCount).zipIdx 1).map fusedRecord) := by
  have hsame {a b : InternalAuthoritativeRetrievalRecord} (ha : a ∈ records) (hb : b ∈ records)
      (heq : a.trusted.chunkId = b.trusted.chunkId) : a = b :=
    List.inj_on_of_nodup_map hnodup ha hb heq
  have hle {record : InternalAuthoritativeRetrievalRecord} (hrecord : record ∈ records)
      (hid : record.trusted.chunkId = id) :
      placesBefore keywordRanks' denseRanks' records record ≤
        placesBefore keywordRanks denseRanks records record :=
    h.placesBefore_le fun other hother hotherid => hsame hother hrecord (hotherid.trans hid.symm)
  constructor
  · intro r hr hid
    obtain ⟨record, hrecord, hlt, rfl⟩ := (mem_fused hnodup).mp hr
    exact ⟨_, (mem_fused hnodup).mpr ⟨record, hrecord, (hle hrecord hid).trans_lt hlt, rfl⟩, hid⟩
  · intro r hr r' hr' hid hid'
    obtain ⟨record, hrecord, _, rfl⟩ := (mem_fused hnodup).mp hr
    obtain ⟨record', hrecord', _, rfl⟩ := (mem_fused hnodup).mp hr'
    obtain rfl := hsame hrecord' hrecord (hid'.trans hid.symm)
    exact Nat.succ_le_succ (hle hrecord hid)
  · intro r hr s hs r' hr' s' hs' hrid hsid hrsame hssame
    obtain ⟨a, ha, _, rfl⟩ := (mem_fused hnodup).mp hr
    obtain ⟨b, hb, _, rfl⟩ := (mem_fused hnodup).mp hs
    obtain ⟨a', ha', _, rfl⟩ := (mem_fused hnodup).mp hr'
    obtain ⟨b', hb', _, rfl⟩ := (mem_fused hnodup).mp hs'
    obtain rfl := hsame ha' ha hrsame
    obtain rfl := hsame hb' hb hssame
    have hiff := h.placesBefore_lt_iff ha hrid hsid
    exact (Nat.succ_lt_succ_iff.trans hiff).trans Nat.succ_lt_succ_iff.symm

/-- Fusion is monotone in the ranks of one record, and depends neither on the order of the
records nor on that of the maps. Both runs raise the value error when the count is refused. -/
theorem fusion_monotone (hnodup : (records.map fun r => r.trusted.chunkId).Nodup)
    (hranked : ∀ r ∈ records, Ranked keywordRanks denseRanks r)
    (himproved : Improved keywordRanks denseRanks keywordRanks' denseRanks' id) (requestedCount : Nat) :
    (if 1 ≤ requestedCount ∧ requestedCount ≤ 50 then
      ∃ out out', fuseAuthoritativeRecords records keywordRanks denseRanks requestedCount = .ok out ∧
        fuseAuthoritativeRecords records keywordRanks' denseRanks' requestedCount = .ok out' ∧
        NoWorse id out out'
    else fuseAuthoritativeRecords records keywordRanks denseRanks requestedCount = .error .value ∧
      fuseAuthoritativeRecords records keywordRanks' denseRanks' requestedCount = .error .value) ∧
    ∀ (otherRecords : List InternalAuthoritativeRetrievalRecord) (otherKeyword otherDense : Ranks),
      otherRecords.Perm records → otherKeyword.items.Perm keywordRanks.items →
      otherDense.items.Perm denseRanks.items →
      fuseAuthoritativeRecords otherRecords otherKeyword otherDense requestedCount =
        fuseAuthoritativeRecords records keywordRanks denseRanks requestedCount := by
  refine ⟨?_, fun otherRecords otherKeyword otherDense hrecords hkeyword hdense =>
    fuseAuthoritativeRecords_perm hnodup hranked hrecords hkeyword hdense⟩
  split
  · rename_i hcount
    exact ⟨_, _, fuseAuthoritativeRecords_eq hcount hnodup hranked,
      fuseAuthoritativeRecords_eq hcount hnodup fun r hr => himproved.ranked (hranked r hr),
      himproved.noWorse hnodup requestedCount⟩
  · rename_i hcount
    rw [fuseAuthoritativeRecords, fuseAuthoritativeRecords, if_neg hcount, if_neg hcount]
    exact ⟨rfl, rfl⟩

/-- Two records, of which the second has the worse rank. -/
private def keywordOnly : Ranks := (Dict.empty.set 5 1).set 6 9

theorem fusion_monotone_example : ∃ out out',
    fuseAuthoritativeRecords [exampleRecord 5, exampleRecord 6] keywordOnly Dict.empty 1 = .ok out ∧
    fuseAuthoritativeRecords [exampleRecord 5, exampleRecord 6] keywordOnly (Dict.empty.set 6 2) 1 =
      .ok out' ∧ NoWorse 6 out out' := by
  have himproved : Improved keywordOnly Dict.empty keywordOnly (Dict.empty.set 6 2) 6 :=
    { keyword := le_rfl
      dense := le_top
      keyword_other := fun _ _ => rfl
      dense_other := fun other hother => by rw [Dict.get?_set, if_neg hother] }
  have hranked : ∀ r ∈ [exampleRecord 5, exampleRecord 6], Ranked keywordOnly Dict.empty r :=
    List.forall_mem_cons.mpr ⟨.inl (by decide), List.forall_mem_singleton.mpr (.inl (by decide))⟩
  exact (fusion_monotone (by decide) hranked himproved 1).1

end Runs
end AgenticRag.Retrieval

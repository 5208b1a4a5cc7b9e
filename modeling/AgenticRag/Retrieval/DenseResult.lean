import AgenticRag.Lib.OrderBy
import AgenticRag.Python.Dict
import AgenticRag.Python.IntText
import AgenticRag.Ingestion.VectorStore
import AgenticRag.Retrieval.Domain

/-! The bounded result of a dense provider. Identifiers that are not canonical
vector ids keep their position and lose their rank. -/
namespace AgenticRag.Retrieval
open Lib Python Ingestion

def maxProviderCandidates : Nat := 128
def maxCandidateIdBytes : Nat := 128

/-- `len(s.encode("utf-8"))`. -/
def encodedLength (s : Str) : Except RetrievalException Nat :=
  match encodeUtf8 s with
  | none => .error .unicodeEncode
  | some bytes => .ok bytes.length

/-- `if len(s.encode("utf-8")) > limit: raise DenseProviderError`. -/
def checkEncodedLength (limit : Nat) (s : Str) : Except RetrievalException Unit := do
  let length ← encodedLength s
  if length > limit then .error .denseProvider else .ok ()

def isChunkPrefixed (value : Str) : Bool := (str "chunk:").isPrefixOf value

/-- `_parse_canonical_vector_id`; `none` stands for a value that is not a `str`. -/
def parseCanonicalVectorId : Option Str → Option UUID
  | none => none
  | some value =>
    if isChunkPrefixed value then
      match UUID.ofText (value.drop (str "chunk:").length) with
      | none => none
      | some chunkId => if value ≠ stableVectorId chunkId then none else some chunkId
    else none

/-- Only the spelling that the index itself uses is accepted. -/
theorem parseCanonicalVectorId_eq_some {value : Option Str} {chunkId : UUID}
    (h : parseCanonicalVectorId value = some chunkId) : value = some (stableVectorId chunkId) := by
  cases value with
  | none => cases h
  | some value =>
    rw [parseCanonicalVectorId] at h
    split at h
    · split at h
      · cases h
      · split at h
        · cases h
        · rename_i hv
          obtain rfl := Option.some.inj h
          exact congrArg some (not_not.mp hv)
    · cases h

theorem parseCanonicalVectorId_stable (chunkId : UUID) :
    parseCanonicalVectorId (some (stableVectorId chunkId)) = some chunkId := by
  have hprefixed : isChunkPrefixed (stableVectorId chunkId) = true :=
    List.isPrefixOf_iff_prefix.mpr (List.prefix_append _ _)
  have hrest : (stableVectorId chunkId).drop (str "chunk:").length = UUID.str chunkId := List.drop_left
  rw [parseCanonicalVectorId, if_pos hprefixed, hrest, UUID.ofText_str]
  exact if_neg (not_not.mpr rfl)

/-- Vector ids and chunk ids correspond one to one, however liberal the constructor of a
UUID is. -/
theorem vectorIds_bijective :
    (∀ chunkId, parseCanonicalVectorId (some (stableVectorId chunkId)) = some chunkId) ∧
    (∀ value chunkId, parseCanonicalVectorId (some value) = some chunkId →
      value = stableVectorId chunkId) ∧
    ∀ value value' chunkId, parseCanonicalVectorId (some value) = some chunkId →
      parseCanonicalVectorId (some value') = some chunkId → value = value' := by
  have hexact : ∀ value chunkId, parseCanonicalVectorId (some value) = some chunkId →
      value = stableVectorId chunkId :=
    fun value chunkId h => Option.some.inj (parseCanonicalVectorId_eq_some h)
  refine ⟨parseCanonicalVectorId_stable, hexact, ?_⟩
  intro value value' chunkId h h'
  rw [hexact value chunkId h, hexact value' chunkId h']

-- The constructor takes braces, underscores and capitals; the identifier does not.
example : UUID.ofText (str "\x7b00_0000000000000000000000000000A\x7d") = some 10 ∧
    parseCanonicalVectorId (some (str "chunk:\x7b00_0000000000000000000000000000A\x7d")) = none := by
  decide +kernel

/-- A candidate's score: `None`, a finite `float`, or anything else. -/
inductive ProviderScore where
  | absent | finite | invalid
  deriving DecidableEq

structure DenseCandidate where
  vectorId : Option Str
  providerScore : ProviderScore
  absolutePosition : Nat

/-- The length check of an identifier that is a `str`. -/
def checkVectorId : Option Str → Except RetrievalException Unit
  | none => .ok ()
  | some vectorId => checkEncodedLength maxCandidateIdBytes vectorId

/-- `_DenseProviderResult`; ranks are one-based absolute positions. -/
structure DenseProviderResult where
  positionCount : Nat
  rankedChunkIds : List (UUID × Nat)
  positionCount_le : positionCount ≤ maxProviderCandidates
  nodup : (rankedChunkIds.map Prod.fst).Nodup
  rank_range : ∀ p ∈ rankedChunkIds, 1 ≤ p.2 ∧ p.2 ≤ positionCount

/-- The sets and ranks gathered while the candidates are read. -/
structure Gathered (positionCount : Nat) where
  positions : List Nat
  ranks : Dict UUID Nat
  rank_range : ∀ p ∈ ranks.items, 1 ≤ p.2 ∧ p.2 ≤ positionCount

namespace Gathered
variable {positionCount : Nat}

def empty : Gathered positionCount := ⟨[], Dict.empty, fun _ h => nomatch h⟩

def addPosition (g : Gathered positionCount) (position : Nat) : Gathered positionCount :=
  { g with positions := position :: g.positions }

/-- The smaller of the ranks of one chunk stays. -/
def addRank (g : Gathered positionCount) (chunkId : UUID) (position : Nat)
    (h : position < positionCount) : Gathered positionCount :=
  { g with
    ranks := g.ranks.setMin chunkId (position + 1)
    rank_range := by
      rintro ⟨k, v⟩ hp
      rcases Dict.mem_setMin hp with ⟨_, rfl⟩ | hp
      · exact ⟨Nat.succ_pos _, h⟩
      · exact g.rank_range _ hp }

/-- One turn of the constructor's loop. -/
def read (g : Gathered positionCount) (candidate : DenseCandidate) :
    Except RetrievalException (Gathered positionCount) :=
  if h : candidate.absolutePosition < positionCount then
    if candidate.absolutePosition ∈ g.positions then .error .denseProvider
    else do
      let g := g.addPosition candidate.absolutePosition
      checkVectorId candidate.vectorId
      if candidate.providerScore = .invalid then .ok g
      else match parseCanonicalVectorId candidate.vectorId with
        | none => .ok g
        | some chunkId => .ok (g.addRank chunkId candidate.absolutePosition h)
  else .error .denseProvider

end Gathered

/-- `_DenseProviderResult(position_count=..., candidates=...)`. -/
def DenseProviderResult.mk? (positionCount : Nat) (candidates : List DenseCandidate) :
    Except RetrievalException DenseProviderResult :=
  if hcount : positionCount ≤ maxProviderCandidates then
    if candidates.length ≠ positionCount then .error .denseProvider
    else do
      let g ← candidates.foldlM Gathered.read (Gathered.empty : Gathered positionCount)
      if (List.range positionCount).all fun position => position ∈ g.positions then
        return {
          positionCount := positionCount
          rankedChunkIds := orderBy Prod.snd g.ranks.items
          positionCount_le := hcount
          nodup := ((orderBy_perm g.ranks.items).map Prod.fst).nodup_iff.mpr g.ranks.nodup
          rank_range := fun p hp => g.rank_range p (mem_orderBy.mp hp) }
      else .error .denseProvider
  else .error .denseProvider

end AgenticRag.Retrieval

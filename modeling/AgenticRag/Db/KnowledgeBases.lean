import AgenticRag.Db.Models

/-! A knowledge base and the membership of its owner, as one insert. -/
namespace AgenticRag.Db
open Lib Python

/-- A character of a `text` value: neither NUL nor a surrogate. -/
def isTextCharacter (c : CodePoint) : Bool := decide (c.val ≠ 0) && !isSurrogate c

/-- The CHECK constraints of `knowledge_bases`, with the length of the column `name`. -/
structure KnowledgeBase.Checks (knowledgeBase : KnowledgeBase) : Prop where
  name_length : 1 ≤ (btrim knowledgeBase.name).length ∧ (btrim knowledgeBase.name).length ≤ 200
  name_column : knowledgeBase.name.length ≤ 200
  description_length : ∀ d, knowledgeBase.description = some d → d.length ≤ 2000

instance (knowledgeBase : KnowledgeBase) : Decidable knowledgeBase.Checks :=
  decidable_of_iff
    ((1 ≤ (btrim knowledgeBase.name).length ∧ (btrim knowledgeBase.name).length ≤ 200) ∧
      knowledgeBase.name.length ≤ 200 ∧ ∀ d ∈ knowledgeBase.description, d.length ≤ 2000)
    ⟨fun h => ⟨h.1, h.2.1, h.2.2⟩, fun h => ⟨h.name_length, h.name_column, h.description_length⟩⟩

/-- The texts of a knowledge base can be sent and stored. -/
def KnowledgeBase.textual (knowledgeBase : KnowledgeBase) : Bool :=
  knowledgeBase.name.all isTextCharacter && knowledgeBase.description.all (·.all isTextCharacter)

/-- `add_with_owner`; `none` when the database refuses a row. -/
def addWithOwner (db : Database) (knowledgeBase : KnowledgeBase) (ownerUserId : UUID) :
    Option Database :=
  if knowledgeBase.Checks ∧ knowledgeBase.textual ∧ (db.users.find? ownerUserId).isSome then do
    let knowledgeBases ← db.knowledgeBases.insert? knowledgeBase
    let memberships ← db.memberships.insert? ⟨knowledgeBase.id, ownerUserId, .owner⟩
    return { db with knowledgeBases, memberships }
  else none

section Specifications
variable {db db' : Database} {knowledgeBase : KnowledgeBase} {ownerUserId : UUID}

/-- What an insert found and wrote. -/
theorem addWithOwner_some (h : addWithOwner db knowledgeBase ownerUserId = some db') :
    knowledgeBase.Checks ∧ db.knowledgeBases.insert? knowledgeBase = some db'.knowledgeBases ∧
      db.memberships.insert? ⟨knowledgeBase.id, ownerUserId, .owner⟩ = some db'.memberships ∧
        db' = { db with knowledgeBases := db'.knowledgeBases, memberships := db'.memberships } := by
  unfold addWithOwner at h
  split at h
  · rename_i hchecks
    obtain ⟨knowledgeBases, hknowledgeBases, h⟩ := Option.bind_eq_some_iff.mp h
    obtain ⟨memberships, hmemberships, h⟩ := Option.bind_eq_some_iff.mp h
    obtain rfl := Option.some.inj h
    exact ⟨hchecks.1, hknowledgeBases, hmemberships, rfl⟩
  · cases h

end Specifications
end AgenticRag.Db

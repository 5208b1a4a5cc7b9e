import AgenticRag.Db.Access
import AgenticRag.Lib.Machine
import AgenticRag.Lib.Slots

/-! Operators claim the knowledge bases without memberships while users create others. Each statement
sees the rows committed before it, and a claim holds an advisory lock until it ends. -/
namespace AgenticRag.Db
open Lib Python

/-- A transaction of `claim_unowned_internal`: it waits for the lock, has it, runs its insert on the
knowledge bases that its snapshot shows, or has been returned the ids inserted. -/
inductive ClaimStage where
  | waiting
  | locked
  | inserting (eligible : List UUID)
  | returned (claimed : List UUID)

/-- A transaction of `add_with_owner` by the rows that it has flushed. -/
inductive CreationStage where
  | begun
  | added
  | linked

inductive Transaction where
  | claim (ownerUserId : UUID) (stage : ClaimStage)
  | creation (knowledgeBase : KnowledgeBase) (ownerUserId : UUID) (stage : CreationStage)

def ownerMembership (ownerUserId knowledgeBaseId : UUID) : KnowledgeBaseMembership :=
  ⟨knowledgeBaseId, ownerUserId, .owner⟩

/-- The memberships that a transaction has inserted and not committed. -/
def Transaction.memberships : Transaction → List KnowledgeBaseMembership
  | .claim ownerUserId (.returned claimed) => claimed.map (ownerMembership ownerUserId)
  | .creation knowledgeBase ownerUserId .linked => [ownerMembership ownerUserId knowledgeBase.id]
  | _ => []

/-- A claim that has committed, with the ids that its insert returned. -/
structure CommittedClaim where
  ownerUserId : UUID
  claimed : List UUID

/-- The count that `claim_unowned_internal` returns. -/
def CommittedClaim.count (claim : CommittedClaim) : Nat := claim.claimed.length

/-- The committed rows, the holder of the advisory lock, the open transactions, and what was
committed, the latest first. -/
structure ClaimState where
  db : Database
  holder : Option Nat
  transactions : Nat → Option Transaction
  issued : Nat
  claims : List CommittedClaim
  created : List (KnowledgeBase × UUID)

def ClaimState.init (db : Database) : ClaimState := ⟨db, none, fun _ => none, 0, [], []⟩

/-- `~has_any_membership`. -/
def isUnowned (db : Database) (knowledgeBaseId : UUID) : Bool :=
  !db.memberships.rows.any fun membership => membership.knowledgeBaseId == knowledgeBaseId

/-- The rows of the `eligible` select. -/
def eligible (db : Database) : List UUID :=
  (db.knowledgeBases.rows.map KnowledgeBase.id).filter (isUnowned db)

inductive ClaimAction where
  | claim (ownerUserId : UUID)
  | create (knowledgeBase : KnowledgeBase) (ownerUserId : UUID)
  | step (id : Nat)
  | rollback (id : Nat)

/-- An insert waits for another transaction that has inserted one of its keys. -/
def ClaimState.blocked (s : ClaimState) (id : Nat) (keys : List (UUID × UUID)) : Bool :=
  (List.range s.issued).any fun other => other != id && (s.transactions other).any fun transaction =>
    transaction.memberships.any fun membership => keys.contains membership.key

def ClaimState.begin (s : ClaimState) (transaction : Transaction) : ClaimState :=
  { s with
    transactions := Function.update s.transactions s.issued (some transaction)
    issued := s.issued + 1 }

def ClaimState.goOn (s : ClaimState) (id : Nat) (transaction : Transaction) : ClaimState :=
  { s with transactions := Function.update s.transactions id (some transaction) }

/-- The transaction ends, and a lock that it holds is free. -/
def ClaimState.close (s : ClaimState) (id : Nat) : ClaimState :=
  { s with
    transactions := Function.update s.transactions id none
    holder := if s.holder = some id then none else s.holder }

/-- The next statement of `claim_unowned_internal`, or its commit. -/
def stepClaim (s : ClaimState) (id : Nat) (ownerUserId : UUID) : ClaimStage → Option ClaimState
  | .waiting =>
    if s.holder.isNone then
      some { s.goOn id (.claim ownerUserId .locked) with holder := some id }
    else none
  | .locked => some (s.goOn id (.claim ownerUserId (.inserting (eligible s.db))))
  | .inserting eligible =>
    let rows := eligible.map (ownerMembership ownerUserId)
    if s.blocked id (rows.map KnowledgeBaseMembership.key) then none
    else some (s.goOn id (.claim ownerUserId (.returned
      (eligible.filter fun knowledgeBaseId => (s.db.membership? knowledgeBaseId ownerUserId).isNone))))
  | .returned claimed =>
    (s.db.memberships.insertAll? (claimed.map (ownerMembership ownerUserId))).map fun memberships =>
      { s.close id with db := { s.db with memberships }, claims := ⟨ownerUserId, claimed⟩ :: s.claims }

/-- The next statement of `add_with_owner`, or its commit. A key that is taken makes it raise. -/
def stepCreation (s : ClaimState) (id : Nat) (knowledgeBase : KnowledgeBase) (ownerUserId : UUID) :
    CreationStage → Option ClaimState
  | .begun =>
    if (s.db.knowledgeBases.find? knowledgeBase.id).isSome then none
    else some (s.goOn id (.creation knowledgeBase ownerUserId .added))
  | .added =>
    if (s.db.membership? knowledgeBase.id ownerUserId).isSome ||
        s.blocked id [(ownerMembership ownerUserId knowledgeBase.id).key] then none
    else some (s.goOn id (.creation knowledgeBase ownerUserId .linked))
  | .linked =>
    match s.db.knowledgeBases.insert? knowledgeBase,
        s.db.memberships.insert? (ownerMembership ownerUserId knowledgeBase.id) with
    | some knowledgeBases, some memberships => some
      { s.close id with
        db := { s.db with knowledgeBases, memberships }
        created := (knowledgeBase, ownerUserId) :: s.created }
    | _, _ => none

def claimStep (s : ClaimState) : ClaimAction → Option ClaimState
  | .claim ownerUserId => some (s.begin (.claim ownerUserId .waiting))
  | .create knowledgeBase ownerUserId => some (s.begin (.creation knowledgeBase ownerUserId .begun))
  | .step id =>
    match s.transactions id with
    | some (.claim ownerUserId stage) => stepClaim s id ownerUserId stage
    | some (.creation knowledgeBase ownerUserId stage) => stepCreation s id knowledgeBase ownerUserId stage
    | none => none
  | .rollback id => if (s.transactions id).isSome then some (s.close id) else none

def legacyClaims : Machine ClaimState ClaimAction := ⟨claimStep⟩

section Rows
variable {db db' : Database}

/-- A membership refers to a knowledge base, as its foreign key says. -/
def Refers (db : Database) : Prop :=
  ∀ m ∈ db.memberships, ∃ knowledgeBase ∈ db.knowledgeBases, knowledgeBase.id = m.knowledgeBaseId

theorem isUnowned_iff {k : UUID} : isUnowned db k = true ↔ ∀ m ∈ db.memberships, m.knowledgeBaseId ≠ k := by
  simp only [isUnowned, Bool.not_eq_true', List.any_eq_false, beq_iff_eq]
  rfl

theorem mem_eligible {k : UUID} : k ∈ eligible db ↔
    (∃ knowledgeBase ∈ db.knowledgeBases, knowledgeBase.id = k) ∧ ∀ m ∈ db.memberships, m.knowledgeBaseId ≠ k := by
  rw [eligible, List.mem_filter, List.mem_map, isUnowned_iff]
  rfl

/-- Once every eligible knowledge base has got a membership, none is eligible. -/
theorem eligible_eq_nil (db : Database) {ownerUserId : UUID}
    (hknowledgeBases : db'.knowledgeBases = db.knowledgeBases)
    (hmemberships : ∀ m, m ∈ db'.memberships ↔
      m ∈ (eligible db).map (ownerMembership ownerUserId) ∨ m ∈ db.memberships) : eligible db' = [] := by
  rw [List.eq_nil_iff_forall_not_mem]
  intro k hk
  obtain ⟨hknown, hnone⟩ := mem_eligible.mp hk
  rw [hknowledgeBases] at hknown
  have hunowned : k ∈ eligible db :=
    mem_eligible.mpr ⟨hknown, fun m hm => hnone m ((hmemberships m).mpr (.inr hm))⟩
  exact hnone (ownerMembership ownerUserId k)
    ((hmemberships _).mpr (.inl (List.mem_map.mpr ⟨k, hunowned, rfl⟩))) rfl

/-- A knowledge base that is added with its owner leaves the eligible ones as they were. -/
theorem eligible_created {knowledgeBase : KnowledgeBase} {ownerUserId : UUID}
    (hknowledgeBases : db'.knowledgeBases.rows = knowledgeBase :: db.knowledgeBases.rows)
    (hmemberships : db'.memberships.rows =
      ownerMembership ownerUserId knowledgeBase.id :: db.memberships.rows)
    (hfresh : db.knowledgeBases.find? knowledgeBase.id = none) : eligible db' = eligible db := by
  have hunowned (k : UUID) : isUnowned db' k = (isUnowned db k && decide (k ≠ knowledgeBase.id)) := by
    simp only [isUnowned, hmemberships, List.any_cons, ownerMembership, Bool.not_or]
    by_cases hk : k = knowledgeBase.id
    · simp [hk]
    · have hk' : knowledgeBase.id ≠ k := fun he => hk he.symm
      simp [hk, hk']
  have hkey (row : KnowledgeBase) (hrow : row ∈ db.knowledgeBases.rows) : row.id ≠ knowledgeBase.id :=
    Table.find?_eq_none.mp hfresh row hrow
  rw [eligible, eligible, hknowledgeBases, List.map_cons, List.filter_cons, if_neg (by simp [hunowned])]
  refine List.filter_congr fun k hk => ?_
  obtain ⟨row, hrow, rfl⟩ := List.mem_map.mp hk
  rw [hunowned]
  simp [hkey row hrow]

theorem nodup_eligible (db : Database) : (eligible db).Nodup :=
  db.knowledgeBases.nodup.filter _

end Rows

section Moves
variable {s t : ClaimState}

/-- All that a step can do. -/
inductive ClaimMove (s : ClaimState) : ClaimAction → ClaimState → Prop
  | claim (ownerUserId : UUID) : ClaimMove s (.claim ownerUserId) (s.begin (.claim ownerUserId .waiting))
  | create (knowledgeBase : KnowledgeBase) (ownerUserId : UUID) :
    ClaimMove s (.create knowledgeBase ownerUserId) (s.begin (.creation knowledgeBase ownerUserId .begun))
  | lock {id ownerUserId} (hat : s.transactions id = some (.claim ownerUserId .waiting))
    (hfree : s.holder = none) :
    ClaimMove s (.step id) { s.goOn id (.claim ownerUserId .locked) with holder := some id }
  | select {id ownerUserId} (hat : s.transactions id = some (.claim ownerUserId .locked)) :
    ClaimMove s (.step id) (s.goOn id (.claim ownerUserId (.inserting (eligible s.db))))
  | insert {id ownerUserId knowledgeBases}
    (hat : s.transactions id = some (.claim ownerUserId (.inserting knowledgeBases)))
    (hfree : ¬s.blocked id ((knowledgeBases.map (ownerMembership ownerUserId)).map
      KnowledgeBaseMembership.key) = true) :
    ClaimMove s (.step id) (s.goOn id (.claim ownerUserId (.returned (knowledgeBases.filter
      fun knowledgeBaseId => (s.db.membership? knowledgeBaseId ownerUserId).isNone))))
  | commitClaim {id ownerUserId claimed memberships}
    (hat : s.transactions id = some (.claim ownerUserId (.returned claimed)))
    (hinsert : s.db.memberships.insertAll? (claimed.map (ownerMembership ownerUserId)) = some memberships) :
    ClaimMove s (.step id)
      { s.close id with db := { s.db with memberships }, claims := ⟨ownerUserId, claimed⟩ :: s.claims }
  | add {id ownerUserId} {knowledgeBase : KnowledgeBase}
    (hat : s.transactions id = some (.creation knowledgeBase ownerUserId .begun))
    (hfresh : ¬(s.db.knowledgeBases.find? knowledgeBase.id).isSome = true) :
    ClaimMove s (.step id) (s.goOn id (.creation knowledgeBase ownerUserId .added))
  | link {id ownerUserId} {knowledgeBase : KnowledgeBase}
    (hat : s.transactions id = some (.creation knowledgeBase ownerUserId .added))
    (hfree : ¬((s.db.membership? knowledgeBase.id ownerUserId).isSome ||
      s.blocked id [(ownerMembership ownerUserId knowledgeBase.id).key]) = true) :
    ClaimMove s (.step id) (s.goOn id (.creation knowledgeBase ownerUserId .linked))
  | commitCreation {id ownerUserId knowledgeBases memberships} {knowledgeBase : KnowledgeBase}
    (hat : s.transactions id = some (.creation knowledgeBase ownerUserId .linked))
    (hadd : s.db.knowledgeBases.insert? knowledgeBase = some knowledgeBases)
    (hlink : s.db.memberships.insert? (ownerMembership ownerUserId knowledgeBase.id) = some memberships) :
    ClaimMove s (.step id)
      { s.close id with
        db := { s.db with knowledgeBases, memberships }
        created := (knowledgeBase, ownerUserId) :: s.created }
  | rollback {id} (hat : (s.transactions id).isSome = true) : ClaimMove s (.rollback id) (s.close id)

private theorem stepClaim_move {id : Nat} {ownerUserId : UUID} {stage : ClaimStage}
    (hat : s.transactions id = some (.claim ownerUserId stage))
    (h : stepClaim s id ownerUserId stage = some t) : ClaimMove s (.step id) t := by
  cases stage with
  | waiting =>
    simp only [stepClaim] at h
    split at h
    · rename_i hfree
      obtain rfl := Option.some.inj h
      exact .lock hat (Option.isNone_iff_eq_none.mp hfree)
    · cases h
  | locked =>
    obtain rfl := Option.some.inj h
    exact .select hat
  | inserting knowledgeBases =>
    simp only [stepClaim] at h
    split at h
    · cases h
    · obtain rfl := Option.some.inj h
      exact .insert hat ‹_›
  | returned claimed =>
    obtain ⟨memberships, hinsert, rfl⟩ := Option.map_eq_some_iff.mp h
    exact .commitClaim hat hinsert

private theorem stepCreation_move {id : Nat} {knowledgeBase : KnowledgeBase} {ownerUserId : UUID}
    {stage : CreationStage} (hat : s.transactions id = some (.creation knowledgeBase ownerUserId stage))
    (h : stepCreation s id knowledgeBase ownerUserId stage = some t) : ClaimMove s (.step id) t := by
  cases stage with
  | begun =>
    simp only [stepCreation] at h
    split at h
    · cases h
    · obtain rfl := Option.some.inj h
      exact .add hat ‹_›
  | added =>
    simp only [stepCreation] at h
    split at h
    · cases h
    · obtain rfl := Option.some.inj h
      exact .link hat ‹_›
  | linked =>
    simp only [stepCreation] at h
    split at h
    · rename_i hadd hlink
      obtain rfl := Option.some.inj h
      exact .commitCreation hat hadd hlink
    · cases h

theorem claimStep_move {a : ClaimAction} (h : legacyClaims.step s a = some t) : ClaimMove s a t := by
  cases a with
  | claim ownerUserId =>
    obtain rfl := Option.some.inj h
    exact .claim ownerUserId
  | create knowledgeBase ownerUserId =>
    obtain rfl := Option.some.inj h
    exact .create knowledgeBase ownerUserId
  | step id =>
    simp only [legacyClaims, claimStep] at h
    split at h
    · rename_i hat
      exact stepClaim_move hat h
    · rename_i hat
      exact stepCreation_move hat h
    · cases h
  | rollback id =>
    simp only [legacyClaims, claimStep] at h
    split at h
    · obtain rfl := Option.some.inj h
      exact .rollback ‹_›
    · cases h

end Moves

section Invariant
variable {db₀ : Database} {s t : ClaimState} {id : Nat}

/-- The knowledge bases of a running insert are those that are eligible now. -/
def ClaimStage.Current (db : Database) : ClaimStage → Prop
  | .inserting knowledgeBases | .returned knowledgeBases => knowledgeBases = eligible db
  | .waiting | .locked => True

/-- The invariant: the first claim to commit gets all that was eligible, the holder of the lock runs
on what is eligible now, and every other membership is there from the start or of a creation. -/
structure Exclusive (db₀ : Database) (s : ClaimState) : Prop where
  refers : Refers s.db
  eligible : s.claims = [] ∧ eligible s.db = eligible db₀ ∨ eligible s.db = [] ∧
    ∃ later first, s.claims = later ++ [first] ∧ first.claimed = Db.eligible db₀ ∧
      ∀ claim ∈ later, claim.claimed = []
  held : ∀ id ownerUserId stage, s.transactions id = some (.claim ownerUserId stage) →
    stage = .waiting ∨ s.holder = some id ∧ stage.Current s.db
  memberships : ∀ m, m ∈ s.db.memberships ↔ m ∈ db₀.memberships ∨
    (∃ claim ∈ s.claims, m ∈ claim.claimed.map (ownerMembership claim.ownerUserId)) ∨
    ∃ creation ∈ s.created, m = ownerMembership creation.2 creation.1.id
  knowledgeBases : ∀ knowledgeBase, knowledgeBase ∈ s.db.knowledgeBases ↔
    knowledgeBase ∈ db₀.knowledgeBases ∨ ∃ ownerUserId, (knowledgeBase, ownerUserId) ∈ s.created
  fresh : ∀ creation ∈ s.created, ∀ knowledgeBase ∈ db₀.knowledgeBases, knowledgeBase.id ≠ creation.1.id
  once : (s.created.map fun creation => creation.1.id).Nodup

theorem Exclusive.init (h : Refers db₀) : Exclusive db₀ (.init db₀) where
  refers := h
  eligible := .inl ⟨rfl, rfl⟩
  held := fun _ _ _ h => by cases h
  memberships := fun m => by simp [ClaimState.init]
  knowledgeBases := fun knowledgeBase => by simp [ClaimState.init]
  fresh := fun _ h => by cases h
  once := List.nodup_nil

/-- A step that commits nothing. -/
theorem Exclusive.uncommitted (h : Exclusive db₀ s) (hdb : t.db = s.db) (hclaims : t.claims = s.claims)
    (hcreated : t.created = s.created)
    (hheld : ∀ id ownerUserId stage, t.transactions id = some (.claim ownerUserId stage) →
      stage = .waiting ∨ t.holder = some id ∧ stage.Current s.db) : Exclusive db₀ t where
  refers := hdb ▸ h.refers
  eligible := by
    rw [hdb, hclaims]
    exact h.eligible
  held := by
    rw [hdb]
    exact hheld
  memberships := by
    rw [hdb, hclaims, hcreated]
    exact h.memberships
  knowledgeBases := by
    rw [hdb, hcreated]
    exact h.knowledgeBases
  fresh := hcreated ▸ h.fresh
  once := hcreated ▸ h.once

/-- A transaction goes on, and only the holder of the lock runs its insert. -/
theorem Exclusive.goOn (h : Exclusive db₀ s) {transaction : Transaction}
    (hheld : ∀ ownerUserId stage, transaction = .claim ownerUserId stage →
      s.holder = some id ∧ stage.Current s.db) : Exclusive db₀ (s.goOn id transaction) := by
  refine h.uncommitted rfl rfl rfl fun id' ownerUserId stage htransaction => ?_
  rcases of_update_eq_some htransaction with ⟨rfl, hslot⟩ | hold
  · exact .inr (hheld ownerUserId stage (Option.some.inj hslot))
  · exact h.held id' ownerUserId stage hold

/-- What is left of the others once a transaction ends. -/
theorem Exclusive.held_close (h : Exclusive db₀ s) {id' : Nat} {ownerUserId : UUID} {stage : ClaimStage}
    (htransaction : (s.close id).transactions id' = some (.claim ownerUserId stage)) :
    id' ≠ id ∧ (stage = .waiting ∨ (s.close id).holder = some id' ∧ s.holder = some id' ∧
      stage.Current s.db) := by
  rcases update_eq_some.mp htransaction with ⟨_, hslot⟩ | ⟨hne, hold⟩
  · cases hslot
  · refine ⟨hne, ?_⟩
    rcases h.held id' ownerUserId stage hold with hwaiting | ⟨hholder, hcurrent⟩
    · exact .inl hwaiting
    · refine .inr ⟨?_, hholder, hcurrent⟩
      have hother : s.holder ≠ some id := by
        rw [hholder]
        exact fun he => hne (Option.some.inj he)
      exact (if_neg hother).trans hholder

/-- The commit of a claim. -/
theorem Exclusive.commitClaim (h : Exclusive db₀ s) {ownerUserId : UUID} {claimed : List UUID}
    (htransaction : s.transactions id = some (.claim ownerUserId (.returned claimed)))
    {memberships : Table KnowledgeBaseMembership KnowledgeBaseMembership.key}
    (hinsert : s.db.memberships.insertAll? (claimed.map (ownerMembership ownerUserId)) = some memberships) :
    Exclusive db₀ { s.close id with
      db := { s.db with memberships }
      claims := ⟨ownerUserId, claimed⟩ :: s.claims } := by
  obtain ⟨hholder, hcurrent⟩ := (h.held id ownerUserId _ htransaction).resolve_left fun he => by cases he
  obtain rfl : claimed = Db.eligible s.db := hcurrent
  have hmem (m : KnowledgeBaseMembership) : m ∈ memberships ↔
      m ∈ (Db.eligible s.db).map (ownerMembership ownerUserId) ∨ m ∈ s.db.memberships :=
    Table.mem_insertAll? hinsert
  have hnone : Db.eligible { s.db with memberships } = [] := eligible_eq_nil s.db rfl hmem
  refine ⟨fun m hm => ?_, .inr ⟨hnone, ?_⟩, fun id' owner stage hstage => ?_, fun m => ?_,
    h.knowledgeBases, h.fresh, h.once⟩
  · rcases (hmem m).mp hm with hclaimed | hold
    · obtain ⟨k, hk, rfl⟩ := List.mem_map.mp hclaimed
      exact (mem_eligible.mp hk).1
    · exact h.refers m hold
  · rcases h.eligible with ⟨hclaims, hsame⟩ | ⟨hempty, later, first, hclaims, hfirst, hlater⟩
    · exact ⟨[], ⟨ownerUserId, Db.eligible s.db⟩, by rw [hclaims]; rfl, hsame, fun _ hc => by cases hc⟩
    · refine ⟨⟨ownerUserId, Db.eligible s.db⟩ :: later, first, by rw [hclaims]; rfl, hfirst, ?_⟩
      intro claim hclaim
      rcases List.mem_cons.mp hclaim with rfl | hold
      · exact hempty
      · exact hlater claim hold
  · obtain ⟨hne, hwaiting | ⟨_, hother, _⟩⟩ := h.held_close hstage
    · exact .inl hwaiting
    · exact absurd (Option.some.inj (hother.symm.trans hholder)) hne
  · show m ∈ memberships ↔ _
    rw [hmem, h.memberships, List.exists_mem_cons_iff]
    exact or_left_comm.trans (or_congr_right or_assoc.symm)

/-- The commit of a creation. -/
theorem Exclusive.commitCreation (h : Exclusive db₀ s) {knowledgeBase : KnowledgeBase} {ownerUserId : UUID}
    (htransaction : s.transactions id = some (.creation knowledgeBase ownerUserId .linked))
    {knowledgeBases : Table KnowledgeBase KnowledgeBase.id}
    {memberships : Table KnowledgeBaseMembership KnowledgeBaseMembership.key}
    (hadd : s.db.knowledgeBases.insert? knowledgeBase = some knowledgeBases)
    (hlink : s.db.memberships.insert? (ownerMembership ownerUserId knowledgeBase.id) = some memberships) :
    Exclusive db₀ { s.close id with
      db := { s.db with knowledgeBases, memberships }
      created := (knowledgeBase, ownerUserId) :: s.created } := by
  obtain ⟨hfresh, hrows⟩ := Table.insert?_eq_some hadd
  have hsame : Db.eligible { s.db with knowledgeBases, memberships } = Db.eligible s.db :=
    eligible_created hrows (Table.insert?_eq_some hlink).2 hfresh
  have hnew : ∀ row ∈ s.db.knowledgeBases, row.id ≠ knowledgeBase.id := Table.find?_eq_none.mp hfresh
  refine ⟨fun m hm => ?_, ?_, fun id' owner stage hstage => ?_, fun m => ?_, fun row => ?_,
    fun creation hcreation row hrow => ?_, ?_⟩
  · rcases (Table.mem_insert? hlink).mp hm with rfl | hold
    · exact ⟨knowledgeBase, (Table.mem_insert? hadd).mpr (.inl rfl), rfl⟩
    · obtain ⟨row, hrow, hid⟩ := h.refers m hold
      exact ⟨row, (Table.mem_insert? hadd).mpr (.inr hrow), hid⟩
  · rw [hsame]
    exact h.eligible
  · obtain ⟨_, hwaiting | ⟨hholder, _, hcurrent⟩⟩ := h.held_close hstage
    · exact .inl hwaiting
    · refine .inr ⟨hholder, ?_⟩
      cases stage with
      | waiting => trivial
      | locked => trivial
      | inserting rows => exact hcurrent.trans hsame.symm
      | returned rows => exact hcurrent.trans hsame.symm
  · show m ∈ memberships ↔ m ∈ db₀.memberships ∨
      (∃ claim ∈ s.claims, m ∈ claim.claimed.map (ownerMembership claim.ownerUserId)) ∨ _
    rw [Table.mem_insert? hlink, h.memberships, List.exists_mem_cons_iff]
    exact or_left_comm.trans (or_congr_right or_left_comm)
  · show row ∈ knowledgeBases ↔ _
    rw [Table.mem_insert? hadd, h.knowledgeBases]
    simp only [List.mem_cons, Prod.mk.injEq]
    constructor
    · rintro (rfl | hold | ⟨owner, hcreated⟩)
      · exact .inr ⟨ownerUserId, .inl ⟨rfl, rfl⟩⟩
      · exact .inl hold
      · exact .inr ⟨owner, .inr hcreated⟩
    · rintro (hold | ⟨owner, ⟨rfl, _⟩ | hcreated⟩)
      · exact .inr (.inl hold)
      · exact .inl rfl
      · exact .inr (.inr ⟨owner, hcreated⟩)
  · rcases List.mem_cons.mp hcreation with rfl | hold
    · exact hnew row ((h.knowledgeBases row).mpr (.inl hrow))
    · exact h.fresh creation hold row hrow
  · show (knowledgeBase.id :: s.created.map fun creation => creation.1.id).Nodup
    refine List.nodup_cons.mpr ⟨fun hmem => ?_, h.once⟩
    obtain ⟨⟨row, owner⟩, hcreated, hid⟩ := List.mem_map.mp hmem
    exact hnew row ((h.knowledgeBases row).mpr (.inr ⟨owner, hcreated⟩)) hid

theorem claimStep_exclusive {a : ClaimAction} (h : Exclusive db₀ s)
    (hstep : legacyClaims.step s a = some t) : Exclusive db₀ t := by
  cases claimStep_move hstep with
  | claim =>
    refine h.uncommitted rfl rfl rfl fun id owner stage htransaction => ?_
    rcases of_update_eq_some htransaction with ⟨_, hslot⟩ | hold
    · cases hslot
      exact .inl rfl
    · exact h.held id owner stage hold
  | create =>
    refine h.uncommitted rfl rfl rfl fun id owner stage htransaction => ?_
    rcases of_update_eq_some htransaction with ⟨_, hslot⟩ | hold
    · cases hslot
    · exact h.held id owner stage hold
  | lock hat hfree =>
    refine h.uncommitted rfl rfl rfl fun id' owner stage hother => ?_
    rcases of_update_eq_some hother with ⟨rfl, hslot⟩ | hold
    · cases hslot
      exact .inr ⟨rfl, trivial⟩
    · -- nobody held the lock, so every other claim is still waiting
      refine .inl ((h.held id' owner stage hold).resolve_right fun hholds => ?_)
      rw [hfree] at hholds
      cases hholds.1
  | @select id ownerUserId hat =>
    refine h.goOn fun owner stage heq => ?_
    cases heq
    exact ⟨((h.held id ownerUserId _ hat).resolve_left fun he => by cases he).1, rfl⟩
  | @insert id ownerUserId knowledgeBases hat =>
    refine h.goOn fun owner stage heq => ?_
    obtain ⟨hholder, hcurrent⟩ := (h.held id ownerUserId _ hat).resolve_left fun he => by cases he
    obtain ⟨-, rfl⟩ := Transaction.claim.inj heq
    obtain rfl : knowledgeBases = Db.eligible s.db := hcurrent
    refine ⟨hholder, List.filter_eq_self.mpr fun k hk => ?_⟩
    rw [Option.isNone_iff_eq_none, Database.membership?, Table.find?_eq_none]
    exact fun m hm he => (mem_eligible.mp hk).2 m hm (Prod.mk.inj he).1
  | commitClaim hat hinsert => exact h.commitClaim hat hinsert
  | add => exact h.goOn fun _ _ he => by cases he
  | link => exact h.goOn fun _ _ he => by cases he
  | commitCreation hat hadd hlink => exact h.commitCreation hat hadd hlink
  | rollback =>
    refine h.uncommitted rfl rfl rfl fun id' owner stage htransaction => ?_
    obtain ⟨_, hwaiting | ⟨hholder, _, hcurrent⟩⟩ := h.held_close htransaction
    · exact .inl hwaiting
    · exact .inr ⟨hholder, hcurrent⟩

theorem Exclusive.reached (hrefers : Refers db₀) (h : legacyClaims.Reaches (.init db₀) s) : Exclusive db₀ s :=
  Machine.reaches_invariant (fun _ _ _ hs hstep => claimStep_exclusive hs hstep) (.init hrefers) h

/-- A claim commits, or no claim does. -/
theorem claimStep_claims {a : ClaimAction} (hstep : legacyClaims.step s a = some t) :
    t.claims = s.claims ∨ ∃ id ownerUserId claimed memberships,
      s.transactions id = some (.claim ownerUserId (.returned claimed)) ∧
      s.db.memberships.insertAll? (claimed.map (ownerMembership ownerUserId)) = some memberships ∧
      t.db = { s.db with memberships } ∧ t.claims = ⟨ownerUserId, claimed⟩ :: s.claims := by
  cases claimStep_move hstep with
  | commitClaim hat hinsert => exact .inr ⟨_, _, _, _, hat, hinsert, rfl, rfl⟩
  | _ => exact .inl rfl

/-- What a committed claim got was eligible at the start. -/
theorem Exclusive.claimed (h : Exclusive db₀ s) {claim : CommittedClaim} (hclaim : claim ∈ s.claims)
    {k : UUID} (hk : k ∈ claim.claimed) : k ∈ Db.eligible db₀ := by
  rcases h.eligible with ⟨hnone, _⟩ | ⟨_, later, first, hclaims, hfirst, hlater⟩
  · rw [hnone] at hclaim
    cases hclaim
  · rw [hclaims, List.mem_append, List.mem_singleton] at hclaim
    rcases hclaim with hold | rfl
    · rw [hlater claim hold] at hk
      cases hk
    · rwa [hfirst] at hk

/-- A later claim gets nothing and changes nothing. -/
theorem Exclusive.later (h : Exclusive db₀ s) {a : ClaimAction} {claim : CommittedClaim}
    (hstep : legacyClaims.step s a = some t) (hclaims : s.claims ≠ []) (hcommit : t.claims = claim :: s.claims) :
    claim.count = 0 ∧ t.db = s.db := by
  obtain ⟨hempty, _⟩ := h.eligible.resolve_left fun hnone => hclaims hnone.1
  rcases claimStep_claims hstep with hsame | ⟨id, owner, claimed, memberships, hat, hinsert, hdb, hnew⟩
  · exact absurd (hcommit.symm.trans hsame) (List.cons_ne_self _ _)
  · obtain ⟨rfl, -⟩ := List.cons.inj (hnew.symm.trans hcommit)
    obtain ⟨_, hcurrent⟩ := (h.held id owner _ hat).resolve_left fun he => by cases he
    obtain rfl : claimed = [] := hcurrent.trans hempty
    obtain rfl := Option.some.inj hinsert
    exact ⟨rfl, hdb⟩

/-- A claim that has been returned its ids can commit. -/
theorem Exclusive.commits (h : Exclusive db₀ s) {ownerUserId : UUID} {claimed : List UUID}
    (htransaction : s.transactions id = some (.claim ownerUserId (.returned claimed))) :
    (legacyClaims.step s (.step id)).isSome := by
  obtain ⟨_, hcurrent⟩ := (h.held id ownerUserId _ htransaction).resolve_left fun he => by cases he
  obtain rfl : claimed = Db.eligible s.db := hcurrent
  simp only [legacyClaims, claimStep, htransaction, stepClaim, Option.isSome_map]
  refine Table.insertAll?_isSome ?_ fun m hm => ?_
  · rw [List.map_map]
    exact (nodup_eligible s.db).map fun a b hab => (Prod.mk.inj hab).1
  · obtain ⟨k, hk, rfl⟩ := List.mem_map.mp hm
    rw [Table.find?_eq_none]
    exact fun m' hm' he => (mem_eligible.mp hk).2 m' hm' (Prod.mk.inj he).1

end Invariant

section Claims
variable {db₀ : Database} {t : ClaimState}

/-- However claims and creations interleave, every knowledge base without a membership gets one owner
among the claimants as soon as a claim has committed, the others keep their memberships, the counts
add up, and later claims return 0 and change nothing. -/
theorem legacy_claims_exclusive (hrefers : Refers db₀) {as : List ClaimAction}
    (hrun : legacyClaims.run (.init db₀) as = some t) :
    (t.claims ≠ [] → ∀ k ∈ eligible db₀, ∃ claim ∈ t.claims, ∀ m,
      m ∈ t.db.memberships ∧ m.knowledgeBaseId = k ↔ m = ownerMembership claim.ownerUserId k) ∧
    (∀ knowledgeBase ∈ db₀.knowledgeBases, knowledgeBase.id ∉ eligible db₀ →
      ∀ m, m.knowledgeBaseId = knowledgeBase.id → (m ∈ t.db.memberships ↔ m ∈ db₀.memberships)) ∧
    (∀ creation ∈ t.created, ∀ m, m ∈ t.db.memberships ∧ m.knowledgeBaseId = creation.1.id ↔
      m = ownerMembership creation.2 creation.1.id) ∧
    (t.claims.map CommittedClaim.count).sum =
      ((eligible db₀).filter fun k => !isUnowned t.db k).length ∧
    (∀ before a after r r' claim, as = before ++ a :: after →
      legacyClaims.run (.init db₀) before = some r → legacyClaims.step r a = some r' → r.claims ≠ [] →
      r'.claims = claim :: r.claims → claim.count = 0 ∧ r'.db = r.db) ∧
    (∀ id ownerUserId claimed, t.transactions id = some (.claim ownerUserId (.returned claimed)) →
      (legacyClaims.step t (.step id)).isSome) := by
  have h : Exclusive db₀ t := .reached hrefers ⟨as, hrun⟩
  -- a created knowledge base is none of those at the start
  have hcreated : ∀ creation ∈ t.created, ∀ knowledgeBase ∈ db₀.knowledgeBases,
      creation.1.id ≠ knowledgeBase.id := fun creation hc row hrow he => h.fresh creation hc row hrow he.symm
  refine ⟨fun hclaims k hk => ?_, fun row hrow howned m hm => ?_, fun creation hcreation m => ?_, ?_, ?_,
    fun id ownerUserId claimed => h.commits⟩
  · obtain ⟨_, later, first, hsplit, hfirst, hlater⟩ := h.eligible.resolve_left fun hnone => hclaims hnone.1
    obtain ⟨⟨row, hrow, rfl⟩, hnone⟩ := mem_eligible.mp hk
    have hlast : first ∈ t.claims := by
      rw [hsplit]
      exact List.mem_append_right _ List.mem_cons_self
    refine ⟨first, hlast, fun m => ⟨?_, ?_⟩⟩
    · rintro ⟨hm, hid⟩
      rcases (h.memberships m).mp hm with hold | ⟨claim, hclaim, hmem⟩ | ⟨creation, hcreation, rfl⟩
      · exact absurd hid (hnone m hold)
      · obtain ⟨k, hclaimed, rfl⟩ := List.mem_map.mp hmem
        rw [hsplit, List.mem_append, List.mem_singleton] at hclaim
        rcases hclaim with hclaim | rfl
        · rw [hlater claim hclaim] at hclaimed
          cases hclaimed
        · rw [← hid]
          rfl
      · exact absurd hid (hcreated creation hcreation row hrow)
    · rintro rfl
      refine ⟨(h.memberships _).mpr (.inr (.inl ⟨first, hlast, ?_⟩)), rfl⟩
      rw [hfirst]
      exact List.mem_map_of_mem hk
  · rw [h.memberships]
    refine or_iff_left ?_
    rintro (⟨claim, hclaim, hmem⟩ | ⟨creation, hcreation, rfl⟩)
    · obtain ⟨k, hk, rfl⟩ := List.mem_map.mp hmem
      obtain rfl : k = row.id := hm
      exact howned (h.claimed hclaim hk)
    · exact hcreated creation hcreation row hrow hm
  · constructor
    · rintro ⟨hm, hid⟩
      rcases (h.memberships m).mp hm with hold | ⟨claim, hclaim, hmem⟩ | ⟨other, hother, rfl⟩
      · obtain ⟨row, hrow, hrefer⟩ := hrefers m hold
        exact absurd (hid.symm.trans hrefer.symm) (hcreated creation hcreation row hrow)
      · obtain ⟨k, hk, rfl⟩ := List.mem_map.mp hmem
        obtain ⟨⟨row, hrow, hrefer⟩, _⟩ := mem_eligible.mp (h.claimed hclaim hk)
        exact absurd (hid.symm.trans hrefer.symm) (hcreated creation hcreation row hrow)
      · rw [List.inj_on_of_nodup_map h.once hother hcreation hid]
    · rintro rfl
      exact ⟨(h.memberships _).mpr (.inr (.inr ⟨creation, hcreation, rfl⟩)), rfl⟩
  · rcases h.eligible with ⟨hnone, hsame⟩ | ⟨hempty, later, first, hsplit, hfirst, hlater⟩
    · have hunowned : (eligible db₀).filter (fun k => !isUnowned t.db k) = [] := by
        refine List.filter_eq_nil_iff.mpr fun k hk => ?_
        rw [← hsame] at hk
        rw [isUnowned_iff.mpr (mem_eligible.mp hk).2]
        decide
      rw [hnone, hunowned]
      rfl
    · have howned : (eligible db₀).filter (fun k => !isUnowned t.db k) = eligible db₀ := by
        refine List.filter_eq_self.mpr fun k hk => ?_
        obtain ⟨⟨row, hrow, rfl⟩, _⟩ := mem_eligible.mp hk
        rw [Bool.not_eq_true', ← Bool.not_eq_true]
        intro hu
        have hmem : row.id ∈ eligible t.db :=
          mem_eligible.mpr ⟨⟨row, (h.knowledgeBases row).mpr (.inl hrow), rfl⟩, isUnowned_iff.mp hu⟩
        rw [hempty] at hmem
        cases hmem
      have hzero : (later.map CommittedClaim.count).sum = 0 := by
        refine List.sum_eq_zero fun n hn => ?_
        obtain ⟨claim, hclaim, rfl⟩ := List.mem_map.mp hn
        rw [CommittedClaim.count, hlater claim hclaim]
        rfl
      rw [hsplit, List.map_append, List.sum_append, hzero, howned, List.map_singleton, List.sum_singleton,
        CommittedClaim.count, hfirst, Nat.zero_add]
  · rintro before a after r r' claim rfl hbefore hstep hclaims hcommit
    exact (Exclusive.reached hrefers ⟨before, hbefore⟩).later hstep hclaims hcommit

end Claims

section Example

/-- One knowledge base has an editor, and two have no membership. -/
def legacyDatabase : Database where
  users := .empty
  userSessions := .empty
  knowledgeBases := ⟨[⟨3, [], none, 0⟩, ⟨4, [], none, 0⟩, ⟨5, [], none, 0⟩], by decide⟩
  memberships := ⟨[⟨3, 1, .editor⟩], by decide⟩
  documents := .empty
  ingestionJobs := .empty
  documentChunks := .empty

/-- A creation commits while the first of two claims runs its insert, and the second one waits. -/
def overlappingClaims : List ClaimAction :=
  [.claim 1, .claim 2, .create ⟨6, [], none, 0⟩ 2, .step 0, .step 2, .step 0, .step 2, .step 2, .step 0,
    .step 0, .step 1, .step 1, .step 1, .step 1]

theorem legacy_claims_exclusive_example : ∃ t claim,
    legacyClaims.run (.init legacyDatabase) overlappingClaims = some t ∧ claim ∈ t.claims ∧
    (∀ m, m ∈ t.db.memberships ∧ m.knowledgeBaseId = 4 ↔ m = ownerMembership claim.ownerUserId 4) ∧
    t.claims.length = 2 ∧ (t.claims.map CommittedClaim.count).sum = 2 := by
  have hany : (legacyClaims.run (.init legacyDatabase) overlappingClaims).any (fun t =>
      decide (t.claims.length = 2) &&
        decide (((eligible legacyDatabase).filter fun k => !isUnowned t.db k).length = 2)) = true := by
    decide +kernel
  obtain ⟨t, hrun, hboth⟩ := Option.any_eq_true _ _ |>.mp hany
  obtain ⟨hlength, hcount⟩ := Bool.and_eq_true_iff.mp hboth
  have hlength := of_decide_eq_true hlength
  have hrefers : Refers legacyDatabase := by
    intro m hm
    obtain rfl := List.mem_singleton.mp hm
    exact ⟨_, List.mem_cons_self, rfl⟩
  obtain ⟨howned, _, _, hsum, _⟩ := legacy_claims_exclusive hrefers hrun
  have hclaims : t.claims ≠ [] := fun hnil => by
    rw [hnil] at hlength
    cases hlength
  obtain ⟨claim, hclaim, hmemberships⟩ := howned hclaims 4 (by decide)
  exact ⟨t, claim, hrun, hclaim, hmemberships, hlength, hsum.trans (of_decide_eq_true hcount)⟩

end Example

end AgenticRag.Db

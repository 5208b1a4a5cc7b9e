import AgenticRag.Db.LegacyClaims
import AgenticRag.Security.LoginOrder

/-! `SecurityOperatorService`: the operator's commands on local users and on knowledge bases that
nobody owns. Each command is one transaction. -/
namespace AgenticRag.Cli
open Lib Python Db Security

structure OperatorCommandError where
  message : String
  deriving DecidableEq

/-- What `normalize_email` raises. -/
def emailError (lower : Str → Str) (email : Str) : OperatorCommandError :=
  if lower (strip email) = [] then ⟨"Email must not be blank."⟩
  else ⟨"Email must not exceed 320 characters."⟩

/-- What `validate_password_length` raises. -/
def passwordError (password : Str) : OperatorCommandError :=
  if password.length < minPasswordLength then ⟨"Password must not be empty."⟩
  else ⟨"Password must not exceed 1024 characters."⟩

def emailTaken : OperatorCommandError := ⟨"A user with that email already exists."⟩

/-- `get_for_operator_by_email`. -/
def getForOperatorByEmail (db : Database) (email : Str) : Option User :=
  db.users.rows.find? fun user => user.email == email

section Commands
variable (cfg : AuthenticationConfig)

/-- `bootstrap_user`; `checks` are the CHECK constraints of `users`. -/
def bootstrapUser (checks : User → Bool) (db : Database) (email password : Str) (salt : Nat) (id : UUID) :
    Except OperatorCommandError (User × Database) := do
  let normalizedEmail ← (normalizeEmail cfg.lower email).mapError fun _ => emailError cfg.lower email
  (validatePasswordLength password).mapError fun _ => passwordError password
  let user : User := ⟨id, normalizedEmail, cfg.passwordHasher.hashPassword password salt, true⟩
  if (getForOperatorByEmail db normalizedEmail).isSome || !checks user then .error emailTaken
  else match db.users.insert? user with
    | none => .error emailTaken
    | some users => .ok (user, { db with users })

def countUnowned (db : Database) : Nat := (eligible db).length

/-- `claim_unowned_internal`; the rows have keys that nothing has. -/
def claimUnowned (db : Database) (ownerUserId : UUID) : Nat × Database :=
  let rows := (eligible db).map (ownerMembership ownerUserId)
  match db.memberships.insertAll? rows with
  | none => (0, db)
  | some memberships => (rows.length, { db with memberships })

def claimLegacyKnowledgeBases (db : Database) (ownerEmail : Str) (dryRun : Bool) :
    Except OperatorCommandError (Nat × Database) := do
  let normalizedEmail ← (normalizeEmail cfg.lower ownerEmail).mapError fun _ =>
    emailError cfg.lower ownerEmail
  match getForOperatorByEmail db normalizedEmail with
  | none => .error ⟨"The requested owner user does not exist."⟩
  | some owner =>
    if !owner.isActive then .error ⟨"The requested owner user is inactive."⟩
    else if dryRun then .ok (countUnowned db, db)
    else .ok (claimUnowned db owner.id)

end Commands

section Specifications
variable {cfg : AuthenticationConfig} {checks : User → Bool} {db db' : Database}

theorem mem_of_getForOperatorByEmail {email : Str} {user : User}
    (h : getForOperatorByEmail db email = some user) : user ∈ db.users ∧ user.email = email :=
  ⟨List.mem_of_find?_eq_some h, by simpa using List.find?_some h⟩

theorem bootstrapUser_ok {email password : Str} {salt : Nat} {id : UUID} {user : User}
    (h : bootstrapUser cfg checks db email password salt id = .ok (user, db')) :
    ∃ normalizedEmail users, normalizeEmail cfg.lower email = .ok normalizedEmail ∧
      validatePasswordLength password = .ok () ∧
      user = ⟨id, normalizedEmail, cfg.passwordHasher.hashPassword password salt, true⟩ ∧
      (∀ other ∈ db.users, other.email ≠ normalizedEmail) ∧
      db.users.insert? user = some users ∧ db' = { db with users } := by
  obtain ⟨normalizedEmail, hemail, h⟩ := bind_eq_ok.mp h
  obtain ⟨_, hpassword, h⟩ := bind_eq_ok.mp h
  simp only at h
  split at h
  · cases h
  rename_i hguard
  split at h
  · cases h
  rename_i users hinsert
  obtain ⟨rfl, rfl⟩ := Prod.mk.inj (Except.ok.inj h)
  simp only [Bool.or_eq_true, not_or, Bool.not_eq_true, Option.isSome_eq_false_iff,
    Option.isNone_iff_eq_none] at hguard
  refine ⟨normalizedEmail, users, mapError_eq_ok.mp hemail, mapError_eq_ok.mp hpassword, rfl, ?_, hinsert, rfl⟩
  intro other hother
  simpa using List.find?_eq_none.mp hguard.1 other hother

/-- A claim inserts every row, as the knowledge bases have no membership yet. -/
theorem claimUnowned_eq (db : Database) (ownerUserId : UUID) : ∃ memberships,
    db.memberships.insertAll? ((eligible db).map (ownerMembership ownerUserId)) = some memberships ∧
      claimUnowned db ownerUserId = (countUnowned db, { db with memberships }) := by
  have hfree : ∀ m ∈ (eligible db).map (ownerMembership ownerUserId), db.memberships.find? m.key = none := by
    intro m hm
    obtain ⟨k, hk, rfl⟩ := List.mem_map.mp hm
    refine Table.find?_eq_none.mpr fun other hother heq => ?_
    exact (mem_eligible.mp hk).2 other hother (congrArg Prod.fst heq)
  have hnodup : (((eligible db).map (ownerMembership ownerUserId)).map KnowledgeBaseMembership.key).Nodup := by
    rw [List.map_map]
    exact (nodup_eligible db).map fun j k heq => congrArg Prod.fst heq
  obtain ⟨memberships, hinsert⟩ := Option.isSome_iff_exists.mp (Table.insertAll?_isSome hnodup hfree)
  refine ⟨memberships, hinsert, ?_⟩
  simp only [claimUnowned, hinsert, countUnowned, List.length_map]

theorem claimLegacyKnowledgeBases_ok {ownerEmail : Str} {dryRun : Bool} {n : Nat}
    (h : claimLegacyKnowledgeBases cfg db ownerEmail dryRun = .ok (n, db')) : n = countUnowned db ∧
      (db' = db ∨ ∃ owner ∈ db.users, owner.isActive = true ∧ ∃ memberships,
        db.memberships.insertAll? ((eligible db).map (ownerMembership owner.id)) = some memberships ∧
        db' = { db with memberships }) := by
  obtain ⟨normalizedEmail, _, h⟩ := bind_eq_ok.mp h
  split at h
  · cases h
  rename_i owner howner
  split at h
  · cases h
  rename_i hactive
  split at h
  · obtain ⟨rfl, rfl⟩ := Prod.mk.inj (Except.ok.inj h)
    exact ⟨rfl, .inl rfl⟩
  · obtain ⟨memberships, hinsert, heq⟩ := claimUnowned_eq db owner.id
    rw [heq] at h
    obtain ⟨rfl, rfl⟩ := Prod.mk.inj (Except.ok.inj h)
    exact ⟨rfl, .inr ⟨owner, (mem_of_getForOperatorByEmail howner).1, by simpa using hactive, memberships,
      hinsert, rfl⟩⟩

/-- A claim alone is the transaction of the machine of legacy claims that nothing interrupts. -/
theorem claimUnowned_legacyClaims (db : Database) (ownerUserId : UUID) : ∃ s,
    legacyClaims.run (.init db) (.claim ownerUserId :: List.replicate 4 (.step 0)) = some s ∧
      s.db = (claimUnowned db ownerUserId).2 ∧
      s.claims.map CommittedClaim.count = [(claimUnowned db ownerUserId).1] := by
  obtain ⟨memberships, hinsert, heq⟩ := claimUnowned_eq db ownerUserId
  have hall : (eligible db).filter (fun k => (db.membership? k ownerUserId).isNone) = eligible db := by
    refine List.filter_eq_self.mpr fun k hk => Option.isNone_iff_eq_none.mpr ?_
    refine Table.find?_eq_none.mpr fun m hm hkey => ?_
    exact (mem_eligible.mp hk).2 m hm (congrArg Prod.fst hkey)
  rw [heq]
  have hrun : ∃ s, legacyClaims.run (.init db) (.claim ownerUserId :: List.replicate 4 (.step 0)) = some s ∧
      s.db = { db with memberships } ∧ s.claims = [⟨ownerUserId, eligible db⟩] := by
    simp [List.replicate_succ, Machine.run, legacyClaims, claimStep, stepClaim, ClaimState.init,
      ClaimState.begin, ClaimState.goOn, ClaimState.close, ClaimState.blocked, hall, hinsert]
  obtain ⟨s, hs, hdb, hclaims⟩ := hrun
  exact ⟨s, hs, hdb, by rw [hclaims]; rfl⟩

end Specifications
end AgenticRag.Cli

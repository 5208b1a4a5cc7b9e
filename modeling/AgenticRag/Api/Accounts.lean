import AgenticRag.Api.Listings
import AgenticRag.Cli.Security

/-! Accounts and ownership in the runs of the backend in which the operator acts by its commands:
a password stays the password of its account, and a knowledge base stays its creator's. -/
namespace AgenticRag.Api
open Lib Python Db Ingestion Security Retrieval Services Program Cli

/-- A write of the operator's command line. -/
inductive OperatorCommand (cfg : AuthenticationConfig) (db : Database) : Database → Prop
  | bootstrapped {checks : User → Bool} {email password : Str} {salt : Nat} {id : UUID} {user : User}
      {db' : Database} (h : bootstrapUser cfg checks db email password salt id = .ok (user, db')) :
      OperatorCommand cfg db db'
  | claimed {ownerEmail : Str} {dryRun : Bool} {n : Nat} {db' : Database}
      (h : claimLegacyKnowledgeBases cfg db ownerEmail dryRun = .ok (n, db')) : OperatorCommand cfg db db'

/-- The operator acts by the commands. -/
def Commanded {ρ : Type} (settings : ApiSettings ρ) (b : Backend) : BackendAction → Prop
  | .operator db => OperatorCommand settings.authentication b.pool.state.db db
  | _ => True

/-- The hash verifies this password and no other. -/
def OnlyPassword (hasher : PasswordHasher) (hash password : Str) : Prop :=
  ∀ candidate, hasher.verifyPassword candidate (some hash) = true ↔ candidate = password

/-- A hash verifies the password that it was made of, and no other. -/
def Hashes (hasher : PasswordHasher) : Prop := ∀ password salt,
  validatePasswordLength password = .ok () → OnlyPassword hasher (hasher.hashPassword password salt) password

/-- All that a step can do to the accounts and the knowledge bases. -/
inductive AccountStep (cfg : AuthenticationConfig) (db db' : Database) : Prop
  | kept (husers : db'.users = db.users) (hknowledgeBases : db'.knowledgeBases = db.knowledgeBases)
      (hmemberships : db'.memberships = db.memberships)
  | rehashed (user : User) (password : Str) (salt : Nat) (hfound : db.users.find? user.id = some user)
      (hvalid : validatePasswordLength password = .ok ())
      (hverified : cfg.passwordHasher.verifyPassword password (some user.passwordHash) = true)
      (husers : ∀ u, db'.users.find? u = if u = user.id then
        some { user with passwordHash := cfg.passwordHasher.hashPassword password salt } else db.users.find? u)
      (hknowledgeBases : db'.knowledgeBases = db.knowledgeBases)
      (hmemberships : db'.memberships = db.memberships)
  | created (knowledgeBase : KnowledgeBase) (ownerUserId : UUID)
      (hadd : addWithOwner db knowledgeBase ownerUserId = some db')
  | commanded (hcommand : OperatorCommand cfg db db')

section Effects
variable {ρ : Type} {settings : ApiSettings ρ}

theorem prepareLogin_ok {cfg : AuthenticationConfig} {email password normalizedEmail : Str}
    (h : prepareLogin cfg email password = .ok normalizedEmail) :
    normalizeEmail cfg.lower email = .ok normalizedEmail ∧ validatePasswordLength password = .ok () := by
  unfold prepareLogin at h
  split at h
  case h_1 hemail hpassword =>
    obtain rfl := Except.ok.inj h
    exact ⟨hemail, hpassword⟩
  case h_2 => cases h

theorem AccountsKept.accountStep {cfg : AuthenticationConfig} {db db' : Database}
    (h : AccountsKept db db') : AccountStep cfg db db' := .kept h.users h.knowledgeBases h.memberships

theorem KnowledgeWrite.accountStep {userId : UUID} {h : ApiHistory} {i : ApiInput}
    {operation : ApiOperation} {s t : KnowledgeState} {cfg : AuthenticationConfig}
    (hwrite : KnowledgeWrite settings userId h i s operation t) : AccountStep cfg s.db t.db := by
  cases hwrite with
  | created hadd => exact .created _ _ hadd
  | retried hretry =>
    rcases Services.retryIngestionJob_ok hretry with ⟨_, _, rfl⟩ | ⟨_, _, _, _, rfl⟩
    · exact (AccountsKept.refl s.db).accountStep
    · exact (accountsKept_flush _ _ _).accountStep
  | stored => exact (AccountsKept.refl s.db).accountStep
  | inserted _ _ _ _ _ hinsert =>
    obtain ⟨_, _, _, _, _, heq⟩ := insertUpload_ok hinsert
    rw [heq]
    exact .kept rfl rfl rfl
  | deleted => exact (AccountsKept.refl s.db).accountStep

theorem Effect.accountStep {request : ApiRequest} {h : ApiHistory} {i : ApiInput} {s t : KnowledgeState}
    (heffect : Effect settings request h i s t) : AccountStep settings.authentication s.db t.db := by
  cases heffect with
  | none => exact .kept rfl rfl rfl
  | touched _ htouch =>
    rcases touchForAuthentication_row htouch with rfl | ⟨_, _, rfl⟩ <;> exact .kept rfl rfl rfl
  | revoked _ _ _ hrevoke =>
    obtain ⟨_, _, rfl⟩ := revokeForAuthentication_row hrevoke
    exact .kept rfl rfl rfl
  | knowledge _ _ hwrite => exact hwrite.accountStep
  | @loggedIn email password _ observed replacementHash _ _ db _ hoperation hverified hcommit =>
    obtain ⟨user, row, _, hcommitted⟩ := commitLogin_committed hcommit
    have hframe := commitLogin_frame hcommit
    cases replacementHash with
    | none =>
      rw [hframe]
      exact .kept hcommitted.users rfl rfl
    | some hash =>
      obtain ⟨salt, rfl⟩ := hverified.verified.replacement hash rfl
      have hid : user.id = observed.userId := Table.find?_key hcommitted.found
      obtain ⟨_, hprepared, _⟩ := hverified.observedFound
      refine .rehashed user password salt (hid ▸ hcommitted.found) (prepareLogin_ok hprepared).2 ?_
        hcommitted.find?_users (by rw [hframe]) (by rw [hframe])
      rw [hcommitted.unchanged]
      exact hverified.verified.valid

end Effects

section Steps
variable {ρ : Type} [LinearOrder ρ] {settings : ApiSettings ρ} {uuid5 : UUID → Str → UUID}
  {s₀ : KnowledgeState} {as : List BackendAction} {a : BackendAction} {b c : Backend}

theorem backend_step_accounts (hrun : (backend settings uuid5).run (.init s₀) as = some b)
    (hcommanded : Commanded settings b a) (hstep : (backend settings uuid5).step b a = some c) :
    AccountStep settings.authentication b.pool.state.db c.pool.state.db := by
  cases backend_step hstep with
  | @api action pool hclient hpool =>
    cases action with
    | start request =>
      obtain rfl := Option.some.inj hpool
      rw [Pool.settle_state]
      exact .kept rfl rfl rfl
    | step id input =>
      obtain ⟨client, _, _, heffect⟩ := step_effect (backend_run_api hrun) hpool
      exact heffect.accountStep
    | kill id =>
      obtain ⟨_, _, rfl⟩ := Option.map_eq_some_iff.mp hpool
      exact .kept rfl rfl rfl
    | elsewhere state => cases hclient
  | worker hworker hworkers => exact (workerStep_accounts hworker hworkers).accountStep
  | operator => exact .commanded hcommanded

end Steps

section Invariants
variable {cfg : AuthenticationConfig} {db db' : Database}

/-- The users stay, active or not, under their e-mails, and their passwords stay theirs. -/
def UsersKept (hasher : PasswordHasher) (db db' : Database) : Prop :=
  ∀ u user, db.users.find? u = some user → ∃ user', db'.users.find? u = some user' ∧
    user'.email = user.email ∧ user'.isActive = user.isActive ∧
    ∀ password, OnlyPassword hasher user.passwordHash password → OnlyPassword hasher user'.passwordHash password

theorem UsersKept.refl (hasher : PasswordHasher) (db : Database) : UsersKept hasher db db :=
  fun _ user h => ⟨user, h, rfl, rfl, fun _ => id⟩

theorem UsersKept.trans {hasher : PasswordHasher} {db'' : Database} (h : UsersKept hasher db db')
    (h' : UsersKept hasher db' db'') : UsersKept hasher db db'' := by
  intro u user huser
  obtain ⟨user', huser', hemail, hactive, hpassword⟩ := h u user huser
  obtain ⟨user'', huser'', hemail', hactive', hpassword'⟩ := h' u user' huser'
  exact ⟨user'', huser'', hemail'.trans hemail, hactive'.trans hactive, fun p hp => hpassword' p (hpassword p hp)⟩

/-- Two users have two e-mails. -/
def UniqueEmails (db : Database) : Prop :=
  ∀ user ∈ db.users, ∀ other ∈ db.users, user.email = other.email → user = other

/-- Every user has one password, which the hash verifies and no other. -/
def SinglePasswords (hasher : PasswordHasher) (db : Database) : Prop :=
  ∀ user ∈ db.users, ∃ password, OnlyPassword hasher user.passwordHash password

/-- All that a step can do to the users: a login rehashes, or a command adds one with a new e-mail. -/
inductive UsersStep (cfg : AuthenticationConfig) (db db' : Database) : Prop
  | kept (husers : db'.users = db.users)
  | rehashed (user : User) (password : Str) (salt : Nat) (hfound : db.users.find? user.id = some user)
      (hvalid : validatePasswordLength password = .ok ())
      (hverified : cfg.passwordHasher.verifyPassword password (some user.passwordHash) = true)
      (husers : ∀ u, db'.users.find? u = if u = user.id then
        some { user with passwordHash := cfg.passwordHasher.hashPassword password salt } else db.users.find? u)
  | inserted (user : User) (password : Str) (salt : Nat)
      (hvalid : validatePasswordLength password = .ok ())
      (hhash : user.passwordHash = cfg.passwordHasher.hashPassword password salt)
      (hfresh : ∀ other ∈ db.users, other.email ≠ user.email)
      (hinsert : db.users.insert? user = some db'.users)

/-- A knowledge base has one member, its owner. -/
structure OwnedBy (db : Database) (knowledgeBaseId ownerUserId : UUID) : Prop where
  membership : ownerMembership ownerUserId knowledgeBaseId ∈ db.memberships
  only : ∀ m ∈ db.memberships, m.knowledgeBaseId = knowledgeBaseId →
    m = ownerMembership ownerUserId knowledgeBaseId

theorem AccountStep.usersStep (h : AccountStep cfg db db') : UsersStep cfg db db' := by
  cases h with
  | kept husers => exact .kept husers
  | rehashed user password salt hfound hvalid hverified husers =>
    exact .rehashed user password salt hfound hvalid hverified husers
  | created knowledgeBase ownerUserId hadd =>
    obtain ⟨_, _, _, heq⟩ := addWithOwner_some hadd
    rw [heq]
    exact .kept rfl
  | commanded hcommand =>
    cases hcommand with
    | bootstrapped h =>
      obtain ⟨_, users, _, hvalid, rfl, hfresh, hinsert, rfl⟩ := bootstrapUser_ok h
      exact .inserted _ _ _ hvalid rfl hfresh hinsert
    | claimed h =>
      rcases (claimLegacyKnowledgeBases_ok h).2 with rfl | ⟨_, _, _, _, _, rfl⟩
      · exact .kept rfl
      · exact .kept rfl

theorem AccountStep.usersKept (hhasher : Hashes cfg.passwordHasher) (h : AccountStep cfg db db') :
    UsersKept cfg.passwordHasher db db' := by
  cases h.usersStep with
  | kept husers =>
    intro u user huser
    exact ⟨user, by rwa [husers], rfl, rfl, fun _ => id⟩
  | rehashed user password salt hfound hvalid hverified husers =>
    intro u other hother
    by_cases hu : u = user.id
    · subst hu
      obtain rfl := Option.some.inj (hfound.symm.trans hother)
      refine ⟨_, (husers _).trans (if_pos rfl), rfl, rfl, fun p hp => ?_⟩
      obtain rfl := (hp password).mp hverified
      exact hhasher password salt hvalid
    · exact ⟨other, (husers u).trans ((if_neg hu).trans hother), rfl, rfl, fun _ => id⟩
  | inserted user password salt _ _ _ hinsert =>
    intro u other hother
    exact ⟨other, Table.find?_of_insert? hinsert hother, rfl, rfl, fun _ => id⟩

/-- After a rehash every row but the one is as it was. -/
private theorem mem_users_rehashed {user user' row : User}
    (husers : ∀ u, db'.users.find? u = if u = user.id then some user' else db.users.find? u)
    (hmem : row ∈ db'.users) :
    row = user' ∧ row.id = user.id ∨ row ∈ db.users ∧ row.id ≠ user.id := by
  have hfind := husers row.id
  rw [Table.find?_of_mem hmem] at hfind
  split at hfind
  case isTrue hid => exact .inl ⟨Option.some.inj hfind, hid⟩
  case isFalse hid => exact .inr ⟨Table.mem_of_find? hfind.symm, hid⟩

theorem AccountStep.uniqueEmails (h : AccountStep cfg db db') (hemails : UniqueEmails db) :
    UniqueEmails db' := by
  cases h.usersStep with
  | kept husers =>
    unfold UniqueEmails
    rw [husers]
    exact hemails
  | rehashed user password salt hfound _ _ husers =>
    have huser : user ∈ db.users := Table.mem_of_find? hfound
    intro row hmem other hother heq
    rcases mem_users_rehashed husers hmem with ⟨rfl, _⟩ | ⟨hold, hne⟩ <;>
      rcases mem_users_rehashed husers hother with ⟨rfl, _⟩ | ⟨hold', hne'⟩
    · rfl
    · exact absurd (congrArg User.id (hemails other hold' user huser heq.symm)) hne'
    · exact absurd (congrArg User.id (hemails row hold user huser heq)) hne
    · exact hemails row hold other hold' heq
  | inserted user _ _ _ _ hfresh hinsert =>
    intro row hmem other hother heq
    rcases (Table.mem_insert? hinsert).mp hmem with rfl | hold <;>
      rcases (Table.mem_insert? hinsert).mp hother with rfl | hold'
    · rfl
    · exact absurd heq.symm (hfresh other hold')
    · exact absurd heq (hfresh row hold)
    · exact hemails row hold other hold' heq

theorem AccountStep.singlePasswords (hhasher : Hashes cfg.passwordHasher) (h : AccountStep cfg db db')
    (hpasswords : SinglePasswords cfg.passwordHasher db) : SinglePasswords cfg.passwordHasher db' := by
  cases h.usersStep with
  | kept husers =>
    unfold SinglePasswords
    rw [husers]
    exact hpasswords
  | rehashed user password salt _ hvalid _ husers =>
    intro row hmem
    rcases mem_users_rehashed husers hmem with ⟨rfl, _⟩ | ⟨hold, _⟩
    · exact ⟨password, hhasher password salt hvalid⟩
    · exact hpasswords row hold
  | inserted user password salt hvalid hhash _ hinsert =>
    intro row hmem
    rcases (Table.mem_insert? hinsert).mp hmem with rfl | hold
    · exact ⟨password, hhash ▸ hhasher password salt hvalid⟩
    · exact hpasswords row hold

/-- A membership that appears is the first one of its knowledge base, of a claim of an operator or of
the user who created the knowledge base. -/
theorem AccountStep.memberships (h : AccountStep cfg db db') (hrefers : Refers db)
    {m : KnowledgeBaseMembership} (hm : m ∈ db'.memberships) :
    m ∈ db.memberships ∨ (∀ other ∈ db.memberships, other.knowledgeBaseId ≠ m.knowledgeBaseId) := by
  cases h with
  | kept _ _ hmemberships => exact .inl (hmemberships ▸ hm)
  | rehashed _ _ _ _ _ _ _ _ hmemberships => exact .inl (hmemberships ▸ hm)
  | created knowledgeBase ownerUserId hadd =>
    obtain ⟨_, hknowledgeBases, hmemberships, _⟩ := addWithOwner_some hadd
    rcases (Table.mem_insert? hmemberships).mp hm with rfl | hold
    · refine .inr fun other hother heq => ?_
      obtain ⟨k, hk, hid⟩ := hrefers other hother
      exact Table.find?_eq_none.mp (Table.insert?_eq_some hknowledgeBases).1 k hk (hid.trans heq)
    · exact .inl hold
  | commanded hcommand =>
    cases hcommand with
    | bootstrapped h =>
      obtain ⟨_, _, _, _, _, _, _, rfl⟩ := bootstrapUser_ok h
      exact .inl hm
    | claimed h =>
      rcases (claimLegacyKnowledgeBases_ok h).2 with rfl | ⟨owner, _, _, memberships, hinsert, rfl⟩
      · exact .inl hm
      · rcases (Table.mem_insertAll? hinsert).mp hm with hnew | hold
        · obtain ⟨k, hk, rfl⟩ := List.mem_map.mp hnew
          exact .inr (mem_eligible.mp hk).2
        · exact .inl hold

theorem AccountStep.kept_memberships (h : AccountStep cfg db db') {m : KnowledgeBaseMembership}
    (hm : m ∈ db.memberships) : m ∈ db'.memberships := by
  cases h with
  | kept _ _ hmemberships => exact hmemberships ▸ hm
  | rehashed _ _ _ _ _ _ _ _ hmemberships => exact hmemberships ▸ hm
  | created knowledgeBase ownerUserId hadd =>
    obtain ⟨_, _, hmemberships, _⟩ := addWithOwner_some hadd
    exact (Table.mem_insert? hmemberships).mpr (.inr hm)
  | commanded hcommand =>
    cases hcommand with
    | bootstrapped h =>
      obtain ⟨_, _, _, _, _, _, _, rfl⟩ := bootstrapUser_ok h
      exact hm
    | claimed h =>
      rcases (claimLegacyKnowledgeBases_ok h).2 with rfl | ⟨_, _, _, memberships, hinsert, rfl⟩
      · exact hm
      · exact (Table.mem_insertAll? hinsert).mpr (.inr hm)

/-- A knowledge base has its owner as long as it is there. -/
theorem AccountStep.ownedBy (h : AccountStep cfg db db') (hrefers : Refers db) {k owner : UUID}
    (howned : OwnedBy db k owner) : OwnedBy db' k owner := by
  refine ⟨h.kept_memberships howned.membership, fun m hm hid => ?_⟩
  rcases h.memberships hrefers hm with hold | hfirst
  · exact howned.only m hold hid
  · exact absurd hid.symm (hfirst _ howned.membership)

theorem AccountStep.refers (h : AccountStep cfg db db') (hrefers : Refers db)
    (hkept : ListingKept db db') : Refers db' := by
  have hold {m : KnowledgeBaseMembership} (hm : m ∈ db.memberships) :
      ∃ knowledgeBase ∈ db'.knowledgeBases, knowledgeBase.id = m.knowledgeBaseId := by
    obtain ⟨k, hk, hid⟩ := hrefers m hm
    exact ⟨k, Table.mem_of_find? (hkept.knowledgeBases _ _ (Table.find?_of_mem hk)), hid⟩
  intro m hm
  cases h with
  | kept _ _ hmemberships => exact hold (hmemberships ▸ hm)
  | rehashed _ _ _ _ _ _ _ _ hmemberships => exact hold (hmemberships ▸ hm)
  | created knowledgeBase ownerUserId hadd =>
    obtain ⟨_, hknowledgeBases, hmemberships, _⟩ := addWithOwner_some hadd
    rcases (Table.mem_insert? hmemberships).mp hm with rfl | hm
    · exact ⟨knowledgeBase, (Table.mem_insert? hknowledgeBases).mpr (.inl rfl), rfl⟩
    · exact hold hm
  | commanded hcommand =>
    cases hcommand with
    | bootstrapped h =>
      obtain ⟨_, _, _, _, _, _, _, rfl⟩ := bootstrapUser_ok h
      exact hold hm
    | claimed h =>
      rcases (claimLegacyKnowledgeBases_ok h).2 with rfl | ⟨owner, _, _, memberships, hinsert, rfl⟩
      · exact hold hm
      · rcases (Table.mem_insertAll? hinsert).mp hm with hnew | hm
        · obtain ⟨k, hk, rfl⟩ := List.mem_map.mp hnew
          exact (mem_eligible.mp hk).1
        · exact hold hm

/-- A knowledge base that appears has an owner. -/
theorem AccountStep.owned_of_new (h : AccountStep cfg db db') (hrefers : Refers db) {k : UUID}
    {knowledgeBase : KnowledgeBase} (hnew : db.knowledgeBases.find? k = none)
    (hk : db'.knowledgeBases.find? k = some knowledgeBase) : ∃ owner, OwnedBy db' k owner := by
  have hsame (heq : db'.knowledgeBases = db.knowledgeBases) : ∃ owner, OwnedBy db' k owner := by
    rw [heq, hnew] at hk
    cases hk
  cases h with
  | kept _ hknowledgeBases => exact hsame hknowledgeBases
  | rehashed _ _ _ _ _ _ _ hknowledgeBases => exact hsame hknowledgeBases
  | created knowledgeBase ownerUserId hadd =>
    obtain ⟨_, hknowledgeBases, hmemberships, _⟩ := addWithOwner_some hadd
    rw [Table.find?_insert? hknowledgeBases] at hk
    split at hk
    case isTrue hid =>
      subst hid
      refine ⟨ownerUserId, (Table.mem_insert? hmemberships).mpr (.inl rfl), fun m hm hid => ?_⟩
      rcases (Table.mem_insert? hmemberships).mp hm with rfl | hold
      · rfl
      · obtain ⟨other, hother, heq⟩ := hrefers m hold
        exact absurd (heq.trans hid) (Table.find?_eq_none.mp hnew other hother)
    case isFalse =>
      rw [hnew] at hk
      cases hk
  | commanded hcommand =>
    cases hcommand with
    | bootstrapped h =>
      obtain ⟨_, _, _, _, _, _, _, rfl⟩ := bootstrapUser_ok h
      exact hsame rfl
    | claimed h =>
      rcases (claimLegacyKnowledgeBases_ok h).2 with rfl | ⟨_, _, _, _, _, rfl⟩
      · exact hsame rfl
      · exact hsame rfl

/-- The commands keep what a listing goes by. -/
theorem OperatorCommand.listingKept (h : OperatorCommand cfg db db') : ListingKept db db' := by
  cases h with
  | bootstrapped h =>
    obtain ⟨_, _, _, _, _, _, _, rfl⟩ := bootstrapUser_ok h
    exact ⟨DocumentsKept.refl db, fun _ _ => id, fun _ _ => id⟩
  | claimed h =>
    rcases (claimLegacyKnowledgeBases_ok h).2 with rfl | ⟨_, _, _, memberships, hinsert, rfl⟩
    · exact .refl _
    · refine ⟨DocumentsKept.refl db, fun _ _ => id, fun k m hm => ?_⟩
      obtain ⟨hmem, hkey⟩ := Table.find?_eq_some.mp hm
      rw [← hkey]
      exact Table.find?_of_mem ((Table.mem_insertAll? hinsert).mpr (.inr hmem))

end Invariants

section Runs
variable {ρ : Type} [LinearOrder ρ] {settings : ApiSettings ρ} {uuid5 : UUID → Str → UUID}
  {s₀ : KnowledgeState} {as bs : List BackendAction} {a : BackendAction} {b c : Backend}

/-- What the accounts and knowledge bases of an earlier state say of a later one. -/
structure Later (hasher : PasswordHasher) (db db' : Database) : Prop where
  users : UsersKept hasher db db'
  uniqueEmails : UniqueEmails db → UniqueEmails db'
  singlePasswords : SinglePasswords hasher db → SinglePasswords hasher db'
  listing : ListingKept db db'
  refers : Refers db → Refers db'
  ownedBy : Refers db → ∀ k owner, OwnedBy db k owner → OwnedBy db' k owner

theorem Later.refl (hasher : PasswordHasher) (db : Database) : Later hasher db db :=
  ⟨.refl hasher db, id, id, .refl db, id, fun _ _ _ => id⟩

theorem Later.trans {hasher : PasswordHasher} {db db' db'' : Database} (h : Later hasher db db')
    (h' : Later hasher db' db'') : Later hasher db db'' where
  users := h.users.trans h'.users
  uniqueEmails hemails := h'.uniqueEmails (h.uniqueEmails hemails)
  singlePasswords hpasswords := h'.singlePasswords (h.singlePasswords hpasswords)
  listing := h.listing.trans h'.listing
  refers hrefers := h'.refers (h.refers hrefers)
  ownedBy hrefers k owner howned := h'.ownedBy (h.refers hrefers) k owner (h.ownedBy hrefers k owner howned)

omit [LinearOrder ρ] in
theorem operatorKeeps_of_commanded (h : Commanded settings b a) : OperatorKeeps b a := by
  cases a with
  | operator db => exact OperatorCommand.listingKept h
  | api action => trivial
  | worker action => trivial

theorem backend_step_later (hhasher : Hashes settings.authentication.passwordHasher)
    (hrun : (backend settings uuid5).run (.init s₀) as = some b) (hcommanded : Commanded settings b a)
    (hstep : (backend settings uuid5).step b a = some c) :
    Later settings.authentication.passwordHasher b.pool.state.db c.pool.state.db := by
  have haccounts := backend_step_accounts hrun hcommanded hstep
  have hlisting := backend_step_listingKept hrun (operatorKeeps_of_commanded hcommanded) hstep
  exact ⟨haccounts.usersKept hhasher, haccounts.uniqueEmails, haccounts.singlePasswords hhasher, hlisting,
    fun hrefers => haccounts.refers hrefers hlisting, fun hrefers _ _ => haccounts.ownedBy hrefers⟩

/-- Later and later states of a run in which the operator acts by its commands. -/
theorem backend_run_later (hhasher : Hashes settings.authentication.passwordHasher)
    (hcommanded : (backend settings uuid5).Allowed (Commanded settings) (.init s₀) (as ++ bs))
    (hrun : (backend settings uuid5).run (.init s₀) as = some b)
    (hrest : (backend settings uuid5).run b bs = some c) :
    Later settings.authentication.passwordHasher b.pool.state.db c.pool.state.db := by
  obtain ⟨_, hafter⟩ := Machine.allowed_append.mp hcommanded
  refine Machine.run_history (I := fun _ c =>
    Later settings.authentication.passwordHasher b.pool.state.db c.pool.state.db) ?_
    (.refl _ _) (hafter b hrun) hrest
  intro cs c a d hcs hI hC hstep
  have hreach : (backend settings uuid5).run (.init s₀) (as ++ cs) = some c := by
    rw [Machine.run_append, hrun]
    exact hcs
  exact hI.trans (backend_step_later hhasher hreach hC hstep)

/-- The state of a run as one that is later than the start. -/
theorem later_of_start (hhasher : Hashes settings.authentication.passwordHasher)
    (hcommanded : (backend settings uuid5).Allowed (Commanded settings) (.init s₀) as)
    (hrun : (backend settings uuid5).run (.init s₀) as = some b) :
    Later settings.authentication.passwordHasher s₀.db b.pool.state.db := by
  have hall : (backend settings uuid5).Allowed (Commanded settings) (.init s₀) ([] ++ as) := hcommanded
  exact backend_run_later hhasher hall Machine.run_nil hrun

/-- In every state of the run, the user's hash verifies this password and no other. -/
def FixedPassword (settings : ApiSettings ρ) (uuid5 : UUID → Str → UUID) (s₀ : KnowledgeState)
    (as : List BackendAction) (userId : UUID) (password : Str) : Prop :=
  ∀ before after r user, as = before ++ after → (backend settings uuid5).run (.init s₀) before = some r →
    r.pool.state.db.users.find? userId = some user →
    OnlyPassword settings.authentication.passwordHasher user.passwordHash password

theorem exists_fixedPassword (hhasher : Hashes settings.authentication.passwordHasher)
    (hpasswords : SinglePasswords settings.authentication.passwordHasher s₀.db)
    (hcommanded : (backend settings uuid5).Allowed (Commanded settings) (.init s₀) as)
    (hrun : (backend settings uuid5).run (.init s₀) as = some b) (userId : UUID) :
    ∃ password, FixedPassword settings uuid5 s₀ as userId password := by
  have hlater {before after : List BackendAction} {r : Backend} (heq : as = before ++ after)
      (hr : (backend settings uuid5).run (.init s₀) before = some r) :
      Later settings.authentication.passwordHasher r.pool.state.db b.pool.state.db := by
    subst heq
    rw [Machine.run_append, hr] at hrun
    exact backend_run_later hhasher hcommanded hr hrun
  cases hb : b.pool.state.db.users.find? userId with
  | none =>
    refine ⟨[], fun before after r user heq hr huser => ?_⟩
    obtain ⟨user', huser', _⟩ := (hlater heq hr).users userId user huser
    rw [hb] at huser'
    cases huser'
  | some last =>
    obtain ⟨password, hpassword⟩ := (later_of_start hhasher hcommanded hrun).singlePasswords hpasswords last
      (Table.mem_of_find? hb)
    refine ⟨password, fun before after r user heq hr huser => ?_⟩
    obtain ⟨user', huser', _, _, hkept⟩ := (hlater heq hr).users userId user huser
    obtain rfl := Option.some.inj (hb.symm.trans huser')
    have hallowed := (Machine.allowed_append.mp (heq ▸ hcommanded)).1
    obtain ⟨earlier, hearlier⟩ := (later_of_start hhasher hallowed hr).singlePasswords hpasswords user
      (Table.mem_of_find? huser)
    -- the earlier password is the last one, as both are the last hash's
    have hsame : earlier = password := (hpassword earlier).mp ((hkept earlier hearlier earlier).mpr rfl)
    exact hsame ▸ hearlier

/-- A knowledge base that the run brought has an owner. -/
theorem exists_ownedBy (hhasher : Hashes settings.authentication.passwordHasher) (hrefers : Refers s₀.db)
    (hcommanded : (backend settings uuid5).Allowed (Commanded settings) (.init s₀) as)
    (hrun : (backend settings uuid5).run (.init s₀) as = some b) {k : UUID} {knowledgeBase : KnowledgeBase}
    (hnew : s₀.db.knowledgeBases.find? k = none)
    (hk : b.pool.state.db.knowledgeBases.find? k = some knowledgeBase) :
    ∃ owner, OwnedBy b.pool.state.db k owner := by
  have hinvariant : Refers b.pool.state.db ∧
      (b.pool.state.db.knowledgeBases.find? k ≠ none → ∃ owner, OwnedBy b.pool.state.db k owner) := by
    refine Machine.run_history (I := fun _ b => Refers b.pool.state.db ∧
      (b.pool.state.db.knowledgeBases.find? k ≠ none → ∃ owner, OwnedBy b.pool.state.db k owner)) ?_
      ⟨hrefers, absurd hnew⟩ hcommanded hrun
    intro as b a c hb hI hC hstep
    have hlater := backend_step_later hhasher hb hC hstep
    refine ⟨hlater.refers hI.1, fun hk => ?_⟩
    obtain ⟨row, hrow⟩ := Option.ne_none_iff_exists'.mp hk
    cases hbefore : b.pool.state.db.knowledgeBases.find? k with
    | none => exact (backend_step_accounts hb hC hstep).owned_of_new hI.1 hbefore hrow
    | some old =>
      obtain ⟨owner, howner⟩ := hI.2 (by rw [hbefore]; exact Option.some_ne_none old)
      exact ⟨owner, hlater.ownedBy hI.1 k owner howner⟩
  exact hinvariant.2 (by rw [hk]; exact Option.some_ne_none _)

end Runs
end AgenticRag.Api

import AgenticRag.Api.Confidentiality

/-! The users that the operator bootstraps: they log in with the password of the command, whatever the
backend does in between. -/
namespace AgenticRag.Api
open Lib Python Db Ingestion Security Retrieval Services Program Cli

section Lookups
variable {cfg : AuthenticationConfig} {db : Database} {user : User}

def snapshotOf (user : User) : AuthenticationUserSnapshot :=
  ⟨user.id, user.email, user.isActive, user.passwordHash⟩

/-- A login finds the user of an e-mail, as no other has it. -/
theorem UniqueEmails.getForAuthenticationByEmail_eq (hemails : UniqueEmails db)
    (huser : user ∈ db.users) : getForAuthenticationByEmail db user.email = some (snapshotOf user) := by
  unfold getForAuthenticationByEmail
  cases hfind : db.users.rows.find? fun other => other.email == user.email with
  | none => exact absurd (beq_self_eq_true user.email) (by simpa using List.find?_eq_none.mp hfind user huser)
  | some other =>
    have hemail : other.email = user.email := by simpa using List.find?_some hfind
    rw [hemails other (List.mem_of_find?_eq_some hfind) user huser hemail]
    rfl

theorem verifyLogin_verifies {candidate : Str} {salt : Nat} {snapshot observed : AuthenticationUserSnapshot}
    {replacementHash : Option Str}
    (h : verifyLogin cfg candidate salt (some snapshot) = .ok (observed, replacementHash)) :
    observed = snapshot ∧ cfg.passwordHasher.verifyPassword candidate (some snapshot.passwordHash) = true := by
  unfold verifyLogin at h
  dsimp only at h
  split at h
  · cases h
  rename_i hguard
  simp only [Bool.or_eq_true, Bool.not_eq_true', not_or, Bool.not_eq_false, Option.map_some] at hguard
  split at h
  · exact ⟨(Prod.mk.inj (Except.ok.inj h)).1.symm, hguard.1⟩
  · exact ⟨(Prod.mk.inj (Except.ok.inj h)).1.symm, hguard.1⟩

end Lookups

section Runs
variable {ρ : Type} [LinearOrder ρ] {settings : ApiSettings ρ} {uuid5 : UUID → Str → UUID}
  {s₀ : KnowledgeState} {as bs : List BackendAction} {b c : Backend}

/-- What a login establishes before its last transaction: this user, by this e-mail and password. -/
def LogsIn (cfg : AuthenticationConfig) (db : Database) (rawEmail candidate : Str) (salt : Nat)
    (userId : UUID) : Prop :=
  ∃ normalizedEmail observed replacementHash, prepareLogin cfg rawEmail candidate = .ok normalizedEmail ∧
    verifyLogin cfg candidate salt (getForAuthenticationByEmail db normalizedEmail) =
      .ok (observed, replacementHash) ∧ observed.userId = userId

theorem logsIn_iff {cfg : AuthenticationConfig} {db : Database} {user : User} {rawEmail password : Str}
    (hemails : UniqueEmails db) (huser : user ∈ db.users)
    (hactive : user.isActive = true) (hvalid : validatePasswordLength password = .ok ())
    (hpassword : OnlyPassword cfg.passwordHasher user.passwordHash password)
    (hemail : normalizeEmail cfg.lower rawEmail = .ok user.email) (candidate : Str) (salt : Nat) :
    LogsIn cfg db rawEmail candidate salt user.id ↔ candidate = password := by
  have hfound := hemails.getForAuthenticationByEmail_eq huser
  constructor
  · rintro ⟨normalizedEmail, observed, replacementHash, hprepared, hverified, _⟩
    obtain rfl := Except.ok.inj ((prepareLogin_ok hprepared).1.symm.trans hemail)
    rw [hfound] at hverified
    obtain ⟨_, hverifies⟩ := verifyLogin_verifies hverified
    exact (hpassword candidate).mp hverifies
  · rintro rfl
    obtain ⟨replacementHash, hverified⟩ := @verifyLogin_correct cfg candidate salt (snapshotOf user) hactive
      ((hpassword candidate).mpr rfl)
    refine ⟨user.email, snapshotOf user, replacementHash, ?_, by rwa [hfound], rfl⟩
    simp only [prepareLogin, hemail, hvalid]

/-- In every state after the command, the user that it bootstrapped logs in, by every spelling of the
e-mail, with the password of the command and with no other. -/
theorem bootstrapped_user_logs_in (hhasher : Hashes settings.authentication.passwordHasher)
    (hemails : UniqueEmails s₀.db) {db : Database}
    (hcommanded : (backend settings uuid5).Allowed (Commanded settings) (.init s₀)
      (as ++ .operator db :: bs))
    (hrun : (backend settings uuid5).run (.init s₀) as = some b) {checks : User → Bool}
    {email password : Str} {salt : Nat} {id : UUID} {user : User}
    (hbootstrap : bootstrapUser settings.authentication checks b.pool.state.db email password salt id =
      .ok (user, db))
    (hlater : (backend settings uuid5).run (.init s₀) (as ++ .operator db :: bs) = some c)
    {rawEmail : Str} (hemail : normalizeEmail settings.authentication.lower rawEmail = .ok user.email)
    (candidate : Str) (newSalt : Nat) :
    LogsIn settings.authentication c.pool.state.db rawEmail candidate newSalt id ↔ candidate = password := by
  obtain ⟨normalizedEmail, users, _, hvalid, rfl, _, hinsert, hdb⟩ := bootstrapUser_ok hbootstrap
  have hsplit : as ++ BackendAction.operator db :: bs = (as ++ [.operator db]) ++ bs := by simp
  rw [hsplit] at hcommanded hlater
  have hunique := (later_of_start hhasher hcommanded hlater).uniqueEmails hemails
  rw [Machine.run_append] at hlater
  obtain ⟨mid, hmid, hrest⟩ := Option.bind_eq_some_iff.mp hlater
  -- the state right after the command has the user's row
  have hrow : mid.pool.state.db.users.find? id = some ⟨id, normalizedEmail,
      settings.authentication.passwordHasher.hashPassword password salt, true⟩ := by
    have hcommand : (backend settings uuid5).run b [.operator db] = some mid := by
      rw [Machine.run_append, hrun] at hmid
      exact hmid
    obtain ⟨_, hstep, hnil⟩ := Machine.run_cons_eq_some.mp hcommand
    obtain rfl := Option.some.inj hnil
    cases backend_step hstep with
    | operator =>
      subst hdb
      exact (Table.find?_insert? hinsert id).trans (if_pos rfl)
  obtain ⟨last, hlast, hsame, hactive, hpassword⟩ :=
    (backend_run_later hhasher hcommanded hmid hrest).users id _ hrow
  have hid : last.id = id := Table.find?_key hlast
  rw [← hid]
  exact logsIn_iff hunique (Table.mem_of_find? (hid ▸ hlast)) hactive hvalid
    (hpassword password (hhasher password salt hvalid)) (hsame ▸ hemail) candidate newSalt

end Runs

section Example

/-- The database after the bootstrap of a second user. -/
def bootstrappedDatabase : Option Database :=
  (bootstrapUser upgradeConfig (fun _ => true) backendState.db (str "c@d") (str "word") 0 9).toOption.map
    Prod.snd

theorem bootstrapped_user_logs_in_later : ∃ (c : Backend) (db : Database),
    bootstrappedDatabase = some db ∧
    (backend backendSettings exampleUuid5).run (.init backendState)
      ([] ++ .operator db :: confidentialActions) = some c ∧
    LogsIn upgradeConfig c.pool.state.db (str " c@d ") (str "word") 1 9 ∧
    ¬LogsIn upgradeConfig c.pool.state.db (str " c@d ") (str "pass") 1 9 := by
  have hany : bootstrappedDatabase.any (fun db => ((backend backendSettings exampleUuid5).run
      (.init backendState) ([] ++ .operator db :: confidentialActions)).isSome) = true := by decide +kernel
  obtain ⟨db, hdb, hany⟩ := (Option.any_eq_true _ _).mp hany
  obtain ⟨c, hc⟩ := Option.isSome_iff_exists.mp hany
  obtain ⟨⟨user, db'⟩, hok, hsnd⟩ := Option.map_eq_some_iff.mp hdb
  obtain rfl : db = db' := hsnd.symm
  have hbootstrap := toOption_eq_some.mp hok
  have hcommanded : (backend backendSettings exampleUuid5).Allowed (Commanded backendSettings)
      (.init backendState) ([] ++ .operator db :: confidentialActions) := by
    refine ⟨.bootstrapped hbootstrap, fun _ _ => Machine.allowed_of_forall fun a ha b => ?_⟩
    obtain ⟨_, _, rfl⟩ := List.mem_map.mp ha
    trivial
  obtain ⟨normalizedEmail, _, hnormalized, _, hrow, _⟩ := bootstrapUser_ok hbootstrap
  have hemail : normalizeEmail upgradeConfig.lower (str " c@d ") = .ok user.email := by
    rw [hrow]
    exact hnormalized ▸ by decide
  have hlogs (candidate : Str) := bootstrapped_user_logs_in (hashes_of_correct upgradeHasher_correct)
    backendState_uniqueEmails hcommanded rfl hbootstrap hc hemail candidate 1
  exact ⟨c, db, hdb, hc, (hlogs _).mpr rfl, fun h => absurd ((hlogs _).mp h) (by decide)⟩

end Example
end AgenticRag.Api

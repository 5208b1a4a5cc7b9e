import AgenticRag.Security.LoginOrder

/-! Correct logins of one user side by side. The committing transaction of a login compares hashes,
so a rehash by another login since the user was read makes it fail. -/
namespace AgenticRag.Security
open Lib Python Db Ingestion Retrieval

/-- The user of an email address. -/
def userOf (db : Database) (email : Str) : Option User := db.users.rows.find? fun user => user.email == email

/-- What verification and rehashing are relied on for. -/
structure PasswordHasher.Correct (hasher : PasswordHasher) (password : Str) : Prop where
  verifies : ∀ salt, hasher.verifyPassword password (some (hasher.hashPassword password salt)) = true
  only : ∀ other hash, hasher.verifyPassword password (some hash) = true →
    hasher.verifyPassword other (some hash) = true → other = password

/-- The digest under which a login is about to store its session. -/
def insertedDigest (cfg : AuthenticationConfig) (s : SessionState) (id : Nat) : Option Str :=
  (s.calls id).bind fun call =>
    match call.stage with
    | .insert _ _ sessionToken _ => (hashToken cfg.sha256 sessionToken).toOption
    | _ => none

/-- The tokens, session ids and clocks are as they should be, no call is interrupted, and nobody
changes the user besides logins. -/
def Undisturbed (cfg : AuthenticationConfig) (email : Str) (s : SessionState) : SessionAction → Prop
  | .start _ clock => clock.utcOffset.isSome = true
  | .step _ (.verify _ sessionToken csrfToken) => checkTokenPair sessionToken csrfToken = .ok ()
  | .step id (.insert sessionId acknowledged) => acknowledged = true ∧
      s.db.userSessions.find? sessionId = none ∧
      ∀ row ∈ s.db.userSessions.rows, insertedDigest cfg s id ≠ some row.tokenSha256
  | .step _ .interrupt => False
  | .elsewhere db => userOf db email = userOf s.db email
  | _ => True

instance decidableUndisturbed (cfg : AuthenticationConfig) (email : Str) (s : SessionState) :
    DecidablePred (Undisturbed cfg email s)
  | .start _ clock => inferInstanceAs (Decidable (clock.utcOffset.isSome = true))
  | .step _ (.verify _ sessionToken csrfToken) =>
    inferInstanceAs (Decidable (checkTokenPair sessionToken csrfToken = .ok ()))
  | .step id (.insert sessionId acknowledged) =>
    inferInstanceAs (Decidable (acknowledged = true ∧ s.db.userSessions.find? sessionId = none ∧
      ∀ row ∈ s.db.userSessions.rows, insertedDigest cfg s id ≠ some row.tokenSha256))
  | .step _ .interrupt => isFalse not_false
  | .elsewhere db => inferInstanceAs (Decidable (userOf db email = userOf s.db email))
  | .step _ .observe | .step _ .select | .step _ .selectUser | .step _ (.commit _) | .step _ .read
  | .step _ (.finish _) => isTrue trivial

section User
variable {cfg : AuthenticationConfig} {db db' : Database} {email password : Str} {userId : UUID}

theorem userOf_some {user : User} (h : userOf db email = some user) :
    db.users.find? user.id = some user ∧ user.email = email := by
  have hmem : user ∈ db.users := List.mem_of_find?_eq_some h
  exact ⟨Table.find?_of_mem hmem, by simpa using List.find?_some h⟩

/-- A login replaces one hash, and every address keeps its user. -/
theorem userOf_updatePasswordHash {user : User} {replacementHash : Option Str}
    (hfound : db.users.find? user.id = some user) :
    userOf (updatePasswordHash db user replacementHash) email = (userOf db email).map fun row =>
      if row.id = user.id then { row with passwordHash := replacementHash.getD row.passwordHash } else row := by
  cases replacementHash with
  | none =>
    have hid : (fun row : User => if row.id = user.id then
        { row with passwordHash := (none : Option Str).getD row.passwordHash } else row) = id := by
      funext row
      split <;> rfl
    rw [hid, Option.map_id]
    rfl
  | some hash =>
    have hrows : ∀ row ∈ db.users.rows,
        (if row.id = user.id then { user with passwordHash := hash } else row) =
          if row.id = user.id then { row with passwordHash := hash } else row := by
      intro row hrow
      split
      · rename_i hid
        have hrow' := Table.find?_of_mem (t := db.users) hrow
        rw [hid, hfound] at hrow'
        rw [Option.some.inj hrow']
      · rfl
    show (db.users.rows.map _).find? _ = _
    rw [List.map_congr_left hrows, List.find?_map]
    congr 1
    unfold userOf
    congr 1
    funext row
    simp only [Function.comp]
    split <;> rfl

/-- The user of the address, with a hash that the password matches. -/
structure Admits (cfg : AuthenticationConfig) (password email : Str) (userId : UUID) (db : Database)
    (user : User) : Prop where
  found : userOf db email = some user
  id : user.id = userId
  active : user.isActive = true
  valid : cfg.passwordHasher.verifyPassword password (some user.passwordHash) = true

end User

section Steps
variable {cfg : AuthenticationConfig} {password email : Str} {userId : UUID} {s t : SessionState}
  {a : SessionAction} {user : User}

/-- The user after a rehash by one of the calls. -/
def Overtakes (cfg : AuthenticationConfig) (s t : SessionState) (a : SessionAction) (user user' : User) :
    Prop :=
  ∃ id step call, a = .step id step ∧ s.calls id = some call ∧ RehashedBy cfg call user user' ∧
    cfg.passwordHasher.needsRehash user.passwordHash = true ∧ ∃ e ∈ t.ended, e.id = id

/-- Every step leaves the password valid, and only a rehash changes the hash. -/
theorem Admits.step (hcorrect : cfg.passwordHasher.Correct password) (hvalid : LoginsValid cfg s)
    (h : Admits cfg password email userId s.db user) (hundisturbed : Undisturbed cfg email s a)
    (hstep : (sessions cfg).step s a = some t) : ∃ user', Admits cfg password email userId t.db user' ∧
      (user'.passwordHash = user.passwordHash ∨ Overtakes cfg s t a user user') := by
  cases sessionStep_move hstep with
  | refused => exact ⟨user, h, .inl rfl⟩
  | started => exact ⟨user, h, .inl rfl⟩
  | elsewhere => exact ⟨user, ⟨hundisturbed.trans h.found, h.id, h.active, h.valid⟩, .inl rfl⟩
  | @step id step call progress hcall hcallStep =>
    have hstage := (hvalid.calls id call hcall).2
    cases callStep_call hstage hcallStep with
    | goOn _ => exact ⟨user, h, .inl rfl⟩
    | stop => exact ⟨user, h, .inl rfl⟩
    | worked _ hwrite =>
      refine ⟨user, ⟨?_, h.id, h.active, h.valid⟩, .inl rfl⟩
      rw [after_db, committed_db, userOf, (writeWork_spares hwrite).1]
      exact h.found
    | @inserted _ acknowledged observed replacementHash _ _ written credentials hat hcommit =>
      obtain ⟨found, row, _, hc⟩ := commitLogin_committed hcommit
      rw [hat] at hstage
      obtain ⟨raw, typed, hlogin, hverified⟩ := hstage
      have hid : found.id = observed.userId := Table.find?_key hc.found
      have hfound : s.db.users.find? found.id = some found := hid ▸ hc.found
      have hafter : userOf written email = some (if user.id = found.id then
          { user with passwordHash := replacementHash.getD user.passwordHash } else user) := by
        rw [userOf, hc.users]
        exact (userOf_updatePasswordHash hfound).trans (by rw [h.found]; rfl)
      rw [after_db, committed_db]
      by_cases hsame : user.id = found.id
      · obtain rfl : user = found := by
          have hboth := (userOf_some h.found).1
          rw [hsame, hfound] at hboth
          exact (Option.some.inj hboth).symm
        rw [if_pos rfl] at hafter
        cases hreplacement : replacementHash with
        | none =>
          rw [hreplacement] at hafter
          exact ⟨_, ⟨hafter, h.id, h.active, h.valid⟩, .inl rfl⟩
        | some hash =>
          rw [hreplacement] at hafter
          obtain ⟨salt, rfl⟩ := hverified.replacement hash hreplacement
          have htyped : typed = password :=
            hcorrect.only typed _ h.valid (hc.unchanged ▸ hverified.valid)
          subst htyped
          have hneeds : cfg.passwordHasher.needsRehash user.passwordHash = true := by
            rw [hc.unchanged, ← hverified.rehash, hreplacement]
            rfl
          refine ⟨_, ⟨hafter, h.id, h.active, hcorrect.verifies salt⟩, .inr ?_⟩
          exact ⟨id, _, call, rfl, hcall, ⟨raw, typed, _, _, _, _, salt, hlogin, hat, hc.unchanged,
            h.valid, rfl⟩, hneeds, _, List.mem_cons_self, rfl⟩
      · rw [if_neg hsame] at hafter
        exact ⟨user, ⟨hafter, h.id, h.active, h.valid⟩, .inl rfl⟩

/-- A hash that has changed over a run was rehashed by a call that has ended. -/
theorem Admits.run (hcorrect : cfg.passwordHasher.Correct password) (hvalid : LoginsValid cfg s)
    (h : Admits cfg password email userId s.db user) {as : List SessionAction}
    (hundisturbed : (sessions cfg).Allowed (Undisturbed cfg email) s as)
    (hrun : (sessions cfg).run s as = some t) : ∃ user', Admits cfg password email userId t.db user' ∧
      (user'.passwordHash ≠ user.passwordHash → ∃ before a after r r' old new,
        as = before ++ a :: after ∧ (sessions cfg).run s before = some r ∧
        (sessions cfg).step r a = some r' ∧ (sessions cfg).run r' after = some t ∧
        Admits cfg password email userId r.db old ∧ Overtakes cfg r r' a old new) := by
  induction as generalizing s user with
  | nil =>
    obtain rfl := Option.some.inj hrun
    exact ⟨user, h, fun hne => absurd rfl hne⟩
  | cons a as ih =>
    obtain ⟨r, hstep, hrest⟩ := Machine.run_cons_eq_some.mp hrun
    obtain ⟨middle, hmiddle, hchange⟩ := h.step hcorrect hvalid hundisturbed.1 hstep
    obtain ⟨user', hlast, hlater⟩ := ih (hvalid.step hstep) hmiddle (hundisturbed.2 r hstep) hrest
    refine ⟨user', hlast, fun hne => ?_⟩
    by_cases hsame : user'.passwordHash = middle.passwordHash
    · have hovertakes := hchange.resolve_left fun heq => hne (hsame.trans heq)
      exact ⟨[], a, as, s, r, user, middle, rfl, rfl, hstep, hrest, h, hovertakes⟩
    · obtain ⟨before, b, after, q, q', old, new, rfl, hbefore, hb, hafter, hold, hovertakes⟩ := hlater hsame
      refine ⟨a :: before, b, after, q, q', old, new, rfl, ?_, hb, hafter, hold, hovertakes⟩
      rw [Machine.run_cons, hstep]
      exact hbefore

end Steps

section Outcomes
variable {cfg : AuthenticationConfig} {db : Database} {now : Time} {observed : AuthenticationUserSnapshot}
  {replacementHash : Option Str} {sessionToken csrfToken : Str} {sessionId : UUID} {user : User}

theorem matches_of_checkTokenPair (h : checkTokenPair sessionToken csrfToken = .ok ()) :
    matchesToken sessionToken = true ∧ matchesToken csrfToken = true := by
  unfold checkTokenPair at h
  split at h
  · cases h
  · rename_i hguard
    simp only [Bool.or_eq_true, Bool.not_eq_true', not_or, Bool.not_eq_false] at hguard
    exact hguard.1

/-- The committing transaction succeeds while the hash is the one that was read. -/
theorem commitLogin_unchanged (htokens : checkTokenPair sessionToken csrfToken = .ok ())
    (hfound : db.users.find? observed.userId = some user) (hactive : user.isActive = true)
    (hhash : user.passwordHash = observed.passwordHash) (hid : db.userSessions.find? sessionId = none)
    (hdigest : ∀ digest, hashToken cfg.sha256 sessionToken = .ok digest →
      ∀ row ∈ db.userSessions.rows, row.tokenSha256 ≠ digest) :
    ∃ written credentials, commitLogin cfg db now observed replacementHash sessionToken csrfToken sessionId =
      .ok (written, credentials) ∧ credentials.principal = ⟨user.id, sessionId⟩ := by
  obtain ⟨htoken, hcsrf⟩ := matches_of_checkTokenPair htokens
  obtain ⟨tokenSha256, htoken⟩ := hashToken_of_matches cfg.sha256 htoken
  obtain ⟨csrfTokenSha256, hcsrf⟩ := hashToken_of_matches cfg.sha256 hcsrf
  have hfree : (db.userSessions.rows.any fun row => row.tokenSha256 == tokenSha256) = false := by
    rw [List.any_eq_false]
    intro row hrow
    rw [beq_iff_eq]
    exact hdigest tokenSha256 htoken row hrow
  obtain ⟨userSessions, hinsert⟩ := Option.isSome_iff_exists.mp (Table.insert?_isSome
    (t := db.userSessions) (r := ⟨sessionId, user.id, tokenSha256, csrfTokenSha256,
      now + cfg.sessionTtl, none, none⟩) |>.mpr hid)
  refine ⟨{ updatePasswordHash db user replacementHash with userSessions },
    ⟨⟨user.id, sessionId⟩, sessionToken, csrfToken, now + cfg.sessionTtl⟩, ?_, rfl⟩
  simp only [commitLogin, hfound, hactive, hhash, bne_self_eq_false, Bool.not_true, Bool.or_self,
    Bool.false_eq_true, if_false, htoken, hcsrf, bind, Except.bind, addForAuthentication,
    updatePasswordHash_userSessions, hfree, hinsert]

/-- It refuses when the hash has changed. -/
theorem commitLogin_changed (hfound : db.users.find? observed.userId = some user)
    (hhash : user.passwordHash ≠ observed.passwordHash) :
    commitLogin cfg db now observed replacementHash sessionToken csrfToken sessionId =
      .error .authentication := by
  have hguard : (!user.isActive || user.passwordHash != observed.passwordHash) = true := by
    rw [Bool.or_eq_true, bne_iff_ne]
    exact .inr hhash
  simp only [commitLogin, hfound, hguard, if_true]

end Outcomes

section Course
variable {cfg : AuthenticationConfig} {password email : Str} {userId : UUID} {db : Database}
  {as bs : List SessionAction} {s t : SessionState} {a : SessionAction} {id : Nat} {e : EndedCall}

/-- A login with the password of the address. -/
def CorrectLogin (cfg : AuthenticationConfig) (password email : Str) (operation : SessionOperation) : Prop :=
  ∃ raw, operation = .login raw password ∧ normalizeEmail cfg.lower raw = .ok email

/-- The login has read the user in an earlier state of the run. -/
def ReadBy (cfg : AuthenticationConfig) (password email : Str) (userId : UUID) (db : Database)
    (as : List SessionAction) (id : Nat) (observed : AuthenticationUserSnapshot) : Prop :=
  ∃ before middle r user, as = before ++ .step id .observe :: middle ∧
    (sessions cfg).run (.init db) before = some r ∧ Admits cfg password email userId r.db user ∧
    observed = ⟨user.id, user.email, user.isActive, user.passwordHash⟩

/-- Where a correct login can be. -/
def CorrectStage (cfg : AuthenticationConfig) (password email : Str) (userId : UUID) (db : Database)
    (as : List SessionAction) (id : Nat) : SessionStage → Prop
  | .observe normalizedEmail => normalizedEmail = email
  | .verify (some observed) => ReadBy cfg password email userId db as id observed
  | .insert observed _ _ _ => ReadBy cfg password email userId db as id observed
  | _ => False

/-- The login has succeeded with a session of its own. -/
def CreatesSession (e : EndedCall) (sessionId userId : UUID) (r r' : SessionState) : Prop :=
  ∃ credentials row, e.outcome = .ok (.credentials credentials) ∧
    credentials.principal = ⟨userId, sessionId⟩ ∧ r.db.userSessions.find? sessionId = none ∧
    r'.db.userSessions.find? sessionId = some row ∧ row.userId = userId

/-- The login has failed in its transaction: another call rehashed after the user was read. -/
def FailsOvertaken (cfg : AuthenticationConfig) (e : EndedCall) (since : List SessionAction)
    (first r r' : SessionState) : Prop :=
  e.outcome = .error (.service .authentication) ∧ r'.db = r.db ∧
    ∃ before a after q q' old new, since = before ++ a :: after ∧
      (sessions cfg).run first before = some q ∧ (sessions cfg).step q a = some q' ∧
      Overtakes cfg q q' a old new ∧ ∀ step, a ≠ .step e.id step

/-- How a correct login has ended, from the state in which it read the user and the one in which its
second transaction ran. -/
def Settled (cfg : AuthenticationConfig) (password email : Str) (userId : UUID) (db : Database)
    (as : List SessionAction) (e : EndedCall) : Prop :=
  ∃ before middle after sessionId first r r' user user',
    as = before ++ .step e.id .observe :: middle ++ .step e.id (.insert sessionId true) :: after ∧
    (sessions cfg).run (.init db) before = some first ∧
    (sessions cfg).run first (.step e.id .observe :: middle) = some r ∧
    (sessions cfg).step r (.step e.id (.insert sessionId true)) = some r' ∧
    Admits cfg password email userId first.db user ∧ Admits cfg password email userId r.db user' ∧
    (user'.passwordHash = user.passwordHash ∧ CreatesSession e sessionId userId r r' ∨
      user'.passwordHash ≠ user.passwordHash ∧
        FailsOvertaken cfg e (.step e.id .observe :: middle) first r r')

theorem ReadBy.append {observed : AuthenticationUserSnapshot}
    (h : ReadBy cfg password email userId db as id observed) :
    ReadBy cfg password email userId db (as ++ bs) id observed := by
  obtain ⟨before, middle, r, user, rfl, hrun, hadmits, hobserved⟩ := h
  exact ⟨before, middle ++ bs, r, user, by simp, hrun, hadmits, hobserved⟩

theorem CorrectStage.append {stage : SessionStage}
    (h : CorrectStage cfg password email userId db as id stage) :
    CorrectStage cfg password email userId db (as ++ bs) id stage := by
  cases stage with
  | observe normalizedEmail => exact h
  | verify observed =>
    cases observed with
    | none => exact h
    | some observed => exact ReadBy.append h
  | insert observed replacementHash sessionToken csrfToken => exact ReadBy.append h
  | _ => exact h

theorem Settled.append (h : Settled cfg password email userId db as e) :
    Settled cfg password email userId db (as ++ bs) e := by
  obtain ⟨before, middle, after, sessionId, first, r, r', user, user', rfl, h⟩ := h
  exact ⟨before, middle, after ++ bs, sessionId, first, r, r', user, user', by simp, h⟩

/-- The invariant of a run: each correct login is on its way or settled. -/
structure Course (cfg : AuthenticationConfig) (password email : Str) (userId : UUID) (db : Database)
    (as : List SessionAction) (s : SessionState) : Prop where
  valid : LoginsValid cfg s
  admits : ∃ user, Admits cfg password email userId s.db user
  calls : ∀ id call, s.calls id = some call → CorrectLogin cfg password email call.operation →
    CorrectStage cfg password email userId db as id call.stage
  ended : ∀ e ∈ s.ended, CorrectLogin cfg password email e.operation →
    Settled cfg password email userId db as e

theorem beginCall_correct {operation : SessionOperation} {clock : ClockReading}
    (hlength : validatePasswordLength password = .ok ()) (hclock : clock.utcOffset.isSome = true)
    (h : CorrectLogin cfg password email operation) :
    beginCall cfg clock operation = .ok (.observe email) := by
  obtain ⟨raw, rfl, hemail⟩ := h
  have hnow : authenticationNow clock = .ok clock.instant := by
    unfold authenticationNow
    rw [if_neg]
    rw [Option.isNone_iff_eq_none]
    exact Option.isSome_iff_ne_none.mp hclock
  have hprepare : prepareLogin cfg raw password = .ok email := by
    simp only [prepareLogin, hemail, hlength]
  simp only [beginCall, hprepare, hnow, bind, Except.bind]

theorem verifyLogin_correct (salt : Nat) {observed : AuthenticationUserSnapshot}
    (hactive : observed.isActive = true)
    (hvalid : cfg.passwordHasher.verifyPassword password (some observed.passwordHash) = true) :
    ∃ replacementHash, verifyLogin cfg password salt (some observed) = .ok (observed, replacementHash) := by
  cases hneeds : cfg.passwordHasher.needsRehash observed.passwordHash with
  | true =>
    refine ⟨some (cfg.passwordHasher.hashPassword password salt), ?_⟩
    simp only [verifyLogin, Option.map_some, hvalid, hactive, hneeds, Bool.not_true, Bool.or_self,
      Bool.false_eq_true, if_false, if_true]
  | false =>
    refine ⟨none, ?_⟩
    simp only [verifyLogin, Option.map_some, hvalid, hactive, hneeds, Bool.not_true, Bool.or_self,
      Bool.false_eq_true, if_false]

/-- The step that reads the user. -/
theorem Course.observe (h : Course cfg password email userId db as s)
    (hrun : (sessions cfg).run (.init db) as = some s) {call : SessionCall}
    (hcorrect : CorrectLogin cfg password email call.operation)
    (hstage : call.stage = .observe email) {step : CallStep} {progress : Progress}
    (hundisturbed : Undisturbed cfg email s (.step id step))
    (hstep : callStep cfg s.db call step = some progress) :
    ∃ stage, progress = .goOn s.db stage ∧
      CorrectStage cfg password email userId db (as ++ [.step id step]) id stage := by
  obtain ⟨user, hadmits⟩ := h.admits
  obtain ⟨raw, hlogin, _⟩ := hcorrect
  cases step with
  | observe =>
    simp only [callStep, hstage] at hstep
    have hread : getForAuthenticationByEmail s.db email =
        some ⟨user.id, user.email, user.isActive, user.passwordHash⟩ := by
      show (userOf s.db email).map _ = _
      rw [hadmits.found]
      rfl
    rw [hread] at hstep
    exact ⟨_, (Option.some.inj hstep).symm, as, [], s, user, rfl, hrun, hadmits, rfl⟩
  | interrupt => exact hundisturbed.elim
  | verify salt sessionToken csrfToken =>
    simp only [callStep, hlogin, hstage] at hstep
    cases hstep
  | _ =>
    simp only [callStep, hstage] at hstep
    cases hstep

/-- The step that verifies the password and draws the tokens. -/
theorem CorrectLogin.verify {call : SessionCall} {observed : AuthenticationUserSnapshot}
    (h : CorrectLogin cfg password email call.operation) (hstage : call.stage = .verify (some observed))
    (hread : ReadBy cfg password email userId db as id observed) {step : CallStep} {progress : Progress}
    (hundisturbed : Undisturbed cfg email s (.step id step))
    (hstep : callStep cfg s.db call step = some progress) :
    ∃ stage, progress = .goOn s.db stage ∧
      CorrectStage cfg password email userId db (as ++ [.step id step]) id stage := by
  obtain ⟨raw, hlogin, _⟩ := h
  cases step with
  | verify salt sessionToken csrfToken =>
    have hboth : observed.isActive = true ∧
        cfg.passwordHasher.verifyPassword password (some observed.passwordHash) = true := by
      obtain ⟨before, middle, r, user, _, _, hadmits, rfl⟩ := hread
      exact ⟨hadmits.active, hadmits.valid⟩
    obtain ⟨replacementHash, hverify⟩ := verifyLogin_correct salt hboth.1 hboth.2
    have htokens : checkTokenPair sessionToken csrfToken = .ok () := hundisturbed
    simp only [callStep, hlogin, hstage, hverify, htokens, orStop] at hstep
    exact ⟨_, (Option.some.inj hstep).symm, hread.append⟩
  | interrupt => exact hundisturbed.elim
  | _ =>
    simp only [callStep, hstage] at hstep
    cases hstep

/-- The step that inserts the session. -/
theorem Course.insert (h : Course cfg password email userId db as s)
    (hcorrect : cfg.passwordHasher.Correct password)
    (hallowed : (sessions cfg).Allowed (Undisturbed cfg email) (.init db) as)
    (hrun : (sessions cfg).run (.init db) as = some s) {call : SessionCall} (hcall : s.calls id = some call)
    {observed : AuthenticationUserSnapshot} {replacementHash : Option Str} {sessionToken csrfToken : Str}
    (hstage : call.stage = .insert observed replacementHash sessionToken csrfToken)
    (htokens : checkTokenPair sessionToken csrfToken = .ok ())
    (hread : ReadBy cfg password email userId db as id observed) {step : CallStep} {progress : Progress}
    (hundisturbed : Undisturbed cfg email s (.step id step))
    (hstep : (sessions cfg).step s (.step id step) = some (s.after id call progress))
    (hcallStep : callStep cfg s.db call step = some progress) :
    ∃ db' outcome, progress = .stop db' outcome ∧ Settled cfg password email userId db
      (as ++ [.step id step]) ⟨id, call.operation, call.clock, outcome⟩ := by
  obtain ⟨before, middle, first, user, rfl, hbefore, hadmits, rfl⟩ := hread
  have hfirst : LoginsValid cfg first := .reached ⟨before, hbefore⟩
  rw [Machine.run_append, hbefore] at hrun
  obtain ⟨user', hadmits', hchange⟩ := hadmits.run hcorrect hfirst
    ((Machine.allowed_append.mp hallowed).2 first hbefore) hrun
  have hfound : s.db.users.find? user.id = some user' := by
    rw [hadmits.id, ← hadmits'.id]
    exact (userOf_some hadmits'.found).1
  cases step with
  | insert sessionId acknowledged =>
    obtain ⟨rfl, hfresh, hdigest⟩ := hundisturbed
    simp only [callStep, hstage] at hcallStep
    by_cases hhash : user'.passwordHash = user.passwordHash
    · have hok : ∃ written credentials, commitLogin cfg s.db call.clock.instant
          ⟨user.id, user.email, user.isActive, user.passwordHash⟩ replacementHash sessionToken csrfToken
          sessionId = .ok (written, credentials) ∧ credentials.principal = ⟨user'.id, sessionId⟩ :=
        commitLogin_unchanged htokens hfound hadmits'.active hhash hfresh fun digest htoken row hrow heq =>
          hdigest row hrow (by simp only [insertedDigest, hcall, Option.bind_some, hstage, htoken, heq,
            Except.toOption])
      obtain ⟨written, credentials, hcommit, hprincipal⟩ := hok
      obtain ⟨found, row, rfl, hc⟩ := commitLogin_committed hcommit
      rw [hcommit] at hcallStep
      obtain rfl := Option.some.inj hcallStep
      refine ⟨written, _, rfl, before, middle, [], row.id, first, s, _, user, user', rfl, hbefore, hrun,
        hstep, hadmits, hadmits', .inl ⟨hhash, credentials, row, rfl, ?_, hc.fresh, ?_, ?_⟩⟩
      · rw [hprincipal, hadmits'.id]
      · exact (hc.sessions row.id).trans (if_pos rfl)
      · rw [hc.userId, Table.find?_key hc.found]
        exact hadmits.id
    · rw [commitLogin_changed hfound hhash] at hcallStep
      obtain rfl := Option.some.inj hcallStep
      obtain ⟨mid, a, rest, q, q', old, new, hsplit, hmid, ha, hrest, _, hovertakes⟩ := hchange hhash
      refine ⟨s.db, _, rfl, before, middle, [], sessionId, first, s, _, user, user', rfl, hbefore, hrun,
        hstep, hadmits, hadmits', .inr ⟨hhash, rfl, rfl, mid, a, rest, q, q', old, new, hsplit, hmid, ha,
          hovertakes, ?_⟩⟩
      rintro other rfl
      obtain ⟨id', _, _, hother, _, _, _, e, he, heid⟩ := hovertakes
      obtain ⟨rfl, -⟩ := SessionAction.step.inj hother
      have hkept : e ∈ s.ended := Machine.run_invariant (I := fun r => e ∈ r.ended)
        (fun _ _ _ hmem hs => step_ended hs e hmem) he hrest
      have hnone := (h.valid.ended e hkept).2
      rw [heid] at hnone
      cases hnone.symm.trans hcall
  | interrupt => exact hundisturbed.elim
  | verify salt first second =>
    simp only [callStep] at hcallStep
    split at hcallStep
    · rename_i hverify
      rw [hstage] at hverify
      cases hverify
    · cases hcallStep
  | _ =>
    simp only [callStep, hstage] at hcallStep
    cases hcallStep

/-- A step of a call whose other calls stay as they were. -/
theorem Course.after (h : Course cfg password email userId db as s) (hcorrect : cfg.passwordHasher.Correct password)
    (hundisturbed : Undisturbed cfg email s a) (hstep : (sessions cfg).step s a = some t)
    (hcalls : ∀ id call, t.calls id = some call → CorrectLogin cfg password email call.operation →
      s.calls id = some call ∨ CorrectStage cfg password email userId db (as ++ [a]) id call.stage)
    (hended : ∀ e ∈ t.ended, CorrectLogin cfg password email e.operation →
      e ∈ s.ended ∨ Settled cfg password email userId db (as ++ [a]) e) :
    Course cfg password email userId db (as ++ [a]) t where
  valid := h.valid.step hstep
  admits := by
    obtain ⟨user, hadmits⟩ := h.admits
    obtain ⟨user', hadmits', _⟩ := hadmits.step hcorrect h.valid hundisturbed hstep
    exact ⟨user', hadmits'⟩
  calls := by
    intro id call hcall hlogin
    rcases hcalls id call hcall hlogin with hold | hnew
    · exact (h.calls id call hold hlogin).append
    · exact hnew
  ended := by
    intro e he hlogin
    rcases hended e he hlogin with hold | hnew
    · exact (h.ended e hold hlogin).append
    · exact hnew

theorem Course.step (h : Course cfg password email userId db as s)
    (hcorrect : cfg.passwordHasher.Correct password) (hlength : validatePasswordLength password = .ok ())
    (hallowed : (sessions cfg).Allowed (Undisturbed cfg email) (.init db) as)
    (hrun : (sessions cfg).run (.init db) as = some s) (hundisturbed : Undisturbed cfg email s a)
    (hstep : (sessions cfg).step s a = some t) : Course cfg password email userId db (as ++ [a]) t := by
  cases sessionStep_move hstep with
  | elsewhere =>
    exact h.after hcorrect hundisturbed hstep (fun _ _ hcall _ => .inl hcall) fun _ he _ => .inl he
  | refused hbegin =>
    refine h.after hcorrect hundisturbed hstep (fun _ _ hcall _ => .inl hcall) fun e he hlogin => ?_
    rcases List.mem_cons.mp he with rfl | hold
    · rw [beginCall_correct hlength hundisturbed hlogin] at hbegin
      cases hbegin
    · exact .inl hold
  | started hbegin =>
    refine h.after hcorrect hundisturbed hstep (fun id call hcall hlogin => ?_) fun _ he _ => .inl he
    rcases of_update_eq_some hcall with ⟨rfl, hslot⟩ | hold
    · obtain rfl := Option.some.inj hslot
      rw [beginCall_correct hlength hundisturbed hlogin] at hbegin
      obtain rfl := Except.ok.inj hbegin
      exact .inr rfl
    · exact .inl hold
  | @step id step call progress hcall hcallStep =>
    have hown : CorrectLogin cfg password email call.operation →
        (∃ stage, progress = .goOn s.db stage ∧
          CorrectStage cfg password email userId db (as ++ [.step id step]) id stage) ∨
        ∃ db' outcome, progress = .stop db' outcome ∧ Settled cfg password email userId db
          (as ++ [.step id step]) ⟨id, call.operation, call.clock, outcome⟩ := by
      intro hlogin
      have hstage := h.calls id call hcall hlogin
      have hvalid := (h.valid.calls id call hcall).2
      cases hat : call.stage with
      | observe normalizedEmail =>
        rw [hat] at hstage
        obtain rfl : normalizedEmail = email := hstage
        exact .inl (h.observe hrun hlogin hat hundisturbed hcallStep)
      | verify observed =>
        rw [hat] at hstage
        cases observed with
        | none => exact hstage.elim
        | some observed => exact .inl (hlogin.verify hat hstage hundisturbed hcallStep)
      | insert observed replacementHash sessionToken csrfToken =>
        rw [hat] at hstage hvalid
        obtain ⟨_, _, _, hverified⟩ := hvalid
        exact .inr (h.insert hcorrect hallowed hrun hcall hat hverified.tokens hstage hundisturbed hstep
          hcallStep)
      | _ =>
        rw [hat] at hstage
        exact hstage.elim
    refine h.after hcorrect hundisturbed hstep (fun id' call' hcall' hlogin => ?_) fun e he hlogin => ?_
    · cases progress with
      | goOn db' stage =>
        rcases of_update_eq_some hcall' with ⟨rfl, hslot⟩ | hold
        · obtain rfl := Option.some.inj hslot
          rcases hown hlogin with ⟨_, heq, hstage⟩ | ⟨_, _, heq, _⟩
          · obtain ⟨-, rfl⟩ := Progress.goOn.inj heq
            exact .inr hstage
          · cases heq
        · exact .inl hold
      | stop db' outcome =>
        rcases of_update_eq_some hcall' with ⟨_, hslot⟩ | hold
        · cases hslot
        · exact .inl hold
    · cases progress with
      | goOn db' stage => exact .inl he
      | stop db' outcome =>
        rcases List.mem_cons.mp he with rfl | hold
        · rcases hown hlogin with ⟨_, heq, _⟩ | ⟨_, _, heq, hsettled⟩
          · cases heq
          · obtain ⟨-, rfl⟩ := Progress.stop.inj heq
            exact .inr hsettled
        · exact .inl hold

theorem Course.run {user : User} (hcorrect : cfg.passwordHasher.Correct password)
    (hlength : validatePasswordLength password = .ok ())
    (hadmits : Admits cfg password email userId db user)
    (hallowed : (sessions cfg).Allowed (Undisturbed cfg email) (.init db) as)
    (hrun : (sessions cfg).run (.init db) as = some t) : Course cfg password email userId db as t := by
  have hinit : Course cfg password email userId db [] (.init db) :=
    ⟨.init db, ⟨user, hadmits⟩, fun _ _ h => (by cases h), fun _ h => (by cases h)⟩
  -- each step needs that the run before it was undisturbed
  refine (Machine.run_history (I := fun as s => (sessions cfg).Allowed (Undisturbed cfg email) (.init db) as ∧
    Course cfg password email userId db as s) (fun as r a q hr h hC hq => ?_) ⟨trivial, hinit⟩ hallowed hrun).2
  exact ⟨(Machine.allowed_concat hr).mpr ⟨h.1, hC⟩, h.2.step hcorrect hlength h.1 hr hC hq⟩

/-- A hash that is not outdated stays. -/
theorem Admits.current {user : User} (hcorrect : cfg.passwordHasher.Correct password)
    (hvalid : LoginsValid cfg s) (h : Admits cfg password email userId s.db user)
    (hneeds : cfg.passwordHasher.needsRehash user.passwordHash = false)
    (hallowed : (sessions cfg).Allowed (Undisturbed cfg email) s as)
    (hrun : (sessions cfg).run s as = some t) :
    ∃ user', Admits cfg password email userId t.db user' ∧ user'.passwordHash = user.passwordHash := by
  refine (Machine.run_invariant_of_allowed (I := fun r => LoginsValid cfg r ∧
    ∃ user', Admits cfg password email userId r.db user' ∧ user'.passwordHash = user.passwordHash)
    (fun r a q hr hC hq => ?_) ⟨hvalid, user, h, rfl⟩ hallowed hrun).2
  obtain ⟨hr, current, hcurrent, hsame⟩ := hr
  refine ⟨hr.step hq, ?_⟩
  obtain ⟨next, hnext, hkept | ⟨_, _, _, _, _, _, hneeds', _⟩⟩ := hcurrent.step hcorrect hr hC hq
  · exact ⟨next, hnext, hkept.trans hsame⟩
  · rw [hsame, hneeds] at hneeds'
    cases hneeds'

/-- The password stays valid, and a correct login succeeds with a session of its own exactly if the
hash that it read is still stored at its second transaction; if it is not, another login has
rehashed. A hash that is not outdated lets every correct login succeed. -/
theorem concurrent_logins {user : User} (hcorrect : cfg.passwordHasher.Correct password)
    (hlength : validatePasswordLength password = .ok ()) (huser : userOf db email = some user)
    (hactive : user.isActive = true)
    (hvalid : cfg.passwordHasher.verifyPassword password (some user.passwordHash) = true)
    (hallowed : (sessions cfg).Allowed (Undisturbed cfg email) (.init db) as)
    (hrun : (sessions cfg).run (.init db) as = some t) :
    (∃ user', userOf t.db email = some user' ∧ user'.id = user.id ∧
      cfg.passwordHasher.verifyPassword password (some user'.passwordHash) = true) ∧
    (∀ e ∈ t.ended, CorrectLogin cfg password email e.operation →
      Settled cfg password email user.id db as e) ∧
    (∀ e ∈ t.ended, CorrectLogin cfg password email e.operation →
      ∀ credentials, e.outcome = .ok (.credentials credentials) →
        ∃ row, t.db.userSessions.find? credentials.principal.sessionId = some row ∧ row.userId = user.id) ∧
    (cfg.passwordHasher.needsRehash user.passwordHash = false →
      ∀ e ∈ t.ended, CorrectLogin cfg password email e.operation →
        ∃ credentials, e.outcome = .ok (.credentials credentials)) := by
  have hadmits : Admits cfg password email user.id db user := ⟨huser, rfl, hactive, hvalid⟩
  have hcourse : Course cfg password email user.id db as t := .run hcorrect hlength hadmits hallowed hrun
  refine ⟨?_, hcourse.ended, fun e he hlogin credentials hok => ?_, fun hneeds e he hlogin => ?_⟩
  · obtain ⟨user', hlast⟩ := hcourse.admits
    exact ⟨user', hlast.found, hlast.id, hlast.valid⟩
  · obtain ⟨before, middle, after, sessionId, first, r, r', _, _, has, hfirst, hr, hr', _, _, hsettled⟩ :=
      hcourse.ended e he hlogin
    rcases hsettled with ⟨_, created, row, hcreated, hprincipal, _, hrow, hid⟩ | ⟨_, hfailed, _⟩
    · cases hcreated.symm.trans hok
      have hlater : (sessions cfg).run r' after = some t := by
        rw [has, List.append_assoc, Machine.run_append, hfirst, Option.bind_some, Machine.run_append,
          hr] at hrun
        obtain ⟨q, hq, hrest⟩ := Machine.run_cons_eq_some.mp hrun
        obtain rfl := Option.some.inj (hr'.symm.trans hq)
        exact hrest
      have hgrows : Grows r'.db t.db := Machine.run_invariant (I := fun q => Grows r'.db q.db)
        (fun _ _ _ hg hs => hg.trans (step_grows hs)) (.refl _) hlater
      obtain ⟨row', hrow', hevolves⟩ := hgrows sessionId row hrow
      refine ⟨row', ?_, hevolves.userId.trans hid⟩
      rw [hprincipal]
      exact hrow'
    · cases hfailed.symm.trans hok
  · obtain ⟨before, middle, after, sessionId, first, r, r', old, new, has, hfirst, hr, hr', hold, hnew,
      hsettled⟩ := hcourse.ended e he hlogin
    rcases hsettled with ⟨_, credentials, _, hok, _⟩ | ⟨hchanged, _⟩
    · exact ⟨credentials, hok⟩
    · rw [has, List.append_assoc] at hallowed
      obtain ⟨hbefore, hallowed⟩ := Machine.allowed_append.mp hallowed
      have hmiddle := hallowed first hfirst
      have hinit : LoginsValid cfg (.init db) := .init db
      obtain ⟨atFirst, hatFirst, hsame⟩ := Admits.current (s := .init db) hcorrect hinit hadmits hneeds hbefore hfirst
      obtain rfl := Option.some.inj (hatFirst.found.symm.trans hold.found)
      obtain ⟨atLast, hatLast, hsame'⟩ := hatFirst.current hcorrect (.reached ⟨before, hfirst⟩)
        (by rw [hsame]; exact hneeds) (Machine.allowed_append.mp hmiddle).1 hr
      obtain rfl := Option.some.inj (hatLast.found.symm.trans hnew.found)
      exact absurd hsame' hchanged

end Course

section Example

private theorem dropWhile_salted (password : Str) (salt : Nat) :
    (List.replicate salt (ord '$') ++ ord 'n' :: password).dropWhile (· == ord '$') = ord 'n' :: password := by
  induction salt with
  | zero => rfl
  | succ salt ih =>
    rw [List.replicate_succ, List.cons_append, List.dropWhile_cons, if_pos (by decide), ih]

theorem upgradeHasher_correct (password : Str) : upgradeHasher.Correct password where
  verifies salt := by
    simp only [upgradeHasher, Option.any_some, dropWhile_salted, List.tail_cons, beq_self_eq_true]
  only other hash h h' := by
    simp only [upgradeHasher, Option.any_some, beq_iff_eq] at h h'
    exact h'.symm.trans h

/-- Both logins commit, the second one after the rehash of the first. -/
def committedLogins : List SessionAction :=
  overlappingLogins ++ [.step 0 (.insert 7 true), .step 1 (.insert 8 true)]

private def isExampleLogin : SessionOperation → Bool
  | .login raw password => decide (raw = str "a@b") && decide (password = str "pass")
  | _ => false

private theorem of_isExampleLogin {operation : SessionOperation} (h : isExampleLogin operation = true) :
    operation = .login (str "a@b") (str "pass") := by
  cases operation with
  | login raw password =>
    obtain ⟨hraw, hpassword⟩ := Bool.and_eq_true_iff.mp h
    rw [of_decide_eq_true hraw, of_decide_eq_true hpassword]
  | _ => cases h

private theorem committedLogins_undisturbed :
    (sessions upgradeConfig).Allowed (Undisturbed upgradeConfig (str "a@b")) (.init outdatedDatabase)
      committedLogins := by
  decide +kernel

private theorem outdatedUser : userOf outdatedDatabase (str "a@b") = some ⟨1, str "a@b", str "opass", true⟩ := by
  decide

theorem concurrent_logins_example : ∃ t user e,
    (sessions upgradeConfig).run (.init outdatedDatabase) committedLogins = some t ∧ e ∈ t.ended ∧ e.id = 0 ∧
    userOf t.db (str "a@b") = some user ∧
    upgradeHasher.verifyPassword (str "pass") (some user.passwordHash) = true ∧
    Settled upgradeConfig (str "pass") (str "a@b") 1 outdatedDatabase committedLogins e := by
  have hrun : ((sessions upgradeConfig).run (.init outdatedDatabase) committedLogins).any (fun t =>
      t.ended.any fun e => decide (e.id = 0) && isExampleLogin e.operation) = true := by
    decide +kernel
  obtain ⟨t, ht, hended⟩ := Option.any_eq_true _ _ |>.mp hrun
  obtain ⟨e, he, hboth⟩ := List.any_eq_true.mp hended
  obtain ⟨hid, hoperation⟩ := Bool.and_eq_true_iff.mp hboth
  have hlogin : CorrectLogin upgradeConfig (str "pass") (str "a@b") e.operation :=
    ⟨str "a@b", of_isExampleLogin hoperation, by decide⟩
  obtain ⟨⟨user, huser, _, hvalid⟩, hsettled, _⟩ := concurrent_logins (upgradeHasher_correct (str "pass"))
    (by decide) outdatedUser rfl (by decide) committedLogins_undisturbed ht
  exact ⟨t, user, e, ht, he, of_decide_eq_true hid, huser, hvalid, hsettled e he hlogin⟩

/-- The second of two correct logins fails, as the first has rehashed the outdated hash. -/
theorem concurrent_login_fails : ∃ t e,
    upgradeHasher.Correct (str "pass") ∧ (∀ salt, upgradeHasher.hashPassword (str "pass") salt ≠ str "opass") ∧
    userOf outdatedDatabase (str "a@b") = some ⟨1, str "a@b", str "opass", true⟩ ∧
    upgradeHasher.verifyPassword (str "pass") (some (str "opass")) = true ∧
    (sessions upgradeConfig).Allowed (Undisturbed upgradeConfig (str "a@b")) (.init outdatedDatabase)
      committedLogins ∧
    (sessions upgradeConfig).run (.init outdatedDatabase) committedLogins = some t ∧ e ∈ t.ended ∧
    e.operation = .login (str "a@b") (str "pass") ∧ ∀ result, e.outcome ≠ .ok result := by
  have hrun : ((sessions upgradeConfig).run (.init outdatedDatabase) committedLogins).any (fun t =>
      t.ended.any fun e => isExampleLogin e.operation && e.outcome.toOption.isNone) = true := by
    decide +kernel
  obtain ⟨t, ht, hended⟩ := Option.any_eq_true _ _ |>.mp hrun
  obtain ⟨e, he, hboth⟩ := List.any_eq_true.mp hended
  obtain ⟨hoperation, hfailed⟩ := Bool.and_eq_true_iff.mp hboth
  refine ⟨t, e, upgradeHasher_correct _, fun salt heq => ?_, outdatedUser, by decide,
    committedLogins_undisturbed, ht, he, of_isExampleLogin hoperation, fun result hok => ?_⟩
  · have hhead := congrArg (fun hash => (hash.dropWhile (· == ord '$')).head?) heq
    simp only [upgradeHasher, dropWhile_salted] at hhead
    revert hhead
    decide
  · rw [hok] at hfailed
    cases hfailed

end Example
end AgenticRag.Security

import AgenticRag.Security.Revocation

/-! Logins beside password changes, rehashes and deactivations. A login verifies outside any
transaction; the transaction that inserts its session compares the hash again. -/
namespace AgenticRag.Security
open Lib Python Db Ingestion Retrieval

section Commit
variable {cfg : AuthenticationConfig} {db db' : Database} {now : Time}
  {observed : AuthenticationUserSnapshot} {replacementHash : Option Str} {sessionToken csrfToken : Str}
  {sessionId : UUID} {credentials : SessionCredentials}

/-- What the second transaction of a login found and wrote. -/
structure LoginCommitted (cfg : AuthenticationConfig) (db db' : Database) (now : Time)
    (observed : AuthenticationUserSnapshot) (replacementHash : Option Str)
    (sessionToken csrfToken : Str) (user : User) (row : UserSession) : Prop where
  found : db.users.find? observed.userId = some user
  active : user.isActive = true
  unchanged : user.passwordHash = observed.passwordHash
  users : db'.users = (updatePasswordHash db user replacementHash).users
  fresh : db.userSessions.find? row.id = none
  sessions : ∀ k, db'.userSessions.find? k = if k = row.id then some row else db.userSessions.find? k
  userId : row.userId = user.id
  token : hashToken cfg.sha256 sessionToken = .ok row.tokenSha256
  csrf : hashToken cfg.sha256 csrfToken = .ok row.csrfTokenSha256
  expires : row.expiresAt = now + cfg.sessionTtl

theorem find?_updatePasswordHash {user : User} (hfound : db.users.find? user.id = some user) (u : UUID) :
    (updatePasswordHash db user replacementHash).users.find? u =
      if u = user.id then some { user with passwordHash := replacementHash.getD user.passwordHash }
      else db.users.find? u := by
  cases replacementHash with
  | none =>
    by_cases hu : u = user.id
    · rw [if_pos hu, hu]
      exact hfound
    · rw [if_neg hu]
      rfl
  | some passwordHash =>
    show (db.users.replace { user with passwordHash }).find? u = _
    rw [Table.find?_replace]
    by_cases hu : u = user.id
    · rw [if_pos hu, if_pos hu, hu, hfound]
      rfl
    · rw [if_neg hu, if_neg hu]

theorem updatePasswordHash_userSessions (user : User) :
    (updatePasswordHash db user replacementHash).userSessions = db.userSessions := by
  cases replacementHash <;> rfl

theorem addForAuthentication_ok {session : UserSession} (h : addForAuthentication db session = .ok db') :
    db.userSessions.find? session.id = none ∧ db'.users = db.users ∧
      ∀ k, db'.userSessions.find? k = if k = session.id then some session else db.userSessions.find? k := by
  unfold addForAuthentication at h
  split at h
  · cases h
  split at h
  · cases h
  · rename_i userSessions hinsert
    obtain rfl := Except.ok.inj h
    exact ⟨(Table.insert?_eq_some hinsert).1, rfl, Table.find?_insert? hinsert⟩

theorem commitLogin_committed
    (h : commitLogin cfg db now observed replacementHash sessionToken csrfToken sessionId =
      .ok (db', credentials)) :
    ∃ user row, row.id = sessionId ∧
      LoginCommitted cfg db db' now observed replacementHash sessionToken csrfToken user row := by
  unfold commitLogin at h
  split at h
  · cases h
  rename_i user hfound
  split at h
  · cases h
  rename_i hguard
  simp only [Bool.or_eq_true, Bool.not_eq_true', bne_iff_ne, ne_eq, not_or, not_not,
    Bool.not_eq_false] at hguard
  obtain ⟨tokenSha256, htoken, h⟩ := bind_eq_ok.mp h
  obtain ⟨csrfTokenSha256, hcsrf, h⟩ := bind_eq_ok.mp h
  obtain ⟨added, hadd, h⟩ := bind_eq_ok.mp h
  obtain ⟨rfl, -⟩ := Prod.mk.inj (Except.ok.inj h)
  obtain ⟨hfresh, husers, hsessions⟩ := addForAuthentication_ok hadd
  rw [updatePasswordHash_userSessions] at hfresh hsessions
  exact ⟨user, _, rfl, hfound, hguard.1, hguard.2, husers, hfresh, hsessions, rfl, htoken, hcsrf, rfl⟩

theorem LoginCommitted.find?_users {user : User} {row : UserSession}
    (h : LoginCommitted cfg db db' now observed replacementHash sessionToken csrfToken user row) (u : UUID) :
    db'.users.find? u =
      if u = user.id then some { user with passwordHash := replacementHash.getD user.passwordHash }
      else db.users.find? u := by
  have hid : user.id = observed.userId := Table.find?_key h.found
  rw [h.users]
  exact find?_updatePasswordHash (hid ▸ h.found) u

theorem isTokenCharacter_le {c : CodePoint} (h : isTokenCharacter c = true) : c ≤ ord 'z' := by
  simp only [isTokenCharacter, Bool.or_eq_true, Bool.and_eq_true, decide_eq_true_eq, beq_iff_eq] at h
  rcases h with (((h | h) | h) | rfl) | rfl
  · exact h.2.trans (by decide)
  · exact h.2
  · exact h.2.trans (by decide)
  · decide
  · decide

/-- A token that `_new_token_pair` accepts has a digest. -/
theorem hashToken_of_matches (sha256 : Sha256) {token : Str} (h : matchesToken token = true) :
    ∃ digest, hashToken sha256 token = .ok digest := by
  have hchars : ∀ c ∈ token, isTokenCharacter c = true := by
    simp only [matchesToken, Bool.and_eq_true, List.all_eq_true] at h
    exact h.2
  have hascii : ∀ c ∈ token, isSurrogate c = false := by
    intro c hc
    have hle : c.val ≤ 122 := isTokenCharacter_le (hchars c hc)
    simp only [isSurrogate, Bool.and_eq_false_iff, decide_eq_false_iff_not]
    omega
  obtain ⟨encoded, hencoded⟩ := Option.isSome_iff_exists.mp (encodeUtf8_isSome.mpr hascii)
  exact ⟨hexdigest sha256 encoded, by simp only [hashToken, hencoded]⟩

end Commit

section Steps
variable {cfg : AuthenticationConfig} {db : Database} {call : SessionCall} {step : CallStep}
  {progress : Progress}

/-- What a login has verified before its second transaction. -/
structure Verified (cfg : AuthenticationConfig) (password : Str) (observed : AuthenticationUserSnapshot)
    (replacementHash : Option Str) (sessionToken csrfToken : Str) : Prop where
  active : observed.isActive = true
  valid : cfg.passwordHasher.verifyPassword password (some observed.passwordHash) = true
  rehash : replacementHash.isSome = cfg.passwordHasher.needsRehash observed.passwordHash
  replacement : ∀ hash, replacementHash = some hash →
    ∃ salt, hash = cfg.passwordHasher.hashPassword password salt
  tokens : checkTokenPair sessionToken csrfToken = .ok ()

/-- The stages of a login, and those of the other operations. -/
def LoginStage (cfg : AuthenticationConfig) (operation : SessionOperation) : SessionStage → Prop
  | .observe _ | .verify _ => operation.isLogin = true
  | .insert observed replacementHash sessionToken csrfToken => ∃ email password,
      operation = .login email password ∧
        Verified cfg password observed replacementHash sessionToken csrfToken
  | .select _ _ | .selectUser _ _ _ | .commit _ _ _ _ | .check _ => operation.isLogin = false

theorem verifyLogin_ok {password : Str} {salt : Nat} {snapshot : Option AuthenticationUserSnapshot}
    {observed : AuthenticationUserSnapshot} {replacementHash : Option Str} {sessionToken csrfToken : Str}
    (h : verifyLogin cfg password salt snapshot = .ok (observed, replacementHash))
    (htokens : checkTokenPair sessionToken csrfToken = .ok ()) :
    snapshot = some observed ∧ Verified cfg password observed replacementHash sessionToken csrfToken := by
  unfold verifyLogin at h
  cases snapshot with
  | none => cases h
  | some snapshot =>
    dsimp only at h
    split at h
    · cases h
    rename_i hguard
    simp only [Bool.or_eq_true, Bool.not_eq_true', not_or, Bool.not_eq_false, Option.map_some] at hguard
    split at h
    · rename_i hneeds
      obtain ⟨rfl, rfl⟩ := Prod.mk.inj (Except.ok.inj h)
      refine ⟨rfl, hguard.2, hguard.1, hneeds.symm, fun hash hhash => ⟨salt, ?_⟩, htokens⟩
      exact (Option.some.inj hhash).symm
    · rename_i hneeds
      rw [Bool.not_eq_true] at hneeds
      obtain ⟨rfl, rfl⟩ := Prod.mk.inj (Except.ok.inj h)
      exact ⟨rfl, hguard.2, hguard.1, hneeds.symm, fun hash hhash => (by cases hhash), htokens⟩

/-- The steps of a call by what they leave in the database. -/
inductive CallEffect (cfg : AuthenticationConfig) (db : Database) (call : SessionCall) :
    CallStep → Progress → Prop where
  | goOn {step stage} (hstage : LoginStage cfg call.operation stage) :
      CallEffect cfg db call step (.goOn db stage)
  | stop {step outcome} : CallEffect cfg db call step (.stop db outcome)
  | inserted {sessionId acknowledged observed replacementHash sessionToken csrfToken written credentials}
      (hstage : call.stage = .insert observed replacementHash sessionToken csrfToken)
      (hcommit : commitLogin cfg db call.clock.instant observed replacementHash sessionToken csrfToken
        sessionId = .ok (written, credentials)) :
      CallEffect cfg db call (.insert sessionId acknowledged)
        (committed written acknowledged (.credentials credentials))
  | worked {acknowledged work tokenDigest session user written result}
      (hstage : call.stage = .commit work tokenDigest session user)
      (hwrite : writeWork db call.clock.instant tokenDigest session user work = .ok (written, result)) :
      CallEffect cfg db call (.commit acknowledged) (committed written acknowledged result)

theorem callStep_call (hlogin : LoginStage cfg call.operation call.stage)
    (h : callStep cfg db call step = some progress) : CallEffect cfg db call step progress := by
  cases callStep_move h with
  | observe hstage =>
    rw [hstage] at hlogin
    exact .goOn hlogin
  | verify hoperation _ hverify htokens =>
    exact .goOn ⟨_, _, hoperation, (verifyLogin_ok hverify htokens).2⟩
  | insert hstage hcommit => exact .inserted hstage hcommit
  | select hstage =>
    rw [hstage] at hlogin
    exact .goOn hlogin
  | selectUser hstage =>
    rw [hstage] at hlogin
    exact .goOn hlogin
  | commit hstage hwrite => exact .worked hstage hwrite
  | read hstage =>
    rw [hstage] at hlogin
    exact .goOn hlogin
  | finish => exact .stop
  | refused => exact .stop
  | interrupt => exact .stop

/-- A transaction on an active session leaves the users alone and adds no session. -/
theorem writeWork_spares {written : Database} {now : Time} {work : SessionWork} {tokenDigest : Str}
    {session : UserSession} {user : User} {result : SessionReturn}
    (h : writeWork db now tokenDigest session user work = .ok (written, result)) :
    written.users = db.users ∧ ∀ k, db.userSessions.find? k = none → written.userSessions.find? k = none := by
  have hflush : ∀ {update userSessions}, flushSession db session.id update = .ok userSessions →
      ∀ k, db.userSessions.find? k = none → userSessions.find? k = none := by
    intro update userSessions hflush k hk
    unfold flushSession at hflush
    split at hflush
    · cases hflush
    · obtain rfl := Except.ok.inj hflush
      rw [Table.find?_replace, hk]
      split <;> rfl
  cases work with
  | touch =>
    obtain ⟨touched, htouch, h⟩ := bind_eq_ok.mp h
    obtain ⟨rfl, -⟩ := Prod.mk.inj (Except.ok.inj h)
    unfold touchForAuthentication at htouch
    split at htouch
    · obtain rfl := Except.ok.inj htouch
      exact ⟨rfl, fun _ hk => hk⟩
    · obtain ⟨userSessions, hwritten, htouch⟩ := bind_eq_ok.mp htouch
      obtain rfl := Except.ok.inj htouch
      exact ⟨rfl, hflush hwritten⟩
  | compareCsrf csrfDigest =>
    obtain ⟨rfl, -⟩ := Prod.mk.inj (Except.ok.inj h)
    exact ⟨rfl, fun _ hk => hk⟩
  | revoke =>
    obtain ⟨revoked, hrevoke, h⟩ := bind_eq_ok.mp h
    obtain ⟨rfl, -⟩ := Prod.mk.inj (Except.ok.inj h)
    obtain ⟨userSessions, hwritten, hrevoke⟩ := bind_eq_ok.mp hrevoke
    obtain rfl := Except.ok.inj hrevoke
    exact ⟨rfl, hflush hwritten⟩

end Steps

section Runs
variable {cfg : AuthenticationConfig} {s t : SessionState} {a : SessionAction}

/-- The invariant: the calls are numbered and end once, and each is at a stage of its operation. -/
structure LoginsValid (cfg : AuthenticationConfig) (s : SessionState) : Prop where
  calls : ∀ id call, s.calls id = some call → id < s.issued ∧ LoginStage cfg call.operation call.stage
  ended : ∀ e ∈ s.ended, e.id < s.issued ∧ s.calls e.id = none
  once : (s.ended.map EndedCall.id).Nodup

theorem LoginsValid.init (db : Database) : LoginsValid cfg (.init db) where
  calls := fun _ _ h => by cases h
  ended := fun _ h => by cases h
  once := List.nodup_nil

theorem beginCall_stage {clock : ClockReading} {operation : SessionOperation} {stage : SessionStage}
    (h : beginCall cfg clock operation = .ok stage) : LoginStage cfg operation stage := by
  cases operation with
  | login email password =>
    obtain ⟨_, _, h⟩ := bind_eq_ok.mp h
    obtain ⟨_, _, h⟩ := bind_eq_ok.mp h
    obtain rfl := Except.ok.inj h
    rfl
  | authenticateSession sessionToken =>
    obtain ⟨_, _, h⟩ := bind_eq_ok.mp h
    obtain ⟨_, _, h⟩ := bind_eq_ok.mp h
    obtain rfl := Except.ok.inj h
    rfl
  | validateCsrf sessionToken csrfToken =>
    obtain ⟨_, _, h⟩ := bind_eq_ok.mp h
    obtain ⟨_, _, h⟩ := bind_eq_ok.mp h
    obtain ⟨_, _, h⟩ := bind_eq_ok.mp h
    obtain rfl := Except.ok.inj h
    rfl
  | revokeSession sessionToken =>
    obtain ⟨_, _, h⟩ := bind_eq_ok.mp h
    obtain ⟨_, _, h⟩ := bind_eq_ok.mp h
    obtain rfl := Except.ok.inj h
    rfl
  | verifyInitialAccess proof knowledgeBaseId =>
    obtain rfl := Except.ok.inj h
    rfl
  | loadAuthoritativeRecords proof knowledgeBaseId candidateBatches =>
    obtain rfl := Except.ok.inj h
    rfl

@[simp] theorem committed_db (db : Database) (acknowledged : Bool) (result : SessionReturn) :
    (committed db acknowledged result).db = db := rfl

theorem LoginsValid.calls_issued (h : LoginsValid cfg s) : s.calls s.issued = none := by
  rw [Option.eq_none_iff_forall_ne_some]
  intro call hcall
  exact absurd (h.calls _ _ hcall).1 (lt_irrefl _)

/-- What a call's step keeps. -/
theorem LoginsValid.after (h : LoginsValid cfg s) {id : Nat} {call : SessionCall}
    (hcall : s.calls id = some call) {progress : Progress}
    (hstage : ∀ db stage, progress = .goOn db stage → LoginStage cfg call.operation stage) :
    LoginsValid cfg (s.after id call progress) := by
  have hid := (h.calls id call hcall).1
  cases progress with
  | goOn db stage =>
    refine ⟨fun id' call' hcall' => ?_, fun e he => ?_, h.once⟩
    · rcases of_update_eq_some hcall' with ⟨rfl, hslot⟩ | hold
      · obtain rfl := Option.some.inj hslot
        exact ⟨hid, hstage db stage rfl⟩
      · exact h.calls id' call' hold
    · obtain ⟨hlt, hnone⟩ := h.ended e he
      refine ⟨hlt, ?_⟩
      show Function.update s.calls id _ e.id = none
      rw [Function.update_of_ne, hnone]
      rintro rfl
      rw [hcall] at hnone
      cases hnone
  | stop db outcome =>
    refine ⟨fun id' call' hcall' => ?_, fun e he => ?_, ?_⟩
    · rcases of_update_eq_some hcall' with ⟨_, hslot⟩ | hold
      · cases hslot
      · exact h.calls id' call' hold
    · show e.id < s.issued ∧ Function.update s.calls id none e.id = none
      rcases List.mem_cons.mp he with rfl | hold
      · exact ⟨hid, Function.update_self _ _ _⟩
      · refine ⟨(h.ended e hold).1, ?_⟩
        by_cases heq : e.id = id
        · rw [heq, Function.update_self]
        · rw [Function.update_of_ne heq, (h.ended e hold).2]
    · show (id :: s.ended.map EndedCall.id).Nodup
      refine List.nodup_cons.mpr ⟨fun hmem => ?_, h.once⟩
      obtain ⟨e, he, rfl⟩ := List.mem_map.mp hmem
      rw [(h.ended e he).2] at hcall
      cases hcall

theorem LoginsValid.step (h : LoginsValid cfg s) (hstep : (sessions cfg).step s a = some t) :
    LoginsValid cfg t := by
  cases sessionStep_move hstep with
  | refused =>
    have hnone := h.calls_issued
    refine ⟨fun id call hcall => ?_, fun e he => ?_, ?_⟩
    · obtain ⟨hlt, hstage⟩ := h.calls id call hcall
      exact ⟨Nat.lt_succ_of_lt hlt, hstage⟩
    · rcases List.mem_cons.mp he with rfl | hold
      · exact ⟨Nat.lt_succ_self _, hnone⟩
      · exact ⟨Nat.lt_succ_of_lt (h.ended e hold).1, (h.ended e hold).2⟩
    · show (s.issued :: s.ended.map EndedCall.id).Nodup
      refine List.nodup_cons.mpr ⟨fun hmem => ?_, h.once⟩
      obtain ⟨e, he, heq⟩ := List.mem_map.mp hmem
      exact absurd (h.ended e he).1 (by rw [heq]; exact lt_irrefl _)
  | started hbegin =>
    refine ⟨fun id call hcall => ?_, fun e he => ?_, h.once⟩
    · rcases of_update_eq_some hcall with ⟨rfl, hslot⟩ | hold
      · obtain rfl := Option.some.inj hslot
        exact ⟨Nat.lt_succ_self _, beginCall_stage hbegin⟩
      · exact ⟨Nat.lt_succ_of_lt (h.calls id call hold).1, (h.calls id call hold).2⟩
    · obtain ⟨hlt, hcall⟩ := h.ended e he
      refine ⟨Nat.lt_succ_of_lt hlt, ?_⟩
      show Function.update s.calls s.issued _ e.id = none
      rw [Function.update_of_ne (Nat.ne_of_lt hlt), hcall]
  | @step id _ call progress hcall hcallStep =>
    refine h.after hcall fun db stage heq => ?_
    have heffect := callStep_call (h.calls id call hcall).2 hcallStep
    rw [heq] at heffect
    cases heffect with
    | goOn hstage => exact hstage
  | elsewhere => exact ⟨h.calls, h.ended, h.once⟩

theorem LoginsValid.reached {db : Database} (h : (sessions cfg).Reaches (.init db) s) :
    LoginsValid cfg s :=
  Machine.reaches_invariant (fun _ _ _ hv hstep => LoginsValid.step hv hstep) (.init db) h

/-- The calls that have ended stay in the log. -/
theorem step_ended (hstep : (sessions cfg).step s a = some t) : ∀ e ∈ s.ended, e ∈ t.ended := by
  intro e he
  cases sessionStep_move hstep with
  | refused => exact List.mem_cons_of_mem _ he
  | started => exact he
  | @step _ _ _ progress =>
    cases progress with
    | goOn db stage => exact he
    | stop db outcome => exact List.mem_cons_of_mem _ he
  | elsewhere => exact he

/-- What the transaction that inserts a session finds: the user is active, and the stored hash is
the one against which the login's password was verified. The row holds digests only. -/
def InsertedByLogin (cfg : AuthenticationConfig) (s : SessionState) (id : Nat) (row : UserSession) : Prop :=
  ∃ call email password observed replacementHash sessionToken csrfToken user,
    s.calls id = some call ∧ call.operation = .login email password ∧
    call.stage = .insert observed replacementHash sessionToken csrfToken ∧
    s.db.users.find? row.userId = some user ∧ user.isActive = true ∧
    user.passwordHash = observed.passwordHash ∧
    cfg.passwordHasher.verifyPassword password (some user.passwordHash) = true ∧
    hashToken cfg.sha256 sessionToken = .ok row.tokenSha256 ∧
    hashToken cfg.sha256 csrfToken = .ok row.csrfTokenSha256 ∧ call.clock.instant < row.expiresAt

/-- A login replaces the hash that its password was verified against. -/
def RehashedBy (cfg : AuthenticationConfig) (call : SessionCall) (user user' : User) : Prop :=
  ∃ email password observed replacementHash sessionToken csrfToken salt,
    call.operation = .login email password ∧
    call.stage = .insert observed replacementHash sessionToken csrfToken ∧
    user.passwordHash = observed.passwordHash ∧
    cfg.passwordHasher.verifyPassword password (some user.passwordHash) = true ∧
    user' = { user with passwordHash := cfg.passwordHasher.hashPassword password salt }

theorem inserted_by_login (h : LoginsValid cfg s) (hstep : (sessions cfg).step s a = some t)
    {k : UUID} {row : UserSession} (hnew : t.db.userSessions.find? k = some row)
    (hold : s.db.userSessions.find? k = none) :
    ∃ id acknowledged, a = .step id (.insert k acknowledged) ∧ InsertedByLogin cfg s id row := by
  cases sessionStep_move hstep with
  | refused => cases hold.symm.trans hnew
  | started => cases hold.symm.trans hnew
  | @step id _ call _ hcall hcallStep =>
    rw [after_db] at hnew
    have hvalid := (h.calls id call hcall).2
    cases callStep_call hvalid hcallStep with
    | goOn _ => cases hold.symm.trans hnew
    | stop => cases hold.symm.trans hnew
    | inserted hstage hcommit =>
      obtain ⟨user, inserted, rfl, hc⟩ := commitLogin_committed hcommit
      rw [hstage] at hvalid
      obtain ⟨email, password, hlogin, hverified⟩ := hvalid
      have hrow : k = inserted.id ∧ row = inserted := by
        rw [committed_db, hc.sessions] at hnew
        split at hnew
        · exact ⟨‹_›, (Option.some.inj hnew).symm⟩
        · cases hold.symm.trans hnew
      obtain ⟨rfl, rfl⟩ := hrow
      have hid : user.id = _ := Table.find?_key hc.found
      refine ⟨id, _, rfl, call, email, password, _, _, _, _, user, hcall, hlogin, hstage, ?_, hc.active,
        hc.unchanged, hc.unchanged ▸ hverified.valid, hc.token, hc.csrf, ?_⟩
      · rw [hc.userId, hid]
        exact hc.found
      · rw [hc.expires]
        exact lt_add_of_pos_right _ cfg.sessionTtl_pos
    | worked _ hwrite => cases ((writeWork_spares hwrite).2 k hold).symm.trans hnew
  | elsewhere hrows =>
    rw [Table.find?, hrows] at hnew
    cases hold.symm.trans hnew

/-- A step of a call leaves every user as it is, or rehashes the one that it logs in. -/
theorem rehashed_by_login (h : LoginsValid cfg s) {id : Nat} {step : CallStep}
    (hstep : (sessions cfg).step s (.step id step) = some t) (u : UUID) :
    t.db.users.find? u = s.db.users.find? u ∨ ∃ call user user', s.calls id = some call ∧
      s.db.users.find? u = some user ∧ t.db.users.find? u = some user' ∧ RehashedBy cfg call user user' := by
  obtain ⟨call, progress, hcall, hcallStep, rfl⟩ := sessionStep_step hstep
  rw [after_db]
  have hvalid := (h.calls id call hcall).2
  cases callStep_call hvalid hcallStep with
  | goOn _ => exact .inl rfl
  | stop => exact .inl rfl
  | @inserted _ _ observed replacementHash _ _ written _ hstage hcommit =>
    obtain ⟨user, row, _, hc⟩ := commitLogin_committed hcommit
    rw [hstage] at hvalid
    obtain ⟨email, password, hlogin, hverified⟩ := hvalid
    rw [committed_db]
    have hid : user.id = observed.userId := Table.find?_key hc.found
    have hfound := hc.found
    rw [← hid] at hfound
    by_cases hu : u = user.id
    · subst hu
      cases hreplacement : replacementHash with
      | none =>
        left
        rw [hc.find?_users, if_pos rfl, hreplacement, hfound]
        rfl
      | some hash =>
        obtain ⟨salt, rfl⟩ := hverified.replacement hash hreplacement
        refine .inr ⟨call, user, _, hcall, hfound, (hc.find?_users _).trans (if_pos rfl), email, password, _, _,
          _, _, salt, hlogin, hstage, hc.unchanged, hc.unchanged ▸ hverified.valid, ?_⟩
        rw [hreplacement]
        rfl
    · exact .inl ((hc.find?_users u).trans (if_neg hu))
  | worked _ hwrite =>
    left
    rw [committed_db, (writeWork_spares hwrite).1]

/-- A commit that raises has not committed. -/
def SessionAction.Atomic : SessionAction → Prop
  | .step _ (.insert _ acknowledged) => acknowledged = true
  | _ => True

/-- A login that writes is about to succeed. -/
theorem login_succeeds_of_write (h : LoginsValid cfg s) {id : Nat} {step : CallStep} {call : SessionCall}
    (hstep : (sessions cfg).step s (.step id step) = some t)
    (hatomic : (SessionAction.step id step).Atomic) (hcall : s.calls id = some call)
    (hlogin : call.operation.isLogin = true) :
    t.db = s.db ∨ ∃ credentials, ⟨id, call.operation, call.clock, .ok (.credentials credentials)⟩ ∈ t.ended := by
  obtain ⟨call', progress, hcall', hcallStep, rfl⟩ := sessionStep_step hstep
  obtain rfl := Option.some.inj (hcall.symm.trans hcall')
  have hvalid := (h.calls id call hcall).2
  rw [after_db]
  cases callStep_call hvalid hcallStep with
  | goOn _ => exact .inl rfl
  | stop => exact .inl rfl
  | @inserted _ acknowledged _ _ _ _ _ credentials _ _ =>
    obtain rfl : acknowledged = true := hatomic
    exact .inr ⟨credentials, List.mem_cons_self⟩
  | worked hstage _ =>
    rw [hstage] at hvalid
    cases hvalid.symm.trans hlogin

/-- The steps of a login that fails in the end leave the database as it is. -/
theorem failed_login_writes_nothing {db : Database} {before after : List SessionAction} {id : Nat}
    {step : CallStep} {r r' : SessionState} {call : SessionCall}
    (hatomic : ∀ a ∈ before ++ .step id step :: after, a.Atomic)
    (hrun : (sessions cfg).run (.init db) (before ++ .step id step :: after) = some t)
    (hbefore : (sessions cfg).run (.init db) before = some r)
    (hstep : (sessions cfg).step r (.step id step) = some r') (hcall : r.calls id = some call)
    (hlogin : call.operation.isLogin = true)
    (hfails : ∃ e ∈ t.ended, e.id = id ∧ ∃ raised, e.outcome = .error raised) : r'.db = r.db := by
  have hreach : (sessions cfg).Reaches (.init db) r := ⟨before, hbefore⟩
  have hlast : (sessions cfg).Reaches (.init db) t := ⟨_, hrun⟩
  rw [Machine.run_append, hbefore] at hrun
  obtain ⟨q, hq, hrest⟩ := Machine.run_cons_eq_some.mp hrun
  obtain rfl := Option.some.inj (hstep.symm.trans hq)
  have hown : (SessionAction.step id step).Atomic :=
    hatomic _ (List.mem_append_right _ List.mem_cons_self)
  refine (login_succeeds_of_write (.reached hreach) hstep hown hcall hlogin).resolve_right ?_
  rintro ⟨credentials, hended⟩
  have hkept : ∀ e ∈ r'.ended, e ∈ t.ended := fun e he =>
    Machine.run_invariant (I := fun q => e ∈ q.ended) (fun _ _ _ hmem hs => step_ended hs e hmem) he hrest
  obtain ⟨e, he, heid, raised, hraised⟩ := hfails
  have hsame := List.inj_on_of_nodup_map (LoginsValid.reached hlast).once he (hkept _ hended) heid
  rw [hsame] at hraised
  cases hraised

/-- A hash replaced by one of a password that it verifies. -/
def Rehash (cfg : AuthenticationConfig) (old new : Str) : Prop :=
  ∃ password salt, cfg.passwordHasher.verifyPassword password (some old) = true ∧
    new = cfg.passwordHasher.hashPassword password salt

/-- Until users are changed elsewhere, a stored hash only gives way to rehashes of itself. -/
theorem passwordHash_rehashed (h : LoginsValid cfg s) {as : List SessionAction}
    (hlogins : ∀ db, .elsewhere db ∉ as) (hrun : (sessions cfg).run s as = some t) {u : UUID} {user : User}
    (huser : s.db.users.find? u = some user) : ∃ user', t.db.users.find? u = some user' ∧
      Relation.ReflTransGen (Rehash cfg) user.passwordHash user'.passwordHash := by
  induction as generalizing s user with
  | nil =>
    obtain rfl := Option.some.inj hrun
    exact ⟨user, huser, .refl⟩
  | cons a as ih =>
    obtain ⟨r, hstep, hrest⟩ := Machine.run_cons_eq_some.mp hrun
    have hnext : ∃ user', r.db.users.find? u = some user' ∧
        Relation.ReflTransGen (Rehash cfg) user.passwordHash user'.passwordHash := by
      cases a with
      | start operation clock =>
        cases sessionStep_move hstep with
        | refused => exact ⟨user, huser, .refl⟩
        | started => exact ⟨user, huser, .refl⟩
      | step id step =>
        rcases rehashed_by_login h hstep u with hsame | ⟨call, user₀, user', _, hold, hnew, hrehashed⟩
        · exact ⟨user, hsame.trans huser, .refl⟩
        · obtain rfl := Option.some.inj (huser.symm.trans hold)
          obtain ⟨_, password, _, _, _, _, salt, _, _, _, hvalid, rfl⟩ := hrehashed
          exact ⟨_, hnew, .single ⟨password, salt, hvalid, rfl⟩⟩
      | elsewhere db => exact absurd List.mem_cons_self (hlogins db)
    obtain ⟨middle, hmiddle, hchain⟩ := hnext
    obtain ⟨user', huser', hchain'⟩ :=
      ih (h.step hstep) (fun db hmem => hlogins db (List.mem_cons_of_mem _ hmem)) hrest hmiddle
    exact ⟨user', huser', hchain.trans hchain'⟩

/-- A login takes effect in the transaction that inserts its session, or, where no commit raises
after it took effect, not at all. -/
theorem login_linearized {cfg : AuthenticationConfig} {db : Database} {as : List SessionAction}
    {t : SessionState} (hrun : (sessions cfg).run (.init db) as = some t) :
    ∀ before a after r r', as = before ++ a :: after → (sessions cfg).run (.init db) before = some r →
      (sessions cfg).step r a = some r' →
      (∀ k row, r'.db.userSessions.find? k = some row → r.db.userSessions.find? k = none →
        ∃ id acknowledged, a = .step id (.insert k acknowledged) ∧ InsertedByLogin cfg r id row) ∧
      (∀ id step u, a = .step id step → r'.db.users.find? u = r.db.users.find? u ∨
        ∃ call user user', r.calls id = some call ∧ r.db.users.find? u = some user ∧
          r'.db.users.find? u = some user' ∧ RehashedBy cfg call user user') ∧
      (∀ id step call, a = .step id step → r.calls id = some call → call.operation.isLogin = true →
        (∀ b ∈ as, b.Atomic) → (∃ e ∈ t.ended, e.id = id ∧ ∃ raised, e.outcome = .error raised) → r'.db = r.db) ∧
      (∀ u user, r'.db.users.find? u = some user → (∀ db, .elsewhere db ∉ after) →
        ∃ user', t.db.users.find? u = some user' ∧
          Relation.ReflTransGen (Rehash cfg) user.passwordHash user'.passwordHash) := by
  rintro before a after r r' rfl hbefore hstep
  have hvalid : LoginsValid cfg r := .reached ⟨before, hbefore⟩
  refine ⟨fun k row => inserted_by_login hvalid hstep, ?_, ?_, ?_⟩
  · rintro id step u rfl
    exact rehashed_by_login hvalid hstep u
  · rintro id step call rfl hcall hlogin hatomic hfails
    exact failed_login_writes_nothing hatomic hrun hbefore hstep hcall hlogin hfails
  · intro u user huser hlogins
    rw [Machine.run_append, hbefore] at hrun
    obtain ⟨q, hq, hrest⟩ := Machine.run_cons_eq_some.mp hrun
    obtain rfl := Option.some.inj (hstep.symm.trans hq)
    exact passwordHash_rehashed (hvalid.step hstep) hlogins hrest huser

end Runs

section Example

/-- A hash of an earlier profile begins with `o`, a new one has its salt in front. -/
def upgradeHasher : PasswordHasher where
  hashPassword password salt := List.replicate salt (ord '$') ++ ord 'n' :: password
  verifyPassword password passwordHash :=
    passwordHash.any fun hash => (hash.dropWhile (· == ord '$')).tail == password
  needsRehash hash := hash.head? == some (ord 'o')

def upgradeConfig : AuthenticationConfig where
  sha256 := fun content => List.Vector.replicate 32 (content.headD 0)
  lower := id
  passwordHasher := upgradeHasher
  sessionTtl := 90
  sessionTtl_pos := by decide

def outdatedDatabase : Database :=
  { readerDatabase with
    users := ⟨[⟨1, str "a@b", str "opass", true⟩], List.nodup_singleton _⟩
    userSessions := .empty }

/-- Two logins read the user and verify the password before either of them commits. -/
def overlappingLogins : List SessionAction :=
  [.start (.login (str "a@b") (str "pass")) ⟨10, some 0⟩, .start (.login (str "a@b") (str "pass")) ⟨11, some 0⟩,
    .step 0 .observe, .step 1 .observe,
    .step 0 (.verify 1 (List.replicate 32 (ord 'a')) (List.replicate 32 (ord 'b'))),
    .step 1 (.verify 2 (List.replicate 32 (ord 'c')) (List.replicate 32 (ord 'd')))]

theorem login_linearized_example : ∃ q r t row,
    (sessions upgradeConfig).run (.init outdatedDatabase) overlappingLogins = some q ∧
    (sessions upgradeConfig).step q (.step 0 (.insert 7 true)) = some r ∧
    (sessions upgradeConfig).step r (.step 1 (.insert 8 true)) = some t ∧
    r.db.userSessions.find? 7 = some row ∧ InsertedByLogin upgradeConfig q 0 row ∧ t.db = r.db := by
  have hany : ((sessions upgradeConfig).run (.init outdatedDatabase) overlappingLogins).any (fun q =>
      (q.db.userSessions.find? 7).isNone &&
        ((sessions upgradeConfig).step q (.step 0 (.insert 7 true))).any fun r =>
          (r.db.userSessions.find? 7).isSome && (r.calls 1).any (fun call => call.operation.isLogin) &&
            ((sessions upgradeConfig).step r (.step 1 (.insert 8 true))).any fun t =>
              t.ended.any fun e => decide (e.id = 1) && e.outcome.toOption.isNone) = true := by
    decide +kernel
  obtain ⟨q, hq, hany⟩ := Option.any_eq_true _ _ |>.mp hany
  obtain ⟨hfree, hany⟩ := Bool.and_eq_true_iff.mp hany
  obtain ⟨r, hr, hany⟩ := Option.any_eq_true _ _ |>.mp hany
  obtain ⟨hboth, hany⟩ := Bool.and_eq_true_iff.mp hany
  obtain ⟨hrow, hcall⟩ := Bool.and_eq_true_iff.mp hboth
  obtain ⟨t, ht, hany⟩ := Option.any_eq_true _ _ |>.mp hany
  obtain ⟨row, hrow⟩ := Option.isSome_iff_exists.mp hrow
  obtain ⟨call, hcall, hlogin⟩ := Option.any_eq_true _ _ |>.mp hcall
  obtain ⟨e, he, hended⟩ := List.any_eq_true.mp hany
  obtain ⟨hid, hfailed⟩ := Bool.and_eq_true_iff.mp hended
  have herror : ∃ raised, e.outcome = .error raised := by
    cases ho : e.outcome with
    | error raised => exact ⟨raised, rfl⟩
    | ok result =>
      rw [ho] at hfailed
      cases hfailed
  have hatomic : ∀ a ∈ overlappingLogins ++ [.step 0 (.insert 7 true), .step 1 (.insert 8 true)],
      a.Atomic := by
    simp [overlappingLogins, SessionAction.Atomic]
  have hrun : (sessions upgradeConfig).run (.init outdatedDatabase)
      (overlappingLogins ++ [.step 0 (.insert 7 true), .step 1 (.insert 8 true)]) = some t := by
    rw [Machine.run_append, hq, Option.bind_some, Machine.run_cons, hr, Option.bind_some, Machine.run_cons, ht]
    rfl
  have hfirst : (sessions upgradeConfig).run (.init outdatedDatabase)
      (overlappingLogins ++ [.step 0 (.insert 7 true)]) = some r := by
    rw [Machine.run_append, hq, Option.bind_some, Machine.run_cons, hr]
    rfl
  obtain ⟨id, acknowledged, haction, hinserted⟩ :=
    (login_linearized hrun overlappingLogins _ [.step 1 (.insert 8 true)] q r rfl hq hr).1 7 row hrow
      (Option.isNone_iff_eq_none.mp hfree)
  obtain ⟨rfl, -⟩ := SessionAction.step.inj haction
  refine ⟨q, r, t, row, hq, hr, ht, hrow, hinserted, ?_⟩
  exact (login_linearized hrun (overlappingLogins ++ [.step 0 (.insert 7 true)]) _ [] r t
    (by rw [List.append_assoc]; rfl) hfirst ht).2.2.1 1 _ call rfl hcall hlogin
      hatomic ⟨e, he, of_decide_eq_true hid, herror⟩

end Example

end AgenticRag.Security

import AgenticRag.Retrieval.FinalSnapshot
import AgenticRag.Security.SessionMachine

/-! A revoked or expired session stays so, and no call that starts after the revocation
or reads the clock after the expiry succeeds with it. -/
namespace AgenticRag.Security
open Lib Python Db Retrieval

section Rows

/-- What a session row can become: its identity and expiry stay, and so does a revocation. -/
structure Evolves (row row' : UserSession) : Prop where
  id : row'.id = row.id
  userId : row'.userId = row.userId
  tokenSha256 : row'.tokenSha256 = row.tokenSha256
  csrfTokenSha256 : row'.csrfTokenSha256 = row.csrfTokenSha256
  expiresAt : row'.expiresAt = row.expiresAt
  revoked : row.revokedAt ≠ none → row'.revokedAt ≠ none

theorem Evolves.refl (row : UserSession) : Evolves row row := ⟨rfl, rfl, rfl, rfl, rfl, fun h => h⟩

theorem Evolves.trans {a b c : UserSession} (h : Evolves a b) (h' : Evolves b c) : Evolves a c where
  id := h'.id.trans h.id
  userId := h'.userId.trans h.userId
  tokenSha256 := h'.tokenSha256.trans h.tokenSha256
  csrfTokenSha256 := h'.csrfTokenSha256.trans h.csrfTokenSha256
  expiresAt := h'.expiresAt.trans h.expiresAt
  revoked hr := h'.revoked (h.revoked hr)

/-- Every session row is still there, as one it can become. -/
def Grows (db db' : Database) : Prop := ∀ k row, db.userSessions.find? k = some row →
  ∃ row', db'.userSessions.find? k = some row' ∧ Evolves row row'

theorem Grows.refl (db : Database) : Grows db db := fun _ row h => ⟨row, h, .refl row⟩

theorem Grows.trans {db db' db'' : Database} (h : Grows db db') (h' : Grows db' db'') :
    Grows db db'' := by
  intro k row hk
  obtain ⟨row', hk', he⟩ := h k row hk
  obtain ⟨row'', hk'', he'⟩ := h' k row' hk'
  exact ⟨row'', hk'', he.trans he'⟩

theorem Grows.of_eq {db db' : Database} (h : db'.userSessions.rows = db.userSessions.rows) :
    Grows db db' := by
  intro k row hk
  exact ⟨row, by rwa [Table.find?, h], .refl row⟩

/-- Distinct sessions have distinct token digests. -/
def DistinctDigests (db : Database) : Prop := ∀ k k' row row', db.userSessions.find? k = some row →
  db.userSessions.find? k' = some row' → row.tokenSha256 = row'.tokenSha256 → k = k'

/-- A transaction on the row `k`. -/
structure RowWrite (k : UUID) (db db' : Database) : Prop where
  grows : Grows db db'
  others : ∀ k', k' ≠ k → db'.userSessions.find? k' = db.userSessions.find? k'
  distinct : DistinctDigests db → DistinctDigests db'

/-- A transaction that adds rows only. -/
structure RowsAdded (db db' : Database) : Prop where
  kept : ∀ k row, db.userSessions.find? k = some row → db'.userSessions.find? k = some row
  distinct : DistinctDigests db → DistinctDigests db'

theorem RowsAdded.refl (db : Database) : RowsAdded db db := ⟨fun _ _ h => h, fun h => h⟩

theorem RowsAdded.grows {db db' : Database} (h : RowsAdded db db') : Grows db db' :=
  fun k row hk => ⟨row, h.kept k row hk, .refl row⟩

variable {db db' : Database}

private theorem flushSession_ok {k : UUID} {update : UserSession → UserSession}
    {userSessions : Table UserSession UserSession.id}
    (hupdate : ∀ row, Evolves row (update row)) (h : flushSession db k update = .ok userSessions) :
    RowWrite k db { db with userSessions } := by
  unfold flushSession at h
  split at h
  · cases h
  rename_i row hrow
  obtain rfl := Except.ok.inj h
  have hid : (update row).id = k := (hupdate row).id.trans (Table.find?_key hrow)
  have hself : (db.userSessions.replace (update row)).find? k = some (update row) := by
    rw [Table.find?_replace, if_pos hid.symm, hrow]
    rfl
  have hother (k' : UUID) (hne : k' ≠ k) :
      (db.userSessions.replace (update row)).find? k' = db.userSessions.find? k' :=
    Table.find?_replace_ne _ (hid ▸ hne)
  have hback (k' : UUID) (row' : UserSession)
      (h : (db.userSessions.replace (update row)).find? k' = some row') :
      ∃ row₀, db.userSessions.find? k' = some row₀ ∧ row'.tokenSha256 = row₀.tokenSha256 := by
    by_cases hk : k' = k
    · subst hk
      obtain rfl := Option.some.inj (hself.symm.trans h)
      exact ⟨row, hrow, (hupdate row).tokenSha256⟩
    · rw [hother k' hk] at h
      exact ⟨row', h, rfl⟩
  refine ⟨?_, hother, ?_⟩
  · intro k' row' hk'
    by_cases hk : k' = k
    · subst hk
      obtain rfl := Option.some.inj (hrow.symm.trans hk')
      exact ⟨update row, hself, hupdate row⟩
    · exact ⟨row', (hother k' hk).trans hk', .refl row'⟩
  · intro hd k₁ k₂ row₁ row₂ h₁ h₂ ht
    obtain ⟨r₁, hr₁, ht₁⟩ := hback k₁ row₁ h₁
    obtain ⟨r₂, hr₂, ht₂⟩ := hback k₂ row₂ h₂
    exact hd k₁ k₂ r₁ r₂ hr₁ hr₂ (ht₁.symm.trans (ht.trans ht₂))

private theorem touch_ok {session : UserSession} {now : Time}
    (h : touchForAuthentication db session now = .ok db') :
    RowWrite session.id db db' := by
  unfold touchForAuthentication at h
  split at h
  · obtain rfl := Except.ok.inj h
    exact ⟨.refl db, fun _ _ => rfl, fun h => h⟩
  · obtain ⟨userSessions, hflush, h⟩ := bind_eq_ok.mp h
    obtain rfl := Except.ok.inj h
    refine flushSession_ok ?_ hflush
    exact fun row => ⟨rfl, rfl, rfl, rfl, rfl, fun h => h⟩

private theorem revoke_ok {session : UserSession} {now : Time}
    (h : revokeForAuthentication db session now = .ok db') :
    RowWrite session.id db db' := by
  obtain ⟨userSessions, hflush, h⟩ := bind_eq_ok.mp h
  obtain rfl := Except.ok.inj h
  refine flushSession_ok ?_ hflush
  exact fun row => ⟨rfl, rfl, rfl, rfl, rfl, fun _ => Option.some_ne_none now⟩

private theorem add_ok {session : UserSession} (h : addForAuthentication db session = .ok db') :
    RowsAdded db db' := by
  unfold addForAuthentication at h
  split at h
  · cases h
  rename_i hfree
  split at h
  · cases h
  rename_i userSessions hinsert
  obtain rfl := Except.ok.inj h
  have hfind := Table.find?_insert? hinsert
  have hnew := (Table.insert?_eq_some hinsert).1
  have hkept (k : UUID) (row : UserSession) (hk : db.userSessions.find? k = some row) :
      userSessions.find? k = some row := by
    rw [hfind, if_neg, hk]
    rintro rfl
    rw [hnew] at hk
    cases hk
  have htoken (k : UUID) (row : UserSession) (hk : db.userSessions.find? k = some row) :
      row.tokenSha256 ≠ session.tokenSha256 := by
    intro he
    refine hfree (List.any_eq_true.mpr ⟨row, Table.mem_of_find? hk, ?_⟩)
    simpa using he
  refine ⟨hkept, ?_⟩
  intro hd k₁ k₂ row₁ row₂ h₁ h₂ ht
  rw [hfind] at h₁ h₂
  split_ifs at h₁ h₂ with hk₁ hk₂ hk₂
  · exact hk₁.trans hk₂.symm
  · obtain rfl := Option.some.inj h₁
    exact absurd ht.symm (htoken k₂ row₂ h₂)
  · obtain rfl := Option.some.inj h₂
    exact absurd ht (htoken k₁ row₁ h₁)
  · exact hd k₁ k₂ row₁ row₂ h₁ h₂ ht

theorem commitLogin_ok {cfg : AuthenticationConfig} {now : Time}
    {observed : AuthenticationUserSnapshot} {replacementHash : Option Str} {sessionToken csrfToken : Str}
    {sessionId : UUID} {r : Database × SessionCredentials}
    (h : commitLogin cfg db now observed replacementHash sessionToken csrfToken sessionId = .ok r) :
    RowsAdded db r.1 := by
  unfold commitLogin at h
  split at h
  · cases h
  split at h
  · cases h
  obtain ⟨_, _, h⟩ := bind_eq_ok.mp h
  obtain ⟨_, _, h⟩ := bind_eq_ok.mp h
  obtain ⟨db', hadd, h⟩ := bind_eq_ok.mp h
  obtain rfl := Except.ok.inj h
  have hsessions : ∀ user, (updatePasswordHash db user replacementHash).userSessions =
      db.userSessions := by
    intro user
    cases replacementHash <;> rfl
  obtain ⟨hkept, hdistinct⟩ := add_ok hadd
  unfold DistinctDigests at hdistinct
  rw [hsessions] at hkept hdistinct
  exact ⟨hkept, hdistinct⟩

end Rows

section Operations
variable (cfg : AuthenticationConfig)

/-- The digest of the session token that an operation is called with. -/
def SessionOperation.digest? : SessionOperation → Option Str
  | .authenticateSession sessionToken => (sessionDigestOrError cfg.sha256 sessionToken).toOption
  | .validateCsrf sessionToken _ => (sessionDigestOrError cfg.sha256 sessionToken).toOption
  | .revokeSession sessionToken => (sessionDigestOrError cfg.sha256 sessionToken).toOption
  | _ => none

def SessionOperation.proof? : SessionOperation → Option SessionAuthenticationProof
  | .verifyInitialAccess proof _ => some proof
  | .loadAuthoritativeRecords proof _ _ => some proof
  | _ => none

def SessionOperation.isLogin : SessionOperation → Bool
  | .login _ _ => true
  | _ => false

/-- The operation is called with the session's token or with a proof of the session. -/
def SessionOperation.Targets (operation : SessionOperation) (session : UserSession) : Prop :=
  operation.digest? cfg = some session.tokenSha256 ∨ ∃ proof, operation.proof? = some proof ∧
    (proof.principal.sessionId = session.id ∨ proof.sessionTokenSha256 = session.tokenSha256)

/-- The session that a successful operation found. -/
def SessionOperation.Finds (operation : SessionOperation) (session : UserSession) : Prop :=
  operation.digest? cfg = some session.tokenSha256 ∨ ∃ proof, operation.proof? = some proof ∧
    proof.principal.sessionId = session.id ∧ proof.sessionTokenSha256 = session.tokenSha256

end Operations

section Soundness

/-- The session is live at `now`. -/
def Live (now : Time) (row : UserSession) : Prop := row.revokedAt = none ∧ now < row.expiresAt

/-- A row as it was once read is still in the table, as one it can become. -/
def Held (db : Database) (row : UserSession) : Prop :=
  ∃ row', db.userSessions.find? row.id = some row' ∧ Evolves row row'

theorem Held.grows {db db' : Database} {row : UserSession} (h : Held db row) (hg : Grows db db') :
    Held db' row := by
  obtain ⟨row', hk, he⟩ := h
  obtain ⟨row'', hk', he'⟩ := hg _ row' hk
  exact ⟨row'', hk', he.trans he'⟩

theorem held_of_find {db : Database} {k : UUID} {row : UserSession}
    (h : db.userSessions.find? k = some row) : Held db row := by
  rw [← Table.find?_key h] at h
  exact ⟨row, h, .refl row⟩

variable (cfg : AuthenticationConfig) (gate : UserSession → Prop)

/-- Each live row of what was seen passes the gate. -/
def SoundlySeen (db : Database) (now : Time) (seen : Database) : Prop :=
  ∀ k row, seen.userSessions.find? k = some row → Live now row → gate row ∧ Held db row

/-- What a stage says about the session it works on: it passed the gate when it was read. -/
def SoundStage (db : Database) (operation : SessionOperation) (now : Time) : SessionStage → Prop
  | .observe _ => operation.isLogin = true
  | .verify _ => operation.isLogin = true
  | .insert _ _ _ _ => operation.isLogin = true
  | .select _ tokenDigest => operation.digest? cfg = some tokenDigest
  | .selectUser _ tokenDigest session => operation.digest? cfg = some tokenDigest ∧
    session.tokenSha256 = tokenDigest ∧ gate session ∧ Held db session
  | .commit _ tokenDigest session _ => operation.digest? cfg = some tokenDigest ∧
    session.tokenSha256 = tokenDigest ∧ gate session ∧ Held db session
  | .check seen => operation.proof?.isSome ∧ ∀ d ∈ seen, SoundlySeen gate db now d

/-- A success that is not a login found a session that passed the gate. -/
def SoundOutcome (db : Database) (operation : SessionOperation) (outcome : SessionOutcome) : Prop :=
  ∀ result, outcome = .ok result → operation.isLogin = true ∨
    ∃ session, operation.Finds cfg session ∧ gate session ∧ Held db session

variable {cfg gate} {db db' : Database} {operation : SessionOperation} {now : Time}

theorem SoundlySeen.grows {seen : Database} (h : SoundlySeen gate db now seen) (hg : Grows db db') :
    SoundlySeen gate db' now seen := by
  intro k row hk hlive
  obtain ⟨hgate, hheld⟩ := h k row hk hlive
  exact ⟨hgate, hheld.grows hg⟩

theorem SoundStage.grows {stage : SessionStage} (h : SoundStage cfg gate db operation now stage)
    (hg : Grows db db') : SoundStage cfg gate db' operation now stage := by
  cases stage with
  | observe => exact h
  | verify => exact h
  | insert => exact h
  | select => exact h
  | selectUser =>
    obtain ⟨hdigest, htoken, hgate, hheld⟩ := h
    exact ⟨hdigest, htoken, hgate, hheld.grows hg⟩
  | commit =>
    obtain ⟨hdigest, htoken, hgate, hheld⟩ := h
    exact ⟨hdigest, htoken, hgate, hheld.grows hg⟩
  | check seen => exact ⟨h.1, fun d hd => (h.2 d hd).grows hg⟩

theorem SoundOutcome.grows {outcome : SessionOutcome} (h : SoundOutcome cfg gate db operation outcome)
    (hg : Grows db db') : SoundOutcome cfg gate db' operation outcome := by
  intro result hresult
  rcases h result hresult with hlogin | ⟨session, hfinds, hgate, hheld⟩
  · exact .inl hlogin
  · exact .inr ⟨session, hfinds, hgate, hheld.grows hg⟩

theorem soundOutcome_error {e : SessionRaised} : SoundOutcome cfg gate db operation (.error e) :=
  fun _ h => nomatch h

theorem beginCall_sound {clock : ClockReading} {stage : SessionStage}
    (h : beginCall cfg clock operation = .ok stage) :
    SoundStage cfg gate db operation clock.instant stage := by
  cases operation with
  | login =>
    obtain ⟨_, _, h⟩ := bind_eq_ok.mp h
    obtain ⟨_, _, h⟩ := bind_eq_ok.mp h
    obtain rfl := Except.ok.inj h
    rfl
  | authenticateSession =>
    obtain ⟨_, hdigest, h⟩ := bind_eq_ok.mp h
    obtain ⟨_, _, h⟩ := bind_eq_ok.mp h
    obtain rfl := Except.ok.inj h
    exact toOption_eq_some.mpr hdigest
  | validateCsrf =>
    obtain ⟨_, hdigest, h⟩ := bind_eq_ok.mp h
    obtain ⟨_, _, h⟩ := bind_eq_ok.mp h
    obtain ⟨_, _, h⟩ := bind_eq_ok.mp h
    obtain rfl := Except.ok.inj h
    exact toOption_eq_some.mpr hdigest
  | revokeSession =>
    obtain ⟨_, hdigest, h⟩ := bind_eq_ok.mp h
    obtain ⟨_, _, h⟩ := bind_eq_ok.mp h
    obtain rfl := Except.ok.inj h
    exact toOption_eq_some.mpr hdigest
  | verifyInitialAccess =>
    obtain rfl := Except.ok.inj h
    exact ⟨rfl, fun _ h => nomatch h⟩
  | loadAuthoritativeRecords =>
    obtain rfl := Except.ok.inj h
    exact ⟨rfl, fun _ h => nomatch h⟩

theorem getActiveForAuthentication_some {tokenDigest : Str} {session : UserSession}
    (h : getActiveForAuthentication db tokenDigest now = some session) :
    db.userSessions.find? session.id = some session ∧ session.tokenSha256 = tokenDigest ∧
      Live now session := by
  have hmem : session ∈ db.userSessions := List.mem_of_find?_eq_some h
  have hcond := List.find?_some h
  simp only [Bool.and_eq_true, beq_iff_eq, Option.isNone_iff_eq_none, decide_eq_true_eq] at hcond
  exact ⟨Table.find?_of_mem hmem, hcond.1.1, hcond.1.2, hcond.2⟩

/-- An access check that succeeds found a live session of its proof. -/
theorem checkOutcome_ok {clock : ClockReading} {seen : List Database} {commits : Bool}
    {result : SessionReturn} (hproof : operation.proof?.isSome)
    (h : checkOutcome clock seen commits operation = .ok result) :
    ∃ proof, operation.proof? = some proof ∧ ∃ d ∈ seen, ∃ session ∈ d.userSessions,
      proof.principal.sessionId = session.id ∧ proof.sessionTokenSha256 = session.tokenSha256 ∧
      Live clock.instant session := by
  cases operation with
  | verifyInitialAccess proof knowledgeBaseId =>
    refine ⟨proof, rfl, ?_⟩
    obtain ⟨_, haccess, _⟩ := bind_eq_ok.mp h
    obtain ⟨now, hnow, haccess⟩ := bind_eq_ok.mp haccess
    obtain ⟨d, hd, haccess⟩ := bind_eq_ok.mp (rescue_eq_ok.mp haccess)
    have hclock : now = clock.instant := by
      unfold ClockReading.now at hnow
      split at hnow
      · cases hnow
      · exact (Except.ok.inj hnow).symm
    subst hclock
    split at haccess
    · cases haccess
    rename_i hrows
    cases hauth : authenticationRows proof clock.instant d with
    | nil => exact absurd (by rw [initialAuthenticationStatement, hauth]; rfl) hrows
    | cons row rows =>
      have hmem : (row.1, row.2) ∈ authenticationRows proof clock.instant d := by
        rw [hauth]
        exact List.mem_cons_self
      obtain ⟨hs, _, _, hid, _, htoken, hrevoked, hexpires, _⟩ := mem_authenticationRows.mp hmem
      exact ⟨d, List.mem_of_getElem? (execute_ok.mp hd), row.1, hs, hid.symm, htoken.symm, hrevoked,
        hexpires⟩
  | loadAuthoritativeRecords proof knowledgeBaseId batches =>
    refine ⟨proof, rfl, ?_⟩
    obtain ⟨_, hload, _⟩ := bind_eq_ok.mp h
    obtain ⟨_, _, hload⟩ := bind_eq_ok.mp hload
    obtain ⟨_, hload, _⟩ := bind_eq_ok.mp hload
    obtain ⟨d, hd, _, hauthorized, _⟩ := loadInTransaction_ok (rescue_eq_ok.mp hload)
    obtain ⟨session, hs, hid, _, htoken, hrevoked, hexpires⟩ := hauthorized.session
    exact ⟨d, List.mem_of_mem_head? hd, session, hs, hid.symm, htoken.symm, hrevoked, hexpires⟩
  | login => cases hproof
  | authenticateSession => cases hproof
  | validateCsrf => cases hproof
  | revokeSession => cases hproof

variable {call : SessionCall} {step : CallStep} {progress : Progress}

theorem writeWork_ok {work : SessionWork} {tokenDigest : Str} {session : UserSession}
    {user : User} {r : Database × SessionReturn}
    (h : writeWork db now tokenDigest session user work = .ok r) : RowWrite session.id db r.1 := by
  cases work with
  | touch =>
    obtain ⟨_, htouch, h⟩ := bind_eq_ok.mp h
    obtain rfl := Except.ok.inj h
    exact touch_ok htouch
  | compareCsrf =>
    obtain rfl := Except.ok.inj h
    exact ⟨.refl db, fun _ _ => rfl, fun h => h⟩
  | revoke =>
    obtain ⟨_, hrevoke, h⟩ := bind_eq_ok.mp h
    obtain rfl := Except.ok.inj h
    exact revoke_ok hrevoke

/-- A step adds rows, or writes the row of the session that its call has loaded. -/
theorem callStep_effect (h : callStep cfg db call step = some progress) :
    RowsAdded db progress.db ∨ ∃ work tokenDigest session user,
      call.stage = .commit work tokenDigest session user ∧ RowWrite session.id db progress.db := by
  cases callStep_move h with
  | insert _ hcommit => exact .inl (commitLogin_ok hcommit)
  | commit hstage hwrite => exact .inr ⟨_, _, _, _, hstage, writeWork_ok hwrite⟩
  | _ => exact .inl (.refl db)

theorem callStep_grows (h : callStep cfg db call step = some progress) : Grows db progress.db := by
  rcases callStep_effect h with hadded | ⟨_, _, _, _, _, hwrite⟩
  · exact hadded.grows
  · exact hwrite.grows

theorem callStep_distinct (h : callStep cfg db call step = some progress) (hd : DistinctDigests db) :
    DistinctDigests progress.db := by
  rcases callStep_effect h with hadded | ⟨_, _, _, _, _, hwrite⟩
  · exact hadded.distinct hd
  · exact hwrite.distinct hd

/-- What a step says about the session it works on, before and after. -/
def SoundProgress (cfg : AuthenticationConfig) (gate : UserSession → Prop) (db : Database)
    (operation : SessionOperation) (now : Time) : Progress → Prop
  | .goOn _ stage => SoundStage cfg gate db operation now stage
  | .stop _ outcome => SoundOutcome cfg gate db operation outcome

private theorem committed_sound {acknowledged : Bool} {result : SessionReturn}
    (h : operation.isLogin = true ∨ ∃ session, operation.Finds cfg session ∧ gate session ∧
      Held db session) : SoundProgress cfg gate db operation now (committed db' acknowledged result) :=
  fun _ _ => h

/-- A step keeps the soundness of its call: a session is loaded only live. -/
theorem callStep_sound (hgate : SoundlySeen gate db call.clock.instant db)
    (hsound : SoundStage cfg gate db call.operation call.clock.instant call.stage)
    (h : callStep cfg db call step = some progress) :
    SoundProgress cfg gate db call.operation call.clock.instant progress := by
  cases callStep_move h with
  | observe hstage =>
    rw [hstage] at hsound
    exact hsound
  | verify _ hstage =>
    rw [hstage] at hsound
    exact hsound
  | insert hstage =>
    rw [hstage] at hsound
    exact committed_sound (.inl hsound)
  | select hstage hactive =>
    rw [hstage] at hsound
    obtain ⟨hfind, htoken, hlive⟩ := getActiveForAuthentication_some hactive
    obtain ⟨hpass, hheld⟩ := hgate _ _ hfind hlive
    exact ⟨hsound, htoken, hpass, hheld⟩
  | selectUser hstage =>
    rw [hstage] at hsound
    exact hsound
  | @commit _ _ _ session _ _ _ hstage =>
    rw [hstage] at hsound
    obtain ⟨hdigest, htoken, hpass, hheld⟩ := hsound
    refine committed_sound (.inr ⟨session, .inl ?_, hpass, hheld⟩)
    rw [htoken]
    exact hdigest
  | read hstage =>
    rw [hstage] at hsound
    refine ⟨hsound.1, fun d hd => ?_⟩
    rcases List.mem_append.mp hd with hd | hd
    · exact hsound.2 d hd
    · obtain rfl := List.mem_singleton.mp hd
      exact hgate
  | @finish seen commits hstage =>
    rw [hstage] at hsound
    obtain ⟨hproof, hseen⟩ := hsound
    intro result hresult
    cases hcheck : checkOutcome call.clock seen commits call.operation with
    | error e =>
      rw [hcheck] at hresult
      cases hresult
    | ok r =>
      obtain ⟨proof, hp, d, hd, session, hs, hid, htoken, hlive⟩ := checkOutcome_ok hproof hcheck
      obtain ⟨hpass, hheld⟩ := hseen d hd _ session (Table.find?_of_mem hs) hlive
      exact .inr ⟨session, .inr ⟨proof, hp, hid, htoken⟩, hpass, hheld⟩
  | refused => exact soundOutcome_error
  | interrupt => exact soundOutcome_error

end Soundness

section Runs
variable {cfg : AuthenticationConfig} {gate : Nat → Time → UserSession → Prop} {s t : SessionState}
  {action : SessionAction}

/-- The invariant of the calls: each found a session that passed the call's gate. -/
structure Sound (cfg : AuthenticationConfig) (gate : Nat → Time → UserSession → Prop)
    (s : SessionState) : Prop where
  calls : ∀ id call, s.calls id = some call → id < s.issued ∧
    SoundStage cfg (gate id call.clock.instant) s.db call.operation call.clock.instant call.stage
  ended : ∀ e ∈ s.ended, e.id < s.issued ∧
    SoundOutcome cfg (gate e.id e.clock.instant) s.db e.operation e.outcome

/-- Live rows pass the gates. -/
def Gated (gate : Nat → Time → UserSession → Prop) (db : Database) : Prop :=
  ∀ id now, SoundlySeen (gate id now) db now db

theorem Sound.init (db : Database) : Sound cfg gate (.init db) where
  calls := by
    intro id call h
    cases h
  ended := by
    intro e h
    cases h

@[simp] theorem after_db {id : Nat} {call : SessionCall} (progress : Progress) :
    (s.after id call progress).db = progress.db := by
  cases progress <;> rfl

theorem step_grows (h : (sessions cfg).step s action = some t) : Grows s.db t.db := by
  cases sessionStep_move h with
  | refused => exact .refl s.db
  | started => exact .refl s.db
  | step _ hstep =>
    rw [after_db]
    exact callStep_grows hstep
  | elsewhere hrows => exact .of_eq hrows

theorem step_distinct (hd : DistinctDigests s.db) (h : (sessions cfg).step s action = some t) :
    DistinctDigests t.db := by
  cases sessionStep_move h with
  | refused => exact hd
  | started => exact hd
  | step _ hstep =>
    rw [after_db]
    exact callStep_distinct hstep hd
  | elsewhere hrows =>
    unfold DistinctDigests Table.find? at hd ⊢
    rw [hrows]
    exact hd

/-- The invariant from the calls of `s` that are still there, and what one call has become. -/
private theorem Sound.grows (h : Sound cfg gate s) (hdb : Grows s.db t.db)
    (hissued : s.issued ≤ t.issued)
    (hcalls : ∀ id call, t.calls id = some call → s.calls id = some call ∨ id < t.issued ∧
      SoundStage cfg (gate id call.clock.instant) t.db call.operation call.clock.instant call.stage)
    (hended : ∀ e ∈ t.ended, e ∈ s.ended ∨ e.id < t.issued ∧
      SoundOutcome cfg (gate e.id e.clock.instant) t.db e.operation e.outcome) : Sound cfg gate t where
  calls := by
    intro id call hcall
    rcases hcalls id call hcall with hold | hnew
    · obtain ⟨hid, hstage⟩ := h.calls id call hold
      exact ⟨hid.trans_le hissued, hstage.grows hdb⟩
    · exact hnew
  ended := by
    intro e he
    rcases hended e he with hold | hnew
    · obtain ⟨hid, houtcome⟩ := h.ended e hold
      exact ⟨hid.trans_le hissued, houtcome.grows hdb⟩
    · exact hnew

/-- While live rows pass the gates, every step keeps the calls sound. -/
theorem step_sound (hgate : Gated gate s.db) (h : Sound cfg gate s)
    (hstep : (sessions cfg).step s action = some t) : Sound cfg gate t := by
  have hdb := step_grows hstep
  cases sessionStep_move hstep with
  | refused =>
    refine h.grows hdb (Nat.le_succ _) (fun _ _ => .inl) fun e he => ?_
    rcases List.mem_cons.mp he with rfl | he
    · exact .inr ⟨Nat.lt_succ_self _, soundOutcome_error⟩
    · exact .inl he
  | started hbegin =>
    refine h.grows hdb (Nat.le_succ _) (fun id call hcall => ?_) fun e => .inl
    rcases of_update_eq_some hcall with ⟨rfl, hslot⟩ | hold
    · obtain rfl := Option.some.inj hslot
      exact .inr ⟨Nat.lt_succ_self _, beginCall_sound hbegin⟩
    · exact .inl hold
  | @step id _ call progress hcall hcallStep =>
    obtain ⟨hid, hstage⟩ := h.calls id call hcall
    have hprogress := callStep_sound (hgate id _) hstage hcallStep
    rw [after_db] at hdb
    cases progress with
    | goOn db stage =>
      refine h.grows hdb le_rfl (fun id' call' hcall' => ?_) fun e => .inl
      rcases of_update_eq_some hcall' with ⟨rfl, hslot⟩ | hold
      · obtain rfl := Option.some.inj hslot
        exact .inr ⟨hid, SoundStage.grows hprogress hdb⟩
      · exact .inl hold
    | stop db outcome =>
      refine h.grows hdb le_rfl (fun id' call' hcall' => ?_) fun e he => ?_
      · rcases of_update_eq_some hcall' with ⟨_, hslot⟩ | hold
        · cases hslot
        · exact .inl hold
      · rcases List.mem_cons.mp he with rfl | he
        · exact .inr ⟨hid, SoundOutcome.grows hprogress hdb⟩
        · exact .inl he
  | elsewhere => exact h.grows hdb le_rfl (fun _ _ => .inl) fun _ => .inl

/-- A call that ended successfully on a session found it with its own digest. -/
theorem Sound.finds (h : Sound cfg gate t) (hd : DistinctDigests t.db) {e : EndedCall}
    (he : e ∈ t.ended) {result : SessionReturn} (hok : e.outcome = .ok result) {session : UserSession}
    (hsession : t.db.userSessions.find? session.id = some session)
    (htargets : e.operation.Targets cfg session) :
    ∃ row, gate e.id e.clock.instant row ∧ Evolves row session := by
  have hlogin : e.operation.isLogin = false := by
    cases hop : e.operation with
    | login =>
      rw [hop] at htargets
      rcases htargets with hdigest | ⟨_, hproof, _⟩
      · cases hdigest
      · cases hproof
    | _ => rfl
  obtain ⟨row, hfinds, hgate, row', hrow', hevolves⟩ :=
    ((h.ended e he).2 result hok).resolve_left (by simp [hlogin])
  have hsame : row.id = session.id := by
    rcases htargets with hdigest | ⟨proof, hproof, htarget⟩
    · rcases hfinds with hdigest' | ⟨_, hproof', _⟩
      · refine hd _ _ row' session hrow' hsession ?_
        rw [hevolves.tokenSha256]
        exact Option.some.inj (hdigest'.symm.trans hdigest)
      · cases hop : e.operation <;> rw [hop] at hdigest hproof' <;> first | cases hdigest | cases hproof'
    · rcases hfinds with hdigest' | ⟨proof', hproof', hid, htoken⟩
      · cases hop : e.operation <;> rw [hop] at hdigest' hproof <;> first | cases hdigest' | cases hproof
      · obtain rfl := Option.some.inj (hproof.symm.trans hproof')
        rcases htarget with hid' | htoken'
        · exact hid.symm.trans hid'
        · refine hd _ _ row' session hrow' hsession ?_
          rw [hevolves.tokenSha256]
          exact htoken.symm.trans htoken'
  rw [hsame] at hrow'
  obtain rfl := Option.some.inj (hrow'.symm.trans hsession)
  exact ⟨row, hgate, hevolves⟩

theorem SoundStage.mono {p q : UserSession → Prop} {db : Database} {operation : SessionOperation}
    {now : Time} {stage : SessionStage} (h : SoundStage cfg p db operation now stage)
    (hpq : ∀ row, p row → q row) : SoundStage cfg q db operation now stage := by
  cases stage with
  | observe => exact h
  | verify => exact h
  | insert => exact h
  | select => exact h
  | selectUser => exact ⟨h.1, h.2.1, hpq _ h.2.2.1, h.2.2.2⟩
  | commit => exact ⟨h.1, h.2.1, hpq _ h.2.2.1, h.2.2.2⟩
  | check seen => exact ⟨h.1, fun d hd k row hk hl => (h.2 d hd k row hk hl).imp_left (hpq row)⟩

/-- The gates of calls that have not started do not matter. -/
theorem Sound.mono {gate' : Nat → Time → UserSession → Prop} (h : Sound cfg gate s)
    (hgate : ∀ id, id < s.issued → ∀ now row, gate id now row → gate' id now row) :
    Sound cfg gate' s where
  calls := by
    intro id call hcall
    obtain ⟨hid, hstage⟩ := h.calls id call hcall
    exact ⟨hid, hstage.mono (hgate id hid _)⟩
  ended := by
    intro e he
    obtain ⟨hid, houtcome⟩ := h.ended e he
    refine ⟨hid, fun result hresult => (houtcome result hresult).imp_right ?_⟩
    rintro ⟨session, hfinds, hpass, hheld⟩
    exact ⟨session, hfinds, hgate e.id hid _ _ hpass, hheld⟩

/-- What holds of every run: distinct digests, and calls that only ever loaded sessions
that had not expired. -/
structure Running (cfg : AuthenticationConfig) (s : SessionState) : Prop where
  distinct : DistinctDigests s.db
  sound : Sound cfg (fun _ now row => now < row.expiresAt) s

theorem step_running (s : SessionState) (action : SessionAction) (t : SessionState)
    (h : Running cfg s) (hstep : (sessions cfg).step s action = some t) : Running cfg t where
  distinct := step_distinct h.distinct hstep
  sound := by
    refine step_sound ?_ h.sound hstep
    exact fun _ _ _ _ hk hlive => ⟨hlive.2, held_of_find hk⟩

/-- A session that is revoked, and calls with ids from `issued` on that never loaded it. -/
structure Revoked (cfg : AuthenticationConfig) (sessionId : UUID) (issued : Nat) (s : SessionState) :
    Prop where
  row : ∃ row, s.db.userSessions.find? sessionId = some row ∧ row.revokedAt ≠ none
  sound : Sound cfg (fun id _ row => issued ≤ id → row.id ≠ sessionId) s

theorem step_revoked {sessionId : UUID} {issued : Nat} (s : SessionState) (action : SessionAction)
    (t : SessionState) (h : Revoked cfg sessionId issued s)
    (hstep : (sessions cfg).step s action = some t) : Revoked cfg sessionId issued t := by
  obtain ⟨row, hrow, hrevoked⟩ := h.row
  constructor
  · obtain ⟨row', hrow', hevolves⟩ := step_grows hstep _ _ hrow
    exact ⟨row', hrow', hevolves.revoked hrevoked⟩
  · refine step_sound ?_ h.sound hstep
    intro id now k live hk hlive
    refine ⟨fun _ hid => ?_, held_of_find hk⟩
    rw [← Table.find?_key hk, hid] at hk
    obtain rfl := Option.some.inj (hrow.symm.trans hk)
    exact hrevoked hlive.1

/-- A step leaves a session's row alone, unless it is a step of a call on that session. -/
theorem step_frame (h : Running cfg s) (hstep : (sessions cfg).step s action = some t)
    {k : UUID} {row : UserSession} (hrow : s.db.userSessions.find? k = some row) :
    t.db.userSessions.find? k = some row ∨ ∃ id step call, action = .step id step ∧
      s.calls id = some call ∧ call.operation.Targets cfg row := by
  cases sessionStep_move hstep with
  | refused => exact .inl hrow
  | started => exact .inl hrow
  | @step id step call progress hcall hcallStep =>
    rw [after_db]
    rcases callStep_effect hcallStep with hadded | ⟨work, tokenDigest, loaded, user, hstage, hwrite⟩
    · exact .inl (hadded.kept k row hrow)
    · by_cases hk : k = loaded.id
      · subst hk
        have hsound := (h.sound.calls id call hcall).2
        rw [hstage] at hsound
        obtain ⟨hdigest, htoken, _, row', hrow', hevolves⟩ := hsound
        obtain rfl := Option.some.inj (hrow'.symm.trans hrow)
        refine .inr ⟨id, step, call, rfl, hcall, .inl ?_⟩
        rw [hevolves.tokenSha256, htoken]
        exact hdigest
      · exact .inl ((hwrite.others k hk).trans hrow)
  | elsewhere hrows =>
    left
    rwa [Table.find?, hrows]

/-- The transaction that commits a revocation sets the time of the revocation. -/
private theorem commit_revokes {id : Nat} {acknowledged : Bool} {call : SessionCall} {tokenDigest : Str}
    {loaded row : UserSession} {user : User} (hcall : s.calls id = some call)
    (hstage : call.stage = .commit .revoke tokenDigest loaded user)
    (hrow : s.db.userSessions.find? loaded.id = some row)
    (hstep : (sessions cfg).step s (.step id (.commit acknowledged)) = some t) :
    t.db.userSessions.find? loaded.id = some { row with revokedAt := some call.clock.instant } := by
  obtain ⟨call', progress, hcall', hcallStep, rfl⟩ := sessionStep_step hstep
  obtain rfl := Option.some.inj (hcall.symm.trans hcall')
  simp only [callStep, hstage, Option.some.injEq] at hcallStep
  obtain rfl := hcallStep
  have hid : row.id = loaded.id := Table.find?_key hrow
  have hwrite : revokeForAuthentication s.db loaded call.clock.instant = .ok { s.db with
      userSessions := s.db.userSessions.replace { row with revokedAt := some call.clock.instant } } := by
    rw [revokeForAuthentication, flushSession, hrow]
    rfl
  rw [after_db, writeWork, hwrite]
  change (s.db.userSessions.replace { row with revokedAt := some call.clock.instant }).find? loaded.id = _
  rw [Table.find?_replace, if_pos hid.symm, hrow]
  rfl

/-- Revocation and expiry of a session are permanent, over every run: its identity and expiry
never change; a commit of its revocation revokes it, and it stays revoked; no call that starts
once it is revoked, and none that reads the clock at or after its expiry, succeeds with it; and
only calls with it change its row. -/
theorem revocation_permanent (cfg : AuthenticationConfig) {db : Database}
    (hdistinct : DistinctDigests db) {before later : List SessionAction} {s t : SessionState}
    (hbefore : (sessions cfg).run (.init db) before = some s)
    (hlater : (sessions cfg).run s later = some t) {session : UserSession}
    (hsession : s.db.userSessions.find? session.id = some session) :
    (∃ session', t.db.userSessions.find? session.id = some session' ∧ Evolves session session') ∧
    (∀ id acknowledged u call tokenDigest loaded user, t.calls id = some call →
      call.stage = .commit .revoke tokenDigest loaded user → loaded.id = session.id →
      (sessions cfg).step t (.step id (.commit acknowledged)) = some u →
      ∃ row, u.db.userSessions.find? session.id = some row ∧ row.revokedAt ≠ none) ∧
    (session.revokedAt ≠ none → ∀ e ∈ t.ended, s.issued ≤ e.id → e.operation.Targets cfg session →
      ∀ result, e.outcome ≠ .ok result) ∧
    (∀ e ∈ t.ended, session.expiresAt ≤ e.clock.instant → e.operation.Targets cfg session →
      ∀ result, e.outcome ≠ .ok result) ∧
    (∀ action u row, (sessions cfg).step t action = some u →
      t.db.userSessions.find? session.id = some row → u.db.userSessions.find? session.id = some row ∨
        ∃ id step call, action = .step id step ∧ t.calls id = some call ∧
          call.operation.Targets cfg session) := by
  have hs : Running cfg s := Machine.run_invariant step_running ⟨hdistinct, .init db⟩ hbefore
  have ht : Running cfg t := Machine.run_invariant step_running hs hlater
  have hgrows : Grows s.db t.db :=
    Machine.reaches_relation (I := fun _ => True) (R := fun s t => Grows s.db t.db)
      (fun _ _ _ _ _ => trivial) (fun _ _ _ _ => step_grows) (fun _ => .refl _)
      (fun _ _ _ => .trans) trivial ⟨later, hlater⟩
  obtain ⟨session', hsession', hevolves⟩ := hgrows _ _ hsession
  have hid : session'.id = session.id := hevolves.id
  rw [← hid] at hsession'
  have htargets (operation : SessionOperation) (h : operation.Targets cfg session) :
      operation.Targets cfg session' := by
    unfold SessionOperation.Targets at h ⊢
    rwa [hevolves.id, hevolves.tokenSha256]
  refine ⟨⟨session', hid ▸ hsession', hevolves⟩, ?_, ?_, ?_, ?_⟩
  · intro id acknowledged u call tokenDigest loaded user hcall hstage hloaded hstep
    rw [hid, ← hloaded] at hsession'
    have hrevoked := commit_revokes hcall hstage hsession' hstep
    rw [hloaded] at hrevoked
    exact ⟨_, hrevoked, Option.some_ne_none _⟩
  · intro hrevoked e he hstart htarget result hok
    have hstarted : Revoked cfg session.id s.issued s :=
      ⟨⟨session, hsession, hrevoked⟩, hs.sound.mono fun id hlt _ _ _ hle => absurd hlt (not_lt.mpr hle)⟩
    have hrun := Machine.run_invariant step_revoked hstarted hlater
    obtain ⟨row, hgate, hrow⟩ := hrun.sound.finds ht.distinct he hok hsession' (htargets _ htarget)
    exact hgate hstart (hrow.id.symm.trans hid)
  · intro e he hexpired htarget result hok
    obtain ⟨row, hgate, hrow⟩ := ht.sound.finds ht.distinct he hok hsession' (htargets _ htarget)
    rw [← hrow.expiresAt, hevolves.expiresAt] at hgate
    exact absurd hgate (not_lt.mpr hexpired)
  · intro action u row hstep hrow
    refine (step_frame ht hstep hrow).imp_right ?_
    rintro ⟨id, step, call, haction, hcall, htarget⟩
    obtain rfl := Option.some.inj ((hid ▸ hsession').symm.trans hrow)
    unfold SessionOperation.Targets at htarget ⊢
    rw [hevolves.id, hevolves.tokenSha256] at htarget
    exact ⟨id, step, call, haction, hcall, htarget⟩

section Example

private def exampleHasher : PasswordHasher := ⟨fun password _ => password,
  fun password passwordHash => passwordHash == some password, fun _ => false⟩

private def exampleConfig : AuthenticationConfig :=
  ⟨fun _ => List.Vector.replicate 32 0, fun s => s, exampleHasher, 1, zero_lt_one⟩

private def exampleToken : Option Str := some (List.replicate 32 (ord 'a'))

private def activeSession : UserSession := ⟨2, 1, List.replicate 64 (ord '0'), [], 100, none, none⟩

private def revokedSession : UserSession :=
  { activeSession with revokedAt := some 11, lastSeenAt := some 10 }

private def sessionDatabase : Database :=
  { readerDatabase with userSessions := ⟨[activeSession], List.nodup_singleton _⟩ }

/-- The session is revoked while another call that has loaded it is about to touch it. -/
private def concurrentRevoke : List SessionAction :=
  [.start (.authenticateSession exampleToken) ⟨10, some 0⟩, .start (.revokeSession exampleToken)
    ⟨11, some 0⟩, .step 0 .select, .step 1 .select, .step 0 .selectUser, .step 1 .selectUser,
    .step 1 (.commit true), .step 0 (.commit true)]

private def laterCalls : List SessionAction :=
  [.start (.authenticateSession exampleToken) ⟨12, some 0⟩, .step 2 .select]

theorem revocation_permanent_example : ∃ s t : SessionState,
    (sessions exampleConfig).run (.init sessionDatabase) concurrentRevoke = some s ∧
    (sessions exampleConfig).run s laterCalls = some t ∧
    s.db.userSessions.find? 2 = some revokedSession ∧
    ∀ e ∈ t.ended, s.issued ≤ e.id → e.operation.Targets exampleConfig revokedSession →
      ∀ result, e.outcome ≠ .ok result := by
  have hdistinct : DistinctDigests sessionDatabase := by
    intro k k' row row' hk hk' _
    have hrow (i : UUID) (r : UserSession) (h : sessionDatabase.userSessions.find? i = some r) :
        i = activeSession.id := by
      obtain ⟨hmem, hid⟩ := Table.find?_eq_some.mp h
      rw [← hid, List.mem_singleton.mp hmem]
    rw [hrow k row hk, hrow k' row' hk']
  have hrun : (((sessions exampleConfig).run (.init sessionDatabase) concurrentRevoke).bind
      fun s => s.db.userSessions.find? 2) = some revokedSession := by decide +kernel
  have hboth : (((sessions exampleConfig).run (.init sessionDatabase) concurrentRevoke).bind
      fun s => (sessions exampleConfig).run s laterCalls).isSome := by decide +kernel
  obtain ⟨t, ht⟩ := Option.isSome_iff_exists.mp hboth
  obtain ⟨s, hbefore, hlater⟩ := Option.bind_eq_some_iff.mp ht
  rw [hbefore, Option.bind_some] at hrun
  have hrow : s.db.userSessions.find? revokedSession.id = some revokedSession := hrun
  have hpermanent := revocation_permanent exampleConfig hdistinct hbefore hlater hrow
  exact ⟨s, t, hbefore, hlater, hrun, hpermanent.2.2.1 (Option.some_ne_none 11)⟩

end Example

end Runs
end AgenticRag.Security

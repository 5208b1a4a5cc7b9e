import AgenticRag.Api.Disclosure
import AgenticRag.Api.Effects

/-! The requests keep to their effects, and a request that is answered was authenticated, and
where it can write, double-submitted its token. -/
namespace AgenticRag.Api
open Lib Python Db Ingestion Security Retrieval Services Program

/-- A body shows a user rows of a state that the request saw. -/
def ShownIn (h : ApiHistory) (userId : UUID) (body : ApiBody) : Prop :=
  ∃ x ∈ h, Shown userId x.2.db body

section Knowledge
variable {ρ : Type} {settings : ApiSettings ρ} {request : ApiRequest} {h : ApiHistory} {userId : UUID}
  {α : Type} {P : ApiHistory → α → Prop}

theorem ShownIn.grow {k : ApiHistory} {body : ApiBody} (hshown : ShownIn h userId body) (hk : h <+: k) :
    ShownIn k userId body := exists_mem_prefix hk hshown

/-- A read shows what its own transaction found. -/
theorem does_readKnowledge {read : CallEnvironment → Database → Except UploadRaised α}
    {body : α → ApiBody}
    (hread : ∀ env db a, read env db = .ok a → Shown userId db (body a)) :
    Does (Effect settings request) (readKnowledge read) h
      (Gives fun k a => ShownIn k userId (body a)) :=
  does_statement fun _ _ a ha => exists_mem_last (hread _ _ a (mapError_eq_ok.mp ha))

/-- The writes of a knowledge request whose caller is authenticated and proved its token. -/
structure Guarded (settings : ApiSettings ρ) (request : ApiRequest) (h : ApiHistory) (userId : UUID) :
    Prop where
  authenticated : ∃ principal, principal.userId = userId ∧
    Authenticated settings request.toCredentials h principal
  csrf : CsrfProven settings request.toCredentials h

theorem Guarded.grow {k : ApiHistory} (hguarded : Guarded settings request h userId) (hk : h <+: k) :
    Guarded settings request k userId := by
  obtain ⟨⟨principal, heq, hprincipal⟩, hcsrf⟩ := hguarded
  exact ⟨⟨principal, heq, hprincipal.grow hk⟩, hcsrf.grow hk⟩

theorem Guarded.effect {i : ApiInput} {s t : KnowledgeState}
    (hguarded : Guarded settings request h userId)
    (hwrite : KnowledgeWrite settings userId h i s request.operation t) :
    Effect settings request h i s t := by
  obtain ⟨⟨principal, rfl, hprincipal⟩, hcsrf⟩ := hguarded
  exact .knowledge hprincipal hcsrf hwrite

theorem does_createKnowledgeBase {payload : KnowledgeBaseCreate}
    (hop : request.operation = .createKnowledgeBase payload)
    (hguarded : Guarded settings request h userId) :
    Does (Effect settings request) (createKnowledgeBase userId payload) h
      (Gives fun k knowledgeBase => ShownIn k userId (.knowledgeBase knowledgeBase)) := by
  apply Does.andThen (P := fun _ _ => True) (does_lift_gives fun _ _ => trivial)
  intro k _ hk _
  apply does_transaction
  · intro i s
    dsimp only
    split
    · rename_i db hadd
      apply (hguarded.grow hk).effect
      rw [hop]
      exact .created hadd
    · exact .none
  · intro i s knowledgeBase hok
    dsimp only at hok
    split at hok
    · rename_i db hadd
      obtain rfl := Except.ok.inj hok
      exact exists_mem_last (.created hadd)
    · cases hok

theorem does_retryIngestionJob {jobId : UUID} (hop : request.operation = .retryIngestionJob jobId)
    (hguarded : Guarded settings request h userId) :
    Does (Effect settings request) (retryIngestionJob userId jobId) h
      (Gives fun k job => ShownIn k userId (.ingestionJob (.of job))) := by
  apply does_transaction
  · intro i s
    simp only [KnowledgeIntakeService.retryIngestionJob]
    split
    · rename_i job db hretry
      apply hguarded.effect
      rw [hop]
      exact .retried (mapError_eq_ok.mp hretry)
    · exact .none
  · intro i s job hok
    have hok := mapError_eq_ok.mp hok
    simp only [KnowledgeIntakeService.retryIngestionJob] at hok
    split at hok
    · rename_i db hretry
      obtain rfl := Except.ok.inj hok
      exact exists_mem_last (.retried (mapError_eq_ok.mp hretry))
    · cases hok

section Upload
variable {knowledgeBaseId documentId : UUID} {file : UploadFile} {mediaType : String}
  {extension : Str} {stored : Services.StoredFile}

theorem does_storeUpload (hop : request.operation = .uploadDocument knowledgeBaseId file)
    (hguarded : Guarded settings request h userId)
    (hauthorized : UploadAuthorized h knowledgeBaseId userId) :
    Does (Effect settings request) (storeUpload settings.intake knowledgeBaseId extension file.source) h
      (Gives fun k made =>
        Published settings k knowledgeBaseId extension file.source made.1 made.2) := by
  apply does_thread
  · intro i s
    dsimp only
    split
    · exact .none
    · rename_i content stored hstore
      apply hguarded.effect
      rw [hop]
      exact .stored hauthorized hstore
  · intro i s made hmade
    dsimp only at hmade
    split at hmade
    · cases hmade
    · rename_i content stored hstore
      obtain rfl := Except.ok.inj hmade
      exact exists_mem_last ⟨content, rfl, hstore⟩

theorem does_deleteFile (hop : request.operation = .uploadDocument knowledgeBaseId file)
    (hguarded : Guarded settings request h userId)
    (hauthorized : UploadAuthorized h knowledgeBaseId userId)
    (hpublished : Published settings h knowledgeBaseId extension file.source documentId stored) :
    Does (Effect settings request) (deleteFile (storageKey knowledgeBaseId documentId extension)) h
      (Gives fun _ _ => True) := by
  apply does_thread _ fun _ _ _ _ => trivial
  intro i s
  split
  · exact .none
  · apply hguarded.effect
    rw [hop]
    exact .deleted hauthorized hpublished

theorem does_databaseUnavailable {task : ApiTask α}
    (htask : Does (Effect settings request) task h (Gives P)) :
    Does (Effect settings request) (databaseUnavailable task) h (Gives P) := by
  apply htask.tryCatch
  intro k e _
  cases e <;> exact does_throw_gives

/-- What the transaction of an upload found or added can be shown. -/
def Persisted.Shows (h : ApiHistory) (userId : UUID) : Persisted → Prop
  | .inserted result | .duplicate result => ShownIn h userId (uploadResponse result).body
  | .conflict => True

theorem does_persistRows (hop : request.operation = .uploadDocument knowledgeBaseId file)
    (hguarded : Guarded settings request h userId) (hmedia : file.contentType = some mediaType)
    (hmetadata : validateUploadMetadata (file.filename.getD []) mediaType = .ok extension)
    (hpublished : Published settings h knowledgeBaseId extension file.source documentId stored)
    (hcontent : validateContent mediaType stored = .ok ()) :
    Does (Effect settings request)
      (persistRows userId knowledgeBaseId documentId (file.filename.getD []) mediaType stored) h
      (Gives fun k persisted => persisted.Shows k userId) := by
  apply does_transaction
  · intro i s
    dsimp only
    split
    · exact .none
    · exact .none
    · rename_i hfind
      split
      · rename_i hinsert _
        apply hguarded.effect
        rw [hop]
        exact .inserted hmedia hmetadata hpublished hcontent hfind hinsert
      · exact .none
  · intro i s persisted hok
    dsimp only at hok
    split at hok
    · cases hok
    · rename_i hfind
      obtain rfl := Except.ok.inj hok
      exact exists_mem_last (findDuplicate_shown hfind)
    · rename_i hfind
      split at hok
      · rename_i hinsert _
        obtain rfl := Except.ok.inj hok
        exact exists_mem_last (.uploaded (findDuplicate_isMember hfind) hinsert)
      · obtain rfl := Except.ok.inj hok
        trivial

theorem does_persistUpload (hop : request.operation = .uploadDocument knowledgeBaseId file)
    (hguarded : Guarded settings request h userId)
    (hauthorized : UploadAuthorized h knowledgeBaseId userId)
    (hmedia : file.contentType = some mediaType)
    (hmetadata : validateUploadMetadata (file.filename.getD []) mediaType = .ok extension)
    (hpublished : Published settings h knowledgeBaseId extension file.source documentId stored)
    (hcontent : validateContent mediaType stored = .ok ())
    (hkey : stored.storageKey = storageKey knowledgeBaseId documentId extension) :
    Does (Effect settings request)
      (persistUpload userId knowledgeBaseId documentId (file.filename.getD []) mediaType stored) h
      (Gives fun k result => ShownIn k userId (uploadResponse result).body) := by
  have hdelete (k : ApiHistory) (hk : h <+: k) :
      Does (Effect settings request) (deleteFile stored.storageKey) k (Gives fun _ _ => True) :=
    hkey ▸ does_deleteFile hop (hguarded.grow hk) (hauthorized.grow hk) (hpublished.grow hk)
  apply (does_databaseUnavailable
    (does_persistRows hop hguarded hmedia hmetadata hpublished hcontent)).andThen
  intro k persisted hk hshown
  cases persisted with
  | inserted result => exact does_pure_gives hshown
  | duplicate result =>
    apply (hdelete k hk).andThen
    intro k₁ _ hk₁ _
    apply (does_databaseUnavailable does_commit).andThen
    exact fun k₂ _ hk₂ _ => does_pure_gives (hshown.grow (hk₁.trans hk₂))
  | conflict =>
    apply (hdelete k hk).andThen
    intro k₁ _ _ _
    exact does_statement fun _ _ _ hresolve =>
      exists_mem_last (resolveConcurrentDuplicate_shown (mapError_eq_ok.mp hresolve))

theorem storeUpload_key {i : ApiInput} {source : List (List UInt8)} {key : Str} {content : List UInt8}
    (hstore : settings.intake.storeUpload i.call source key = .ok (content, stored)) :
    stored.storageKey = key := by
  unfold KnowledgeIntakeService.storeUpload at hstore
  split at hstore
  · cases hstore
  · obtain ⟨out, _, heq⟩ := map_eq_ok.mp (mapError_eq_ok.mp hstore)
    obtain ⟨-, rfl⟩ := Prod.mk.inj heq
    rfl

theorem does_uploadDocument (hop : request.operation = .uploadDocument knowledgeBaseId file)
    (hguarded : Guarded settings request h userId) (hmedia : file.contentType = some mediaType) :
    Does (Effect settings request)
      (uploadDocument settings.intake userId knowledgeBaseId (file.filename.getD []) mediaType
        file.source) h (Gives fun k result => ShownIn k userId (uploadResponse result).body) := by
  apply Does.andThen (P := fun _ extension =>
    validateUploadMetadata (file.filename.getD []) mediaType = .ok extension)
  · exact does_lift_gives fun _ hmetadata => mapError_eq_ok.mp hmetadata
  intro k₁ extension hk₁ hmetadata
  apply Does.andThen (P := fun k _ => UploadAuthorized k knowledgeBaseId userId)
  · exact does_statement fun i s _ hauthorized => exists_mem_last (mapError_eq_ok.mp hauthorized)
  intro k₂ _ hk₂ hauthorized
  have hguarded₂ := hguarded.grow (hk₁.trans hk₂)
  apply (does_storeUpload hop hguarded₂ hauthorized).andThen
  rintro k₃ ⟨documentId, stored⟩ hk₃ hpublished
  have hguarded₃ := hguarded₂.grow hk₃
  have hkey : stored.storageKey = storageKey knowledgeBaseId documentId extension := by
    obtain ⟨x, _, content, _, hstore⟩ := hpublished
    exact storeUpload_key hstore
  apply Does.cleanUp
  · apply Does.andThen (P := fun _ _ => validateContent mediaType stored = .ok ())
    · exact does_lift_gives fun _ hcontent => mapError_eq_ok.mp hcontent
    intro k₄ _ hk₄ hcontent
    exact does_persistUpload hop (hguarded₃.grow hk₄) (hauthorized.grow (hk₃.trans hk₄)) hmedia
      hmetadata (hpublished.grow hk₄) hcontent hkey
  · intro k₄ hk₄
    exact does_deleteFile hop (hguarded₃.grow hk₄) (hauthorized.grow (hk₃.trans hk₄))
      (hpublished.grow hk₄)

end Upload
end Knowledge

section Serve
variable {ρ : Type} {settings : ApiSettings ρ} {request : ApiRequest} {h : ApiHistory}

def ApiOperation.needsSession : ApiOperation → Bool
  | .login _ _ | .health => false
  | _ => true

/-- The requests that can write more than the time of their session. -/
def ApiOperation.needsCsrf : ApiOperation → Bool
  | .logout | .createKnowledgeBase _ | .uploadDocument _ _ | .retryIngestionJob _
  | .retrieveAuthoritativeEvidence _ _ => true
  | _ => false

/-- What a request established before it was answered, and whose rows the answer shows. -/
structure Answered (settings : ApiSettings ρ) (request : ApiRequest) (h : ApiHistory)
    (response : ApiResponse) : Prop where
  session : request.operation.needsSession = true → ∃ principal,
    Authenticated settings request.toCredentials h principal ∧ ShownIn h principal.userId response.body
  csrf : request.operation.needsCsrf = true → CsrfProven settings request.toCredentials h

variable {response : ApiResponse}

private theorem answered_of_principal {principal : Principal} (hcsrf : request.operation.needsCsrf = false)
    (hprincipal : Authenticated settings request.toCredentials h principal)
    (hshown : ShownIn h principal.userId response.body) : Answered settings request h response where
  session _ := ⟨principal, hprincipal, hshown⟩
  csrf hneeds := absurd (hcsrf.symm.trans hneeds) Bool.false_ne_true

private theorem answered_of_public (hsession : request.operation.needsSession = false)
    (hcsrf : request.operation.needsCsrf = false) : Answered settings request h response where
  session hneeds := absurd (hsession.symm.trans hneeds) Bool.false_ne_true
  csrf hneeds := absurd (hcsrf.symm.trans hneeds) Bool.false_ne_true

private theorem Guarded.answered {userId : UUID} (hguarded : Guarded settings request h userId)
    (hshown : ShownIn h userId response.body) : Answered settings request h response := by
  obtain ⟨⟨principal, rfl, hprincipal⟩, hcsrf⟩ := hguarded
  exact ⟨fun _ => ⟨principal, hprincipal, hshown⟩, fun _ => hcsrf⟩

private theorem Authenticated.shownIn {principal : Principal} {body : ApiBody}
    (hprincipal : Authenticated settings request.toCredentials h principal)
    (hshown : ∀ db, Shown principal.userId db body) : ShownIn h principal.userId body := by
  obtain ⟨_, _, _, _, hactive, _⟩ := hprincipal
  obtain ⟨x, hx, _⟩ := hactive.clock
  exact ⟨x, hx, hshown _⟩

private theorem does_observe : Does (Effect settings request) observe h
    (Gives fun k seen => ∀ db, seen.2 = some db → ∃ x ∈ k, x.2.db = db) := by
  apply does_attempt_gives
  · intro i s
    split <;> exact .none
  · intro i s seen hseen db hdb
    split at hseen
    · cases hseen
    · obtain rfl := Except.ok.inj hseen
      cases hdb
    · obtain rfl := Except.ok.inj hseen
      exact exists_mem_last (Option.some.inj hdb)

private theorem does_retrieveEvidence [LinearOrder ρ] {proof : SessionAuthenticationProof}
    {knowledgeBaseId : UUID} {payload : RetrievalQueryRequest} :
    Does (Effect settings request) (retrieveEvidence settings proof knowledgeBaseId payload) h
      (Gives fun k items => ShownIn k proof.principal.userId (.evidence items)) := by
  apply does_observe.andThen
  intro _ session _ _
  apply does_observe.andThen
  intro _ target _ _
  apply does_observe.andThen
  intro _ keyword _ _
  apply does_observe.andThen
  intro k final _ hfinal
  apply does_lift_gives
  intro items hitems
  obtain ⟨result, hretrieve, hproject⟩ := bind_eq_ok.mp (mapError_eq_ok.mp hitems)
  obtain ⟨db, hsees, hshown⟩ := postgresRetrieve_shown hretrieve hproject
  obtain ⟨x, hx, rfl⟩ := hfinal db hsees
  exact ⟨x, hx, hshown⟩

private theorem does_healthCheck : Does (Effect settings request) healthCheck h (Gives fun _ _ => True) :=
  does_attempt_gives (fun i s => by split <;> exact .none) fun _ _ _ _ => trivial

/-- A handler behind `get_current_principal`, in which nothing writes. -/
private theorem does_read {α : Type} {body : Principal → ApiTask α} {result : α → ApiResponse}
    (hcsrf : request.operation.needsCsrf = false)
    (hbody : ∀ k principal, Does (Effect settings request) (body principal) k
      (Gives fun k' a => ShownIn k' principal.userId (result a).body)) :
    Does (Effect settings request) (do
      let principal ← getCurrentPrincipal settings request.toCredentials
      let a ← body principal
      return result a) h (Gives (Answered settings request)) := by
  apply does_getCurrentPrincipal.andThen
  intro k principal _ hprincipal
  apply (hbody k principal).andThen
  intro k' a hk' hshown
  exact does_pure_gives (answered_of_principal hcsrf (hprincipal.grow hk') hshown)

/-- A handler behind `get_csrf_protected_principal`. -/
private theorem does_guarded {α : Type} {body : Principal → ApiTask α} {result : α → ApiResponse}
    (hbody : ∀ k principal, Guarded settings request k principal.userId →
      Does (Effect settings request) (body principal) k
        (Gives fun k' a => ShownIn k' principal.userId (result a).body)) :
    Does (Effect settings request) (do
      let principal ← getCsrfProtectedPrincipal settings request.toCredentials
      let a ← body principal
      return result a) h (Gives (Answered settings request)) := by
  apply does_getCsrfProtectedPrincipal.andThen
  rintro k principal _ ⟨hprincipal, hcsrf⟩
  have hguarded : Guarded settings request k principal.userId := ⟨⟨principal, rfl, hprincipal⟩, hcsrf⟩
  apply (hbody k principal hguarded).andThen
  exact fun k' a hk' hshown => does_pure_gives ((hguarded.grow hk').answered hshown)

/-- Every request keeps to its effects. -/
theorem does_serve [LinearOrder ρ] (settings : ApiSettings ρ) (request : ApiRequest) :
    Does (Effect settings request) (serve settings request) [] (Gives (Answered settings request)) := by
  obtain ⟨credentials, operation⟩ := request
  cases operation with
  | login email password =>
    apply (does_login rfl).andThen
    exact fun _ _ _ _ => does_pure_gives (answered_of_public rfl rfl)
  | logout =>
    apply does_getCsrfProtectedPrincipal.andThen
    rintro k principal _ ⟨hprincipal, hcsrf⟩
    have hguarded : Guarded settings ⟨credentials, .logout⟩ k principal.userId :=
      ⟨⟨principal, rfl, hprincipal⟩, hcsrf⟩
    apply (does_revokeSession rfl hcsrf).andThen
    intro k' _ hk' _
    have hshown : ShownIn k principal.userId .none := hprincipal.shownIn fun _ => .none
    exact does_pure_gives ((hguarded.grow hk').answered (hshown.grow hk'))
  | me =>
    apply does_getCurrentPrincipal.andThen
    intro k principal _ hprincipal
    have hshown := hprincipal.shownIn fun _ => .authenticatedUser
    exact does_pure_gives (answered_of_principal rfl hprincipal hshown)
  | health =>
    apply does_healthCheck.andThen
    exact fun _ _ _ _ => does_pure_gives (answered_of_public rfl rfl)
  | createKnowledgeBase payload =>
    exact does_guarded fun k principal hguarded => does_createKnowledgeBase rfl hguarded
  | listKnowledgeBases limit offset =>
    apply does_read rfl
    exact fun k principal => does_readKnowledge fun _ _ _ hread =>
      .knowledgeBases (listKnowledgeBases_ok hread)
  | getKnowledgeBase knowledgeBaseId =>
    apply does_read rfl
    exact fun k principal => does_readKnowledge fun _ _ _ hread =>
      .knowledgeBase (getKnowledgeBase_ok hread).1 (getKnowledgeBase_ok hread).2
  | uploadDocument knowledgeBaseId file =>
    apply does_getCsrfProtectedPrincipal.andThen
    rintro k principal _ ⟨hprincipal, hcsrf⟩
    have hguarded : Guarded settings ⟨credentials, .uploadDocument knowledgeBaseId file⟩ k
      principal.userId := ⟨⟨principal, rfl, hprincipal⟩, hcsrf⟩
    cases hmedia : file.contentType with
    | none => exact does_throw_gives
    | some mediaType =>
      apply (does_uploadDocument rfl hguarded hmedia).andThen
      exact fun k' _ hk' hshown => does_pure_gives ((hguarded.grow hk').answered hshown)
  | listDocuments knowledgeBaseId limit offset =>
    apply does_read rfl
    exact fun k principal => does_readKnowledge fun _ _ _ hread => .documents (listDocuments_ok hread)
  | getDocument documentId =>
    apply does_read rfl
    exact fun k principal => does_readKnowledge fun _ _ _ hread =>
      .document (getDocument_ok hread).1 (getDocument_ok hread).2
  | getIngestionJob jobId =>
    apply does_read rfl
    exact fun k principal => does_readKnowledge fun _ _ _ hread =>
      .ingestionJob (getIngestionJob_ok hread).1 (getIngestionJob_ok hread).2
  | retryIngestionJob jobId =>
    exact does_guarded fun k principal hguarded => does_retryIngestionJob rfl hguarded
  | retrieveAuthoritativeEvidence knowledgeBaseId payload =>
    apply does_getCsrfProtectedAuthenticationProof.andThen
    rintro k proof _ ⟨hprincipal, hcsrf⟩
    have hguarded : Guarded settings
        ⟨credentials, .retrieveAuthoritativeEvidence knowledgeBaseId payload⟩ k proof.principal.userId :=
      ⟨⟨proof.principal, rfl, hprincipal⟩, hcsrf⟩
    dsimp only
    split
    · exact Does.andThen (P := fun _ _ => False) does_throw_gives fun _ _ _ hfalse => hfalse.elim
    · apply does_retrieveEvidence.andThen
      exact fun k' _ hk' hshown => does_pure_gives ((hguarded.grow hk').answered hshown)

end Serve
end AgenticRag.Api

import AgenticRag.Lib.Machine
import AgenticRag.Services.RebuildAccounts
import AgenticRag.Workers.AwaitUntilStopped

/-! The rebuild of a knowledge base in `run_command`: its exit code says what became of the rebuild. -/
namespace AgenticRag.Workers
open Lib Python Db Ingestion Services

/-- `_result_has_failures`. -/
def resultHasFailures (result : RebuildResult) : Bool := !result.failures.isEmpty

/-- What `run_command` returns for what `_await_until_stopped` returned. -/
def rebuildExitCode : Option RebuildResult → Nat
  | none => 130
  | some result => (resultHasFailures result).toNat

/-- `run_command` in its call of `_await_until_stopped`. -/
structure RunCommand where
  stopSet : Bool
  call : AwaitUntilStopped RebuildError RebuildResult

inductive CommandAction where
  | call (action : CallAction RebuildError RebuildResult)
  | requestStop

namespace RunCommand

def start (stopSet : Bool) : RunCommand := ⟨stopSet, .start⟩

def step (s : RunCommand) : CommandAction → Option RunCommand
  | .call action => (s.call.step s.stopSet action).map ({ s with call := · })
  | .requestStop => some { s with stopSet := true }

def exitCode (s : RunCommand) : Option Nat :=
  match s.call.point with
  | .ended (.returned result) => some (rebuildExitCode result)
  | .ended (.raised _) | .ended .cancelled | .wait | .join | .handler | .stopWait _ => none

end RunCommand

def runCommand : Machine RunCommand CommandAction := ⟨RunCommand.step⟩

/-- The task of the rebuild ends with what the rebuild returns or raises, or cancelled. -/
def EndsAs (rebuilt : Except RebuildError RebuildResult) : CommandAction → Prop
  | .call (.operationEnds (.returned result)) => rebuilt = .ok result
  | .call (.operationEnds (.raised error)) => rebuilt = .error error
  | _ => True

namespace RunCommand
variable {rebuilt : Except RebuildError RebuildResult} {s t : RunCommand} {action : CommandAction}
  {actions : List CommandAction} {stopSet : Bool}

/-- The call is sound, and its task returned only what the rebuild returns. -/
structure Sound (rebuilt : Except RebuildError RebuildResult) (s : RunCommand) : Prop where
  call : s.call.Sound (s.stopSet = true) True
  returned : ∀ result, s.call.processing = .done (.returned result) → rebuilt = .ok result

theorem sound_start : (start stopSet).Sound rebuilt :=
  ⟨AwaitUntilStopped.sound_start, by rintro _ ⟨⟩⟩

theorem Sound.step (h : s.Sound rebuilt) (hends : EndsAs rebuilt action) (hstep : s.step action = some t) :
    t.Sound rebuilt := by
  cases action with
  | requestStop =>
    cases hstep
    exact ⟨h.call.mono (fun _ => rfl) id, h.returned⟩
  | call action =>
    obtain ⟨call, hcall, rfl⟩ := Option.map_eq_some_iff.mp hstep
    refine ⟨h.call.step id (fun _ => trivial) hcall, fun result hdone => ?_⟩
    rcases AwaitUntilStopped.done_of_step hcall hdone with hbefore | rfl
    · exact h.returned result hbefore
    · exact hends

theorem Sound.run (hends : runCommand.Allowed (fun _ action => EndsAs rebuilt action) (start stopSet) actions)
    (hrun : runCommand.run (start stopSet) actions = some s) : s.Sound rebuilt :=
  Machine.run_invariant_of_allowed (fun _ _ _ h hC hstep => h.step hC hstep) sound_start hends hrun

/-- A command that returns has joined its tasks, and its exit code is that of a stop or of what the
rebuild returned. -/
theorem Sound.exitCode (h : s.Sound rebuilt) {code : Nat} (hcode : s.exitCode = some code) :
    s.call.Joined ∧ (code = 130 ∧ s.stopSet = true ∨
      ∃ result, rebuilt = .ok result ∧ code = (resultHasFailures result).toNat) := by
  have hpoint := h.call.point
  unfold RunCommand.exitCode at hcode
  split at hcode
  case h_1 result hended =>
    rw [hended] at hpoint
    obtain rfl := Option.some.inj hcode
    refine ⟨hpoint.1, ?_⟩
    cases result with
    | none => exact .inl ⟨rfl, hpoint.2⟩
    | some result => exact .inr ⟨result, h.returned result hpoint.2, rfl⟩
  all_goals cases hcode

end RunCommand

section Rebuilds
variable {svc : IngestionProcessingService} {environments : UUID → RebuildEnvironment} {maxChunks : Int}
  {documents : List Document} {service service' : IndexService} {result : RebuildResult}

theorem indexed_of_no_failures (h : Accounts svc environments maxChunks documents service service' result)
    (hnone : result.failures = []) : ∀ document ∈ documents,
      Indexed svc (environments document.id) maxChunks document.id service'.records := by
  intro document hmem
  rcases h.each document hmem with hnamed | ⟨_, hindexed⟩
  · rw [RebuildResult.named, hnone] at hnamed
    cases hnamed
  · exact hindexed

theorem named_of_failures (h : Accounts svc environments maxChunks documents service service' result)
    (hsome : result.failures ≠ []) : ∃ document ∈ documents, result.named document.id = 1 := by
  obtain ⟨failure, hfailure⟩ := List.exists_mem_of_ne_nil _ hsome
  obtain ⟨document, hmem, hid⟩ := h.listed failure hfailure
  refine ⟨document, hmem, (h.each document hmem).resolve_right fun hnamed => ?_⟩
  have hkept := List.filter_eq_nil_iff.mp (List.length_eq_zero_iff.mp hnamed.1) failure hfailure
  exact hkept (beq_iff_eq.mpr hid.symm)

/-- However stops, cancellations and the ends of its tasks interleave, the rebuild command of a
knowledge base exits with 130 only once a stop was requested, with 0 only if every document is indexed,
and with 1 only if a document failed. -/
theorem rebuild_exit_codes {environment : KnowledgeBaseEnvironment} {knowledgeBaseId : UUID}
    {maxDocuments : Int} {owner : UUID → UUID} {world world' : RebuildWorld}
    {rebuilt : Except RebuildError RebuildResult} {stopSet : Bool} {actions : List CommandAction}
    {s : RunCommand} {code : Nat} (hrows : ∀ documentId, RowsOwned owner (environment.documents documentId))
    (hindex : OwnedBy owner world.service.records)
    (hrebuild : rebuildKnowledgeBase svc environment knowledgeBaseId maxDocuments maxChunks world =
      (rebuilt, world'))
    (hends : runCommand.Allowed (fun _ action => EndsAs rebuilt action) (.start stopSet) actions)
    (hrun : runCommand.run (.start stopSet) actions = some s) (hcode : s.exitCode = some code) :
    s.call.Joined ∧ (code = 130 ∧ s.stopSet = true ∨
      ∃ (db : Database) (documents : List Document) (result : RebuildResult), environment.listed = .ok db ∧
        documents.Perm (db.documents.rows.filter fun document => document.knowledgeBaseId = knowledgeBaseId) ∧
        rebuilt = .ok result ∧
        (code = 0 ∧ (∀ document ∈ documents,
            Indexed svc (environment.documents document.id) maxChunks document.id world'.service.records) ∨
          code = 1 ∧ ∃ document ∈ documents, result.named document.id = 1)) := by
  obtain ⟨hjoined, hstopped | ⟨result, rfl, rfl⟩⟩ := (RunCommand.Sound.run hends hrun).exitCode hcode
  · exact ⟨hjoined, .inl hstopped⟩
  obtain ⟨hmax, db, documents, entries, hdb, hperm, hadds, hresult, rfl⟩ := rebuildKnowledgeBase_ok hrebuild
  have haccounts := accounts_of_entries hmax (nodup_of_perm_rows hperm)
    (fun document _ => hrows document.id) hindex hadds
  rw [← hresult] at haccounts
  refine ⟨hjoined, .inr ⟨db, documents, result, hdb, hperm, rfl, ?_⟩⟩
  cases hfailures : result.failures with
  | nil =>
    refine .inl ⟨?_, indexed_of_no_failures haccounts hfailures⟩
    rw [resultHasFailures, hfailures]
    rfl
  | cons failure rest =>
    refine .inr ⟨?_, named_of_failures haccounts (by rw [hfailures]; exact List.cons_ne_nil _ _)⟩
    rw [resultHasFailures, hfailures]
    rfl

end Rebuilds

section Example

/-- The rebuild ends, and its command after it. -/
def exitActions (result : RebuildResult) : List CommandAction :=
  [.call (.operationEnds (.returned result)), .call .resume, .call .stopWaitEnds, .call .resume]

theorem rebuild_exit_codes_mixed : ∃ (result : RebuildResult) (s : RunCommand) (code : Nat)
    (documents : List Document), runCommand.run (.start false) (exitActions result) = some s ∧
    s.exitCode = some code ∧ s.call.Joined ∧ code = 1 ∧
    ∃ document ∈ documents, result.named document.id = 1 := by
  have hreturned : (rebuildKnowledgeBase (rebuildProcess 0).svc mixedEnvironment 3 5 2
      mixedWorld).1.toOption.any (fun result => !result.failures.isEmpty) = true := by decide +kernel
  obtain ⟨result, hresult, hfailures⟩ := (Option.any_eq_true _ _).mp hreturned
  generalize hrebuild : rebuildKnowledgeBase (rebuildProcess 0).svc mixedEnvironment 3 5 2 mixedWorld = outcome
    at hresult
  obtain ⟨rebuilt, world'⟩ := outcome
  obtain rfl : rebuilt = .ok result := toOption_eq_some.mp hresult
  have hexit : rebuildExitCode (some result) = 1 := by
    have hfails : resultHasFailures result = true := hfailures
    rw [rebuildExitCode, hfails]
    rfl
  obtain ⟨hjoined, ⟨hcode, _⟩ | ⟨_, documents, returned, _, _, heq, ⟨hcode, _⟩ | ⟨hcode, hnamed⟩⟩⟩ :=
    @rebuild_exit_codes _ _ _ _ _ _ _ _ _ false (exitActions result) _ _ mixedEnvironment_owned
      (ownedBy_upsert (by decide) (by decide)) hrebuild ⟨rfl, fun _ _ => ⟨trivial, fun _ _ => ⟨trivial,
        fun _ _ => ⟨trivial, fun _ _ => trivial⟩⟩⟩⟩ rfl rfl
  · exact absurd (hexit.symm.trans hcode) (by decide)
  · exact absurd (hexit.symm.trans hcode) (by decide)
  · obtain rfl := Except.ok.inj heq
    exact ⟨result, _, _, documents, rfl, rfl, hjoined, hcode, hnamed⟩

end Example
end AgenticRag.Workers

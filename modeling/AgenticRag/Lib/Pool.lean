import AgenticRag.Lib.Machine
import AgenticRag.Lib.Programs
import AgenticRag.Lib.Slots

/-! Any number of clients, each with the program of its request, on one shared state. Their actions
interleave in any order, a client can disappear between two of its own, and others write to the
state under a relation. What one program guarantees, every action of the pool is. -/
namespace AgenticRag.Lib
open Program

/-- A client that has not ended: its request, what it did so far and what it does next. -/
structure Client (ρ σ ι α : Type) where
  request : ρ
  history : History σ ι
  program : Program σ ι α

/-- A client that has its result. -/
structure Served (ρ σ ι α : Type) where
  id : Nat
  request : ρ
  history : History σ ι
  result : α

structure Pool (ρ σ ι α : Type) where
  state : σ
  clients : Nat → Option (Client ρ σ ι α)
  issued : Nat
  served : List (Served ρ σ ι α)

inductive PoolAction (ρ σ ι : Type) where
  | start (request : ρ)
  | step (id : Nat) (input : ι)
  | kill (id : Nat)
  | elsewhere (state : σ)

namespace Pool
variable {ρ σ ι α : Type}

def init (state : σ) : Pool ρ σ ι α := ⟨state, fun _ => none, 0, []⟩

/-- Client `id` goes on with a program; one without further actions has its result. -/
def settle (p : Pool ρ σ ι α) (id : Nat) (request : ρ) (history : History σ ι) :
    Program σ ι α → Pool ρ σ ι α
  | .done result => { p with
      clients := Function.update p.clients id none
      served := ⟨id, request, history, result⟩ :: p.served }
  | .act write next => { p with
      clients := Function.update p.clients id (some ⟨request, history, .act write next⟩) }

/-- A step of client `id` at an input. -/
def advance (p : Pool ρ σ ι α) (id : Nat) (input : ι) (client : Client ρ σ ι α) :
    Option (Pool ρ σ ι α) :=
  match client.program with
  | .done _ => none
  | .act write next =>
    let q := { p with state := write input p.state }
    some (q.settle id client.request (client.history ++ [(input, p.state)]) (next input p.state))

section Machine
variable (serve : ρ → Program σ ι α) (other : σ → σ → Prop) [DecidableRel other]

def step (p : Pool ρ σ ι α) : PoolAction ρ σ ι → Option (Pool ρ σ ι α)
  | .start request =>
    some ({ p with issued := p.issued + 1 }.settle p.issued request [] (serve request))
  | .step id input => (p.clients id).bind (p.advance id input)
  | .kill id => (p.clients id).map fun _ => { p with clients := Function.update p.clients id none }
  | .elsewhere state => if other p.state state then some { p with state } else none

def machine : Machine (Pool ρ σ ι α) (PoolAction ρ σ ι) := ⟨step serve other⟩

end Machine

section Settling
variable {p : Pool ρ σ ι α} {id id' : Nat} {request : ρ} {history : History σ ι}
  {program : Program σ ι α} {client : Client ρ σ ι α}

@[simp] theorem settle_state : (p.settle id request history program).state = p.state := by
  cases program <;> rfl

@[simp] theorem settle_issued : (p.settle id request history program).issued = p.issued := by
  cases program <;> rfl

/-- The clients after one is settled: the others, and itself unless it has its result. -/
theorem of_settle_client (h : (p.settle id request history program).clients id' = some client) :
    id' = id ∧ client = ⟨request, history, program⟩ ∨ id' ≠ id ∧ p.clients id' = some client := by
  cases program with
  | done result =>
    rcases update_eq_some.mp h with ⟨_, hnone⟩ | hother
    · cases hnone
    · exact .inr hother
  | act write next =>
    rcases update_eq_some.mp h with ⟨rfl, hself⟩ | hother
    · exact .inl ⟨rfl, (Option.some.inj hself).symm⟩
    · exact .inr hother

theorem of_settle_served {served : Served ρ σ ι α}
    (h : served ∈ (p.settle id request history program).served) :
    served ∈ p.served ∨ served.id = id ∧ served.request = request ∧ served.history = history ∧
      program = .done served.result := by
  cases program with
  | done result =>
    rcases List.mem_cons.mp h with rfl | h
    · exact .inr ⟨rfl, rfl, rfl, rfl⟩
    · exact .inl h
  | act write next => exact .inl h

end Settling

section Runs
variable {serve : ρ → Program σ ι α} {other : σ → σ → Prop} [DecidableRel other]
  {p q : Pool ρ σ ι α} {s : σ} {id : Nat} {input : ι} {as : List (PoolAction ρ σ ι)}
  {client : Client ρ σ ι α}

/-- What a step of a client does. -/
theorem step_client (h : (machine serve other).step p (.step id input) = some q) :
    ∃ client write next, p.clients id = some client ∧ client.program = .act write next ∧
      q = { p with state := write input p.state }.settle id client.request
        (client.history ++ [(input, p.state)]) (next input p.state) := by
  obtain ⟨client, hclient, h⟩ := Option.bind_eq_some_iff.mp h
  unfold advance at h
  split at h
  · cases h
  · rename_i write next hprogram
    exact ⟨client, write, next, hclient, hprogram, (Option.some.inj h).symm⟩

/-- The first action of a split run is followed by the rest. -/
structure Took (serve : ρ → Program σ ι α) (other : σ → σ → Prop) [DecidableRel other] (s : σ)
    (as : List (PoolAction ρ σ ι)) (id : Nat) (request : ρ) (history : History σ ι) (input : ι)
    (state : σ) : Prop where
  split : ∃ before after p client, as = before ++ .step id input :: after ∧
    (machine serve other).run (init s) before = some p ∧ p.state = state ∧
      p.clients id = some client ∧ client.request = request ∧ client.history = history

/-- A client did what its history says, in this order, in the run so far. -/
def Recorded (serve : ρ → Program σ ι α) (other : σ → σ → Prop) [DecidableRel other] (s : σ)
    (as : List (PoolAction ρ σ ι)) (id : Nat) (request : ρ) (history : History σ ι) : Prop :=
  ∀ earlier input state later, history = earlier ++ (input, state) :: later →
    Took serve other s as id request earlier input state

theorem Took.append {bs : List (PoolAction ρ σ ι)} {request : ρ} {history : History σ ι} {state : σ}
    (h : Took serve other s as id request history input state) :
    Took serve other s (as ++ bs) id request history input state := by
  obtain ⟨before, after, p, client, rfl, hrest⟩ := h.split
  exact ⟨before, after ++ bs, p, client, by simp, hrest⟩

theorem Recorded.append {bs : List (PoolAction ρ σ ι)} {request : ρ} {history : History σ ι}
    (h : Recorded serve other s as id request history) :
    Recorded serve other s (as ++ bs) id request history :=
  fun earlier input state later heq => (h earlier input state later heq).append

theorem Recorded.nil {request : ρ} : Recorded serve other s as id request [] := by
  intro earlier input state later h
  cases earlier <;> cases h

/-- What a client did is a step of the run. -/
theorem Recorded.of_mem {request : ρ} {history : History σ ι} {x : ι × σ}
    (h : Recorded serve other s as id request history) (hx : x ∈ history) :
    ∃ before after p, as = before ++ .step id x.1 :: after ∧
      (machine serve other).run (init s) before = some p ∧ p.state = x.2 := by
  obtain ⟨earlier, later, hhistory⟩ := List.append_of_mem hx
  obtain ⟨before, after, p, _, hsplit, hrun, hstate, _⟩ := (h earlier x.1 x.2 later hhistory).split
  exact ⟨before, after, p, hsplit, hrun, hstate⟩

/-- A step taken now is one more record. -/
theorem Recorded.step (hrun : (machine serve other).run (init s) as = some p)
    (hclient : p.clients id = some client)
    (h : Recorded serve other s as id client.request client.history) :
    Recorded serve other s (as ++ [.step id input]) id client.request
      (client.history ++ [(input, p.state)]) := by
  intro earlier i t later heq
  rcases List.eq_nil_or_concat later with rfl | ⟨later, last, rfl⟩
  · obtain ⟨hhistory, hlast⟩ := List.append_inj' heq rfl
    obtain ⟨rfl, rfl⟩ := Prod.mk.inj (List.cons.inj hlast).1
    exact ⟨as, [], p, client, rfl, hrun, rfl, hclient, rfl, hhistory⟩
  · rw [List.concat_eq_append, ← List.cons_append, ← List.append_assoc] at heq
    exact (h earlier i t later (List.append_inj' heq rfl).1).append

/-- The invariant: what clients did is in the run, and what they will do is guaranteed. -/
structure Kept (serve : ρ → Program σ ι α) (other : σ → σ → Prop) [DecidableRel other]
    (G : ρ → Guarantee σ ι) (Q : ρ → History σ ι → α → Prop) (s : σ) (as : List (PoolAction ρ σ ι))
    (p : Pool ρ σ ι α) : Prop where
  client : ∀ id client, p.clients id = some client →
    Recorded serve other s as id client.request client.history ∧
      client.program.Meets (G client.request) client.history (Q client.request)
  served : ∀ served ∈ p.served,
    Recorded serve other s as served.id served.request served.history ∧
      Q served.request served.history served.result

variable {G : ρ → Guarantee σ ι} {Q : ρ → History σ ι → α → Prop} {a : PoolAction ρ σ ι}

theorem Kept.append (h : Kept serve other G Q s as p) {bs : List (PoolAction ρ σ ι)} :
    Kept serve other G Q s (as ++ bs) p where
  client id client hclient := ⟨(h.client id client hclient).1.append, (h.client id client hclient).2⟩
  served v hv := ⟨(h.served v hv).1.append, (h.served v hv).2⟩

private theorem Kept.settle (h : Kept serve other G Q s as p) {request : ρ} {history : History σ ι}
    {program : Program σ ι α} (hrecorded : Recorded serve other s as id request history)
    (hmeets : program.Meets (G request) history (Q request)) :
    Kept serve other G Q s as (p.settle id request history program) where
  client id' client hclient := by
    rcases of_settle_client hclient with ⟨rfl, rfl⟩ | ⟨_, hclient⟩
    · exact ⟨hrecorded, hmeets⟩
    · exact h.client id' client hclient
  served v hv := by
    rcases of_settle_served hv with hv | ⟨hid, hrequest, hhistory, hprogram⟩
    · exact h.served v hv
    · subst hprogram
      rw [hid, hrequest, hhistory]
      exact ⟨hrecorded, hmeets⟩

private theorem Kept.step (hserve : ∀ request, (serve request).Meets (G request) [] (Q request))
    (hrun : (machine serve other).run (init s) as = some p) (h : Kept serve other G Q s as p)
    (hstep : (machine serve other).step p a = some q) : Kept serve other G Q s (as ++ [a]) q := by
  cases a with
  | start request =>
    obtain rfl := Option.some.inj hstep
    apply Kept.settle _ .nil (hserve request)
    exact ⟨h.append.client, h.append.served⟩
  | step id input =>
    obtain ⟨client, write, next, hclient, hprogram, rfl⟩ := step_client hstep
    obtain ⟨hrecorded, hmeets⟩ := h.client id client hclient
    rw [hprogram] at hmeets
    apply Kept.settle _ (hrecorded.step hrun hclient) (hmeets input p.state).2
    exact ⟨h.append.client, h.append.served⟩
  | kill id =>
    obtain ⟨_, _, rfl⟩ := Option.map_eq_some_iff.mp hstep
    refine ⟨fun id' client hclient => ?_, h.append.served⟩
    rcases update_eq_some.mp hclient with ⟨_, hnone⟩ | ⟨_, hclient⟩
    · cases hnone
    · exact h.append.client id' client hclient
  | elsewhere state =>
    simp only [machine, Pool.step] at hstep
    split at hstep
    · obtain rfl := Option.some.inj hstep
      exact ⟨h.append.client, h.append.served⟩
    · cases hstep

/-- In every run, each client keeps to the guarantee of its request. -/
theorem run_kept (hserve : ∀ request, (serve request).Meets (G request) [] (Q request))
    (hrun : (machine serve other).run (init s) as = some p) : Kept serve other G Q s as p := by
  apply Machine.run_history (C := fun _ _ => True) _ _ Machine.allowed_true hrun
  · exact fun as r a q hr hI _ hstep => hI.step hserve hr hstep
  · constructor
    · intro _ _ hclient
      cases hclient
    · intro _ hserved
      cases hserved

/-- What an action of a client does to the state is guaranteed by its request and its past. -/
theorem step_guaranteed (hserve : ∀ request, (serve request).Meets (G request) [] (Q request))
    (hrun : (machine serve other).run (init s) as = some p)
    (hstep : (machine serve other).step p (.step id input) = some q) :
    ∃ client, p.clients id = some client ∧
      Recorded serve other s as id client.request client.history ∧
        G client.request client.history input p.state q.state := by
  obtain ⟨client, write, next, hclient, hprogram, rfl⟩ := step_client hstep
  obtain ⟨hrecorded, hmeets⟩ := (run_kept hserve hrun).client id client hclient
  rw [hprogram] at hmeets
  refine ⟨client, hclient, hrecorded, ?_⟩
  rw [settle_state]
  exact (hmeets input p.state).1

/-- The invariant of what programs leave: a client that has a result after an action left the state
as its program says, in a state of the run so far. -/
structure Left (serve : ρ → Program σ ι α) (other : σ → σ → Prop) [DecidableRel other]
    (L : ρ → History σ ι → σ → α → Prop) (s : σ) (as : List (PoolAction ρ σ ι)) (p : Pool ρ σ ι α) :
    Prop where
  client : ∀ id client, p.clients id = some client →
    client.program.Leaves (L client.request) client.history
  served : ∀ served ∈ p.served, served.history = [] ∨ ∃ before after q, as = before ++ after ∧
    (machine serve other).run (init s) before = some q ∧
      L served.request served.history q.state served.result

variable {L : ρ → History σ ι → σ → α → Prop}

theorem Left.append (h : Left serve other L s as p) {bs : List (PoolAction ρ σ ι)} :
    Left serve other L s (as ++ bs) p where
  client := h.client
  served v hv := by
    rcases h.served v hv with hnil | ⟨before, after, q, rfl, hrest⟩
    · exact .inl hnil
    · exact .inr ⟨before, after ++ bs, q, List.append_assoc .., hrest⟩

private theorem Left.settle (h : Left serve other L s as p) {request : ρ} {history : History σ ι}
    {program : Program σ ι α} (hleaves : program.Leaves (L request) history)
    (hserved : ∀ result, program = .done result → history = [] ∨ ∃ before after q,
      as = before ++ after ∧ (machine serve other).run (init s) before = some q ∧
        L request history q.state result) :
    Left serve other L s as (p.settle id request history program) where
  client id' client hclient := by
    rcases of_settle_client hclient with ⟨rfl, rfl⟩ | ⟨_, hclient⟩
    · exact hleaves
    · exact h.client id' client hclient
  served v hv := by
    rcases of_settle_served hv with hv | ⟨_, hrequest, hhistory, hprogram⟩
    · exact h.served v hv
    · rw [hrequest, hhistory]
      exact hserved v.result hprogram

private theorem Left.step (hserve : ∀ request, (serve request).Leaves (L request) [])
    (hrun : (machine serve other).run (init s) as = some p) (h : Left serve other L s as p)
    (hstep : (machine serve other).step p a = some q) : Left serve other L s (as ++ [a]) q := by
  have hlast : (machine serve other).run (init s) (as ++ [a]) = some q := by
    rw [Machine.run_append, hrun]
    exact Machine.run_cons_eq_some.mpr ⟨q, hstep, rfl⟩
  cases a with
  | start request =>
    obtain rfl := Option.some.inj hstep
    apply Left.settle _ (hserve request)
    · exact fun _ _ => .inl rfl
    · exact ⟨h.client, h.append.served⟩
  | step id input =>
    obtain ⟨client, write, next, hclient, hprogram, rfl⟩ := step_client hstep
    have hleaves := h.client id client hclient
    rw [hprogram] at hleaves
    obtain ⟨hends, hlater⟩ := hleaves input p.state
    apply Left.settle _ hlater
    · intro result hresult
      refine .inr ⟨_, [], _, (List.append_nil _).symm, hlast, ?_⟩
      rw [settle_state]
      exact hends result hresult
    · exact ⟨h.client, h.append.served⟩
  | kill id =>
    obtain ⟨_, _, rfl⟩ := Option.map_eq_some_iff.mp hstep
    refine ⟨fun id' client hclient => ?_, h.append.served⟩
    rcases update_eq_some.mp hclient with ⟨_, hnone⟩ | ⟨_, hclient⟩
    · cases hnone
    · exact h.client id' client hclient
  | elsewhere state =>
    simp only [machine, Pool.step] at hstep
    split at hstep
    · obtain rfl := Option.some.inj hstep
      exact ⟨h.client, h.append.served⟩
    · cases hstep

/-- In every run, each client leaves the state as its program says. -/
theorem run_left (hserve : ∀ request, (serve request).Leaves (L request) [])
    (hrun : (machine serve other).run (init s) as = some p) : Left serve other L s as p := by
  apply Machine.run_history (C := fun _ _ => True) _ _ Machine.allowed_true hrun
  · exact fun as r a q hr hI _ hstep => hI.step hserve hr hstep
  · constructor
    · intro _ _ hclient
      cases hclient
    · intro _ hserved
      cases hserved

end Runs
end Pool
end AgenticRag.Lib

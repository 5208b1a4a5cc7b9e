import AgenticRag.Lib.Results

/-! Programs of one client on a state that others share. A program takes one action at a time, at
an input of the environment; between two actions anything may happen to the state. -/
namespace AgenticRag.Lib

inductive Program (σ ι α : Type) : Type
  | done (result : α)
  | act (write : ι → σ → σ) (next : ι → σ → Program σ ι α)

namespace Program
variable {σ ι ε α β : Type}

def bind : Program σ ι α → (α → Program σ ι β) → Program σ ι β
  | .done a, f => f a
  | .act write next, f => .act write fun i s => (next i s).bind f

instance : Monad (Program σ ι) where
  pure := .done
  bind := bind

/-- One action, with what it answers and what it leaves of the state. -/
def atomic (action : ι → σ → α × σ) : Program σ ι α :=
  .act (fun i s => (action i s).2) fun i s => .done (action i s).1

/-- The inputs and the states at which a program took its actions. -/
abbrev History (σ ι : Type) := List (ι × σ)

/-- What a program may do to the state at an action, after a history. -/
abbrev Guarantee (σ ι : Type) := History σ ι → ι → σ → σ → Prop

/-- Every action after the history is one of the guarantee, and every result one of `Q`. -/
def Meets (G : Guarantee σ ι) : Program σ ι α → History σ ι → (History σ ι → α → Prop) → Prop
  | .done a, h, Q => Q h a
  | .act write next, h, Q => ∀ i s, G h i s (write i s) ∧ (next i s).Meets G (h ++ [(i, s)]) Q

section Rules
variable {G G' : Guarantee σ ι} {p : Program σ ι α} {f : α → Program σ ι β} {h : History σ ι}
  {Q R : History σ ι → α → Prop} {S : History σ ι → β → Prop}

@[simp] theorem meets_done {a : α} : (done a : Program σ ι α).Meets G h Q ↔ Q h a := Iff.rfl

@[simp] theorem meets_pure {a : α} : (pure a : Program σ ι α).Meets G h Q ↔ Q h a := Iff.rfl

/-- The rule of consequence, for the histories that go on from the first. -/
theorem Meets.mono (hp : p.Meets G h R) (hG : ∀ k i s t, h <+: k → G k i s t → G' k i s t)
    (hQ : ∀ k a, h <+: k → R k a → Q k a) : p.Meets G' h Q := by
  induction p generalizing h with
  | done a => exact hQ h a (List.prefix_refl h) hp
  | act write next ih =>
    intro i s
    have hlonger : h <+: h ++ [(i, s)] := List.prefix_append h _
    refine ⟨hG h i s _ (List.prefix_refl h) (hp i s).1, ?_⟩
    apply ih i s (hp i s).2
    · exact fun k j r t hk => hG k j r t (hlonger.trans hk)
    · exact fun k a hk => hQ k a (hlonger.trans hk)

theorem Meets.imp (hp : p.Meets G h R) (hQ : ∀ k a, h <+: k → R k a → Q k a) : p.Meets G h Q :=
  hp.mono (fun _ _ _ _ _ hG => hG) hQ

theorem Meets.bind (hp : p.Meets G h R)
    (hf : ∀ k a, h <+: k → R k a → (f a).Meets G k S) : (p >>= f).Meets G h S := by
  induction p generalizing h with
  | done a => exact hf h a (List.prefix_refl h) hp
  | act write next ih =>
    intro i s
    refine ⟨(hp i s).1, ?_⟩
    apply ih i s (hp i s).2
    exact fun k a hk => hf k a ((List.prefix_append h _).trans hk)

theorem Meets.and (hp : p.Meets G h Q) (hr : p.Meets G' h R) :
    p.Meets (fun k i s t => G k i s t ∧ G' k i s t) h fun k a => Q k a ∧ R k a := by
  induction p generalizing h with
  | done a => exact ⟨hp, hr⟩
  | act write next ih => exact fun i s => ⟨⟨(hp i s).1, (hr i s).1⟩, ih i s (hp i s).2 (hr i s).2⟩

/-- Any program does something and gives something. -/
theorem meets_true (p : Program σ ι α) (h : History σ ι) :
    p.Meets (fun _ _ _ _ => True) h fun _ _ => True := by
  induction p generalizing h with
  | done a => trivial
  | act write next ih => exact fun i s => ⟨trivial, ih i s _⟩

/-- A program that ends by an action leaves a state that `L` relates to its history and its result. -/
def Leaves (L : History σ ι → σ → α → Prop) : Program σ ι α → History σ ι → Prop
  | .done _, _ => True
  | .act write next, h => ∀ i s, (∀ a, next i s = .done a → L (h ++ [(i, s)]) (write i s) a) ∧
      (next i s).Leaves L (h ++ [(i, s)])

variable {L K : History σ ι → σ → α → Prop} {L' : History σ ι → σ → β → Prop}

theorem Leaves.imp (hp : p.Leaves K h) (hL : ∀ k t a, K k t a → L k t a) : p.Leaves L h := by
  induction p generalizing h with
  | done a => trivial
  | act write next ih =>
    intro i s
    exact ⟨fun a ha => hL _ _ a ((hp i s).1 a ha), ih i s (hp i s).2⟩

/-- What the result says of every state it says of the one that is left. -/
theorem Meets.leaves (hp : p.Meets G h Q) (hL : ∀ k t a, Q k a → L k t a) : p.Leaves L h := by
  induction p generalizing h with
  | done a => trivial
  | act write next ih =>
    intro i s
    have hnext := (hp i s).2
    refine ⟨fun a ha => ?_, ih i s hnext⟩
    rw [ha] at hnext
    exact hL _ _ a hnext

/-- The last action is one of the second program, unless this one takes none. -/
theorem Leaves.bind (hp : p.Meets G h R)
    (hends : p.Leaves (fun k t a => ∀ b, f a = .done b → L' k t b) h)
    (hf : ∀ k a, h <+: k → R k a → (f a).Leaves L' k) : (p >>= f).Leaves L' h := by
  induction p generalizing h with
  | done a => exact hf h a (List.prefix_refl h) hp
  | act write next ih =>
    intro i s
    obtain ⟨hlast, hlater⟩ := hends i s
    refine ⟨fun b hb => ?_, ?_⟩
    · change (next i s).bind f = done b at hb
      cases hnext : next i s with
      | done a =>
        rw [hnext] at hb
        exact hlast a hnext b hb
      | act write' next' =>
        rw [hnext] at hb
        cases hb
    · exact ih i s (hp i s).2 hlater fun k a hk => hf k a ((List.prefix_append h _).trans hk)

end Rules

/-- A program that may raise. -/
abbrev Task (σ ι ε α : Type) := ExceptT ε (Program σ ι) α

section Tasks
variable {G : Guarantee σ ι} {p : Task σ ι ε α} {f : α → Task σ ι ε β} {h : History σ ι}
  {R : History σ ι → Except ε α → Prop} {Q : History σ ι → Except ε β → Prop}

/-- What a task may do, what it returns and what it raises. -/
def Does (G : Guarantee σ ι) (p : Task σ ι ε α) (h : History σ ι)
    (Q : History σ ι → Except ε α → Prop) : Prop := Meets G p.run h Q

def liftTask (x : Except ε α) : Task σ ι ε α := ExceptT.mk (.done x)

/-- One action that may raise. -/
def attempt (action : ι → σ → Except ε α × σ) : Task σ ι ε α := ExceptT.mk (atomic action)

/-- `try: p finally: cleanup`, the cleanup for what `p` raises. -/
def onError (p : Task σ ι ε α) (cleanup : Task σ ι ε Unit) : Task σ ι ε α :=
  tryCatch p fun e => do
    cleanup
    throw e

theorem Does.imp {S : History σ ι → Except ε α → Prop} (hp : Does G p h R)
    (hQ : ∀ k x, h <+: k → R k x → S k x) : Does G p h S := Meets.imp hp hQ

theorem Does.bind (hp : Does G p h R) (hok : ∀ k a, h <+: k → R k (.ok a) → Does G (f a) k Q)
    (herror : ∀ k e, h <+: k → R k (.error e) → Q k (.error e)) : Does G (p >>= f) h Q := by
  apply Meets.bind hp
  intro k x hk hx
  cases x with
  | ok a => exact hok k a hk hx
  | error e => exact herror k e hk hx

/-- A postcondition on what a task returns, whatever it raises. -/
def Gives (P : History σ ι → α → Prop) : History σ ι → Except ε α → Prop :=
  fun k x => ∀ a, x = .ok a → P k a

theorem gives_error {P : History σ ι → α → Prop} {e : ε} : Gives P h (.error e) := by
  rintro a ⟨⟩

theorem gives_ok {P : History σ ι → α → Prop} {a : α} :
    Gives P h (.ok a : Except ε α) ↔ P h a := by
  simp [Gives]

variable {P : History σ ι → α → Prop} {S : History σ ι → β → Prop}

theorem Does.weaken {P' : History σ ι → α → Prop} (hp : Does G p h (Gives P))
    (hP : ∀ k a, h <+: k → P k a → P' k a) : Does G p h (Gives P') :=
  hp.imp fun k _ hk hx a ha => hP k a hk (hx a ha)

/-- Any task does something and gives something. -/
theorem does_true (p : Task σ ι ε α) : Does (fun _ _ _ _ => True) p h (Gives fun _ _ => True) :=
  Meets.imp (meets_true p.run h) fun _ _ _ _ _ _ => trivial

/-- One task after another: only what the first returns is handed on. -/
theorem Does.andThen (hp : Does G p h (Gives P))
    (hf : ∀ k a, h <+: k → P k a → Does G (f a) k (Gives S)) : Does G (p >>= f) h (Gives S) := by
  apply Does.bind hp
  · exact fun k a hk ha => hf k a hk (ha a rfl)
  · exact fun k e _ _ => gives_error

theorem does_lift_gives {x : Except ε α} (hx : ∀ a, x = .ok a → P h a) :
    Does G (liftTask x) h (Gives P) := hx

theorem does_throw_gives {e : ε} : Does G (throw e : Task σ ι ε α) h (Gives P) := gives_error

theorem does_pure_gives {a : α} (ha : P h a) : Does G (pure a : Task σ ι ε α) h (Gives P) :=
  gives_ok.mpr ha

theorem does_attempt_gives {action : ι → σ → Except ε α × σ}
    (hG : ∀ i s, G h i s (action i s).2)
    (hP : ∀ i s a, (action i s).1 = .ok a → P (h ++ [(i, s)]) a) :
    Does G (attempt action) h (Gives P) := fun i s => ⟨hG i s, hP i s⟩

/-- A handler runs after what the task did, and gives what the task gives. -/
theorem Does.tryCatch {handler : ε → Task σ ι ε α} (hp : Does G p h (Gives P))
    (hhandler : ∀ k e, h <+: k → Does G (handler e) k (Gives P)) :
    Does G (tryCatch p handler) h (Gives P) := by
  apply Meets.bind hp
  intro k x hk hx
  cases x with
  | ok a => exact hx
  | error e => exact hhandler k e hk

theorem Does.cleanUp {cleanup : Task σ ι ε Unit} (hp : Does G p h (Gives P))
    (hcleanup : ∀ k, h <+: k → Does G cleanup k (Gives fun _ _ => True)) :
    Does G (onError p cleanup) h (Gives P) := by
  apply hp.tryCatch
  intro k e hk
  exact (hcleanup k hk).andThen fun _ _ _ _ => does_throw_gives

/-- A condition on what a task raises, whatever it returns. -/
def Fails (E : History σ ι → ε → Prop) : History σ ι → Except ε α → Prop :=
  fun k x => ∀ e, x = .error e → E k e

theorem fails_ok {E : History σ ι → ε → Prop} {a : α} : Fails E h (.ok a) := by
  rintro e ⟨⟩

theorem fails_error {E : History σ ι → ε → Prop} {e : ε} :
    Fails E h (.error e : Except ε α) ↔ E h e := by
  simp [Fails]

theorem does_pure_fails {E : History σ ι → ε → Prop} {a : α} :
    Does G (pure a : Task σ ι ε α) h (Fails E) := fails_ok

theorem does_throw_fails {E : History σ ι → ε → Prop} {e : ε} (he : E h e) :
    Does G (throw e : Task σ ι ε α) h (Fails E) := fails_error.mpr he

theorem does_attempt_fails {E : ε → Prop} {action : ι → σ → Except ε α × σ}
    (hE : ∀ i s e, (action i s).1 = .error e → E e) :
    Does (fun _ _ _ _ => True) (attempt action) h (Fails fun _ => E) :=
  fun i s => ⟨trivial, hE i s⟩

theorem Does.fails {E : ε → Prop} (hp : Does G p h (Fails fun _ => E))
    (hf : ∀ k a, Does G (f a) k (Fails fun _ => E)) : Does G (p >>= f) h (Fails fun _ => E) := by
  apply hp.bind
  · exact fun k a _ _ => hf k a
  · exact fun k e _ he => fails_error.mpr (fails_error.mp he)

/-- What is raised after a first task comes after what this one gives. -/
theorem Does.failsAfter {E : History σ ι → ε → Prop} (hgives : Does G p h (Gives P))
    (hfails : Does (fun _ _ _ _ => True) p h (Fails E))
    (hf : ∀ k a, h <+: k → P k a → Does (fun _ _ _ _ => True) (f a) k (Fails E)) :
    Does (fun _ _ _ _ => True) (p >>= f) h (Fails E) := by
  apply Does.bind ((Meets.and hgives hfails).mono (fun _ _ _ _ _ _ => trivial) fun _ _ _ hx => hx)
  · exact fun k a hk hx => hf k a hk (hx.1 a rfl)
  · exact fun k e _ hx => fails_error.mpr (fails_error.mp hx.2)

/-- A task that takes no action has no last one. -/
theorem leaves_lift {L : History σ ι → σ → Except ε α → Prop} {x : Except ε α} :
    Leaves L (liftTask x : Task σ ι ε α).run h := trivial

theorem leaves_attempt {L : History σ ι → σ → Except ε α → Prop} {action : ι → σ → Except ε α × σ}
    (hL : ∀ i s, L (h ++ [(i, s)]) (action i s).2 (action i s).1) : Leaves L (attempt action).run h :=
  fun i s => ⟨fun _ ha => Program.done.inj ha ▸ hL i s, trivial⟩

/-- A task after another, if nothing is said of a state that is left with an exception. -/
theorem leaves_andThen {L : History σ ι → σ → Except ε β → Prop} (hp : Does G p h (Gives P))
    (hends : Leaves (fun k t x => ∀ a y, x = .ok a → (f a).run = .done y → L k t y) p.run h)
    (herror : ∀ k t e, L k t (.error e)) (hf : ∀ k a, h <+: k → P k a → Leaves L (f a).run k) :
    Leaves L (p >>= f).run h := by
  refine Leaves.bind hp (hends.imp fun k t x hx y hy => ?_) fun k x hk hx => ?_
  · cases x with
    | ok a => exact hx a y rfl hy
    | error e => exact Program.done.inj hy ▸ herror k t e
  · cases x with
    | ok a => exact hf k a hk (hx a rfl)
    | error e => trivial

end Tasks
end Program
end AgenticRag.Lib

import AgenticRag.Lib.Results

/-! Computations that may raise and that record the calls they make. -/
namespace AgenticRag.Lib

universe u

structure Traced (ε τ α : Type u) where
  calls : List τ
  outcome : Except ε α

namespace Traced
variable {ε τ α β : Type u}

/-- A computation without calls. -/
def lift (x : Except ε α) : Traced ε τ α := ⟨[], x⟩

/-- One call with its outcome. -/
def call (c : τ) (x : Except ε α) : Traced ε τ α := ⟨[c], x⟩

def bind (x : Traced ε τ α) (f : α → Traced ε τ β) : Traced ε τ β :=
  match x.outcome with
  | .error e => ⟨x.calls, .error e⟩
  | .ok a => ⟨x.calls ++ (f a).calls, (f a).outcome⟩

instance : Monad (Traced ε τ) where
  pure a := lift (.ok a)
  bind := bind

/-- `except caught: raise replacement`; the calls made stay made. -/
def rescue (caught : ε → Bool) (replacement : ε) (x : Traced ε τ α) : Traced ε τ α :=
  ⟨x.calls, Lib.rescue caught replacement x.outcome⟩

variable {x : Traced ε τ α} {f : α → Traced ε τ β}

@[simp] theorem outcome_lift (x : Except ε α) : (lift x : Traced ε τ α).outcome = x := rfl
@[simp] theorem calls_lift (x : Except ε α) : (lift x : Traced ε τ α).calls = [] := rfl
@[simp] theorem outcome_call (c : τ) (x : Except ε α) : (call c x).outcome = x := rfl
@[simp] theorem calls_call (c : τ) (x : Except ε α) : (call c x).calls = [c] := rfl
@[simp] theorem outcome_pure (a : α) : (pure a : Traced ε τ α).outcome = .ok a := rfl
@[simp] theorem calls_pure (a : α) : (pure a : Traced ε τ α).calls = [] := rfl

@[simp] theorem outcome_rescue {caught : ε → Bool} {replacement : ε} :
    (rescue caught replacement x).outcome = Lib.rescue caught replacement x.outcome := rfl

@[simp] theorem calls_rescue {caught : ε → Bool} {replacement : ε} :
    (rescue caught replacement x).calls = x.calls := rfl

@[simp] theorem outcome_bind : (x >>= f).outcome = x.outcome >>= fun a => (f a).outcome := by
  change (bind x f).outcome = _
  cases h : x.outcome with
  | error e => simp [bind, h, Bind.bind, Except.bind]
  | ok a => simp [bind, h, Bind.bind, Except.bind]

theorem calls_bind_ok {a : α} (h : x.outcome = .ok a) :
    (x >>= f).calls = x.calls ++ (f a).calls := by
  change (bind x f).calls = _
  simp [bind, h]

theorem calls_bind_error {e : ε} (h : x.outcome = .error e) : (x >>= f).calls = x.calls := by
  change (bind x f).calls = _
  simp [bind, h]

/-- Continuations that agree on what the first part returns. -/
theorem bind_congr {g : α → Traced ε τ β} (h : ∀ a, x.outcome = .ok a → f a = g a) :
    x >>= f = x >>= g := by
  change bind x f = bind x g
  cases hx : x.outcome with
  | error e => simp only [bind, hx]
  | ok a => simp only [bind, hx, h a hx]

/-- A call of the whole is a call of the first part, or the first part returned. -/
theorem mem_calls_bind {c : τ} :
    c ∈ (x >>= f).calls ↔ c ∈ x.calls ∨ ∃ a, x.outcome = .ok a ∧ c ∈ (f a).calls := by
  cases h : x.outcome with
  | error e => simp [calls_bind_error h]
  | ok a => simp [calls_bind_ok h]

theorem outcome_foldlM {f : β → α → Traced ε τ β} (xs : List α) (b : β) :
    (xs.foldlM f b).outcome = xs.foldlM (fun b a => (f b a).outcome) b := by
  induction xs generalizing b with
  | nil => rfl
  | cons x xs ih =>
    rw [List.foldlM_cons, List.foldlM_cons, outcome_bind]
    exact congrArg _ (funext ih)

end Traced
end AgenticRag.Lib

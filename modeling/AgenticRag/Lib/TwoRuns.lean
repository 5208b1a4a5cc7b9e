import AgenticRag.Lib.Results

/-! Two runs of one computation that may raise: they raise the same, or their
results are related. -/
namespace AgenticRag.Lib

universe u v
variable {ε α β γ δ : Type u}

def Related (R : α → β → Prop) : Except ε α → Except ε β → Prop
  | .ok a, .ok b => R a b
  | .error e, .error e' => e = e'
  | .ok _, .error _ => False
  | .error _, .ok _ => False

variable {R : α → β → Prop} {S : γ → δ → Prop} {x : Except ε α} {y : Except ε β}

@[simp] theorem related_eq {x y : Except ε α} : Related Eq x y ↔ x = y := by
  cases x <;> cases y <;> simp [Related]

theorem related_bind {f : α → Except ε γ} {g : β → Except ε δ} (h : Related R x y)
    (hfg : ∀ a b, R a b → Related S (f a) (g b)) : Related S (x >>= f) (y >>= g) := by
  cases x with
  | error e =>
    cases y with
    | error e' => exact h
    | ok b => exact h.elim
  | ok a =>
    cases y with
    | error e' => exact h.elim
    | ok b => exact hfg a b h

theorem related_rescue {caught : ε → Bool} {replacement : ε} (h : Related R x y) :
    Related R (rescue caught replacement x) (rescue caught replacement y) := by
  cases x with
  | error e =>
    cases y with
    | error e' => exact congrArg (fun e => if caught e then replacement else e) h
    | ok b => exact h
  | ok a =>
    cases y with
    | error e' => exact h
    | ok b => exact h

/-- A loop relates its results when each of its steps keeps them related. -/
theorem related_foldlM {ι : Type v} {f : α → ι → Except ε α} {g : β → ι → Except ε β}
    (hstep : ∀ a b i, R a b → Related R (f a i) (g b i)) {is : List ι} {a : α} {b : β}
    (h : R a b) : Related R (is.foldlM f a) (is.foldlM g b) := by
  induction is generalizing a b with
  | nil => exact h
  | cons i is ih =>
    rw [List.foldlM_cons, List.foldlM_cons]
    exact related_bind (hstep a b i h) fun _ _ h => ih h

end AgenticRag.Lib

import Mathlib.Logic.Function.Basic

/-! A partial map whose slots are set one at a time: what an updated slot holds. -/
namespace AgenticRag.Lib

universe u v
variable {ι : Type u} {α : Type v} [DecidableEq ι] {f : ι → Option α} {i j : ι} {slot : Option α} {a : α}

theorem update_eq_some :
    Function.update f i slot j = some a ↔ j = i ∧ slot = some a ∨ j ≠ i ∧ f j = some a := by
  by_cases h : j = i
  · subst h
    simp
  · simp [h]

/-- A filled slot was filled before, or is the one that was set. -/
theorem of_update_eq_some (h : Function.update f i slot j = some a) :
    j = i ∧ slot = some a ∨ f j = some a :=
  (update_eq_some.mp h).imp_right And.right

end AgenticRag.Lib

import Mathlib.Data.List.Basic
import Mathlib.Data.List.DropRight

/-! What trimming a list keeps, and when there is nothing to trim. -/
namespace AgenticRag.Lib

universe u
variable {α : Type u} {p q : α → Bool}

theorem filter_dropWhile (h : ∀ a, p a = true → q a = false) (xs : List α) :
    (xs.dropWhile p).filter q = xs.filter q := by
  induction xs with
  | nil => rfl
  | cons x xs ih =>
    cases hx : p x with
    | true => rw [List.dropWhile_cons_of_pos hx, List.filter_cons_of_neg (by simp [h x hx]), ih]
    | false => rw [List.dropWhile_cons_of_neg (by simp [hx])]

theorem filter_rdropWhile (h : ∀ a, p a = true → q a = false) (xs : List α) :
    (xs.rdropWhile p).filter q = xs.filter q := by
  rw [List.rdropWhile, List.filter_reverse, filter_dropWhile h, List.filter_reverse, List.reverse_reverse]

theorem filter_intercalate {sep : List α} (h : sep.filter q = []) (xss : List (List α)) :
    (sep.intercalate xss).filter q = xss.flatMap (List.filter q) := by
  induction xss with
  | nil => simp
  | cons xs xss ih =>
    by_cases hx : xss = []
    · simp [hx]
    · rw [List.intercalate_cons_of_ne_nil hx, List.filter_append, List.filter_append, h, ih,
        List.append_nil, List.flatMap_cons]

theorem dropWhile_append_of_ne_nil {xs ys : List α} (h : xs.dropWhile p ≠ []) :
    (xs ++ ys).dropWhile p = xs.dropWhile p ++ ys := by
  rw [List.dropWhile_append]
  exact if_neg (by simpa using h)

/-- Nothing is trimmed at the front of a list that begins with something else. -/
theorem dropWhile_eq_self {xs : List α} (h : ∀ a ∈ xs.head?, p a = false) : xs.dropWhile p = xs := by
  cases xs with
  | nil => rfl
  | cons x xs => exact List.dropWhile_cons_of_neg (by simp [h x rfl])

theorem rdropWhile_eq_self {xs : List α} (h : ∀ a ∈ xs.getLast?, p a = false) : xs.rdropWhile p = xs := by
  rw [List.rdropWhile, dropWhile_eq_self (by rwa [List.head?_reverse]), List.reverse_reverse]

theorem head?_dropWhile {xs : List α} {a : α} (h : a ∈ (xs.dropWhile p).head?) : p a = false := by
  have hnot := List.head?_dropWhile_not p xs
  rw [Option.mem_def.mp h] at hnot
  exact hnot

theorem getLast?_rdropWhile {xs : List α} {a : α} (h : a ∈ (xs.rdropWhile p).getLast?) : p a = false := by
  rw [List.rdropWhile, List.getLast?_reverse] at h
  exact head?_dropWhile h

end AgenticRag.Lib

import Mathlib.Data.List.Basic
import Mathlib.Tactic.Common

/-! Joining pieces with a separator, and the pieces of a split. -/
namespace AgenticRag.Lib

universe u v
variable {α : Type u} {β : Type v}

theorem intercalate_concat (sep : List α) (xss : List (List α)) (xs : List α) :
    sep.intercalate (xss ++ [xs]) =
      if xss = [] then xs else sep.intercalate xss ++ (sep ++ xs) := by
  induction xss with
  | nil => simp
  | cons ys yss ih =>
    rw [if_neg (List.cons_ne_nil _ _), List.cons_append, List.intercalate_cons_of_ne_nil (by simp),
      ih]
    by_cases h : yss = []
    · simp [h]
    · rw [if_neg h, List.intercalate_cons_of_ne_nil h]
      simp only [List.append_assoc]

theorem intercalate_cons (sep xs : List α) (xss : List (List α)) :
    sep.intercalate (xs :: xss) = xs ++ if xss = [] then [] else sep ++ sep.intercalate xss := by
  split
  · rename_i h
    rw [h, List.intercalate_singleton, List.append_nil]
  · rename_i h
    rw [List.intercalate_cons_of_ne_nil h, List.append_assoc]

theorem mem_intercalate {sep : List α} {xss : List (List α)} {a : α}
    (h : a ∈ sep.intercalate xss) : a ∈ sep ∨ ∃ xs ∈ xss, a ∈ xs := by
  induction xss with
  | nil => simp at h
  | cons xs xss ih =>
    by_cases hx : xss = []
    · subst hx
      exact .inr ⟨xs, List.mem_cons_self, by simpa using h⟩
    · rw [List.intercalate_cons_of_ne_nil hx, List.append_assoc] at h
      rcases List.mem_append.mp h with h | h
      · exact .inr ⟨xs, List.mem_cons_self, h⟩
      · rcases List.mem_append.mp h with h | h
        · exact .inl h
        · rcases ih h with h | ⟨ys, hys, ha⟩
          · exact .inl h
          · exact .inr ⟨ys, List.mem_cons_of_mem _ hys, ha⟩

theorem mem_intercalate_of_mem (sep : List α) {xss : List (List α)} {xs : List α} {a : α}
    (hx : xs ∈ xss) (ha : a ∈ xs) : a ∈ sep.intercalate xss := by
  induction xss with
  | nil => cases hx
  | cons ys xss ih =>
    by_cases he : xss = []
    · subst he
      obtain rfl := List.mem_singleton.mp hx
      simpa using ha
    · rw [List.intercalate_cons_of_ne_nil he, List.append_assoc]
      rcases List.mem_cons.mp hx with rfl | hx
      · exact List.mem_append_left _ ha
      · exact List.mem_append_right _ (List.mem_append_right _ (ih hx))

theorem map_intercalate (f : α → β) (sep : List α) (xss : List (List α)) :
    (sep.intercalate xss).map f = (sep.map f).intercalate (xss.map (List.map f)) := by
  induction xss with
  | nil => simp
  | cons xs xss ih =>
    by_cases h : xss = []
    · simp [h]
    · rw [List.intercalate_cons_of_ne_nil h, List.map_cons, List.intercalate_cons_of_ne_nil
        (by simpa using h), ← ih]
      simp only [List.map_append]

theorem mem_of_mem_splitOn [DecidableEq α] {sep : α} {xs piece : List α} {a : α}
    (h : piece ∈ xs.splitOn sep) (ha : a ∈ piece) : a ∈ xs := by
  have hm := mem_intercalate_of_mem [sep] h ha
  rwa [List.intercalate_splitOn] at hm

end AgenticRag.Lib

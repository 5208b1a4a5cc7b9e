import Mathlib.Data.List.Range
import Mathlib.Data.List.TakeDrop
import Mathlib.Tactic.Common

/-! Consecutive slices of a list at a fixed stride, the last one possibly shorter. -/
namespace AgenticRag.Lib

universe u
variable {α : Type u}

/-- `range(0, stop, step)`. -/
def rangeStep (stop step : Nat) : List Nat := List.range' 0 ((stop + step - 1) / step) step

/-- `[xs[start : start + n] for start in range(0, len(xs), n)]`. -/
def slices (n : Nat) (xs : List α) : List (List α) :=
  (rangeStep xs.length n).map fun start => (xs.drop start).take n

private theorem flatten_range (n k s : Nat) (xs : List α) :
    ((List.range' s k n).map fun start => (xs.drop start).take n).flatten =
      (xs.drop s).take (k * n) := by
  induction k generalizing s with
  | zero => simp
  | succ k ih =>
    rw [List.range'_succ, List.map_cons, List.flatten_cons, ih, Nat.succ_mul, Nat.add_comm (k * n),
      List.take_add, List.drop_drop]

theorem slices_flatten {n : Nat} (hn : 0 < n) (xs : List α) : (slices n xs).flatten = xs := by
  rw [slices, rangeStep, flatten_range, List.drop_zero]
  apply List.take_of_length_le
  have := Nat.div_add_mod (xs.length + n - 1) n
  have := Nat.mod_lt (xs.length + n - 1) hn
  rw [Nat.mul_comm]
  omega

theorem sublist_of_mem_slices {n : Nat} {xs b : List α} (h : b ∈ slices n xs) : b.Sublist xs := by
  obtain ⟨start, _, rfl⟩ := List.mem_map.mp h
  exact (List.take_sublist _ _).trans (List.drop_sublist _ _)

theorem mem_of_mem_slices {n : Nat} {xs b : List α} {x : α} (h : b ∈ slices n xs) (hx : x ∈ b) :
    x ∈ xs := (sublist_of_mem_slices h).subset hx

theorem length_le_of_mem_slices {n : Nat} {xs b : List α} (h : b ∈ slices n xs) : b.length ≤ n := by
  obtain ⟨start, _, rfl⟩ := List.mem_map.mp h
  exact List.length_take_le _ _

/-- A slice, by the place where it starts. -/
theorem getElem?_slices {n i : Nat} {xs b : List α} (h : (slices n xs)[i]? = some b) :
    i < (xs.length + n - 1) / n ∧ (xs.drop (i * n)).take n = b := by
  rw [slices, rangeStep, List.getElem?_map, Option.map_eq_some_iff] at h
  obtain ⟨start, hstart, rfl⟩ := h
  have hlt := (List.getElem?_eq_some_iff.mp hstart).1
  rw [List.length_range'] at hlt
  rw [List.getElem?_range' hlt, Option.some_inj] at hstart
  rw [← hstart, Nat.zero_add, Nat.mul_comm n i]
  exact ⟨hlt, rfl⟩

theorem slices_length (n : Nat) (xs : List α) : (slices n xs).length = (xs.length + n - 1) / n := by
  rw [slices, rangeStep, List.length_map, List.length_range']

private theorem start_lt {n i : Nat} {xs : List α} (h : i < (xs.length + n - 1) / n) :
    i * n < xs.length := by
  have hn : 0 < n := by
    by_contra hn
    obtain rfl := Nat.eq_zero_of_not_pos hn
    rw [Nat.div_zero] at h
    exact absurd h (Nat.not_lt_zero _)
  have hle := (Nat.le_div_iff_mul_le hn).mp (Nat.succ_le_of_lt h)
  rw [Nat.succ_mul] at hle
  omega

theorem ne_nil_of_mem_slices {n : Nat} {xs b : List α} (h : b ∈ slices n xs) : b ≠ [] := by
  obtain ⟨i, hi⟩ := List.getElem?_of_mem h
  obtain ⟨hlt, rfl⟩ := getElem?_slices hi
  have hstart := start_lt hlt
  have hn : 0 < n := by
    by_contra hn
    obtain rfl := Nat.eq_zero_of_not_pos hn
    rw [Nat.div_zero] at hlt
    exact absurd hlt (Nat.not_lt_zero _)
  apply List.ne_nil_of_length_pos
  rw [List.length_take, List.length_drop]
  omega

theorem head?_slices {n : Nat} (hn : 0 < n) {xs : List α} (hne : xs ≠ []) :
    (slices n xs)[0]? = some (xs.take n) := by
  have hlength := List.length_pos_iff.mpr hne
  have hpos : 0 < (slices n xs).length := by
    rw [slices_length]
    exact Nat.div_pos (by omega) hn
  obtain ⟨_, hfirst⟩ := getElem?_slices (List.getElem?_eq_getElem hpos)
  rw [Nat.zero_mul, List.drop_zero] at hfirst
  rw [List.getElem?_eq_getElem hpos, hfirst]

/-- All slices but the last are full. -/
theorem length_of_getElem?_slices {n i : Nat} {xs b : List α} (h : (slices n xs)[i]? = some b)
    (hi : i + 1 < (slices n xs).length) : b.length = n := by
  obtain ⟨_, rfl⟩ := getElem?_slices h
  rw [slices_length] at hi
  have hnext := start_lt hi
  rw [Nat.succ_mul] at hnext
  rw [List.length_take, List.length_drop]
  omega

end AgenticRag.Lib

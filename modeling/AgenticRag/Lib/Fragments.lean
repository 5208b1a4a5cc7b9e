import Mathlib.Data.List.Range
import Mathlib.Data.List.TakeDrop
import Mathlib.Tactic.Common

/-! Fragments of a sequence, which may overlap, and the sequence that they make up. -/
namespace AgenticRag.Lib

universe u

/-- Where a fragment starts, and what it has. -/
structure Fragment (α : Type u) where
  start : Nat
  items : List α

namespace Fragment
variable {α : Type u}

def stop (f : Fragment α) : Nat := f.start + f.items.length

def at? (f : Fragment α) (k : Nat) : Option α := if f.start ≤ k then f.items[k - f.start]? else none

/-- A fragment of a sequence has what the sequence has. -/
def Of (f : Fragment α) (s : List α) : Prop := ∀ k a, f.at? k = some a → s[k]? = some a

/-- Where the last fragment ends. -/
def extent (fs : List (Fragment α)) : Nat := (fs.map stop).foldr max 0

/-- What is at a position, of the first fragment that has it. -/
def read (fs : List (Fragment α)) (k : Nat) : Option α := fs.findSome? fun f => f.at? k

/-- All that the fragments have, in the order of positions. -/
def assemble (fs : List (Fragment α)) : List α := (List.range (extent fs)).filterMap (read fs)

theorem stop_le_extent {f : Fragment α} {fs : List (Fragment α)} (h : f ∈ fs) : f.stop ≤ extent fs := by
  unfold extent
  induction fs with
  | nil => cases h
  | cons g fs ih =>
    rw [List.map_cons, List.foldr_cons]
    rcases List.mem_cons.mp h with rfl | h
    · exact le_max_left _ _
    · exact (ih h).trans (le_max_right _ _)

theorem of_slice {f : Fragment α} {s : List α} {n : Nat} (h : f.items = (s.drop f.start).take n) :
    f.Of s := by
  intro k a hk
  unfold at? at hk
  split at hk
  · rename_i hstart
    rw [h] at hk
    have hget := (List.getElem?_eq_some_iff.mp hk).1
    rw [List.length_take] at hget
    rwa [List.getElem?_take_of_lt (by omega), List.getElem?_drop, Nat.add_sub_cancel' hstart] at hk
  · cases hk

theorem at?_isSome {f : Fragment α} {k : Nat} (hstart : f.start ≤ k) (hstop : k < f.stop) :
    (f.at? k).isSome := by
  unfold stop at hstop
  rw [at?, if_pos hstart, List.getElem?_eq_getElem (by omega)]
  rfl

private theorem read_of_extent_le {fs : List (Fragment α)} {k : Nat} (h : extent fs ≤ k) :
    read fs k = none := by
  rw [read, List.findSome?_eq_none_iff]
  intro f hf
  have hstop := stop_le_extent hf
  unfold stop at hstop
  unfold at?
  split
  · rw [List.getElem?_eq_none (by omega)]
  · rfl

/-- Beyond its end a partial function gives nothing. -/
private theorem filterMap_range_add {β : Type u} {f : Nat → Option β} {n : Nat}
    (h : ∀ k, n ≤ k → f k = none) (m : Nat) :
    (List.range (n + m)).filterMap f = (List.range n).filterMap f := by
  have hrest : ((List.range m).map (n + ·)).filterMap f = [] := by
    rw [List.filterMap_eq_nil_iff]
    intro k hk
    obtain ⟨j, _, rfl⟩ := List.mem_map.mp hk
    exact h _ (Nat.le_add_right n j)
  rw [List.range_add, List.filterMap_append, hrest, List.append_nil]

private theorem filterMap_getElem? (s : List α) : (List.range s.length).filterMap (s[·]?) = s := by
  induction s using List.reverseRecOn with
  | nil => rfl
  | append_singleton s a ih =>
    have hinit : (List.range s.length).filterMap ((s ++ [a])[·]?) =
        (List.range s.length).filterMap (s[·]?) := by
      apply List.filterMap_congr
      intro k hk
      rw [List.getElem?_append_left (List.mem_range.mp hk)]
    rw [List.length_append, List.length_singleton, List.range_succ, List.filterMap_append, hinit, ih,
      List.filterMap_cons, List.getElem?_concat_length]
    rfl

/-- Fragments that have every item of a kind give all of the sequence of that kind, each item
once and in its order. -/
theorem assemble_filter {fs : List (Fragment α)} {s : List α} {p : α → Bool} (hof : ∀ f ∈ fs, f.Of s)
    (hcovered : ∀ k a, s[k]? = some a → p a = true → ∃ f ∈ fs, (f.at? k).isSome) :
    (assemble fs).filter p = s.filter p := by
  have hread (k : Nat) : (read fs k).filter p = s[k]?.filter p := by
    cases hfound : read fs k with
    | some a =>
      obtain ⟨f, hf, ha⟩ := List.exists_of_findSome?_eq_some hfound
      rw [hof f hf k a ha]
    | none =>
      cases hget : s[k]? with
      | none => rfl
      | some a =>
        rw [Option.filter_none, eq_comm, Option.filter_eq_none_iff]
        rintro _ ⟨⟩ hp
        obtain ⟨f, hf, hat⟩ := hcovered k a hget hp
        rw [List.findSome?_eq_none_iff.mp hfound f hf] at hat
        cases hat
  have hextent (k : Nat) (hk : extent fs ≤ k) : (read fs k).filter p = none := by
    rw [read_of_extent_le hk]
    rfl
  have hlength (k : Nat) (hk : s.length ≤ k) : s[k]?.filter p = none := by
    rw [List.getElem?_eq_none hk]
    rfl
  calc (assemble fs).filter p
      = (List.range (extent fs)).filterMap fun k => (read fs k).filter p := List.filter_filterMap ..
    _ = (List.range (extent fs + s.length)).filterMap fun k => (read fs k).filter p :=
        (filterMap_range_add hextent s.length).symm
    _ = (List.range (s.length + extent fs)).filterMap fun k => s[k]?.filter p := by
        rw [Nat.add_comm]
        exact List.filterMap_congr fun k _ => hread k
    _ = (List.range s.length).filterMap fun k => s[k]?.filter p := filterMap_range_add hlength _
    _ = s.filter p := by
        rw [← List.filter_filterMap, filterMap_getElem?]

end Fragment
end AgenticRag.Lib

import AgenticRag.Lib.OrderBy
import AgenticRag.Lib.Table
import Mathlib.Algebra.BigOperators.Group.List.Basic
import Mathlib.Algebra.GroupWithZero.Nat

/-! Weights summed over the rows of a table, which a write of one row changes by that row alone, and
the first of the rows in an order. -/
namespace AgenticRag.Lib

universe u v

theorem head?_orderBy_le {α : Type u} {κ : Type v} [LinearOrder κ] {key : α → κ} {rows : List α} {a b : α}
    (ha : (orderBy key rows).head? = some a) (hb : b ∈ rows) : key a ≤ key b := by
  obtain ⟨rest, hrest⟩ := List.head?_eq_some_iff.mp ha
  have hsorted : (orderBy key rows).Pairwise fun a b => key a ≤ key b := orderBy_pairwise rows
  rw [hrest] at hsorted
  have hmem : b ∈ orderBy key rows := mem_orderBy.mpr hb
  rw [hrest] at hmem
  rcases List.mem_cons.mp hmem with rfl | hmem
  · exact le_rfl
  · exact (List.pairwise_cons.mp hsorted).1 b hmem

namespace Table
variable {R : Type u} {K : Type v} {key : R → K}

def total (t : Table R key) (weight : R → Nat) : Nat := (t.rows.map weight).sum

theorem total_eq_of_mem_iff {t t' : Table R key} (h : ∀ r, r ∈ t' ↔ r ∈ t) (weight : R → Nat) :
    t'.total weight = t.total weight := by
  have hperm : t'.rows.Perm t.rows := (List.perm_ext_iff_of_nodup t'.nodup_rows t.nodup_rows).mpr h
  exact (hperm.map weight).sum_eq

variable [DecidableEq K]

theorem total_insert? {t t' : Table R key} {r : R} (h : t.insert? r = some t') (weight : R → Nat) :
    t'.total weight = weight r + t.total weight := by
  rw [total, (insert?_eq_some h).2, List.map_cons, List.sum_cons, total]

/-- A row among the others. -/
private theorem total_eq_add_others {t : Table R key} {r : R} (hr : t.find? (key r) = some r)
    (weight : R → Nat) :
    t.total weight = weight r + ((t.rows.filter fun s => key s ≠ key r).map weight).sum := by
  have hmem := mem_of_find? hr
  have hperm : t.rows.Perm (r :: t.rows.filter fun s => key s ≠ key r) := by
    refine (List.perm_ext_iff_of_nodup t.nodup_rows ?_).mpr fun s => ?_
    · rw [List.nodup_cons]
      exact ⟨by simp, t.nodup_rows.filter _⟩
    · simp only [List.mem_cons, List.mem_filter, decide_eq_true_eq, ne_eq]
      constructor
      · intro hs
        by_cases hk : key s = key r
        · exact .inl (eq_of_key_eq hs hmem hk)
        · exact .inr ⟨hs, hk⟩
      · rintro (rfl | ⟨hs, _⟩)
        · exact hmem
        · exact hs
  rw [total, (hperm.map weight).sum_eq, List.map_cons, List.sum_cons]

/-- One row is overwritten. -/
theorem total_write {t t' : Table R key} {old new : R} (hold : t.find? (key new) = some old)
    (hwritten : ∀ k, t'.find? k = if k = key new then some new else t.find? k) (weight : R → Nat) :
    t'.total weight + weight old = t.total weight + weight new := by
  have hkey : key old = key new := find?_key hold
  have hsame : t'.total weight = (t.replace new).total weight := by
    refine total_eq_of_mem_iff (fun r => ?_) weight
    have hfind : t'.find? (key r) = (t.replace new).find? (key r) := by
      rw [hwritten, find?_replace]
      split
      · rename_i hk
        rw [hk, hold]
        rfl
      · rfl
    exact ⟨fun hr => mem_of_find? (hfind ▸ find?_of_mem hr),
      fun hr => mem_of_find? (hfind ▸ find?_of_mem hr)⟩
  have hnew : (t.replace new).find? (key new) = some new := by
    rw [find?_replace, if_pos rfl, hold]
    rfl
  have hothers : (t.replace new).rows.filter (fun s => key s ≠ key new) =
      t.rows.filter fun s => key s ≠ key old := by
    rw [hkey, replace]
    simp only
    induction t.rows with
    | nil => rfl
    | cons s rows ih =>
      rw [List.map_cons, List.filter_cons, List.filter_cons, ih]
      by_cases hs : key s = key new <;> simp [hs]
  rw [hsame, total_eq_add_others hnew, hothers, total_eq_add_others (hkey ▸ hold)]
  omega

end Table
end AgenticRag.Lib

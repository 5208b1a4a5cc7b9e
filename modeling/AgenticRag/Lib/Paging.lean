import AgenticRag.Lib.OrderBy
import Mathlib.Data.List.Count
import Mathlib.Data.List.Perm.Subperm

/-! Pages of rows in the order of a key, read one after another while rows are added. A row never
moves to an earlier place, so a walk through the pages cannot miss it. -/
namespace AgenticRag.Lib

universe u v
variable {α : Type u} {κ : Type v} [LinearOrder κ] {key : α → κ}

/-- The `i`-th page of the rows in order. -/
def pageOf (key : α → κ) (limit i : Nat) (rows : List α) : List α :=
  ((orderBy key rows).drop (limit * i)).take limit

/-- More rows come before a key when there are more rows. -/
theorem below_le_of_keys {xs ys : List α} (hxs : xs.Pairwise fun a b => key a ≠ key b)
    (h : ∀ a ∈ xs, ∃ b ∈ ys, key b = key a) (k : κ) : below key xs k ≤ below key ys k := by
  have hsubperm : (xs.map key).Subperm (ys.map key) := by
    refine List.subperm_of_subset (List.pairwise_map.mpr hxs) fun k hk => ?_
    obtain ⟨a, ha, rfl⟩ := List.mem_map.mp hk
    obtain ⟨b, hb, heq⟩ := h a ha
    exact heq ▸ List.mem_map_of_mem hb
  have hcount := hsubperm.countP_le fun k' => decide (k' < k)
  rwa [List.countP_map, List.countP_map] at hcount

theorem below_lt_length {rows : List α} {a : α} (ha : a ∈ rows) : below key rows (key a) < rows.length :=
  List.countP_lt_length_iff.mpr ⟨a, ha, by simp⟩

/-- A row is on the page that its place falls on. -/
theorem mem_pageOf {rows : List α} (hrows : rows.Pairwise fun a b => key a ≠ key b) {a : α} (ha : a ∈ rows)
    {limit i : Nat} (hlow : limit * i ≤ below key rows (key a))
    (hhigh : below key rows (key a) < limit * i + limit) : a ∈ pageOf key limit i rows := by
  have hat := (getElem?_orderBy hrows).mpr ⟨ha, rfl⟩
  refine List.mem_of_getElem? (i := below key rows (key a) - limit * i) ?_
  rw [pageOf, List.getElem?_take_of_lt (by omega), List.getElem?_drop]
  rwa [show limit * i + (below key rows (key a) - limit * i) = below key rows (key a) by omega]

/-- Pages read from rows that only become more, up to one that is not full, show every row that was
there when the first page was read. -/
theorem pages_complete (rows : Nat → List α) {limit n : Nat}
    (hdistinct : ∀ i ≤ n, (rows i).Pairwise fun a b => key a ≠ key b)
    (hgrows : ∀ i < n, ∀ a ∈ rows i, ∃ b ∈ rows (i + 1), key b = key a)
    (hlast : (pageOf key limit n (rows n)).length < limit) {a : α} (ha : a ∈ rows 0) :
    ∃ i ≤ n, ∃ b ∈ pageOf key limit i (rows i), key b = key a := by
  have hkept (i : Nat) (hi : i ≤ n) : ∃ b ∈ rows i, key b = key a := by
    induction i with
    | zero => exact ⟨a, ha, rfl⟩
    | succ i ih =>
      obtain ⟨b, hb, hba⟩ := ih (by omega)
      obtain ⟨c, hc, hcb⟩ := hgrows i (by omega) b hb
      exact ⟨c, hc, hcb.trans hba⟩
  -- until it is seen, the row stands behind the pages that were read
  have hbehind (i : Nat) (hi : i ≤ n) : (∃ j < i, ∃ b ∈ pageOf key limit j (rows j), key b = key a) ∨
      limit * i ≤ below key (rows i) (key a) := by
    induction i with
    | zero => exact .inr (by simp)
    | succ i ih =>
      rcases ih (by omega) with ⟨j, hj, hseen⟩ | hlow
      · exact .inl ⟨j, by omega, hseen⟩
      obtain ⟨b, hb, hba⟩ := hkept i (by omega)
      by_cases hhigh : below key (rows i) (key a) < limit * i + limit
      · exact .inl ⟨i, by omega, b, mem_pageOf (hdistinct i (by omega)) hb (hba ▸ hlow) (hba ▸ hhigh), hba⟩
      · right
        have hle := below_le_of_keys (hdistinct i (by omega)) (hgrows i (by omega)) (key a)
        rw [Nat.mul_succ]
        omega
  rcases hbehind n le_rfl with ⟨j, hj, hseen⟩ | hlow
  · exact ⟨j, by omega, hseen⟩
  · obtain ⟨b, hb, hba⟩ := hkept n le_rfl
    have hlt : below key (rows n) (key b) < (rows n).length := below_lt_length hb
    have hlength : (orderBy key (rows n)).length = (rows n).length := (orderBy_perm _).length_eq
    rw [pageOf, List.length_take, List.length_drop, hlength] at hlast
    rw [← hba] at hlow
    exact ⟨n, le_rfl, b, mem_pageOf (hdistinct n le_rfl) hb hlow (by omega), hba⟩

end AgenticRag.Lib

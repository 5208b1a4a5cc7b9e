import Mathlib.Data.List.Pairwise
import Mathlib.Data.List.Sort
import Mathlib.Order.Lattice

/-! Stable sorting by a key. When no two rows share a key the result depends only
on which rows there are, not on the order they were found in. -/
namespace AgenticRag.Lib

universe u v
variable {α : Type u} {κ : Type v} [LinearOrder κ]

def orderBy (key : α → κ) (rows : List α) : List α :=
  rows.insertionSort fun a b => key a ≤ key b

variable {key : α → κ}

private instance keyLe_total : Std.Total fun a b => key a ≤ key b := ⟨fun _ _ => le_total _ _⟩
private instance keyLe_trans : IsTrans α fun a b => key a ≤ key b := ⟨fun _ _ _ => le_trans⟩

theorem orderBy_perm (rows : List α) : (orderBy key rows).Perm rows :=
  List.perm_insertionSort _ rows

@[simp] theorem mem_orderBy {rows : List α} {a : α} : a ∈ orderBy key rows ↔ a ∈ rows :=
  (orderBy_perm rows).mem_iff

theorem orderBy_pairwise (rows : List α) : (orderBy key rows).Pairwise fun a b => key a ≤ key b :=
  List.pairwise_insertionSort _ rows

theorem orderBy_eq_of_perm {xs ys : List α} (h : xs.Perm ys)
    (hinj : ∀ a ∈ xs, ∀ b ∈ xs, key a = key b → a = b) : orderBy key xs = orderBy key ys := by
  refine List.Perm.eq_of_pairwise ?_ (orderBy_pairwise xs) (orderBy_pairwise ys) ?_
  · intro a b ha hb hab hba
    exact hinj a (mem_orderBy.mp ha) b (h.mem_iff.mpr (mem_orderBy.mp hb)) (le_antisymm hab hba)
  · exact ((orderBy_perm xs).trans h).trans (orderBy_perm ys).symm

/-- Rows that are already in the order of their keys come out as they are. -/
theorem orderBy_eq_of_sorted {xs ys : List α} (h : xs.Perm ys) (hys : ys.Pairwise fun a b => key a < key b) :
    orderBy key xs = ys := by
  refine List.Perm.eq_of_pairwise ?_ (orderBy_pairwise xs) (hys.imp le_of_lt) ((orderBy_perm xs).trans h)
  intro a b ha hb hab hba
  have hapart : ys.Pairwise fun a b => key a ≠ key b := hys.imp ne_of_lt
  have : Std.Symm fun a b => key a ≠ key b := ⟨fun _ _ => Ne.symm⟩
  by_contra hne
  exact hapart.forall (h.mem_iff.mp (mem_orderBy.mp ha)) hb hne (le_antisymm hab hba)

/-- How many rows come before the key. -/
def below (key : α → κ) (rows : List α) (k : κ) : Nat := rows.countP fun a => key a < k

theorem below_perm {xs ys : List α} (h : xs.Perm ys) (k : κ) : below key xs k = below key ys k :=
  h.countP_eq _

theorem below_mono {rows : List α} {k k' : κ} (h : k ≤ k') : below key rows k ≤ below key rows k' := by
  refine List.countP_mono_left fun a _ ha => ?_
  rw [decide_eq_true_eq] at ha ⊢
  exact ha.trans_le h

/-- A row that the lesser key does not count makes the difference. -/
theorem below_lt {rows : List α} {a : α} {k' : κ} (ha : a ∈ rows) (h : key a < k') :
    below key rows (key a) < below key rows k' := by
  induction rows with
  | nil => cases ha
  | cons b rows ih =>
    have hmono : below key rows (key a) ≤ below key rows k' := below_mono h.le
    simp only [below, List.countP_cons, decide_eq_true_eq] at hmono ih ⊢
    rcases List.mem_cons.mp ha with rfl | ha
    · rw [if_neg (lt_irrefl _), if_pos h]
      omega
    · have hlt := ih ha
      by_cases hb : key b < key a
      · rw [if_pos hb, if_pos (hb.trans h)]
        omega
      · rw [if_neg hb]
        omega

theorem below_lt_iff {rows : List α} {a b : α} (ha : a ∈ rows) :
    below key rows (key a) < below key rows (key b) ↔ key a < key b := by
  refine ⟨fun h => ?_, below_lt ha⟩
  by_contra hle
  exact absurd (below_mono (not_lt.mp hle)) (not_le.mpr h)

/-- Rows without a common key, sorted, stand where their keys say. -/
theorem below_of_getElem? {rows : List α} (h : rows.Pairwise fun a b => key a < key b) {a : α} {i : Nat}
    (ha : rows[i]? = some a) : below key rows (key a) = i := by
  induction rows generalizing i with
  | nil => cases ha
  | cons b rows ih =>
    obtain ⟨hhead, htail⟩ := List.pairwise_cons.mp h
    rw [below, List.countP_cons]
    cases i with
    | zero =>
      obtain rfl := Option.some.inj ha
      have hnone : rows.countP (fun c => key c < key b) = 0 := by
        rw [List.countP_eq_zero]
        intro c hc
        simpa using (hhead c hc).le
      rw [hnone]
      simp
    | succ i =>
      rw [List.getElem?_cons_succ] at ha
      rw [if_pos (decide_eq_true (hhead a (List.mem_of_getElem? ha)))]
      exact congrArg (· + 1) (ih htail ha)

/-- The place of a row among rows that share no key. -/
theorem getElem?_orderBy {rows : List α} (hrows : rows.Pairwise fun a b => key a ≠ key b) {a : α}
    {i : Nat} : (orderBy key rows)[i]? = some a ↔ a ∈ rows ∧ below key rows (key a) = i := by
  have hperm : (orderBy key rows).Perm rows := orderBy_perm rows
  have hsorted : (orderBy key rows).Pairwise fun a b => key a ≤ key b := orderBy_pairwise rows
  have hstrict : (orderBy key rows).Pairwise fun a b => key a < key b :=
    (hsorted.and (hrows.perm hperm.symm Ne.symm)).imp fun h => lt_of_le_of_ne h.1 h.2
  constructor
  · intro h
    refine ⟨mem_orderBy.mp (List.mem_of_getElem? h), ?_⟩
    rw [← below_perm hperm]
    exact below_of_getElem? hstrict h
  · rintro ⟨ha, rfl⟩
    obtain ⟨i, hi⟩ := List.getElem?_of_mem (hperm.mem_iff.mpr ha)
    rw [← below_perm hperm, below_of_getElem? hstrict hi]
    exact hi

end AgenticRag.Lib

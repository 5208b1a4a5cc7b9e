import Mathlib.Data.List.Nodup
import Mathlib.Tactic.Common

/-! Insertion-ordered dictionaries; no key occurs twice. -/
namespace AgenticRag.Python

universe u v

structure Dict (κ : Type u) (ν : Type v) where
  items : List (κ × ν)
  nodup : (items.map Prod.fst).Nodup

namespace Dict
variable {κ : Type u} {ν : Type v} [DecidableEq κ]

def empty : Dict κ ν := ⟨[], List.nodup_nil⟩

def keys (d : Dict κ ν) : List κ := d.items.map Prod.fst

def get? (d : Dict κ ν) (k : κ) : Option ν := (d.items.find? fun p => p.1 = k).map Prod.snd

theorem get?_eq_some {d : Dict κ ν} {k : κ} {v : ν} : d.get? k = some v ↔ (k, v) ∈ d.items := by
  constructor
  · intro h
    obtain ⟨⟨k', v'⟩, hfind, rfl⟩ := Option.map_eq_some_iff.mp h
    have hk : k' = k := by simpa using List.find?_some hfind
    exact hk ▸ List.mem_of_find?_eq_some hfind
  · intro h
    cases hfind : d.items.find? fun p => p.1 = k with
    | none =>
      have := List.find?_eq_none.mp hfind _ h
      simp at this
    | some p =>
      have hk : p.1 = k := by simpa using List.find?_some hfind
      have hp := List.inj_on_of_nodup_map d.nodup (List.mem_of_find?_eq_some hfind) h hk
      rw [get?, hfind, hp]
      rfl

theorem get?_eq_none {d : Dict κ ν} {k : κ} : d.get? k = none ↔ k ∉ d.keys := by
  rw [get?, Option.map_eq_none_iff, List.find?_eq_none, keys, List.mem_map, not_exists]
  refine forall_congr' fun p => ?_
  rw [not_and, decide_eq_true_eq]

/-- `d[k] = v`: in place when the key is there, else at the end. -/
def set (d : Dict κ ν) (k : κ) (v : ν) : Dict κ ν :=
  if h : k ∈ d.keys then
    ⟨d.items.map fun p => if p.1 = k then (k, v) else p, by
      have hcomp : (Prod.fst ∘ fun p : κ × ν => if p.1 = k then (k, v) else p) = Prod.fst := by
        funext p
        by_cases hp : p.1 = k <;> simp [hp]
      rw [List.map_map, hcomp]
      exact d.nodup⟩
  else
    ⟨d.items ++ [(k, v)], by
      rw [List.map_append, List.map_singleton, List.nodup_append]
      refine ⟨d.nodup, List.nodup_singleton _, ?_⟩
      intro a ha b hb he
      obtain rfl := List.mem_singleton.mp hb
      exact h (he ▸ ha)⟩

theorem mem_set {d : Dict κ ν} {k k' : κ} {v v' : ν} :
    (k', v') ∈ (d.set k v).items ↔ k' = k ∧ v' = v ∨ k' ≠ k ∧ (k', v') ∈ d.items := by
  unfold set
  split
  · rename_i hk
    obtain ⟨⟨_, w⟩, hw, rfl⟩ := List.mem_map.mp hk
    constructor
    · intro h
      obtain ⟨p, hp, he⟩ := List.mem_map.mp h
      split at he
      · exact .inl ⟨(Prod.mk.inj he).1.symm, (Prod.mk.inj he).2.symm⟩
      · rename_i hne
        subst he
        exact .inr ⟨hne, hp⟩
    · rintro (⟨rfl, rfl⟩ | ⟨hne, h⟩)
      · exact List.mem_map.mpr ⟨_, hw, if_pos rfl⟩
      · exact List.mem_map.mpr ⟨_, h, if_neg hne⟩
  · rename_i hk
    rw [List.mem_append, List.mem_singleton, Prod.mk.injEq]
    constructor
    · rintro (h | h)
      · refine .inr ⟨?_, h⟩
        rintro rfl
        exact hk (List.mem_map.mpr ⟨_, h, rfl⟩)
      · exact .inl h
    · rintro (h | ⟨_, h⟩)
      · exact .inr h
      · exact .inl h

theorem get?_set (d : Dict κ ν) (k k' : κ) (v : ν) :
    (d.set k v).get? k' = if k' = k then some v else d.get? k' := by
  ext w
  rw [get?_eq_some, mem_set]
  split
  · rename_i h
    simp [h, eq_comm]
  · rename_i h
    simp [h, get?_eq_some]

theorem mem_keys_set {d : Dict κ ν} {k k' : κ} {v : ν} :
    k' ∈ (d.set k v).keys ↔ k' = k ∨ k' ∈ d.keys := by
  rw [← not_iff_not, ← get?_eq_none, get?_set, not_or, ← get?_eq_none]
  split <;> simp_all

theorem set_items_of_not_mem {d : Dict κ ν} {k : κ} {v : ν} (h : k ∉ d.keys) :
    (d.set k v).items = d.items ++ [(k, v)] := by
  rw [set, dif_neg h]

/-- `previous = d.get(k)`, then `d[k] = n` when there is none or `n` is smaller. -/
def setMin (d : Dict κ Nat) (k : κ) (n : Nat) : Dict κ Nat :=
  match d.get? k with
  | none => d.set k n
  | some previous => if n < previous then d.set k n else d

theorem mem_setMin {d : Dict κ Nat} {k k' : κ} {n n' : Nat} (h : (k', n') ∈ (d.setMin k n).items) :
    k' = k ∧ n' = n ∨ (k', n') ∈ d.items := by
  unfold setMin at h
  split at h
  · exact (mem_set.mp h).imp_right And.right
  · split at h
    · exact (mem_set.mp h).imp_right And.right
    · exact .inr h

end Dict

/-- The least number that satisfies `P`, `none` when there is none. -/
def MinimumOf (P : Nat → Prop) : Option Nat → Prop
  | none => ∀ n, ¬P n
  | some n => P n ∧ ∀ m, P m → n ≤ m

namespace Dict
variable {κ : Type u} [DecidableEq κ]

theorem minimumOf_congr {P Q : Nat → Prop} {o : Option Nat} (h : ∀ n, P n ↔ Q n) :
    MinimumOf P o ↔ MinimumOf Q o := by
  rw [funext fun n => propext (h n)]

/-- A dictionary of minima stays one when a number is offered for a key. -/
theorem minimumOf_setMin {d : Dict κ Nat} {P : κ → Nat → Prop} {k : κ} {n : Nat}
    (h : ∀ k', MinimumOf (P k') (d.get? k')) (k' : κ) :
    MinimumOf (fun m => P k' m ∨ k = k' ∧ n = m) ((d.setMin k n).get? k') := by
  have keep (hne : k ≠ k') : MinimumOf (fun m => P k' m ∨ k = k' ∧ n = m) (d.get? k') :=
    (minimumOf_congr fun m => by simp [hne]).mp (h k')
  by_cases hk : k = k'
  · subst hk
    have hd := h k
    unfold setMin
    cases hget : d.get? k with
    | none =>
      rw [hget] at hd
      rw [get?_set, if_pos rfl]
      refine ⟨.inr ⟨rfl, rfl⟩, ?_⟩
      rintro m (hm | ⟨_, rfl⟩)
      · exact (hd m hm).elim
      · exact Nat.le_refl _
    | some previous =>
      rw [hget] at hd
      dsimp only
      split
      · rename_i hlt
        rw [get?_set, if_pos rfl]
        refine ⟨.inr ⟨rfl, rfl⟩, ?_⟩
        rintro m (hm | ⟨_, rfl⟩)
        · exact Nat.le_trans (Nat.le_of_lt hlt) (hd.2 m hm)
        · exact Nat.le_refl _
      · rename_i hle
        rw [hget]
        refine ⟨.inl hd.1, ?_⟩
        rintro m (hm | ⟨_, rfl⟩)
        · exact hd.2 m hm
        · exact Nat.not_lt.mp hle
  · have hget : (d.setMin k n).get? k' = d.get? k' := by
      unfold setMin
      split
      · rw [get?_set, if_neg (Ne.symm hk)]
      · split
        · rw [get?_set, if_neg (Ne.symm hk)]
        · rfl
    rw [hget]
    exact keep hk

/-- Offering a list of numbers leaves the least of each key. -/
theorem minimumOf_foldl_setMin {is : List (κ × Nat)} {d : Dict κ Nat} {P : κ → Nat → Prop}
    (h : ∀ k, MinimumOf (P k) (d.get? k)) (k : κ) :
    MinimumOf (fun n => P k n ∨ (k, n) ∈ is)
      ((is.foldl (fun d p => d.setMin p.1 p.2) d).get? k) := by
  induction is generalizing d P with
  | nil => exact (minimumOf_congr fun n => by simp).mp (h k)
  | cons p is ih =>
    obtain ⟨k', n'⟩ := p
    refine (minimumOf_congr fun n => ?_).mp
      (ih (P := fun k n => P k n ∨ k' = k ∧ n' = n) (minimumOf_setMin h))
    rw [List.mem_cons, Prod.mk.injEq, or_assoc, eq_comm (a := k'), eq_comm (a := n')]

theorem get?_congr {ν : Type v} {d d' : Dict κ ν} (h : ∀ p, p ∈ d.items ↔ p ∈ d'.items) (k : κ) :
    d.get? k = d'.get? k := by
  ext v
  rw [get?_eq_some, get?_eq_some, h]

end Dict
end AgenticRag.Python

import Mathlib.Data.List.Nodup
import Mathlib.Data.List.Basic

/-! Finite tables with a primary key. The key's uniqueness is a field, so a table
with two rows of one key cannot be built. -/
namespace AgenticRag.Lib

universe u v

structure Table (R : Type u) {K : Type v} (key : R → K) where
  rows : List R
  nodup : (rows.map key).Nodup

namespace Table
variable {R : Type u} {K : Type v} {key : R → K}

instance : Membership R (Table R key) := ⟨fun t r => r ∈ t.rows⟩

theorem mem_rows {t : Table R key} {r : R} : r ∈ t.rows ↔ r ∈ t := Iff.rfl

def empty : Table R key := ⟨[], List.nodup_nil⟩

theorem not_mem_empty (r : R) : r ∉ (empty : Table R key) := List.not_mem_nil

theorem eq_of_key_eq {t : Table R key} {r s : R} (hr : r ∈ t) (hs : s ∈ t)
    (h : key r = key s) : r = s := List.inj_on_of_nodup_map t.nodup hr hs h

theorem nodup_rows (t : Table R key) : t.rows.Nodup := t.nodup.of_map

/-- Rows satisfying `p` are dropped, the others stay. -/
def erase (t : Table R key) (p : R → Bool) : Table R key :=
  ⟨t.rows.filter fun r => !p r, (t.nodup.sublist (List.filter_sublist.map key))⟩

theorem mem_erase {t : Table R key} {p : R → Bool} {r : R} :
    r ∈ t.erase p ↔ r ∈ t ∧ p r = false := by
  change r ∈ t.rows.filter _ ↔ _
  rw [List.mem_filter]
  simp [← mem_rows]

variable [DecidableEq K]

def find? (t : Table R key) (k : K) : Option R := t.rows.find? fun r => key r = k

theorem find?_eq_some {t : Table R key} {k : K} {r : R} :
    t.find? k = some r ↔ r ∈ t ∧ key r = k := by
  constructor
  · intro h
    exact ⟨List.mem_of_find?_eq_some h, by simpa using List.find?_some h⟩
  · rintro ⟨hr, rfl⟩
    cases h : t.find? (key r) with
    | none =>
      have hne := List.find?_eq_none.mp h r hr
      simp at hne
    | some s =>
      have hs : s ∈ t := List.mem_of_find?_eq_some h
      have hk : key s = key r := by simpa using List.find?_some h
      rw [eq_of_key_eq hs hr hk]

theorem find?_eq_none {t : Table R key} {k : K} :
    t.find? k = none ↔ ∀ r ∈ t, key r ≠ k := by
  simp [find?, List.find?_eq_none, ← mem_rows]

theorem find?_key {t : Table R key} {k : K} {r : R} (h : t.find? k = some r) : key r = k :=
  (find?_eq_some.mp h).2

theorem find?_of_mem {t : Table R key} {r : R} (h : r ∈ t) : t.find? (key r) = some r :=
  find?_eq_some.mpr ⟨h, rfl⟩

theorem mem_of_find? {t : Table R key} {k : K} {r : R} (h : t.find? k = some r) : r ∈ t :=
  (find?_eq_some.mp h).1

@[simp] theorem find?_empty (k : K) : (empty : Table R key).find? k = none := rfl

/-- A flush of one loaded row: the row with its key is overwritten. -/
def replace (t : Table R key) (r : R) : Table R key where
  rows := t.rows.map fun s => if key s = key r then r else s
  nodup := by
    have h : (key ∘ fun s => if key s = key r then r else s) = key := by
      funext s
      by_cases hs : key s = key r <;> simp [hs]
    rw [List.map_map, h]
    exact t.nodup

theorem find?_replace (t : Table R key) (r : R) (k : K) :
    (t.replace r).find? k = if k = key r then (t.find? k).map fun _ => r else t.find? k := by
  simp only [find?, replace, List.find?_map]
  have hcomp : ((fun s => decide (key s = k)) ∘ fun s => if key s = key r then r else s) =
      fun s => decide (key s = k) := by
    funext s
    by_cases hs : key s = key r <;> simp [hs]
  rw [hcomp]
  cases h : t.rows.find? fun s => decide (key s = k) with
  | none => simp
  | some s =>
    have hk : key s = k := by simpa using List.find?_some h
    subst hk
    by_cases hs : key s = key r <;> simp [hs]

theorem mem_replace {t : Table R key} {r s : R} :
    s ∈ t.replace r ↔ s = r ∧ (∃ old ∈ t, key old = key r) ∨ s ∈ t ∧ key s ≠ key r := by
  constructor
  · intro h
    obtain ⟨old, hold, rfl⟩ := List.mem_map.mp h
    by_cases hk : key old = key r
    · exact .inl ⟨if_pos hk, old, hold, hk⟩
    · rw [if_neg hk]
      exact .inr ⟨hold, hk⟩
  · rintro (⟨rfl, old, hold, hk⟩ | ⟨hs, hk⟩)
    · exact List.mem_map.mpr ⟨old, hold, if_pos hk⟩
    · exact List.mem_map.mpr ⟨s, hs, if_neg hk⟩

theorem find?_replace_ne (t : Table R key) {r : R} {k : K} (h : k ≠ key r) :
    (t.replace r).find? k = t.find? k := by simp [find?_replace, h]

/-- An insert fails when the key is taken. -/
def insert? (t : Table R key) (r : R) : Option (Table R key) :=
  if h : t.find? (key r) = none then
    some ⟨r :: t.rows, by
      rw [List.map_cons, List.nodup_cons]
      refine ⟨?_, t.nodup⟩
      intro hm
      obtain ⟨s, hs, hk⟩ := List.mem_map.mp hm
      exact find?_eq_none.mp h s hs hk⟩
  else none

theorem insert?_eq_some {t t' : Table R key} {r : R} (h : t.insert? r = some t') :
    t.find? (key r) = none ∧ t'.rows = r :: t.rows := by
  unfold insert? at h
  split at h
  · rename_i hn
    obtain rfl := Option.some.inj h
    exact ⟨hn, rfl⟩
  · cases h

theorem insert?_isSome {t : Table R key} {r : R} :
    (t.insert? r).isSome ↔ t.find? (key r) = none := by
  unfold insert?
  split <;> simp_all

theorem mem_insert? {t t' : Table R key} {r s : R} (h : t.insert? r = some t') :
    s ∈ t' ↔ s = r ∨ s ∈ t := by
  rw [← mem_rows, (insert?_eq_some h).2, List.mem_cons, mem_rows]

theorem find?_insert? {t t' : Table R key} {r : R} (h : t.insert? r = some t') (k : K) :
    t'.find? k = if k = key r then some r else t.find? k := by
  rw [find?, (insert?_eq_some h).2, List.find?_cons]
  by_cases hk : k = key r
  · simp [hk]
  · have : key r ≠ k := fun he => hk he.symm
    simp [hk, this, find?]

/-- An insertion keeps the rows that are there. -/
theorem find?_of_insert? {t t' : Table R key} {r s : R} {k : K} (h : t.insert? r = some t')
    (hs : t.find? k = some s) : t'.find? k = some s := by
  rw [find?_insert? h, if_neg, hs]
  rintro rfl
  exact Option.some_ne_none s (hs.symm.trans (insert?_eq_some h).1)

/-- Inserts in order, all or nothing. -/
def insertAll? (t : Table R key) : List R → Option (Table R key)
  | [] => some t
  | r :: rs => (t.insert? r).bind fun t' => t'.insertAll? rs

theorem mem_insertAll? {t t' : Table R key} {rs : List R} {s : R}
    (h : t.insertAll? rs = some t') : s ∈ t' ↔ s ∈ rs ∨ s ∈ t := by
  induction rs generalizing t with
  | nil =>
    obtain rfl := Option.some.inj h
    simp
  | cons r rs ih =>
    obtain ⟨t₁, h₁, h₂⟩ := Option.bind_eq_some_iff.mp h
    rw [ih h₂, mem_insert? h₁, List.mem_cons]
    tauto

/-- The inserted keys were free. -/
theorem key_ne_of_insertAll? {t t' : Table R key} {rs : List R} {r s : R}
    (h : t.insertAll? rs = some t') (hr : r ∈ rs) (hs : s ∈ t) : key s ≠ key r := by
  induction rs generalizing t with
  | nil => cases hr
  | cons q rs ih =>
    obtain ⟨t₁, h₁, h₂⟩ := Option.bind_eq_some_iff.mp h
    rcases List.mem_cons.mp hr with rfl | hr
    · exact find?_eq_none.mp (insert?_eq_some h₁).1 s hs
    · exact ih h₂ hr ((mem_insert? h₁).mpr (.inr hs))

theorem nodup_of_insertAll? {t t' : Table R key} {rs : List R} (h : t.insertAll? rs = some t') :
    (rs.map key).Nodup := by
  induction rs generalizing t with
  | nil => exact List.nodup_nil
  | cons r rs ih =>
    obtain ⟨t₁, h₁, h₂⟩ := Option.bind_eq_some_iff.mp h
    rw [List.map_cons, List.nodup_cons]
    refine ⟨?_, ih h₂⟩
    intro hmem
    obtain ⟨s, hs, hk⟩ := List.mem_map.mp hmem
    exact key_ne_of_insertAll? h₂ hs ((mem_insert? h₁).mpr (.inl rfl)) hk.symm

/-- Rows of distinct free keys can all be inserted. -/
theorem insertAll?_isSome {t : Table R key} {rs : List R} (hnodup : (rs.map key).Nodup)
    (hfree : ∀ r ∈ rs, t.find? (key r) = none) : (t.insertAll? rs).isSome := by
  induction rs generalizing t with
  | nil => rfl
  | cons r rs ih =>
    obtain ⟨hr, hrs⟩ := List.nodup_cons.mp hnodup
    obtain ⟨t', ht'⟩ := Option.isSome_iff_exists.mp (insert?_isSome.mpr (hfree r List.mem_cons_self))
    rw [insertAll?, ht', Option.bind_some]
    refine ih hrs fun s hs => ?_
    have hne : key s ≠ key r := fun he => hr (List.mem_map.mpr ⟨s, hs, he⟩)
    rw [find?_insert? ht', if_neg hne]
    exact hfree s (List.mem_cons_of_mem _ hs)

end Table
end AgenticRag.Lib

import Mathlib.Data.List.Nodup
import Mathlib.Data.List.Perm.Basic
import Mathlib.Data.List.Dedup
import Mathlib.Tactic.Common

/-! Inner joins as nested loops. A join of duplicate-free tables is duplicate
free, so its rows are known up to their order once it is known which they are. -/
namespace AgenticRag.Lib

universe u v w
variable {α : Type u} {β : Type v} {ε : Type w}

/-- `left JOIN right ON condition`. -/
def join (left : List α) (right : List β) (condition : α → β → Bool) : List (α × β) :=
  left.flatMap fun a => (right.filter (condition a)).map fun b => (a, b)

variable {left : List α} {right : List β} {condition : α → β → Bool}

@[simp] theorem mem_join {a : α} {b : β} :
    (a, b) ∈ join left right condition ↔ a ∈ left ∧ b ∈ right ∧ condition a b = true := by
  constructor
  · intro h
    obtain ⟨a', ha, h⟩ := List.mem_flatMap.mp h
    obtain ⟨b', hb, he⟩ := List.mem_map.mp h
    obtain ⟨rfl, rfl⟩ := Prod.mk.inj he
    exact ⟨ha, List.mem_filter.mp hb⟩
  · rintro ⟨ha, hb⟩
    exact List.mem_flatMap.mpr ⟨a, ha, List.mem_map.mpr ⟨b, List.mem_filter.mpr hb, rfl⟩⟩

theorem nodup_join (hl : left.Nodup) (hr : right.Nodup) : (join left right condition).Nodup := by
  refine List.nodup_flatMap.mpr ⟨?_, ?_⟩
  · intro a _
    exact (hr.filter _).map fun b b' h => (Prod.mk.inj h).2
  · refine hl.imp_of_mem ?_
    intro a a' _ _ hne p hp hp'
    obtain ⟨b, _, rfl⟩ := List.mem_map.mp hp
    obtain ⟨b', _, he⟩ := List.mem_map.mp hp'
    exact hne (Prod.mk.inj he).1.symm

/-- Two duplicate-free results with the same rows differ in their order only. -/
theorem filter_perm {xs ys : List α} {p : α → Bool} (hx : xs.Nodup) (hy : ys.Nodup)
    (h : ∀ a, p a = true → (a ∈ xs ↔ a ∈ ys)) : (xs.filter p).Perm (ys.filter p) := by
  refine (List.perm_ext_iff_of_nodup (hx.filter _) (hy.filter _)).mpr ?_
  intro a
  rw [List.mem_filter, List.mem_filter]
  exact and_congr_left fun hp => h a hp

/-- When one element at most satisfies a condition, it is the one found, wherever it is. -/
theorem find?_eq_some_iff {xs : List α} {p : α → Bool} {a : α}
    (h : ∀ a ∈ xs, ∀ b ∈ xs, p a = true → p b = true → a = b) :
    xs.find? p = some a ↔ a ∈ xs ∧ p a = true := by
  refine ⟨fun hf => ⟨List.mem_of_find?_eq_some hf, List.find?_some hf⟩, ?_⟩
  rintro ⟨ha, hp⟩
  obtain ⟨b, hb⟩ := Option.isSome_iff_exists.mp (List.find?_isSome.mpr ⟨a, ha, hp⟩)
  rw [hb, h b (List.mem_of_find?_eq_some hb) a ha (List.find?_some hb) hp]

/-- The row of a query that is to find one row at most. -/
def oneOrNone (multiple : ε) : List α → Except ε (Option α)
  | [] => .ok none
  | [a] => .ok (some a)
  | _ :: _ :: _ => .error multiple

variable {multiple : ε} {xs ys : List α}

theorem oneOrNone_perm (h : xs.Perm ys) : oneOrNone multiple xs = oneOrNone multiple ys := by
  cases xs with
  | nil => rw [h.nil_eq]
  | cons a xs =>
    cases xs with
    | nil => rw [h.singleton_eq]
    | cons b xs =>
      obtain ⟨c, d, zs, rfl⟩ : ∃ c d zs, ys = c :: d :: zs := by
        have hlen := h.length_eq
        match ys, hlen with
        | c :: d :: zs, _ => exact ⟨c, d, zs, rfl⟩
      rfl

end AgenticRag.Lib

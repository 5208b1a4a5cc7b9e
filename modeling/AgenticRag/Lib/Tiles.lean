import AgenticRag.Lib.Joins
import Mathlib.Data.List.Chain
import Mathlib.Tactic.Common

/-! Half-open ranges of a list, and those that the parts of a join take up. -/
namespace AgenticRag.Lib

universe u
variable {α : Type u}

structure Extent where
  start : Nat
  stop : Nat

namespace Extent

def Contains (e : Extent) (k : Nat) : Prop := e.start ≤ k ∧ k < e.stop

instance (e : Extent) (k : Nat) : Decidable (e.Contains k) := inferInstanceAs (Decidable (_ ∧ _))

/-- `xs[start:stop]`. -/
def slice (xs : List α) (e : Extent) : List α := (xs.take e.stop).drop e.start

theorem slice_append (xs ys : List α) {e : Extent} (h : e.stop ≤ xs.length) :
    e.slice (xs ++ ys) = e.slice xs := by
  rw [slice, slice, List.take_append_of_le_length h]

theorem slice_middle (xs ys zs : List α) :
    (⟨xs.length, xs.length + ys.length⟩ : Extent).slice (xs ++ (ys ++ zs)) = ys := by
  rw [slice, ← List.append_assoc, ← List.length_append, List.take_left, List.drop_left]

/-- The ranges with the gap between each and the next. -/
def withGaps : List Extent → List Extent
  | [] => []
  | [a] => [a]
  | a :: b :: rest => a :: ⟨a.stop, b.start⟩ :: withGaps (b :: rest)

/-- Ranges in order, none backward and none begun before the last one ends. -/
def Ordered (extents : List Extent) : Prop :=
  extents.IsChain (fun a b => a.stop ≤ b.start) ∧ ∀ e ∈ extents, e.start ≤ e.stop

theorem Ordered.tail {a : Extent} {extents : List Extent} (h : Ordered (a :: extents)) :
    Ordered extents := ⟨h.1.tail, fun e he => h.2 e (List.mem_cons_of_mem _ he)⟩

private theorem count_cons (e : Extent) (extents : List Extent) (k : Nat) :
    (e :: extents).countP (fun e => e.Contains k) =
      extents.countP (fun e => e.Contains k) + if e.Contains k then 1 else 0 := by
  rw [List.countP_cons]
  simp only [decide_eq_true_eq]

private theorem not_contains_of_lt {e : Extent} {k : Nat} (h : k < e.start) : ¬ e.Contains k :=
  fun hc => absurd hc.1 (Nat.not_le.mpr h)

private theorem not_contains_of_le {e : Extent} {k : Nat} (h : e.stop ≤ k) : ¬ e.Contains k :=
  fun hc => absurd hc.2 (Nat.not_lt.mpr h)

private theorem withGaps_before {extents : List Extent} (h : Ordered extents) {k : Nat}
    (hk : ∀ a, extents.head? = some a → k < a.start) :
    (withGaps extents).countP (fun e => e.Contains k) = 0 := by
  induction extents with
  | nil => rfl
  | cons a rest ih =>
    have ha : k < a.start := hk a rfl
    cases rest with
    | nil => rw [withGaps, count_cons, if_neg (not_contains_of_lt ha), List.countP_nil]
    | cons b rest =>
      have hab : a.stop ≤ b.start := h.1.rel
      have haa : a.start ≤ a.stop := h.2 a List.mem_cons_self
      have hb : ∀ c, (b :: rest).head? = some c → k < c.start := by
        intro c hc
        obtain rfl := Option.some.inj hc
        omega
      rw [withGaps, count_cons, count_cons, ih h.tail hb, if_neg (not_contains_of_lt ha),
        if_neg (not_contains_of_lt (ha.trans_le haa))]

/-- A position between the first start and the last stop is in one range or one gap. -/
theorem withGaps_count {extents : List Extent} (h : Ordered extents) {k : Nat} {first last : Extent}
    (hfirst : extents.head? = some first) (hlast : extents.getLast? = some last)
    (hk : first.start ≤ k) (hk' : k < last.stop) :
    (withGaps extents).countP (fun e => e.Contains k) = 1 := by
  induction extents generalizing first with
  | nil => cases hfirst
  | cons a rest ih =>
    obtain rfl := Option.some.inj hfirst
    cases rest with
    | nil =>
      rw [List.getLast?_singleton] at hlast
      obtain rfl := Option.some.inj hlast
      have hin : a.Contains k := ⟨hk, hk'⟩
      rw [withGaps, count_cons, if_pos hin, List.countP_nil]
    | cons b rest =>
      rw [List.getLast?_cons_cons] at hlast
      have hab : a.stop ≤ b.start := h.1.rel
      rw [withGaps, count_cons, count_cons]
      by_cases hb : b.start ≤ k
      · rw [ih h.tail rfl hlast hb, if_neg (not_contains_of_le (hab.trans hb)),
          if_neg (not_contains_of_le hb)]
      · have hrest : (withGaps (b :: rest)).countP (fun e => e.Contains k) = 0 := by
          apply withGaps_before h.tail
          intro c hc
          obtain rfl := Option.some.inj hc
          omega
        by_cases ha : k < a.stop
        · have hin : a.Contains k := ⟨hk, ha⟩
          rw [hrest, if_pos hin, if_neg (not_contains_of_lt ha)]
        · have hin : (⟨a.stop, b.start⟩ : Extent).Contains k := ⟨not_lt.mp ha, not_le.mp hb⟩
          rw [hrest, if_neg (not_contains_of_le (not_lt.mp ha)), if_pos hin]

end Extent

/-- The ranges that the parts take up in their join, as a running offset counts them. -/
inductive Tiles (separator : List α) : List (List α) → List Extent → Prop
  | nil : Tiles separator [] []
  | concat {parts : List (List α)} {extents : List Extent} {start : Nat} (part : List α) :
      Tiles separator parts extents →
      start = (if parts = [] then 0 else (separator.intercalate parts).length + separator.length) →
      Tiles separator (parts ++ [part]) (extents ++ [⟨start, start + part.length⟩])

namespace Tiles

variable {separator : List α} {parts : List (List α)} {extents : List Extent}

theorem nil_iff (h : Tiles separator parts extents) : parts = [] ↔ extents = [] := by
  cases h with
  | nil => simp
  | concat => simp

/-- What one more part adds: the text it follows, and where it starts. -/
private theorem concat_text (parts : List (List α)) (part : List α) {start : Nat}
    (hs : start = if parts = [] then 0 else (separator.intercalate parts).length + separator.length) :
    ∃ before, separator.intercalate (parts ++ [part]) = before ++ part ∧ before.length = start ∧
      (parts = [] ∧ before = [] ∨ parts ≠ [] ∧ before = separator.intercalate parts ++ separator) := by
  rw [intercalate_concat]
  by_cases hp : parts = []
  · rw [if_pos hp] at hs ⊢
    exact ⟨[], rfl, hs.symm, .inl ⟨hp, rfl⟩⟩
  · rw [if_neg hp] at hs ⊢
    refine ⟨separator.intercalate parts ++ separator, (List.append_assoc _ _ _).symm, ?_, .inr ⟨hp, rfl⟩⟩
    rw [List.length_append, hs]

theorem start_le_stop (h : Tiles separator parts extents) {e : Extent} (he : e ∈ extents) :
    e.start ≤ e.stop := by
  induction h with
  | nil => cases he
  | concat part _ _ ih =>
    rcases List.mem_append.mp he with he | he
    · exact ih he
    · obtain rfl := List.mem_singleton.mp he
      exact Nat.le_add_right _ _

theorem stop_of_getLast (h : Tiles separator parts extents) {e : Extent}
    (he : extents.getLast? = some e) : e.stop = (separator.intercalate parts).length := by
  cases h with
  | nil => cases he
  | concat part _ hs =>
    obtain ⟨before, htext, hlen, _⟩ := concat_text _ part hs
    rw [List.getLast?_concat] at he
    obtain rfl := Option.some.inj he
    rw [htext, List.length_append, hlen]

theorem stop_le (h : Tiles separator parts extents) {e : Extent} (he : e ∈ extents) :
    e.stop ≤ (separator.intercalate parts).length := by
  induction h with
  | nil => cases he
  | concat part h hs ih =>
    obtain ⟨before, htext, hlen, hb⟩ := concat_text _ part hs
    rw [htext, List.length_append, hlen]
    rcases List.mem_append.mp he with he | he
    · have hle := ih he
      rcases hb with ⟨hp, _⟩ | ⟨_, rfl⟩
      · rw [h.nil_iff.mp hp] at he
        cases he
      · rw [List.length_append] at hlen
        omega
    · obtain rfl := List.mem_singleton.mp he
      exact Nat.le_refl _

theorem start_of_head (h : Tiles separator parts extents) {e : Extent}
    (he : extents.head? = some e) : e.start = 0 := by
  induction h with
  | nil => cases he
  | @concat parts extents start part h hs ih =>
    by_cases hp : extents = []
    · subst hp
      rw [if_pos (h.nil_iff.mpr rfl)] at hs
      obtain rfl := Option.some.inj he
      exact hs
    · rw [List.head?_append_of_ne_nil _ hp] at he
      exact ih he

/-- Each range holds its part. -/
theorem slices_eq (h : Tiles separator parts extents) :
    List.Forall₂ (fun part e => e.slice (separator.intercalate parts) = part) parts extents := by
  induction h with
  | nil => exact .nil
  | concat part h hs ih =>
    obtain ⟨before, htext, hlen, hb⟩ := concat_text _ part hs
    rw [htext]
    refine List.rel_append ?_ (.cons ?_ .nil)
    · rcases hb with ⟨hp, _⟩ | ⟨_, rfl⟩
      · rw [h.nil_iff.mp hp, hp]
        exact .nil
      · refine List.forall₂_iff_zip.mpr ⟨ih.length_eq, ?_⟩
        intro p e hpe
        have hle := h.stop_le (List.of_mem_zip hpe).2
        rw [List.append_assoc, Extent.slice_append _ _ hle]
        exact (List.forall₂_iff_zip.mp ih).2 hpe
    · have hmid := Extent.slice_middle before part []
      rwa [List.append_nil, hlen] at hmid

/-- Between a range and the next lies the separator. -/
theorem gaps (h : Tiles separator parts extents) :
    extents.IsChain fun a b => b.start = a.stop + separator.length ∧
      (⟨a.stop, b.start⟩ : Extent).slice (separator.intercalate parts) = separator := by
  induction h with
  | nil => exact .nil
  | concat part h hs ih =>
    obtain ⟨before, htext, hlen, hb⟩ := concat_text _ part hs
    rw [htext]
    rcases hb with ⟨hp, _⟩ | ⟨_, rfl⟩
    · rw [h.nil_iff.mp hp]
      exact .singleton _
    · refine List.isChain_append.mpr ⟨?_, .singleton _, ?_⟩
      · refine ih.imp_of_mem_imp ?_
        intro a b _ hb hab
        have hstart := h.start_le_stop hb
        have hstop := h.stop_le hb
        rw [List.append_assoc, Extent.slice_append _ _ (hstart.trans hstop)]
        exact hab
      · intro a ha b hb
        obtain rfl := Option.some.inj hb
        have hstop := h.stop_of_getLast ha
        rw [List.length_append] at hlen
        rw [hstop]
        refine ⟨hlen.symm, ?_⟩
        rw [← hlen, List.append_assoc, Extent.slice_middle]

theorem ordered (h : Tiles separator parts extents) : Extent.Ordered extents :=
  ⟨h.gaps.imp fun a b hab => by omega, fun _ he => h.start_le_stop he⟩

/-- A position of the join is in one part or one separator. -/
theorem count (h : Tiles separator parts extents) {k : Nat}
    (hk : k < (separator.intercalate parts).length) :
    (Extent.withGaps extents).countP (fun e => e.Contains k) = 1 := by
  have hne : extents ≠ [] := by
    intro hnil
    rw [h.nil_iff.mpr hnil] at hk
    exact absurd hk (Nat.not_lt_zero _)
  have hfirst := List.head?_eq_some_head hne
  have hlast := List.getLast?_eq_some_getLast hne
  refine Extent.withGaps_count h.ordered hfirst hlast ?_ ?_
  · rw [h.start_of_head hfirst]
    exact Nat.zero_le k
  · rwa [h.stop_of_getLast hlast]

end Tiles
end AgenticRag.Lib

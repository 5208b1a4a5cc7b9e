import Mathlib.Tactic.Common

/-! Operations that stay inside one part of a state. A sequence of them, each on a part of
its own, leaves in every part what its operation alone would. -/
namespace AgenticRag.Lib

universe u v w
variable {σ : Type u} {ι : Type v} {α : Type w}

/-- From a state of the invariant the operation keeps the invariant and the other parts, and what it
leaves in its part depends on that part only. -/
structure ActsOn (I : σ → Prop) (part : ι → σ → α) (i : ι) (f : σ → σ) : Prop where
  keeps : ∀ s, I s → I (f s)
  frame : ∀ s j, I s → j ≠ i → part j (f s) = part j s
  inside : ∀ s t, I s → I t → part i s = part i t → part i (f s) = part i (f t)

namespace ActsOn
variable {I : σ → Prop} {part : ι → σ → α} {i : ι} {f g : σ → σ}

theorem id : ActsOn I part i id where
  keeps _ hs := hs
  frame _ _ _ _ := rfl
  inside _ _ _ _ h := h

theorem comp (hg : ActsOn I part i g) (hf : ActsOn I part i f) : ActsOn I part i (g ∘ f) where
  keeps s hs := hg.keeps (f s) (hf.keeps s hs)
  frame s j hs hj := (hg.frame (f s) j (hf.keeps s hs) hj).trans (hf.frame s j hs hj)
  inside s t hs ht h :=
    hg.inside (f s) (f t) (hf.keeps s hs) (hf.keeps t ht) (hf.inside s t hs ht h)

end ActsOn

/-- One operation after another. -/
def runAll (fs : List (ι × (σ → σ))) (s : σ) : σ := fs.foldl (fun s p => p.2 s) s

section RunAll
variable {I : σ → Prop} {part : ι → σ → α} {i : ι} {f : σ → σ} {fs : List (ι × (σ → σ))} {s : σ}

@[simp] theorem runAll_cons {p : ι × (σ → σ)} : runAll (p :: fs) s = runAll fs (p.2 s) := rfl

/-- A part that no operation is on stays as it is. -/
theorem part_runAll_of_not_mem (h : ∀ p ∈ fs, ActsOn I part p.1 p.2) (hs : I s)
    (hi : ∀ p ∈ fs, i ≠ p.1) : part i (runAll fs s) = part i s := by
  induction fs generalizing s with
  | nil => rfl
  | cons p fs ih =>
    rw [List.forall_mem_cons] at h hi
    rw [runAll_cons, ih h.2 (h.1.keeps s hs) hi.2]
    exact h.1.frame s i hs hi.1

/-- Each part is left as if its operation were the only one. -/
theorem part_runAll_of_mem (h : ∀ p ∈ fs, ActsOn I part p.1 p.2) (hnodup : (fs.map Prod.fst).Nodup)
    (hs : I s) (hf : (i, f) ∈ fs) : part i (runAll fs s) = part i (f s) := by
  induction fs generalizing s with
  | nil => cases hf
  | cons p fs ih =>
    rw [List.forall_mem_cons] at h
    rw [List.map_cons, List.nodup_cons] at hnodup
    rw [runAll_cons]
    rcases List.mem_cons.mp hf with rfl | hf
    · refine part_runAll_of_not_mem h.2 (h.1.keeps s hs) fun q hq he => hnodup.1 ?_
      exact List.mem_map.mpr ⟨q, hq, he.symm⟩
    · have hne : i ≠ p.1 := by
        intro he
        exact hnodup.1 (List.mem_map.mpr ⟨(i, f), hf, he⟩)
      rw [ih h.2 hnodup.2 (h.1.keeps s hs) hf]
      have hact := h.2 _ hf
      exact hact.inside _ _ (h.1.keeps s hs) hs (h.1.frame s i hs hne)

end RunAll
end AgenticRag.Lib

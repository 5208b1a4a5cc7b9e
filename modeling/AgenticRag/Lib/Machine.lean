import Mathlib.Logic.Basic
import Mathlib.Data.List.Induction

/-! Machines whose labels carry every choice of the environment. A run is a list
of labels, and replaying a run is a computation. -/
namespace AgenticRag.Lib

universe u v

/-- One step for each label; `none` when the label is not enabled. -/
structure Machine (σ : Type u) (ι : Type v) where
  step : σ → ι → Option σ

namespace Machine
variable {σ : Type u} {ι : Type v}

def run (M : Machine σ ι) : σ → List ι → Option σ
  | s, [] => some s
  | s, a :: as => (M.step s a).bind fun t => M.run t as

/-- Every label of the run satisfies `C` in the state in which it is taken. -/
def Allowed (M : Machine σ ι) (C : σ → ι → Prop) : σ → List ι → Prop
  | _, [] => True
  | s, a :: as => C s a ∧ ∀ t, M.step s a = some t → M.Allowed C t as

def Reaches (M : Machine σ ι) (s t : σ) : Prop := ∃ as, M.run s as = some t

variable {M : Machine σ ι} {s t : σ} {a : ι} {as bs : List ι}

@[simp] theorem run_nil : M.run s [] = some s := rfl

theorem run_cons : M.run s (a :: as) = (M.step s a).bind fun r => M.run r as := rfl

theorem run_cons_eq_some : M.run s (a :: as) = some t ↔
    ∃ r, M.step s a = some r ∧ M.run r as = some t := by
  rw [run_cons, Option.bind_eq_some_iff]

theorem run_append : M.run s (as ++ bs) = (M.run s as).bind fun r => M.run r bs := by
  induction as generalizing s with
  | nil => rfl
  | cons a as ih =>
    rw [List.cons_append, run_cons, run_cons]
    cases h : M.step s a with
    | none => rfl
    | some r => simpa using ih

theorem Reaches.refl : M.Reaches s s := ⟨[], rfl⟩

theorem Reaches.trans {r : σ} (h : M.Reaches s r) (h' : M.Reaches r t) : M.Reaches s t := by
  obtain ⟨as, ha⟩ := h
  obtain ⟨bs, hb⟩ := h'
  exact ⟨as ++ bs, by rw [run_append, ha]; exact hb⟩

theorem Reaches.single (h : M.step s a = some t) : M.Reaches s t :=
  ⟨[a], by rw [run_cons, h]; rfl⟩

/-- Some run of labels in `C` ends in `P`. -/
def CanReach (M : Machine σ ι) (C : ι → Prop) (P : σ → Prop) (s : σ) : Prop :=
  ∃ as t, (∀ a ∈ as, C a) ∧ M.run s as = some t ∧ P t

theorem CanReach.here {C : ι → Prop} {P : σ → Prop} (h : P s) : M.CanReach C P s :=
  ⟨[], s, List.forall_mem_nil _, rfl, h⟩

theorem CanReach.cons {C : ι → Prop} {P : σ → Prop} (hstep : M.step s a = some t) (ha : C a)
    (h : M.CanReach C P t) : M.CanReach C P s := by
  obtain ⟨as, u, hall, hrun, hu⟩ := h
  exact ⟨a :: as, u, List.forall_mem_cons.mpr ⟨ha, hall⟩, by rw [run_cons, hstep]; exact hrun, hu⟩

/-- What every allowed step preserves, every allowed run preserves. -/
theorem run_invariant_of_allowed {C : σ → ι → Prop} {I : σ → Prop}
    (hstep : ∀ s a t, I s → C s a → M.step s a = some t → I t)
    (hs : I s) (hC : M.Allowed C s as) (hrun : M.run s as = some t) : I t := by
  induction as generalizing s with
  | nil =>
    obtain rfl : s = t := by simpa using hrun
    exact hs
  | cons a as ih =>
    obtain ⟨r, hr, hrest⟩ := run_cons_eq_some.mp hrun
    exact ih (hstep s a r hs hC.1 hr) (hC.2 r hr) hrest

theorem allowed_true : M.Allowed (fun _ _ => True) s as := by
  induction as generalizing s with
  | nil => trivial
  | cons a as ih => exact ⟨trivial, fun _ _ => ih⟩

theorem allowed_of_forall {C : σ → ι → Prop} (h : ∀ a ∈ as, ∀ r, C r a) : M.Allowed C s as := by
  induction as generalizing s with
  | nil => trivial
  | cons a as ih =>
    exact ⟨h a List.mem_cons_self s, fun _ _ => ih fun b hb => h b (List.mem_cons_of_mem _ hb)⟩

theorem Allowed.mono {C D : σ → ι → Prop} (h : M.Allowed C s as) (hCD : ∀ r b, C r b → D r b) :
    M.Allowed D s as := by
  induction as generalizing s with
  | nil => trivial
  | cons a as ih => exact ⟨hCD s a h.1, fun t ht => ih (h.2 t ht)⟩

theorem Allowed.and_forall {C : σ → ι → Prop} {P : ι → Prop} (h : M.Allowed C s as)
    (hP : ∀ a ∈ as, P a) : M.Allowed (fun r a => C r a ∧ P a) s as := by
  induction as generalizing s with
  | nil => trivial
  | cons a as ih =>
    exact ⟨⟨h.1, hP a List.mem_cons_self⟩, fun t ht =>
      ih (h.2 t ht) fun b hb => hP b (List.mem_cons_of_mem _ hb)⟩

/-- Two conditions that say the same in every state of an invariant allow the same runs from it. -/
theorem allowed_congr {C D : σ → ι → Prop} {I : σ → Prop} (hCD : ∀ r b, I r → (C r b ↔ D r b))
    (hstep : ∀ r b q, I r → D r b → M.step r b = some q → I q) (hs : I s) :
    M.Allowed C s as ↔ M.Allowed D s as := by
  induction as generalizing s with
  | nil => exact Iff.rfl
  | cons a as ih =>
    rw [Allowed, Allowed, hCD s a hs]
    exact and_congr_right fun ha => forall_congr' fun t => imp_congr_right fun ht =>
      ih (hstep s a t hs ha ht)

instance decidableAllowed {C : σ → ι → Prop} [∀ s a, Decidable (C s a)] :
    ∀ s as, Decidable (M.Allowed C s as)
  | _, [] => .isTrue trivial
  | s, a :: as =>
    match h : M.step s a with
    | none => decidable_of_iff (C s a) ⟨fun hC => ⟨hC, by simp [h]⟩, And.left⟩
    | some t =>
      have := decidableAllowed (C := C) t as
      decidable_of_iff (C s a ∧ M.Allowed C t as)
        ⟨fun hC => ⟨hC.1, by simp [h, hC.2]⟩, fun hC => ⟨hC.1, hC.2 t h⟩⟩

theorem allowed_append {C : σ → ι → Prop} : M.Allowed C s (as ++ bs) ↔
    M.Allowed C s as ∧ ∀ t, M.run s as = some t → M.Allowed C t bs := by
  induction as generalizing s with
  | nil => simp [Allowed]
  | cons a as ih =>
    rw [List.cons_append, Allowed, Allowed, and_assoc]
    refine and_congr_right fun _ => ?_
    constructor
    · intro h
      refine ⟨fun r hr => (ih.mp (h r hr)).1, fun t ht => ?_⟩
      obtain ⟨r, hr, hrest⟩ := run_cons_eq_some.mp ht
      exact (ih.mp (h r hr)).2 t hrest
    · rintro ⟨hall, htail⟩ r hr
      exact ih.mpr ⟨hall r hr, fun t ht => htail t (run_cons_eq_some.mpr ⟨r, hr, ht⟩)⟩

/-- One more label is asked about in the state that the run has reached. -/
theorem allowed_concat {C : σ → ι → Prop} (hrun : M.run s as = some t) :
    M.Allowed C s (as ++ [a]) ↔ M.Allowed C s as ∧ C t a := by
  rw [allowed_append]
  refine and_congr_right fun _ => ⟨fun h => (h t hrun).1, fun h r hr => ?_⟩
  obtain rfl := Option.some.inj (hrun.symm.trans hr)
  exact ⟨h, fun _ _ => trivial⟩

/-- What is allowed of a run is allowed of each of its steps. -/
theorem allowed_iff_forall {C : σ → ι → Prop} (hrun : M.run s as = some t) :
    M.Allowed C s as ↔
      ∀ before a after r, as = before ++ a :: after → M.run s before = some r → C r a := by
  constructor
  · rintro h before a after r rfl hbefore
    exact ((allowed_append.mp h).2 r hbefore).1
  · intro h
    induction as generalizing s with
    | nil => trivial
    | cons b as ih =>
      obtain ⟨r, hr, hrest⟩ := run_cons_eq_some.mp hrun
      refine ⟨h [] b as s rfl rfl, fun u hu => ?_⟩
      obtain rfl := Option.some.inj (hr.symm.trans hu)
      refine ih hrest fun before a after q has hbefore => ?_
      refine h (b :: before) a after q (congrArg (b :: ·) has) ?_
      rw [run_cons, hr]
      exact hbefore

/-- An invariant that speaks of the labels taken so far. -/
theorem run_history {C : σ → ι → Prop} {I : List ι → σ → Prop}
    (hstep : ∀ as r a q, M.run s as = some r → I as r → C r a → M.step r a = some q → I (as ++ [a]) q)
    (hs : I [] s) (hC : M.Allowed C s as) (hrun : M.run s as = some t) : I as t := by
  induction as using List.reverseRecOn generalizing t with
  | nil =>
    obtain rfl := Option.some.inj hrun
    exact hs
  | append_singleton as a ih =>
    rw [run_append] at hrun
    obtain ⟨r, hr, hrun⟩ := Option.bind_eq_some_iff.mp hrun
    obtain ⟨q, hq, hnil⟩ := run_cons_eq_some.mp hrun
    obtain rfl := Option.some.inj hnil
    obtain ⟨hbefore, hlast⟩ := (allowed_concat hr).mp hC
    exact hstep as r a q hr (ih hbefore hr) hlast hq

theorem run_invariant {I : σ → Prop} (hstep : ∀ s a t, I s → M.step s a = some t → I t)
    (hs : I s) (hrun : M.run s as = some t) : I t :=
  run_invariant_of_allowed (fun s a t hI _ => hstep s a t hI) hs allowed_true hrun

theorem reaches_invariant {I : σ → Prop} (hstep : ∀ s a t, I s → M.step s a = some t → I t)
    (hs : I s) (h : M.Reaches s t) : I t := by
  obtain ⟨as, hrun⟩ := h
  exact run_invariant hstep hs hrun

/-- A relation that holds across each step from an invariant state, and is
reflexive and transitive, holds across each run from such a state. -/
theorem reaches_relation {I : σ → Prop} {R : σ → σ → Prop}
    (hI : ∀ s a t, I s → M.step s a = some t → I t)
    (hR : ∀ s a t, I s → M.step s a = some t → R s t)
    (hrefl : ∀ s, R s s) (htrans : ∀ r s t, R r s → R s t → R r t)
    (hs : I s) (h : M.Reaches s t) : R s t := by
  obtain ⟨as, hrun⟩ := h
  induction as generalizing s with
  | nil =>
    obtain rfl : s = t := by simpa using hrun
    exact hrefl s
  | cons a as ih =>
    obtain ⟨r, hr, hrest⟩ := run_cons_eq_some.mp hrun
    exact htrans s r t (hR s a r hs hr) (ih (hI s a r hs hr) hrest)

end Machine
end AgenticRag.Lib

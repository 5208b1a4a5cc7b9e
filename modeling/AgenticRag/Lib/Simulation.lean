import AgenticRag.Lib.Machine

/-! One machine seen as another: every step of the first is a step of the second between the images
of its states, under a label that is read off the step. -/
namespace AgenticRag.Lib.Machine

universe u v w x

variable {σ : Type u} {ι : Type v} {τ : Type w} {κ : Type x}

/-- The labels of a run as the other machine sees them; `label` gets the state that a step leads to. -/
def labels (M : Machine σ ι) (label : ι → σ → κ) : σ → List ι → List κ
  | _, [] => []
  | s, a :: as =>
    match M.step s a with
    | some t => label a t :: M.labels label t as
    | none => []

/-- `f` takes the states, and `label` the labels, of `M` to those of `N`. -/
def Simulates (M : Machine σ ι) (N : Machine τ κ) (f : σ → τ) (label : ι → σ → κ) : Prop :=
  ∀ s a t, M.step s a = some t → N.step (f s) (label a t) = some (f t)

variable {M : Machine σ ι} {N : Machine τ κ} {f : σ → τ} {label : ι → σ → κ} {s t : σ}
  {as bs : List ι}

theorem labels_cons {a : ι} (h : M.step s a = some t) :
    M.labels label s (a :: as) = label a t :: M.labels label t as := by
  rw [labels, h]

theorem labels_append (hrun : M.run s as = some t) :
    M.labels label s (as ++ bs) = M.labels label s as ++ M.labels label t bs := by
  induction as generalizing s with
  | nil =>
    obtain rfl := Option.some.inj hrun
    rfl
  | cons a as ih =>
    obtain ⟨r, hr, hrest⟩ := run_cons_eq_some.mp hrun
    rw [List.cons_append, labels_cons hr, labels_cons hr, ih hrest, List.cons_append]

/-- A run is a run of the other machine. -/
theorem Simulates.run (h : M.Simulates N f label) (hrun : M.run s as = some t) :
    N.run (f s) (M.labels label s as) = some (f t) := by
  induction as generalizing s with
  | nil =>
    obtain rfl := Option.some.inj hrun
    rfl
  | cons a as ih =>
    obtain ⟨r, hr, hrest⟩ := run_cons_eq_some.mp hrun
    rw [labels_cons hr, run_cons, h s a r hr]
    exact ih hrest

/-- A part of a machine that the steps without a label leave alone. -/
theorem run_filterMap {label : ι → Option κ}
    (hstep : ∀ s a t, M.step s a = some t →
      (∀ b, label a = some b → N.step (f s) b = some (f t)) ∧ (label a = none → f t = f s))
    (hrun : M.run s as = some t) : N.run (f s) (as.filterMap label) = some (f t) := by
  induction as generalizing s with
  | nil =>
    obtain rfl := Option.some.inj hrun
    rfl
  | cons a as ih =>
    obtain ⟨r, hr, hrest⟩ := run_cons_eq_some.mp hrun
    obtain ⟨hmove, hstay⟩ := hstep s a r hr
    cases hlabel : label a with
    | none =>
      rw [List.filterMap_cons_none hlabel, ← hstay hlabel]
      exact ih hrest
    | some b =>
      rw [List.filterMap_cons_some hlabel, run_cons, hmove b hlabel]
      exact ih hrest

/-- A beginning of the run seen is one of the run. -/
theorem of_labels_eq_append {before after : List κ} (hrun : M.run s as = some t)
    (hsplit : M.labels label s as = before ++ after) : ∃ as₁ as₂ r, as = as₁ ++ as₂ ∧
      M.run s as₁ = some r ∧ M.run r as₂ = some t ∧ M.labels label s as₁ = before := by
  induction before generalizing s as with
  | nil => exact ⟨[], as, s, rfl, rfl, hrun, rfl⟩
  | cons b before ih =>
    cases as with
    | nil => cases hsplit
    | cons a as =>
      obtain ⟨q, hq, hrest⟩ := run_cons_eq_some.mp hrun
      rw [labels_cons hq] at hsplit
      obtain ⟨rfl, htails⟩ := List.cons.inj hsplit
      obtain ⟨as₁, as₂, r, rfl, hr, htail, rfl⟩ := ih hrest htails
      refine ⟨a :: as₁, as₂, r, rfl, ?_, htail, labels_cons hq⟩
      rw [run_cons, hq]
      exact hr

end AgenticRag.Lib.Machine

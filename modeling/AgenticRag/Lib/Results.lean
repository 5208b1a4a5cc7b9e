import Mathlib.Data.List.Forall2
import Mathlib.Tactic.Common

/-! Sequencing of computations that may raise. -/
namespace AgenticRag.Lib

universe u v
variable {ε α β : Type u}

theorem bind_eq_ok {x : Except ε α} {f : α → Except ε β} {b : β} :
    x >>= f = .ok b ↔ ∃ a, x = .ok a ∧ f a = .ok b := by
  cases x with
  | error e => simp [bind, Except.bind]
  | ok a => simp [bind, Except.bind]

theorem map_eq_ok {x : Except ε α} {f : α → β} {b : β} :
    x.map f = .ok b ↔ ∃ a, x = .ok a ∧ f a = b := by
  cases x with
  | error e => simp [Except.map]
  | ok a => simp [Except.map]

theorem toOption_eq_some {x : Except ε α} {a : α} : x.toOption = some a ↔ x = .ok a := by
  cases x <;> simp [Except.toOption]

/-- What a computation raises. -/
def errorOf : Except ε α → Option ε
  | .error e => some e
  | .ok _ => none

theorem errorOf_eq_some {x : Except ε α} {e : ε} : errorOf x = some e ↔ x = .error e := by
  cases x <;> simp [errorOf]

/-- A successful traversal, result by result. -/
theorem mapM_eq_ok {f : α → Except ε β} {xs : List α} {ys : List β} :
    xs.mapM f = .ok ys ↔ List.Forall₂ (fun x y => f x = .ok y) xs ys := by
  induction xs generalizing ys with
  | nil => simp [pure, Except.pure, List.forall₂_nil_left_iff, eq_comm]
  | cons x xs ih =>
    rw [List.mapM_cons, bind_eq_ok, List.forall₂_cons_left_iff]
    constructor
    · rintro ⟨y, hy, h⟩
      obtain ⟨zs, hzs, h⟩ := bind_eq_ok.mp h
      exact ⟨y, zs, hy, ih.mp hzs, (Except.ok.inj h).symm⟩
    · rintro ⟨y, zs, hy, hzs, rfl⟩
      exact ⟨y, hy, bind_eq_ok.mpr ⟨zs, ih.mpr hzs, rfl⟩⟩

theorem exists_of_forall₂ {R : α → β → Prop} {xs : List α} {ys : List β}
    (h : List.Forall₂ R xs ys) {y : β} (hy : y ∈ ys) : ∃ x ∈ xs, R x y := by
  induction h with
  | nil => cases hy
  | cons hr _ ih =>
    rcases List.mem_cons.mp hy with rfl | hy
    · exact ⟨_, List.mem_cons_self, hr⟩
    · obtain ⟨x, hx, hxy⟩ := ih hy
      exact ⟨x, List.mem_cons_of_mem _ hx, hxy⟩

theorem exists_of_forall₂_left {R : α → β → Prop} {xs : List α} {ys : List β}
    (h : List.Forall₂ R xs ys) {x : α} (hx : x ∈ xs) : ∃ y ∈ ys, R x y :=
  exists_of_forall₂ h.flip hx

/-- Lists related item by item have related items at each position. -/
theorem exists_of_forall₂_at {R : α → β → Prop} {xs : List α} {ys : List β}
    (h : List.Forall₂ R xs ys) {i : Nat} {y : β} (hy : ys[i]? = some y) : ∃ x, xs[i]? = some x ∧ R x y := by
  obtain ⟨hi, rfl⟩ := List.getElem?_eq_some_iff.mp hy
  have hi' : i < xs.length := h.length_eq ▸ hi
  exact ⟨xs[i], List.getElem?_eq_getElem hi', h.get hi' hi⟩

/-- A traversal succeeds when each item does. -/
theorem mapM_ok_of_forall {f : α → Except ε β} {xs : List α} (h : ∀ x ∈ xs, ∃ y, f x = .ok y) :
    ∃ ys, xs.mapM f = .ok ys := by
  induction xs with
  | nil => exact ⟨[], rfl⟩
  | cons x xs ih =>
    obtain ⟨y, hy⟩ := h x List.mem_cons_self
    obtain ⟨ys, hys⟩ := ih fun z hz => h z (List.mem_cons_of_mem _ hz)
    exact ⟨y :: ys, mapM_eq_ok.mpr (.cons hy (mapM_eq_ok.mp hys))⟩

theorem mapM_eq_ok_map {f : α → Except ε β} {g : α → β} {xs : List α}
    (h : ∀ x ∈ xs, f x = .ok (g x)) : xs.mapM f = .ok (xs.map g) := by
  rw [mapM_eq_ok, List.forall₂_map_right_iff, List.forall₂_same]
  exact h

/-- A loop that raises nothing keeps what each of its steps keeps. -/
theorem foldlM_invariant {I : β → Prop} {f : β → α → Except ε β} {xs : List α} {b b' : β}
    (hstep : ∀ b a b', a ∈ xs → I b → f b a = .ok b' → I b') (hb : I b)
    (h : xs.foldlM f b = .ok b') : I b' := by
  induction xs generalizing b with
  | nil =>
    obtain rfl := Except.ok.inj h
    exact hb
  | cons x xs ih =>
    rw [List.foldlM_cons] at h
    obtain ⟨c, hc, h⟩ := bind_eq_ok.mp h
    exact ih (fun b a b' ha => hstep b a b' (List.mem_cons_of_mem _ ha))
      (hstep b x c List.mem_cons_self hb hc) h

/-- `except caught: raise replacement`. -/
def rescue (caught : ε → Bool) (replacement : ε) : Except ε α → Except ε α
  | .ok a => .ok a
  | .error e => .error (if caught e then replacement else e)

@[simp] theorem rescue_eq_ok {caught : ε → Bool} {replacement : ε} {x : Except ε α} {a : α} :
    rescue caught replacement x = .ok a ↔ x = .ok a := by
  cases x <;> simp [rescue]

theorem rescue_eq_error {caught : ε → Bool} {replacement e : ε} {x : Except ε α} :
    rescue caught replacement x = .error e ↔
      ∃ e', x = .error e' ∧ (if caught e' then replacement else e') = e := by
  cases x <;> simp [rescue]

section MapError
variable {δ : Type u} {f : ε → δ} {x : Except ε α}

theorem mapError_eq_error {d : δ} : x.mapError f = .error d ↔ ∃ e, x = .error e ∧ f e = d := by
  cases x <;> simp [Except.mapError]

theorem mapError_eq_ok {a : α} : x.mapError f = .ok a ↔ x = .ok a := by
  cases x <;> simp [Except.mapError]

end MapError

/-- Every exception that can escape from `x` satisfies `C`. -/
def Raises (C : ε → Prop) (x : Except ε α) : Prop := ∀ e, x = .error e → C e

section Raises
variable {C D : ε → Prop} {x : Except ε α} {f : α → Except ε β}

theorem raises_ok (a : α) : Raises C (.ok a : Except ε α) := fun _ h => nomatch h

theorem raises_error {e : ε} (h : C e) : Raises C (.error e : Except ε α) := by
  rintro _ ⟨⟩
  exact h

theorem raises_bind (hx : Raises C x) (hf : ∀ a, x = .ok a → Raises C (f a)) :
    Raises C (x >>= f) := by
  cases x with
  | error e => exact raises_error (hx e rfl)
  | ok a => exact hf a rfl

theorem raises_rescue {caught : ε → Bool} {replacement : ε} (hx : Raises C x)
    (hcaught : ∀ e, C e → caught e = false → D e) (hr : D replacement) :
    Raises D (rescue caught replacement x) := by
  cases x with
  | ok a => exact raises_ok a
  | error e =>
    refine raises_error ?_
    split
    · exact hr
    · rename_i h
      exact hcaught e (hx e rfl) (by simpa using h)

theorem raises_foldlM_mem {f : β → α → Except ε β} {xs : List α}
    (h : ∀ b, ∀ a ∈ xs, Raises C (f b a)) (b : β) : Raises C (xs.foldlM f b) := by
  induction xs generalizing b with
  | nil => exact raises_ok b
  | cons x xs ih =>
    rw [List.foldlM_cons]
    refine raises_bind (h b x List.mem_cons_self) fun c _ => ?_
    exact ih (fun b a ha => h b a (List.mem_cons_of_mem _ ha)) c

theorem raises_foldlM {f : β → α → Except ε β} (h : ∀ b a, Raises C (f b a)) (xs : List α) (b : β) :
    Raises C (xs.foldlM f b) :=
  raises_foldlM_mem (fun b a _ => h b a) b

theorem raises_mapM {f : α → Except ε β} {xs : List α} (h : ∀ x ∈ xs, Raises C (f x)) :
    Raises C (xs.mapM f) := by
  induction xs with
  | nil => exact raises_ok []
  | cons x xs ih =>
    rw [List.mapM_cons]
    refine raises_bind (h x List.mem_cons_self) fun y _ => ?_
    exact raises_bind (ih fun z hz => h z (List.mem_cons_of_mem _ hz)) fun ys _ => raises_ok _

theorem Raises.mono (h : Raises C x) (hCD : ∀ e, C e → D e) : Raises D x := fun e he => hCD e (h e he)

end Raises

section Checks
variable {ε : Type} {α : Type} {f : α → Except ε Unit} {xs : List α}

/-- A list of checks passes when each does. -/
theorem forM_eq_ok : xs.forM f = .ok () ↔ ∀ x ∈ xs, f x = .ok () := by
  induction xs with
  | nil => simp [List.forM, pure, Except.pure]
  | cons x xs ih =>
    change (f x >>= fun _ => xs.forM f) = .ok () ↔ _
    rw [bind_eq_ok, List.forall_mem_cons, ← ih]
    exact ⟨fun ⟨_, hx, h⟩ => ⟨hx, h⟩, fun ⟨hx, h⟩ => ⟨(), hx, h⟩⟩

/-- A list of checks raises what the first failing one does. -/
theorem forM_eq_error {e : ε} : xs.forM f = .error e ↔
    ∃ before x after, xs = before ++ x :: after ∧ (∀ y ∈ before, f y = .ok ()) ∧ f x = .error e := by
  induction xs with
  | nil => simp [List.forM, pure, Except.pure]
  | cons x xs ih =>
    change (f x >>= fun _ => xs.forM f) = .error e ↔ _
    cases hx : f x with
    | error e' =>
      change Except.error e' = Except.error e ↔ _
      constructor
      · intro h
        exact ⟨[], x, xs, rfl, fun _ h => (List.not_mem_nil h).elim, hx.trans h⟩
      · rintro ⟨before, y, after, heq, hbefore, hy⟩
        cases before with
        | nil =>
          obtain ⟨rfl, -⟩ := List.cons.inj heq
          exact hx.symm.trans hy
        | cons b before =>
          obtain ⟨rfl, -⟩ := List.cons.inj heq
          cases hx.symm.trans (hbefore x List.mem_cons_self)
    | ok u =>
      change xs.forM f = .error e ↔ _
      rw [ih]
      constructor
      · rintro ⟨before, y, after, rfl, hbefore, hy⟩
        exact ⟨x :: before, y, after, rfl, List.forall_mem_cons.mpr ⟨hx, hbefore⟩, hy⟩
      · rintro ⟨before, y, after, heq, hbefore, hy⟩
        cases before with
        | nil =>
          obtain ⟨rfl, -⟩ := List.cons.inj heq
          cases hx.symm.trans hy
        | cons b before =>
          obtain ⟨rfl, rfl⟩ := List.cons.inj heq
          exact ⟨before, y, after, rfl, (List.forall_mem_cons.mp hbefore).2, hy⟩

end Checks

theorem bind_eq_error {x : Except ε α} {f : α → Except ε β} {e : ε} :
    x >>= f = .error e ↔ x = .error e ∨ ∃ a, x = .ok a ∧ f a = .error e := by
  cases x with
  | error e' => simp [bind, Except.bind]
  | ok a => simp [bind, Except.bind]

/-- A traversal raises what the first failing item does. -/
theorem mapM_eq_error {f : α → Except ε β} {xs : List α} {e : ε} : xs.mapM f = .error e ↔
    ∃ (k : Nat) (x : α), xs[k]? = some x ∧ f x = .error e ∧
      ∀ j < k, ∀ y, xs[j]? = some y → ∃ b, f y = .ok b := by
  induction xs with
  | nil => simp [pure, Except.pure]
  | cons x xs ih =>
    rw [List.mapM_cons, bind_eq_error]
    constructor
    · rintro (hx | ⟨b, hx, h⟩)
      · exact ⟨0, x, rfl, hx, fun j hj => absurd hj (Nat.not_lt_zero j)⟩
      · rcases bind_eq_error.mp h with h | ⟨_, _, h⟩
        · obtain ⟨k, y, hk, hy, hbefore⟩ := ih.mp h
          refine ⟨k + 1, y, hk, hy, fun j hj z hz => ?_⟩
          cases j with
          | zero =>
            obtain rfl := Option.some.inj hz
            exact ⟨b, hx⟩
          | succ j => exact hbefore j (Nat.lt_of_succ_lt_succ hj) z hz
        · cases h
    · rintro ⟨k, y, hk, hy, hbefore⟩
      cases k with
      | zero =>
        obtain rfl := Option.some.inj hk
        exact .inl hy
      | succ k =>
        obtain ⟨b, hb⟩ := hbefore 0 (Nat.succ_pos k) x rfl
        refine .inr ⟨b, hb, bind_eq_error.mpr (.inl (ih.mpr ⟨k, y, hk, hy, fun j hj => ?_⟩))⟩
        exact hbefore (j + 1) (Nat.succ_lt_succ hj)

/-- A loop that appends what each item gives is a traversal. -/
theorem foldlM_append {f : α → Except ε (List β)} {xs : List α} {acc : List β} :
    xs.foldlM (fun acc x => f x >>= fun ys => .ok (acc ++ ys)) acc =
      xs.mapM f >>= fun yss => .ok (acc ++ yss.flatten) := by
  induction xs generalizing acc with
  | nil => simp [pure, Except.pure, bind, Except.bind]
  | cons x xs ih =>
    rw [List.foldlM_cons, List.mapM_cons]
    cases hx : f x with
    | error e => rfl
    | ok ys =>
      change xs.foldlM _ (acc ++ ys) = (xs.mapM f >>= fun yss => pure (ys :: yss)) >>= _
      rw [ih]
      cases xs.mapM f with
      | error e => rfl
      | ok yss => simp [bind, Except.bind, pure, Except.pure]

/-- Results of numbered batches, put together again. -/
theorem forall₂_flatten {R : α → β → Prop} {batches : List (List α)} {mades : List (List β)}
    {k : Nat} (h : List.Forall₂ (fun batch made => List.Forall₂ R batch.1 made) (batches.zipIdx k) mades) :
    List.Forall₂ R batches.flatten mades.flatten := by
  induction batches generalizing k mades with
  | nil =>
    rw [List.zipIdx_nil, List.forall₂_nil_left_iff] at h
    rw [h]
    exact .nil
  | cons batch batches ih =>
    rw [List.zipIdx_cons, List.forall₂_cons_left_iff] at h
    obtain ⟨made, rest, hmade, hrest, rfl⟩ := h
    rw [List.flatten_cons, List.flatten_cons]
    exact List.rel_append hmade (ih hrest)

theorem raises_forM {ε α : Type} {C : ε → Prop} {f : α → Except ε Unit} {xs : List α}
    (h : ∀ x ∈ xs, Raises C (f x)) : Raises C (xs.forM f) := by
  intro e he
  obtain ⟨before, x, after, rfl, _, hx⟩ := forM_eq_error.mp he
  exact h x (by simp) e hx

end AgenticRag.Lib

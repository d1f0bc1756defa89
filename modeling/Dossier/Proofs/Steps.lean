import Mathlib.Data.List.Forall2

/-!
# Steps that may fail

A computation that may fail succeeds if each of its steps does, and fails with the failure of the
first step that does not.
-/

namespace Dossier.Steps

variable {ε α β : Type}

theorem bind_eq_ok {x : Except ε α} {f : α → Except ε β} {b : β} :
    (x >>= f) = .ok b ↔ ∃ a, x = .ok a ∧ f a = .ok b := by
  cases x <;> simp [bind, Except.bind]

theorem pure_eq_ok {a b : α} : (pure a : Except ε α) = .ok b ↔ a = b := by
  simp [pure, Except.pure]

/-- A step for every item of a list succeeds if it does for each. -/
theorem mapM_eq_ok {f : α → Except ε β} {xs : List α} {ys : List β} :
    xs.mapM f = .ok ys ↔ List.Forall₂ (fun x y ↦ f x = .ok y) xs ys := by
  induction xs generalizing ys with
  | nil =>
      rw [List.mapM_nil, pure_eq_ok, List.forall₂_nil_left_iff]
      exact eq_comm
  | cons x rest ih =>
      rw [List.mapM_cons]
      simp only [bind_eq_ok, pure_eq_ok, List.forall₂_cons_left_iff]
      constructor
      · rintro ⟨y, hy, zs, hzs, rfl⟩
        exact ⟨y, zs, hy, ih.mp hzs, rfl⟩
      · rintro ⟨y, zs, hy, hzs, rfl⟩
        exact ⟨y, hy, zs, ih.mpr hzs, rfl⟩

theorem exists_of_mem_right {r : α → β → Prop} {xs : List α} {ys : List β}
    (h : List.Forall₂ r xs ys) {y : β} (hy : y ∈ ys) : ∃ x ∈ xs, r x y := by
  induction h with
  | nil => simp at hy
  | @cons x z xs ys hxz _ ih =>
      rcases List.mem_cons.mp hy with rfl | hy
      · exact ⟨x, List.mem_cons_self, hxz⟩
      · obtain ⟨w, hw, hwy⟩ := ih hy
        exact ⟨w, List.mem_cons_of_mem x hw, hwy⟩

/-- What every step preserves holds after all of them. -/
theorem foldlM_preserves (inv : β → Prop) {f : β → α → Except ε β} {xs : List α}
    (hstep : ∀ x ∈ xs, ∀ b, inv b → ∀ b', f b x = .ok b' → inv b') {b b' : β} (hb : inv b)
    (h : xs.foldlM f b = .ok b') : inv b' := by
  induction xs generalizing b with
  | nil =>
      obtain rfl := pure_eq_ok.mp h
      exact hb
  | cons x rest ih =>
      rw [List.foldlM_cons] at h
      obtain ⟨next, hnext, h⟩ := bind_eq_ok.mp h
      exact ih (fun y hy ↦ hstep y (List.mem_cons_of_mem x hy))
        (hstep x List.mem_cons_self b hb next hnext) h

/-! ## Failing -/

/-- A computation that ends with a failure. -/
def Fails (x : Except ε α) : Prop :=
  ∃ f, x = .error f

@[simp] theorem not_fails_ok (a : α) : ¬ Fails (.ok a : Except ε α) := by
  simp [Fails]

@[simp] theorem not_fails_pure (a : α) : ¬ Fails (pure a : Except ε α) :=
  not_fails_ok a

@[simp] theorem fails_error (f : ε) : Fails (.error f : Except ε α) :=
  ⟨f, rfl⟩

@[simp] theorem fails_throw (f : ε) : Fails (throw f : Except ε α) :=
  ⟨f, rfl⟩

@[simp] theorem fails_map {f : α → β} {x : Except ε α} : Fails (f <$> x) ↔ Fails x := by
  cases x <;> simp [Functor.map, Except.map]

theorem not_fails_iff {x : Except ε α} : ¬ Fails x ↔ ∃ a, x = .ok a := by
  cases x <;> simp

theorem not_fails_ite {c : Prop} [Decidable c] {x y : Except ε α} (hx : ¬ Fails x)
    (hy : ¬ Fails y) : ¬ Fails (if c then x else y) := by
  split
  · exact hx
  · exact hy

theorem fails_bind {x : Except ε α} {f : α → Except ε β} :
    Fails (x >>= f) ↔ Fails x ∨ ∃ a, x = .ok a ∧ Fails (f a) := by
  cases x <;> simp [bind, Except.bind]

/-- A second step that never fails. -/
theorem fails_bind_left {x : Except ε α} {f : α → Except ε β}
    (h : ∀ a, x = .ok a → ¬ Fails (f a)) : Fails (x >>= f) ↔ Fails x := by
  rw [fails_bind]
  apply or_iff_left
  rintro ⟨a, ha, hfails⟩
  exact h a ha hfails

/-- A second step that fails whatever the first one gives. -/
theorem fails_or_exists {x : Except ε α} {p : Prop} :
    (Fails x ∨ ∃ a, x = .ok a ∧ p) ↔ Fails x ∨ p := by
  cases x <;> simp

/-- A second step that always fails. -/
theorem fails_or_exists_true {x : Except ε α} : Fails x ∨ ∃ a, x = .ok a := by
  cases x <;> simp

/-- A second step that may fail by what the first one gives, or whatever that is. -/
theorem fails_or_exists_or {x : Except ε α} {p : α → Prop} {q : Prop} :
    (Fails x ∨ ∃ a, x = .ok a ∧ (p a ∨ q)) ↔ Fails x ∨ (∃ a, x = .ok a ∧ p a) ∨ q := by
  cases x <;> simp

/-- A step that is only taken if a question is answered with yes. -/
theorem fails_bind_ite {ask : Except ε Bool} {x : Except ε α} {a : α} :
    Fails (ask >>= fun answer ↦ if answer = true then x else pure a) ↔
      Fails ask ∨ ask = .ok true ∧ Fails x := by
  rw [fails_bind]
  refine or_congr_right ⟨?_, fun ⟨hyes, hx⟩ ↦ ⟨true, hyes, hx⟩⟩
  rintro ⟨answer, hask, h⟩
  cases answer with
  | true => exact ⟨hask, h⟩
  | false => exact absurd h (not_fails_pure a)

theorem fails_mapM {f : α → Except ε β} {xs : List α} :
    Fails (xs.mapM f) ↔ ∃ x ∈ xs, Fails (f x) := by
  induction xs with
  | nil => simp
  | cons x rest ih =>
      simp only [List.mapM_cons, fails_bind, ih, not_fails_pure, and_false, exists_false, or_false,
        fails_or_exists, List.exists_mem_cons_iff]

theorem fails_forM {f : α → Except ε Unit} {xs : List α} :
    Fails (xs.forM f) ↔ ∃ x ∈ xs, Fails (f x) := by
  induction xs with
  | nil => simp
  | cons x rest ih =>
      rw [List.forM, fails_bind]
      simp only [ih, fails_or_exists, List.exists_mem_cons_iff]

/-- Steps fail if one of them does, as long as what they preserve decides which ones fail. -/
theorem fails_foldlM (inv : β → Prop) {f : β → α → Except ε β} {bad : α → Prop} {xs : List α}
    (hstep : ∀ x ∈ xs, ∀ b, inv b → ∀ b', f b x = .ok b' → inv b')
    (hfails : ∀ x ∈ xs, ∀ b, inv b → (Fails (f b x) ↔ bad x)) {b : β} (hb : inv b) :
    Fails (xs.foldlM f b) ↔ ∃ x ∈ xs, bad x := by
  induction xs generalizing b with
  | nil => simp
  | cons x rest ih =>
      have hx := List.mem_cons_self (a := x) (l := rest)
      rw [List.foldlM_cons, fails_bind, hfails x hx b hb, List.exists_mem_cons_iff]
      have ih' : ∀ next, f b x = .ok next →
          (Fails (rest.foldlM f next) ↔ ∃ y ∈ rest, bad y) := fun next hnext ↦
        ih (fun y hy ↦ hstep y (List.mem_cons_of_mem x hy))
          (fun y hy ↦ hfails y (List.mem_cons_of_mem x hy)) (hstep x hx b hb next hnext)
      constructor
      · rintro (hbad | ⟨next, hnext, h⟩)
        · exact .inl hbad
        · exact .inr ((ih' next hnext).mp h)
      · intro h
        by_cases hbad : bad x
        · exact .inl hbad
        · obtain ⟨next, hnext⟩ := not_fails_iff.mp (mt (hfails x hx b hb).mp hbad)
          exact .inr ⟨next, hnext, (ih' next hnext).mpr (h.resolve_left hbad)⟩

/-- Among some questions one fails before any is answered with yes. -/
def FailsFirst (ask : α → Except ε Bool) (xs : List α) : Prop :=
  ∃ before x after, xs = before ++ x :: after ∧ (∀ y ∈ before, ask y = .ok false) ∧ Fails (ask x)

@[simp] theorem not_failsFirst_nil (ask : α → Except ε Bool) : ¬ FailsFirst ask [] := by
  simp [FailsFirst]

theorem failsFirst_cons {ask : α → Except ε Bool} {x : α} {rest : List α} :
    FailsFirst ask (x :: rest) ↔ Fails (ask x) ∨ ask x = .ok false ∧ FailsFirst ask rest := by
  constructor
  · rintro ⟨before, y, after, heq, hbefore, hfails⟩
    cases before with
    | nil =>
        obtain ⟨rfl, -⟩ := List.cons.inj heq
        exact .inl hfails
    | cons z before =>
        obtain ⟨rfl, rfl⟩ := List.cons.inj heq
        obtain ⟨hx, hbefore⟩ := List.forall_mem_cons.mp hbefore
        exact .inr ⟨hx, before, y, after, rfl, hbefore, hfails⟩
  · rintro (hfails | ⟨hx, before, y, after, rfl, hbefore, hfails⟩)
    · exact ⟨[], x, rest, rfl, by simp, hfails⟩
    · exact ⟨x :: before, y, after, rfl, List.forall_mem_cons.mpr ⟨hx, hbefore⟩, hfails⟩

theorem failsFirst_append {ask : α → Except ε Bool} {xs ys : List α} :
    FailsFirst ask (xs ++ ys) ↔
      FailsFirst ask xs ∨ (∀ x ∈ xs, ask x = .ok false) ∧ FailsFirst ask ys := by
  induction xs with
  | nil => simp
  | cons x rest ih =>
      rw [List.cons_append, failsFirst_cons, failsFirst_cons, ih, List.forall_mem_cons]
      constructor
      · rintro (hfails | ⟨hx, hrest | ⟨hno, hys⟩⟩)
        · exact .inl (.inl hfails)
        · exact .inl (.inr ⟨hx, hrest⟩)
        · exact .inr ⟨⟨hx, hno⟩, hys⟩
      · rintro ((hfails | ⟨hx, hrest⟩) | ⟨⟨hx, hno⟩, hys⟩)
        · exact .inl hfails
        · exact .inr ⟨hx, .inl hrest⟩
        · exact .inr ⟨hx, .inr ⟨hno, hys⟩⟩

theorem fails_anyM {ask : α → Except ε Bool} {xs : List α} :
    Fails (xs.anyM ask) ↔ FailsFirst ask xs := by
  induction xs with
  | nil => simp [List.anyM]
  | cons x rest ih =>
      rw [List.anyM, fails_bind, failsFirst_cons]
      refine or_congr_right ⟨?_, fun ⟨hx, hrest⟩ ↦ ⟨false, hx, ih.mpr hrest⟩⟩
      rintro ⟨answer, hx, hrest⟩
      cases answer with
      | true => exact absurd hrest (not_fails_pure true)
      | false => exact ⟨hx, ih.mp hrest⟩

theorem anyM_eq_ok_false {ask : α → Except ε Bool} {xs : List α} :
    xs.anyM ask = .ok false ↔ ∀ x ∈ xs, ask x = .ok false := by
  induction xs with
  | nil => simp [List.anyM, pure_eq_ok]
  | cons x rest ih =>
      rw [List.anyM, bind_eq_ok, List.forall_mem_cons, ← ih]
      constructor
      · rintro ⟨answer, hx, hrest⟩
        cases answer with
        | true => simp [pure_eq_ok] at hrest
        | false => exact ⟨hx, hrest⟩
      · rintro ⟨hx, hrest⟩
        exact ⟨false, hx, hrest⟩

theorem fails_findM? {ask : α → Except ε Bool} {xs : List α} :
    Fails (xs.findM? ask) ↔ FailsFirst ask xs := by
  induction xs with
  | nil => simp [List.findM?]
  | cons x rest ih =>
      rw [List.findM?, fails_bind, failsFirst_cons]
      refine or_congr_right ⟨?_, fun ⟨hx, hrest⟩ ↦ ⟨false, hx, ih.mpr hrest⟩⟩
      rintro ⟨answer, hx, hrest⟩
      cases answer with
      | true => exact absurd hrest (not_fails_pure _)
      | false => exact ⟨hx, ih.mp hrest⟩

theorem mem_of_findM?_eq_ok {ask : α → Except ε Bool} {xs : List α} {x : α}
    (h : xs.findM? ask = .ok (some x)) : x ∈ xs := by
  induction xs with
  | nil => simp [List.findM?, pure_eq_ok] at h
  | cons y rest ih =>
      rw [List.findM?] at h
      obtain ⟨answer, -, h⟩ := bind_eq_ok.mp h
      cases answer with
      | true =>
          obtain rfl := Option.some_inj.mp (pure_eq_ok.mp h)
          exact List.mem_cons_self
      | false => exact List.mem_cons_of_mem y (ih h)

theorem ask_of_findM?_eq_ok {ask : α → Except ε Bool} {xs : List α} {x : α}
    (h : xs.findM? ask = .ok (some x)) : ask x = .ok true := by
  induction xs with
  | nil => simp [List.findM?, pure_eq_ok] at h
  | cons y rest ih =>
      rw [List.findM?] at h
      obtain ⟨answer, hy, h⟩ := bind_eq_ok.mp h
      cases answer with
      | true =>
          obtain rfl := Option.some_inj.mp (pure_eq_ok.mp h)
          exact hy
      | false => exact ih h

theorem findM?_eq_ok_none {ask : α → Except ε Bool} {xs : List α}
    (h : ∀ x ∈ xs, ask x = .ok false) : xs.findM? ask = .ok none := by
  induction xs with
  | nil => rfl
  | cons x rest ih =>
      obtain ⟨hx, hrest⟩ := List.forall_mem_cons.mp h
      rw [List.findM?, hx]
      exact ih hrest

end Dossier.Steps

import Dossier.Proofs.Steps
import Mathlib.Data.List.Perm.Basic

/-!
# Two runs of a computation

Two computations go together if both fail, or if both succeed with results that are related as asked.
Which failure it is does not count, unless it is asked to be the same. What is built in the same way
from computations that go together goes together again, also where the items of a list come in another
order.
-/

namespace Dossier.Steps

variable {ε δ ζ α β γ κ : Type}

/-- Both computations fail, with failures that are related by `s`, or both succeed, with results that
are related by `r`. -/
inductive Agree (s : ε → δ → Prop) (r : α → β → Prop) : Except ε α → Except δ β → Prop where
  | error {e : ε} {f : δ} (h : s e f) : Agree s r (.error e) (.error f)
  | ok {a : α} {b : β} (h : r a b) : Agree s r (.ok a) (.ok b)

/-- Both computations fail, or both succeed with related results. -/
abbrev Together (r : α → β → Prop) : Except ε α → Except δ β → Prop :=
  Agree (fun _ _ ↦ True) r

namespace Agree

variable {s : ε → δ → Prop} {r : α → β → Prop} {q : γ → κ → Prop} {x : Except ε α} {y : Except δ β}

theorem pure {a : α} {b : β} (h : r a b) : Agree s r (pure a) (pure b) :=
  .ok h

theorem mono {s' : ε → δ → Prop} {r' : α → β → Prop} (h : Agree s r x y)
    (hs : ∀ e f, s e f → s' e f) (hr : ∀ a b, r a b → r' a b) : Agree s' r' x y := by
  cases h with
  | error h => exact .error (hs _ _ h)
  | ok h => exact .ok (hr _ _ h)

theorem together (h : Agree s r x y) : Together r x y :=
  h.mono (fun _ _ _ ↦ trivial) fun _ _ hr ↦ hr

theorem outcomes (h : Agree s r x y) : (∃ e f, x = .error e ∧ y = .error f ∧ s e f) ∨
    ∃ a b, x = .ok a ∧ y = .ok b ∧ r a b := by
  cases h with
  | error h => exact .inl ⟨_, _, rfl, rfl, h⟩
  | ok h => exact .inr ⟨_, _, rfl, rfl, h⟩

theorem bind_of_ok {f : α → Except ε γ} {g : β → Except δ κ} (h : Agree s r x y)
    (hfg : ∀ a b, x = .ok a → y = .ok b → r a b → Agree s q (f a) (g b)) :
    Agree s q (x >>= f) (y >>= g) := by
  cases h with
  | error h => exact .error h
  | ok h => exact hfg _ _ rfl rfl h

theorem bind {f : α → Except ε γ} {g : β → Except δ κ} (h : Agree s r x y)
    (hfg : ∀ a b, r a b → Agree s q (f a) (g b)) : Agree s q (x >>= f) (y >>= g) :=
  h.bind_of_ok fun a b _ _ ↦ hfg a b

theorem ite {c c' : Prop} [Decidable c] [Decidable c'] {x' : Except ε α} {y' : Except δ β}
    (hc : c ↔ c') (hx : c → Agree s r x y) (hy : ¬ c → Agree s r x' y') :
    Agree s r (if c then x else x') (if c' then y else y') := by
  by_cases h : c
  · rw [if_pos h, if_pos (hc.mp h)]
    exact hx h
  · rw [if_neg h, if_neg (mt hc.mpr h)]
    exact hy h

theorem eq_of_ok {a : α} {b : β} (h : Agree s r x y) (hx : x = .ok a) (hy : y = .ok b) : r a b := by
  subst hx hy
  cases h with
  | ok h => exact h

theorem exists_ok {a : α} (h : Agree s r x y) (hx : x = .ok a) : ∃ b, y = .ok b ∧ r a b := by
  subst hx
  cases h with
  | ok h => exact ⟨_, rfl, h⟩

end Agree

namespace Together

variable {r : α → β → Prop} {q : γ → κ → Prop} {x : Except ε α} {y : Except δ β}

theorem refl {r : α → α → Prop} (hr : ∀ a, r a a) (x : Except ε α) : Together r x x := by
  cases x with
  | error e => exact .error trivial
  | ok a => exact .ok (hr a)

theorem self (x : Except ε α) : Together Eq x x :=
  refl (fun _ ↦ rfl) x

theorem trans {q : β → γ → Prop} {z : Except ζ γ} (h : Together r x y) (h' : Together q y z) :
    Together (Relation.Comp r q) x z := by
  cases h with
  | error => cases h' with
    | error => exact .error trivial
  | ok h => cases h' with
    | ok h' => exact .ok ⟨_, h, h'⟩

/-- Computations that give nothing go together if they fail together. -/
theorem of_fails_iff {x : Except ε Unit} {y : Except δ Unit} (h : Fails x ↔ Fails y) :
    Together Eq x y := by
  cases x with
  | error e => cases y with
    | error f => exact .error trivial
    | ok b => exact absurd (h.mp (fails_error e)) (not_fails_ok b)
  | ok a => cases y with
    | error f => exact absurd (h.mpr (fails_error f)) (not_fails_ok a)
    | ok b => exact .ok rfl

theorem fails_iff (h : Together r x y) : Fails x ↔ Fails y := by
  cases h <;> simp

theorem toOption_eq {y : Except δ α} (h : Together Eq x y) : x.toOption = y.toOption := by
  cases h with
  | error => rfl
  | ok h => exact congrArg some h

/-! ## Lists -/

theorem mapM {xs : List γ} {ys : List κ} {f : γ → Except ε α} {g : κ → Except δ β}
    (h : List.Forall₂ (fun c k ↦ Together r (f c) (g k)) xs ys) :
    Together (List.Forall₂ r) (xs.mapM f) (ys.mapM g) := by
  induction h with
  | nil => exact .pure .nil
  | cons hx _ ih =>
      rw [List.mapM_cons, List.mapM_cons]
      exact hx.bind fun a b hab ↦ ih.bind fun as bs hrest ↦ .pure (.cons hab hrest)

/-- A step for every item of a list gives the same results in another order if the items come in
another order. -/
theorem mapM_perm {xs ys : List γ} (h : xs.Perm ys) (f : γ → Except ε α) :
    Together List.Perm (xs.mapM f) (ys.mapM f) := by
  induction h with
  | nil => exact .pure .nil
  | cons c _ ih =>
      rw [List.mapM_cons, List.mapM_cons]
      exact (refl (fun _ ↦ rfl) (f c)).bind fun a b hab ↦
        ih.bind fun as bs hrest ↦ .pure (hab ▸ hrest.cons a)
  | swap c k rest =>
      simp only [List.mapM_cons]
      cases f k with
      | error e => cases f c <;> exact .error trivial
      | ok a =>
          cases f c with
          | error e => exact .error trivial
          | ok b =>
              cases rest.mapM f with
              | error e => exact .error trivial
              | ok as => exact .ok (.swap b a as)
  | trans _ _ ih ih' =>
      refine (ih.trans ih').mono (fun _ _ h ↦ h) ?_
      rintro as cs ⟨bs, hab, hbc⟩
      exact hab.trans hbc

theorem foldlM {xs : List α} {ys : List β} {f : γ → α → Except ε γ} {g : κ → β → Except δ κ}
    (hitems : List.Forall₂ r xs ys)
    (hstep : ∀ a b, r a b → ∀ c k, q c k → Together q (f c a) (g k b)) {c : γ} {k : κ}
    (h : q c k) : Together q (xs.foldlM f c) (ys.foldlM g k) := by
  induction hitems generalizing c k with
  | nil => exact .pure h
  | cons hab _ ih =>
      rw [List.foldlM_cons, List.foldlM_cons]
      exact (hstep _ _ hab c k h).bind fun c' k' h' ↦ ih h'

theorem anyM {xs : List γ} {ask : γ → Except ε Bool} {ask' : γ → Except δ Bool}
    (h : ∀ c ∈ xs, Together Eq (ask c) (ask' c)) : Together Eq (xs.anyM ask) (xs.anyM ask') := by
  induction xs with
  | nil => exact .pure rfl
  | cons c rest ih =>
      obtain ⟨hc, hrest⟩ := List.forall_mem_cons.mp h
      rw [List.anyM, List.anyM]
      refine hc.bind ?_
      rintro answer _ rfl
      cases answer with
      | true => exact .pure rfl
      | false => exact ih hrest

theorem findM? {xs : List γ} {ask : γ → Except ε Bool} {ask' : γ → Except δ Bool}
    (h : ∀ c ∈ xs, Together Eq (ask c) (ask' c)) : Together Eq (xs.findM? ask) (xs.findM? ask') := by
  induction xs with
  | nil => exact .pure rfl
  | cons c rest ih =>
      obtain ⟨hc, hrest⟩ := List.forall_mem_cons.mp h
      rw [List.findM?, List.findM?]
      refine hc.bind ?_
      rintro answer _ rfl
      cases answer with
      | true => exact .pure rfl
      | false => exact ih hrest

end Together

/-! ## Picking items -/

/-- Whether a computation answers with yes. -/
def picks (x : Except ε Bool) : Bool :=
  x.toOption.getD false

theorem filterAuxM_eq_ok {ask : γ → Except ε Bool} {xs done found : List γ} :
    xs.filterAuxM ask done = .ok found ↔
      (∀ c ∈ xs, ∃ answer, ask c = .ok answer) ∧
        found = (xs.filter fun c ↦ picks (ask c)).reverse ++ done := by
  induction xs generalizing done with
  | nil =>
      rw [List.filterAuxM, pure_eq_ok]
      simp [eq_comm]
  | cons c rest ih =>
      rw [List.filterAuxM, bind_eq_ok, List.forall_mem_cons]
      constructor
      · rintro ⟨answer, hc, hrest⟩
        obtain ⟨hall, rfl⟩ := ih.mp hrest
        refine ⟨⟨⟨answer, hc⟩, hall⟩, ?_⟩
        cases answer <;> simp [picks, hc, Except.toOption]
      · rintro ⟨⟨⟨answer, hc⟩, hall⟩, rfl⟩
        refine ⟨answer, hc, ih.mpr ⟨hall, ?_⟩⟩
        cases answer <;> simp [picks, hc, Except.toOption]

/-- The items that a question picks are there if it is answered for all of them. -/
theorem filterM_eq_ok {ask : γ → Except ε Bool} {xs found : List γ} :
    xs.filterM ask = .ok found ↔
      (∀ c ∈ xs, ∃ answer, ask c = .ok answer) ∧ found = xs.filter fun c ↦ picks (ask c) := by
  rw [List.filterM, bind_eq_ok]
  simp only [filterAuxM_eq_ok, pure_eq_ok, List.append_nil]
  constructor
  · rintro ⟨_, ⟨hall, rfl⟩, rfl⟩
    exact ⟨hall, List.reverse_reverse _⟩
  · rintro ⟨hall, rfl⟩
    exact ⟨_, ⟨hall, rfl⟩, List.reverse_reverse _⟩

theorem fails_filterM {ask : γ → Except ε Bool} {xs : List γ} :
    Fails (xs.filterM ask) ↔ ∃ c ∈ xs, Fails (ask c) := by
  rw [← not_iff_not, not_fails_iff]
  simp only [filterM_eq_ok, exists_and_left, exists_eq, and_true, not_exists, not_and,
    not_fails_iff]

theorem exists_error_of_filterAuxM {ask : γ → Except ε Bool} {xs done : List γ} {e : ε}
    (h : xs.filterAuxM ask done = .error e) : ∃ c ∈ xs, ask c = .error e := by
  induction xs generalizing done with
  | nil => cases h
  | cons c rest ih =>
      rw [List.filterAuxM] at h
      cases hc : ask c with
      | error f =>
          rw [hc] at h
          obtain rfl := Except.error.inj h
          exact ⟨c, List.mem_cons_self, hc⟩
      | ok answer =>
          rw [hc] at h
          obtain ⟨d, hd, hask⟩ := ih h
          exact ⟨d, List.mem_cons_of_mem c hd, hask⟩

/-- Picking items fails as one of the questions does. -/
theorem exists_error_of_filterM {ask : γ → Except ε Bool} {xs : List γ} {e : ε}
    (h : xs.filterM ask = .error e) : ∃ c ∈ xs, ask c = .error e := by
  rw [List.filterM] at h
  cases hfound : xs.filterAuxM ask [] with
  | error f =>
      rw [hfound] at h
      obtain rfl := Except.error.inj h
      exact exists_error_of_filterAuxM hfound
  | ok found =>
      rw [hfound] at h
      cases h

theorem Together.filterM {xs ys : List γ} {ask : γ → Except ε Bool} {ask' : γ → Except δ Bool}
    (hperm : xs.Perm ys) (h : ∀ c ∈ xs, Together Eq (ask c) (ask' c)) :
    Together List.Perm (xs.filterM ask) (ys.filterM ask') := by
  by_cases hx : Fails (xs.filterM ask)
  · have hy : Fails (ys.filterM ask') := by
      obtain ⟨c, hc, hask⟩ := fails_filterM.mp hx
      exact fails_filterM.mpr ⟨c, hperm.mem_iff.mp hc, (h c hc).fails_iff.mp hask⟩
    obtain ⟨e, hx⟩ := hx
    obtain ⟨f, hy⟩ := hy
    rw [hx, hy]
    exact .error trivial
  · have hy : ¬ Fails (ys.filterM ask') := by
      rintro hy
      obtain ⟨c, hc, hask⟩ := fails_filterM.mp hy
      have hc := hperm.mem_iff.mpr hc
      exact hx (fails_filterM.mpr ⟨c, hc, (h c hc).fails_iff.mpr hask⟩)
    obtain ⟨found, hx⟩ := not_fails_iff.mp hx
    obtain ⟨found', hy⟩ := not_fails_iff.mp hy
    rw [hx, hy]
    refine .ok ?_
    rw [(filterM_eq_ok.mp hx).2, (filterM_eq_ok.mp hy).2]
    have hpicks : ∀ c ∈ ys, picks (ask c) = picks (ask' c) := fun c hc ↦ by
      rw [picks, picks, (h c (hperm.mem_iff.mpr hc)).toOption_eq]
    rw [← List.filter_congr hpicks]
    exact hperm.filter _

end Dossier.Steps

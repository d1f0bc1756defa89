import Dossier.Failure
import Dossier.Proofs.Steps

/-!
# Failures that are not about the root

Only the check of the root blames the root of a project. What is built from computations that never do
so never does so either.
-/

namespace Dossier

variable {α β : Type}

/-- A computation fails, if at all, for another reason than the root of a project. -/
def SparesRoot (x : Except Failure α) : Prop :=
  ∀ f, x = .error f → f.isAboutRoot = false

@[simp] theorem sparesRoot_ok (a : α) : SparesRoot (.ok a) := by
  simp [SparesRoot]

@[simp] theorem sparesRoot_pure (a : α) : SparesRoot (pure a) :=
  sparesRoot_ok a

@[simp] theorem sparesRoot_error {f : Failure} :
    SparesRoot (.error f : Except Failure α) ↔ f.isAboutRoot = false := by
  simp [SparesRoot]

@[simp] theorem sparesRoot_throw {f : Failure} :
    SparesRoot (throw f : Except Failure α) ↔ f.isAboutRoot = false :=
  sparesRoot_error

@[simp] theorem sparesRoot_map {f : α → β} {x : Except Failure α} :
    SparesRoot (f <$> x) ↔ SparesRoot x := by
  cases x <;> simp [Functor.map, Except.map]

namespace SparesRoot

theorem bind_of_ok {x : Except Failure α} {f : α → Except Failure β} (hx : SparesRoot x)
    (hf : ∀ a, x = .ok a → SparesRoot (f a)) : SparesRoot (x >>= f) := by
  cases x with
  | error failure => simpa [Bind.bind, Except.bind] using hx
  | ok a => exact hf a rfl

theorem bind {x : Except Failure α} {f : α → Except Failure β} (hx : SparesRoot x)
    (hf : ∀ a, SparesRoot (f a)) : SparesRoot (x >>= f) :=
  hx.bind_of_ok fun a _ ↦ hf a

theorem mapM {f : α → Except Failure β} (hf : ∀ a, SparesRoot (f a)) (xs : List α) :
    SparesRoot (xs.mapM f) := by
  induction xs with
  | nil => simp
  | cons x rest ih =>
      rw [List.mapM_cons]
      exact (hf x).bind fun y ↦ ih.bind fun ys ↦ sparesRoot_pure (y :: ys)

theorem forM {f : α → Except Failure Unit} (hf : ∀ a, SparesRoot (f a)) (xs : List α) :
    SparesRoot (xs.forM f) := by
  induction xs with
  | nil => simp
  | cons x rest ih =>
      rw [List.forM]
      exact (hf x).bind fun _ ↦ ih

theorem foldlM {f : β → α → Except Failure β} (hf : ∀ b a, SparesRoot (f b a)) (xs : List α)
    (b : β) : SparesRoot (xs.foldlM f b) := by
  induction xs generalizing b with
  | nil => simp
  | cons x rest ih =>
      rw [List.foldlM_cons]
      exact (hf b x).bind ih

theorem anyM {ask : α → Except Failure Bool} (hask : ∀ a, SparesRoot (ask a)) (xs : List α) :
    SparesRoot (xs.anyM ask) := by
  induction xs with
  | nil => simp [List.anyM]
  | cons x rest ih =>
      rw [List.anyM]
      refine (hask x).bind fun answer ↦ ?_
      cases answer with
      | true => exact sparesRoot_pure true
      | false => exact ih

theorem findM? {ask : α → Except Failure Bool} (hask : ∀ a, SparesRoot (ask a)) (xs : List α) :
    SparesRoot (xs.findM? ask) := by
  induction xs with
  | nil => simp [List.findM?]
  | cons x rest ih =>
      rw [List.findM?]
      refine (hask x).bind fun answer ↦ ?_
      cases answer with
      | true => exact sparesRoot_pure (some x)
      | false => exact ih

theorem ite {c : Prop} [Decidable c] {x y : Except Failure α} (hx : SparesRoot x)
    (hy : SparesRoot y) : SparesRoot (if c then x else y) := by
  split
  · exact hx
  · exact hy

end SparesRoot

/-- A computation fails because of the root of a project. -/
def BlamesRoot (x : Except Failure α) : Prop :=
  ∃ f, x = .error f ∧ f.isAboutRoot = true

theorem SparesRoot.not_blamesRoot {x : Except Failure α} (h : SparesRoot x) : ¬ BlamesRoot x := by
  rintro ⟨f, hf, habout⟩
  rw [h f hf] at habout
  exact Bool.false_ne_true habout

theorem blamesRoot_bind {x : Except Failure α} {f : α → Except Failure β} :
    BlamesRoot (x >>= f) ↔ BlamesRoot x ∨ ∃ a, x = .ok a ∧ BlamesRoot (f a) := by
  cases x <;> simp [BlamesRoot, Bind.bind, Except.bind]

end Dossier

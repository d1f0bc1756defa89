import Dossier.Budget.Tokens
import Mathlib.Algebra.BigOperators.Ring.List
import Mathlib.Algebra.GroupWithZero.Nat

/-!
# The estimate of joined texts

Rounding up happens once for each text that is measured on its own, so a text that is put together
from parts is never estimated at more than its parts are together.
-/

namespace Dossier.Budget

theorem estimate_mono {a b : String} (h : a.length ≤ b.length) : estimate a ≤ estimate b := by
  simp only [estimate, charsPerToken]
  omega

theorem estimate_append_le (a b : String) : estimate (a ++ b) ≤ estimate a + estimate b := by
  simp only [estimate, charsPerToken, String.length_append]
  omega

theorem estimate_join_le (pieces : List String) :
    estimate (String.join pieces) ≤ (pieces.map estimate).sum := by
  induction pieces with
  | nil => simp
  | cons piece rest ih =>
      rw [String.join_cons, List.map_cons, List.sum_cons]
      exact Nat.le_trans (estimate_append_le piece _) (Nat.add_le_add_left ih _)

/-- Each text that is measured on its own is rounded up by less than a token. -/
theorem mul_sum_estimate_le (pieces : List String) :
    charsPerToken * (pieces.map estimate).sum ≤
      (String.join pieces).length + (charsPerToken - 1) * pieces.length := by
  induction pieces with
  | nil => simp
  | cons piece rest ih =>
      have hpiece : charsPerToken * estimate piece ≤ piece.length + (charsPerToken - 1) := by
        simp only [estimate, charsPerToken]
        omega
      rw [String.join_cons, String.length_append, List.map_cons, List.sum_cons, List.length_cons]
      simp only [charsPerToken] at ih hpiece ⊢
      omega

/-- A text whose length is bounded by that of several others together is estimated at no more than
they are. -/
theorem estimate_le_sum {s : String} (parts : List String)
    (h : s.length ≤ (parts.map String.length).sum) :
    estimate s ≤ (parts.map estimate).sum := by
  rw [← String.length_join] at h
  exact Nat.le_trans (estimate_mono h) (estimate_join_le parts)

/-- A budget that is no number of tokens has room for nothing. -/
theorem estimate_le_toNat_iff {s : String} {budget : Int} :
    estimate s ≤ budget.toNat ↔ s.length ≤ charsFor budget := by
  rw [charsFor, estimate_le_iff]

end Dossier.Budget

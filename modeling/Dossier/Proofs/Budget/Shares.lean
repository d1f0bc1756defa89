import Dossier.Budget.Shares
import Dossier.Proofs.Keyed
import Mathlib.Algebra.BigOperators.Ring.List
import Mathlib.Algebra.Order.BigOperators.Group.List
import Mathlib.Tactic.Linarith

/-!
# What splitting and redistribution conserve

Neither operation creates tokens: shares of a total add up to at most the total, and revised shares
add up to at most the shares that are revised. A part that lacks room never loses, and one that has
too much room keeps what it uses.
-/

namespace Dossier.Budget

/-- Quotients that are rounded down add up to at most the quotient of the sum. -/
theorem mul_sum_fdiv_le {α : Type} (d : Int) (hd : 0 < d) (f : α → Int) (xs : List α) :
    d * (xs.map fun x ↦ (f x).fdiv d).sum ≤ (xs.map f).sum := by
  induction xs with
  | nil => simp
  | cons x rest ih =>
      have hx : d * (f x).fdiv d ≤ f x := by
        rw [Int.fdiv_eq_ediv_of_nonneg _ hd.le]
        exact Int.mul_ediv_self_le hd.ne'
      simp only [List.map_cons, List.sum_cons, mul_add]
      exact add_le_add hx ih

namespace Shares

variable {κ : Type}

/-! ## Sums -/

theorem total_eq_sum (shares : Shares κ) : shares.total = (shares.map (·.2)).sum := rfl

theorem surplus_eq_sum [BEq κ] (allocation used : Shares κ) : surplus allocation used =
    (allocation.map fun share ↦ slack share.2 (used.get share.1)).sum := rfl

theorem demand_eq_sum [BEq κ] (allocation used : Shares κ) : demand allocation used =
    (allocation.map fun share ↦ excess share.2 (used.get share.1)).sum := rfl

/-! ## Looking up -/

theorem get_map [BEq κ] [LawfulBEq κ] (f : κ → Int → Int) (shares : Shares κ) {part : κ}
    (h : part ∈ shares.map (·.1)) :
    get (shares.map fun (key, n) ↦ (key, f key n)) part = f part (shares.get part) := by
  induction shares with
  | nil => simp at h
  | cons share rest ih =>
      obtain ⟨key, n⟩ := share
      by_cases hk : part = key
      · subst hk
        simp [get]
      · have hne : (part == key) = false := by simpa using hk
        have hrest : part ∈ rest.map (·.1) := by simpa [hk] using h
        simpa [get, List.lookup_cons, hne] using ih hrest

theorem get_mem [BEq κ] [LawfulBEq κ] {shares : Shares κ} {part : κ}
    (h : part ∈ shares.map (·.1)) : (part, shares.get part) ∈ shares := by
  obtain ⟨share, hshare, rfl⟩ := List.mem_map.mp h
  obtain ⟨n, hn⟩ := Option.isSome_iff_exists.mp
    (List.lookup_isSome_iff.mpr ⟨share, hshare, beq_self_eq_true share.1⟩)
  rw [get, hn]
  exact mem_of_lookup_eq_some hn

theorem get_eq_of_mem [BEq κ] [LawfulBEq κ] {shares : Shares κ}
    (h : (shares.map (·.1)).Nodup) {share : κ × Int} (hmem : share ∈ shares) :
    shares.get share.1 = share.2 := by
  rw [get, lookup_eq_some_of_mem h hmem, Option.getD_some]

/-- With distinct keys the total is the sum over the keys. -/
theorem total_eq_sum_get [BEq κ] [LawfulBEq κ] {shares : Shares κ}
    (h : (shares.map (·.1)).Nodup) :
    shares.total = ((shares.map (·.1)).map shares.get).sum := by
  rw [total_eq_sum, List.map_map]
  congr 1
  exact List.map_congr_left fun share hmem ↦ (get_eq_of_mem h hmem).symm

/-! ## Splitting -/

/-- Shares by percentages that add up to at most a hundred add up to at most the total. -/
theorem total_allocate_le (total : Int) {weights : Shares κ} (h : weights.total ≤ 100) :
    (allocate total weights).total ≤ max 0 total := by
  have hsum := mul_sum_fdiv_le 100 (by norm_num) (fun w : κ × Int ↦ max 0 total * w.2) weights
  have hmul : (weights.map fun w ↦ max 0 total * w.2).sum = max 0 total * weights.total := by
    rw [total_eq_sum, List.sum_map_mul_left]
  have hle : max 0 total * weights.total ≤ max 0 total * 100 :=
    mul_le_mul_of_nonneg_left h (le_max_left _ _)
  have htotal : (allocate total weights).total =
      (weights.map fun w ↦ (max 0 total * w.2).fdiv 100).sum := by
    simp [allocate, total_eq_sum, List.map_map, Function.comp_def]
  rw [htotal]
  linarith

theorem get_allocate_nonneg [BEq κ] [LawfulBEq κ] {total : Int} {weights : Shares κ}
    (h : ∀ w ∈ weights, 0 ≤ w.2) (part : κ) : 0 ≤ (allocate total weights).get part := by
  induction weights with
  | nil => exact le_rfl
  | cons w rest ih =>
      obtain ⟨key, percent⟩ := w
      by_cases hk : part = key
      · subst hk
        have hp : 0 ≤ percent := h (part, percent) (List.mem_cons_self ..)
        simpa [allocate, get] using Int.fdiv_nonneg
          (mul_nonneg (le_max_left 0 total) hp) (by norm_num : (0 : Int) ≤ 100)
      · have hne : (part == key) = false := by simpa using hk
        simpa [allocate, get, List.lookup_cons, hne] using
          ih fun w hw ↦ h w (List.mem_cons_of_mem _ hw)

/-! ## Redistribution -/

@[simp] theorem map_fst_redistribute [BEq κ] (allocation used : Shares κ) :
    (redistribute allocation used).map (·.1) = allocation.map (·.1) := by
  simp only [redistribute]
  split
  · rfl
  · simp [List.map_map, Function.comp_def]

theorem surplus_nonneg [BEq κ] (allocation used : Shares κ) : 0 ≤ surplus allocation used := by
  rw [surplus_eq_sum]
  refine List.sum_nonneg fun n hn ↦ ?_
  obtain ⟨share, -, rfl⟩ := List.mem_map.mp hn
  exact le_max_left _ _

theorem demand_nonneg [BEq κ] (allocation used : Shares κ) : 0 ≤ demand allocation used := by
  rw [demand_eq_sum]
  refine List.sum_nonneg fun n hn ↦ ?_
  obtain ⟨share, -, rfl⟩ := List.mem_map.mp hn
  exact le_max_left _ _

/-- A revised share and the slack given up for it are the share and its part of the surplus. -/
theorem revise_add_slack (surplus demand allocated spent : Int) :
    revise surplus demand allocated spent + slack allocated spent =
      allocated + (surplus * excess allocated spent).fdiv demand := by
  by_cases h : spent < allocated
  · have hs : slack allocated spent = allocated - spent := max_eq_right (by omega)
    have he : excess allocated spent = 0 := max_eq_left (by omega)
    simp [revise, h, hs, he]
  · have hs : slack allocated spent = 0 := max_eq_left (by omega)
    simp [revise, h, hs]

/-- The surplus is taken out of the shares, and what is handed out of it is put back. -/
theorem total_revise_add_surplus [BEq κ] (allocation used : Shares κ) (demand : Int) :
    Shares.total (allocation.map fun (part, allocated) ↦
        (part, revise (surplus allocation used) demand allocated (used.get part))) +
        surplus allocation used =
      allocation.total + (allocation.map fun share ↦
        (surplus allocation used * excess share.2 (used.get share.1)).fdiv demand).sum := by
  set S := surplus allocation used with hS
  have hslack : (allocation.map fun share ↦ slack share.2 (used.get share.1)).sum = S :=
    (surplus_eq_sum allocation used).symm
  calc _ = (allocation.map fun share ↦ revise S demand share.2 (used.get share.1)).sum +
        (allocation.map fun share ↦ slack share.2 (used.get share.1)).sum := by
        rw [hslack, total_eq_sum, List.map_map]
        rfl
    _ = _ := by
        rw [total_eq_sum, ← List.sum_map_add, ← List.sum_map_add]
        simp only [revise_add_slack]

/-- Redistribution creates no tokens: what is handed out is at most the surplus. -/
theorem total_redistribute_le [BEq κ] (allocation used : Shares κ) :
    (redistribute allocation used).total ≤ allocation.total := by
  simp only [redistribute]
  split
  · exact le_rfl
  · rename_i hpos
    obtain ⟨-, hdemand⟩ := not_or.mp hpos
    have hbalance := total_revise_add_surplus allocation used (demand allocation used)
    set S := surplus allocation used with hS
    set D := demand allocation used with hD
    have hD0 : 0 < D := lt_of_le_of_ne (demand_nonneg allocation used) (Ne.symm hdemand)
    have hle : (allocation.map fun share ↦
        (S * excess share.2 (used.get share.1)).fdiv D).sum ≤ S := by
      have hhanded := mul_sum_fdiv_le D hD0
        (fun share : κ × Int ↦ S * excess share.2 (used.get share.1)) allocation
      rw [List.sum_map_mul_left, mul_comm S] at hhanded
      exact le_of_mul_le_mul_left hhanded hD0
    linarith

/-- A part keeps what it uses, or its share if that is less. -/
theorem min_le_get_redistribute [BEq κ] [LawfulBEq κ] (allocation used : Shares κ) {part : κ}
    (h : part ∈ allocation.map (·.1)) :
    min (allocation.get part) (used.get part) ≤ (redistribute allocation used).get part := by
  simp only [redistribute]
  split
  · exact min_le_left _ _
  · rw [get_map (fun key allocated ↦ revise _ _ allocated (used.get key)) allocation h, revise]
    split
    · exact min_le_right _ _
    · refine (min_le_left _ _).trans (le_add_of_nonneg_right (Int.fdiv_nonneg ?_ ?_))
      · exact mul_nonneg (surplus_nonneg allocation used) (le_max_left _ _)
      · exact demand_nonneg allocation used

end Shares

end Dossier.Budget

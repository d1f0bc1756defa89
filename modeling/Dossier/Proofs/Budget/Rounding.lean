import Dossier.Proofs.Budget.Shares

/-!
# What rounding loses

Splitting and redistribution round every share down, and this is all that they lose: less than one
token for each share that is rounded. A part that lacks room is handed a part of the surplus in
proportion to what it lacks, so more is never handed to a part that lacks less, and a surplus that
is large enough leaves nothing lacking.
-/

namespace Dossier.Budget

/-- Quotients that are rounded down fall short of the quotient of the sum by less than one each,
where numbers that are zero lose nothing. -/
theorem sum_le_mul_sum_fdiv {α : Type} {d : Int} (hd : 0 < d) {f : α → Int} {p : α → Bool}
    (xs : List α) (hp : ∀ x ∈ xs, p x = false → f x = 0) :
    (xs.map f).sum ≤ d * (xs.map fun x ↦ (f x).fdiv d).sum + (d - 1) * xs.countP p := by
  induction xs with
  | nil => simp
  | cons x rest ih =>
      have hrest := ih fun y hy ↦ hp y (List.mem_cons_of_mem x hy)
      simp only [List.map_cons, List.sum_cons]
      cases hx : p x with
      | true =>
          have hround : f x ≤ d * (f x).fdiv d + (d - 1) := by
            have hdivides := Int.mul_fdiv_add_fmod (f x) d
            have hmod := Int.fmod_lt_of_pos (f x) hd
            omega
          rw [List.countP_cons_of_pos hx]
          push_cast
          linarith
      | false =>
          rw [List.countP_cons_of_neg (by simp [hx]), hp x List.mem_cons_self hx, Int.zero_fdiv]
          linarith

namespace Shares

variable {κ : Type}

/-! ## Splitting -/

/-- Shares split off a total by percentages. -/
structure IsSplit (total : Int) (weights shares : Shares κ) : Prop where
  parts : shares.map (·.1) = weights.map (·.1)
  nonneg : ∀ share ∈ shares, 0 ≤ share.2
  total_le : shares.total ≤ max 0 total
  total_gt : weights.total = 100 → max 0 total < shares.total + weights.length

theorem lt_total_allocate_add_length (total : Int) {weights : Shares κ}
    (h : weights.total = 100) : max 0 total < (allocate total weights).total + weights.length := by
  have hround := sum_le_mul_sum_fdiv (d := 100) (f := fun w : κ × Int ↦ max 0 total * w.2)
    (p := fun _ ↦ true) (by norm_num) weights (by simp)
  have hmul : (weights.map fun w ↦ max 0 total * w.2).sum = max 0 total * 100 := by
    rw [List.sum_map_mul_left, ← total_eq_sum, h]
  have htotal : (allocate total weights).total =
      (weights.map fun w ↦ (max 0 total * w.2).fdiv 100).sum := by
    simp [allocate, total_eq_sum, List.map_map, Function.comp_def]
  have hlength : 0 < weights.length := by
    apply List.length_pos_of_ne_nil
    rintro rfl
    simp [total_eq_sum] at h
  rw [List.countP_true] at hround
  omega

theorem isSplit_allocate (total : Int) {weights : Shares κ} (hweights : ∀ w ∈ weights, 0 ≤ w.2)
    (hsum : weights.total ≤ 100) : IsSplit total weights (allocate total weights) where
  parts := by
    rw [allocate, List.map_map]
    rfl
  nonneg := by
    intro share hshare
    obtain ⟨w, hw, rfl⟩ := List.mem_map.mp hshare
    apply Int.fdiv_nonneg
    · exact mul_nonneg (le_max_left 0 total) (hweights w hw)
    · norm_num
  total_le := total_allocate_le total hsum
  total_gt := lt_total_allocate_add_length total

/-! ## Redistribution -/

section Redistribute

variable [BEq κ] (allocation used : Shares κ)

/-- Whether a part uses more than its share. -/
def isShort (used : Shares κ) (share : κ × Int) : Bool :=
  decide (share.2 < used.get share.1)

/-- What a part is handed of the surplus. -/
def handed (part : κ) : Int :=
  (surplus allocation used * excess (allocation.get part) (used.get part)).fdiv
    (demand allocation used)

theorem handed_nonneg (part : κ) : 0 ≤ handed allocation used part := by
  apply Int.fdiv_nonneg
  · exact mul_nonneg (surplus_nonneg allocation used) (le_max_left _ _)
  · exact demand_nonneg allocation used

theorem handed_eq_zero (h : surplus allocation used = 0 ∨ demand allocation used = 0) (part : κ) :
    handed allocation used part = 0 := by
  rcases h with h | h <;> simp [handed, h]

theorem handed_mono {part other : κ}
    (h : excess (allocation.get part) (used.get part) ≤
      excess (allocation.get other) (used.get other)) :
    handed allocation used part ≤ handed allocation used other := by
  have hmul := mul_le_mul_of_nonneg_left h (surplus_nonneg allocation used)
  rw [handed, handed, Int.fdiv_eq_ediv_of_nonneg _ (demand_nonneg allocation used),
    Int.fdiv_eq_ediv_of_nonneg _ (demand_nonneg allocation used)]
  rcases (demand_nonneg allocation used).lt_or_eq with hpos | hzero
  · exact Int.ediv_le_ediv hpos hmul
  · rw [← hzero, Int.ediv_zero, Int.ediv_zero]

variable [LawfulBEq κ] {part : κ} (hpart : part ∈ allocation.map (·.1))
include hpart

theorem excess_le_demand :
    excess (allocation.get part) (used.get part) ≤ demand allocation used := by
  rw [demand_eq_sum]
  apply List.single_le_sum
  · intro n hn
    obtain ⟨share, -, rfl⟩ := List.mem_map.mp hn
    exact le_max_left _ _
  · exact List.mem_map.mpr ⟨_, get_mem hpart, rfl⟩

/-- A part that does not use less than its share gains what it is handed, -/
theorem get_redistribute_eq (h : allocation.get part ≤ used.get part) :
    (redistribute allocation used).get part = allocation.get part + handed allocation used part := by
  simp only [redistribute]
  split
  next hnone => rw [handed_eq_zero allocation used hnone, add_zero]
  next =>
    rw [get_map (fun key allocated ↦ revise _ _ allocated (used.get key)) allocation hpart, revise,
      if_neg (not_lt.mpr h)]
    rfl

/-- and no part gains more. -/
theorem get_redistribute_le :
    (redistribute allocation used).get part ≤ allocation.get part + handed allocation used part := by
  rcases le_or_gt (allocation.get part) (used.get part) with hle | hlt
  · exact (get_redistribute_eq allocation used hpart hle).le
  · have hhanded := handed_nonneg allocation used part
    simp only [redistribute]
    split
    next => omega
    next =>
      rw [get_map (fun key allocated ↦ revise _ _ allocated (used.get key)) allocation hpart,
        revise, if_pos hlt]
      omega

/-- A surplus that covers the demand covers it in every part. -/
theorem excess_le_handed (h : demand allocation used ≤ surplus allocation used) :
    excess (allocation.get part) (used.get part) ≤ handed allocation used part := by
  have hexcess : 0 ≤ excess (allocation.get part) (used.get part) := le_max_left _ _
  have hle := excess_le_demand allocation used hpart
  rcases hexcess.lt_or_eq with hpos | hzero
  · rw [handed, Int.fdiv_eq_ediv_of_nonneg _ (demand_nonneg allocation used),
      Int.le_ediv_iff_mul_le (hpos.trans_le hle), mul_comm]
    exact mul_le_mul_of_nonneg_right h hexcess
  · rw [← hzero]
    exact handed_nonneg allocation used part

end Redistribute

theorem excess_eq_zero [BEq κ] {used : Shares κ} {share : κ × Int}
    (h : isShort used share = false) : excess share.2 (used.get share.1) = 0 := by
  apply max_eq_left
  simpa [isShort] using h

/-- What is handed out falls short of the surplus by less than one token for each part that lacks
something. -/
theorem total_lt_total_redistribute_add_countP [BEq κ] (allocation used : Shares κ)
    (hsurplus : 0 < surplus allocation used) (hdemand : 0 < demand allocation used) :
    allocation.total <
      (redistribute allocation used).total + allocation.countP (isShort used) := by
  have hround := sum_le_mul_sum_fdiv hdemand (p := isShort used)
    (f := fun share ↦ surplus allocation used * excess share.2 (used.get share.1)) allocation
    fun share _ h ↦ by rw [excess_eq_zero h, mul_zero]
  -- Without a part that lacks something nothing would be rounded and nothing handed out.
  have hshort : 0 < allocation.countP (isShort used) := by
    rw [List.countP_pos_iff]
    by_contra hnone
    push Not at hnone
    have hzero : demand allocation used = 0 := by
      rw [demand_eq_sum]
      apply List.sum_eq_zero
      intro n hn
      obtain ⟨share, hshare, rfl⟩ := List.mem_map.mp hn
      exact excess_eq_zero (Bool.eq_false_of_not_eq_true (hnone share hshare))
    exact hdemand.ne' hzero
  have hredistribute : redistribute allocation used = allocation.map fun share ↦
      (share.1, revise (surplus allocation used) (demand allocation used) share.2
        (used.get share.1)) :=
    if_neg (not_or.mpr ⟨hsurplus.ne', hdemand.ne'⟩)
  rw [hredistribute]
  rw [List.sum_map_mul_left, ← demand_eq_sum] at hround
  set H := (allocation.map fun share ↦ (surplus allocation used *
    excess share.2 (used.get share.1)).fdiv (demand allocation used)).sum
  have hhanded : surplus allocation used < H + allocation.countP (isShort used) := by
    by_contra hnot
    have hmul := mul_le_mul_of_nonneg_left (not_lt.mp hnot) hdemand.le
    rw [mul_add] at hmul
    rw [sub_mul, mul_comm (surplus allocation used)] at hround
    omega
  have hbalance := total_revise_add_surplus allocation used (demand allocation used)
  dsimp only at hbalance
  omega

/-- Shares that are revised by what is used. -/
structure IsRevised [BEq κ] (allocation used revised : Shares κ) : Prop where
  parts : revised.map (·.1) = allocation.map (·.1)
  total_le : revised.total ≤ allocation.total
  total_gt : 0 < surplus allocation used → 0 < demand allocation used →
    allocation.total < revised.total + allocation.countP (isShort used)
  keeps : ∀ part ∈ allocation.map (·.1),
    min (allocation.get part) (used.get part) ≤ revised.get part
  grows : ∀ part ∈ allocation.map (·.1), allocation.get part < used.get part →
    allocation.get part ≤ revised.get part
  /-- A part that lacks more does not gain less. -/
  fair : ∀ part ∈ allocation.map (·.1), ∀ other ∈ allocation.map (·.1),
    allocation.get other < used.get other →
    used.get part - allocation.get part ≤ used.get other - allocation.get other →
    revised.get part - allocation.get part ≤ revised.get other - allocation.get other
  covers : demand allocation used ≤ surplus allocation used →
    ∀ part ∈ allocation.map (·.1), allocation.get part < used.get part →
      used.get part ≤ revised.get part

theorem isRevised_redistribute [BEq κ] [LawfulBEq κ] (allocation used : Shares κ) :
    IsRevised allocation used (redistribute allocation used) where
  parts := map_fst_redistribute allocation used
  total_le := total_redistribute_le allocation used
  total_gt := total_lt_total_redistribute_add_countP allocation used
  keeps := fun _ hpart ↦ min_le_get_redistribute allocation used hpart
  grows := by
    intro part hpart hshort
    have hhanded := handed_nonneg allocation used part
    have hget := get_redistribute_eq allocation used hpart hshort.le
    omega
  fair := by
    intro part hpart other hother hshort hle
    have hexcess : excess (allocation.get part) (used.get part) ≤
        excess (allocation.get other) (used.get other) :=
      max_le_max le_rfl hle
    have hmono := handed_mono allocation used hexcess
    have hget := get_redistribute_le allocation used hpart
    have hget' := get_redistribute_eq allocation used hother hshort.le
    omega
  covers := by
    intro hcovers part hpart hshort
    have hexcess : used.get part - allocation.get part ≤
        excess (allocation.get part) (used.get part) :=
      le_max_right _ _
    have hhanded := excess_le_handed allocation used hpart hcovers
    have hget := get_redistribute_eq allocation used hpart hshort.le
    omega

/-! ## The order of the parts -/

theorem get_eq_of_perm [BEq κ] [LawfulBEq κ] {shares shares' : Shares κ}
    (hkeys : (shares.map (·.1)).Nodup) (hperm : shares.Perm shares') :
    shares.get = shares'.get := by
  funext part
  rw [get, get, lookup_eq_of_perm hkeys hperm]

/-- Revised shares are the same ones whatever the order in which shares and uses are given. -/
theorem redistribute_perm [BEq κ] [LawfulBEq κ] {allocation allocation' used used' : Shares κ}
    (hkeys : (used.map (·.1)).Nodup) (hallocation : allocation.Perm allocation')
    (hused : used.Perm used') :
    (redistribute allocation used).Perm (redistribute allocation' used') := by
  have hget := get_eq_of_perm hkeys hused
  have hsurplus : surplus allocation used = surplus allocation' used' := by
    rw [surplus_eq_sum, surplus_eq_sum, hget]
    exact (hallocation.map _).sum_eq
  have hdemand : demand allocation used = demand allocation' used' := by
    rw [demand_eq_sum, demand_eq_sum, hget]
    exact (hallocation.map _).sum_eq
  simp only [redistribute, hsurplus, hdemand, hget]
  split
  · exact hallocation
  · exact hallocation.map _

/-- Splitting a total and revising the shares neither creates tokens nor loses more than rounding
does, and revising does not depend on the order of the parts. -/
theorem shares_conserved [BEq κ] [LawfulBEq κ] :
    (∀ (total : Int) (weights : Shares κ), (∀ w ∈ weights, 0 ≤ w.2) → weights.total ≤ 100 →
      IsSplit total weights (allocate total weights)) ∧
    (∀ allocation used : Shares κ, IsRevised allocation used (redistribute allocation used)) ∧
    ∀ allocation allocation' used used' : Shares κ, (allocation.map (·.1)).Nodup →
      (used.map (·.1)).Nodup → allocation.Perm allocation' → used.Perm used' →
        (redistribute allocation used).Perm (redistribute allocation' used') ∧
          (redistribute allocation used).get = (redistribute allocation' used').get := by
  refine ⟨fun total weights ↦ isSplit_allocate total, isRevised_redistribute, ?_⟩
  intro allocation allocation' used used' hparts hkeys hallocation hused
  have hperm := redistribute_perm hkeys hallocation hused
  refine ⟨hperm, get_eq_of_perm ?_ hperm⟩
  rwa [map_fst_redistribute]

theorem shares_conserved_three :
    IsSplit 101 [('a', 50), ('b', 30), ('c', 20)] [('a', 50), ('b', 30), ('c', 20)] ∧
      IsRevised [('a', 50), ('b', 30), ('c', 20)] [('c', 22), ('b', 45), ('a', 10)]
        [('a', 10), ('b', 65), ('c', 24)] ∧
      (redistribute [('a', 50), ('b', 30), ('c', 20)] [('c', 22), ('b', 45), ('a', 10)]).get =
        (redistribute [('c', 20), ('b', 30), ('a', 50)] [('a', 10), ('b', 45), ('c', 22)]).get := by
  obtain ⟨hsplit, hrevised, horder⟩ := shares_conserved (κ := Char)
  refine ⟨?_, ?_, ?_⟩
  · exact hsplit 101 [('a', 50), ('b', 30), ('c', 20)] (by decide) (by decide)
  · exact hrevised [('a', 50), ('b', 30), ('c', 20)] [('c', 22), ('b', 45), ('a', 10)]
  · exact (horder _ _ _ _ (by decide) (by decide) (by decide) (by decide)).2

end Shares

end Dossier.Budget

import Dossier.Proofs.Document.CodeMap
import Dossier.Proofs.Document.Ranking

/-!
# When nothing is lost

A file is on the map as it is if what it costs is within an even part of what the files before it
leave. So a budget that covers the demand need not be enough: a file that costs more than the mean of
itself and the files behind it can exceed its part. Only such files can be lost.
-/

namespace Dossier.Document

open Outline (File)

/-! ## Costs -/

/-- What a file costs on the map as it is. -/
def wholeCost (measure : Measure) (format : MapFormat) (first : Bool) (x : Listed) : Nat :=
  measure ((if first then "" else mapSeparator) ++ mapEntry format false x)

/-- What all files cost as they are, in their order. -/
def wholeCosts (measure : Measure) (format : MapFormat) : Bool → List Listed → List Nat
  | _, [] => []
  | first, x :: rest =>
    wholeCost measure format first x :: wholeCosts measure format false rest

/-- A budget covers costs one after the other, if none exceeds an even part of what is left. -/
def CoversEvenly : Nat → List Nat → Prop
  | _, [] => True
  | budget, cost :: rest =>
    cost * (rest.length + 1) ≤ budget ∧ CoversEvenly (budget - cost) rest

/-- The cost at a position is at most the mean of itself and those behind it. -/
def AtMostMean (costs : List Nat) (i : Nat) : Prop :=
  ∀ cost ∈ costs[i]?, cost * (costs.length - i) ≤ (costs.drop i).sum

theorem atMostMean_zero {cost : Nat} {rest : List Nat} :
    AtMostMean (cost :: rest) 0 ↔ cost * (rest.length + 1) ≤ cost + rest.sum := by
  simp [AtMostMean]

theorem atMostMean_succ {cost : Nat} {rest : List Nat} {i : Nat} :
    AtMostMean (cost :: rest) (i + 1) ↔ AtMostMean rest i := by
  simp [AtMostMean]

/-- The last cost is its own mean. -/
theorem atMostMean_last (costs : List Nat) : AtMostMean costs (costs.length - 1) := by
  intro cost hcost
  obtain ⟨hlt, rfl⟩ := List.getElem?_eq_some_iff.mp hcost
  have hone : costs.length - (costs.length - 1) = 1 := by omega
  rw [hone, Nat.mul_one, List.drop_eq_getElem_cons hlt, List.sum_cons]
  exact Nat.le_add_right _ _

theorem coversEvenly_of_atMostMean {budget : Nat} {costs : List Nat} (hsum : costs.sum ≤ budget)
    (hmean : ∀ i, AtMostMean costs i) : CoversEvenly budget costs := by
  induction costs generalizing budget with
  | nil => trivial
  | cons cost rest ih =>
      rw [List.sum_cons] at hsum
      constructor
      · exact (atMostMean_zero.mp (hmean 0)).trans hsum
      · apply ih
        · omega
        · intro i
          exact atMostMean_succ.mp (hmean (i + 1))

section Costs

variable (measure : Measure) (format : MapFormat)

@[simp] theorem length_wholeCosts (first : Bool) (files : List Listed) :
    (wholeCosts measure format first files).length = files.length := by
  induction files generalizing first with
  | nil => rfl
  | cons x rest ih => simp [wholeCosts, ih]

theorem wholeCosts_false (files : List Listed) :
    wholeCosts measure format false files =
      files.map fun x ↦ measure (mapSeparator ++ mapEntry format false x) := by
  induction files with
  | nil => rfl
  | cons x rest ih =>
      rw [wholeCosts, ih]
      rfl

/-- If a separator makes no text cheaper, a file costs no less where one is counted for it. -/
theorem wholeCost_le_counted (hseparator : ∀ s, measure s ≤ measure (mapSeparator ++ s))
    {first counted : Bool} (hfirst : counted = true → first = true) (x : Listed) :
    wholeCost measure format first x ≤ wholeCost measure format counted x := by
  cases counted with
  | true => rw [hfirst rfl]
  | false =>
      cases first with
      | true => simpa [wholeCost] using hseparator _
      | false => exact le_refl _

/-- The demand is what all files cost together. -/
theorem demandOf_eq_sum (files : List Listed) :
    demandOf measure format files = (wholeCosts measure format true files).sum := by
  cases files with
  | nil => rfl
  | cons x rest =>
      rw [wholeCosts, wholeCosts_false, wholeCost, if_pos rfl, String.empty_append]
      rfl

/-! ## Packing -/

/-- All that one step of packing can do to what is left. A file within its part is on the map as it
is. Any other file costs less than it would as it is, and its place is decided otherwise. -/
theorem place_cons_left (remaining : Nat) (first : Bool) (x : Listed) (rest : List Listed) :
    ∃ p left after, place measure format remaining first (x :: rest) =
        p :: place measure format left after rest ∧
      (wholeCost measure format first x * (rest.length + 1) ≤ remaining ∧
          p.outcome = .verbatim ∧
          left = remaining - wholeCost measure format first x ∧ after = false ∨
        remaining < wholeCost measure format first x * (rest.length + 1) ∧
          p.outcome ≠ .verbatim ∧
          remaining ≤ left + wholeCost measure format first x) := by
  rw [← Nat.le_div_iff_mul_le (Nat.succ_pos _), ← Nat.div_lt_iff_lt_mul (Nat.succ_pos _)]
  obtain ⟨p, hp, hplace⟩ := place_cons_decided measure format remaining first x rest
  refine ⟨p, _, _, hplace, ?_⟩
  by_cases hwhole : wholeCost measure format first x ≤ remaining / (rest.length + 1)
  · have hverbatim := hp.trans (placeOne_of_le measure format hwhole)
    left
    subst hverbatim
    exact ⟨hwhole, rfl, rfl, Bool.and_false first⟩
  · have hcost : p.cost measure ≤ remaining / (rest.length + 1) :=
      hp ▸ cost_placeOne_le measure format _ _ x
    have hne : p.outcome ≠ .verbatim :=
      hp ▸ mt (outcome_placeOne_eq_verbatim_iff measure format).mp hwhole
    exact .inr ⟨Nat.lt_of_not_le hwhole, hne, by omega⟩

/-- All files are on the map as they are, if and only if each is within its part. -/
theorem place_all_verbatim_iff (remaining : Nat) (first : Bool) (files : List Listed) :
    (∀ p ∈ place measure format remaining first files, p.outcome = .verbatim) ↔
      CoversEvenly remaining (wholeCosts measure format first files) := by
  induction files generalizing remaining first with
  | nil => simp [place, wholeCosts, CoversEvenly]
  | cons x rest ih =>
      obtain ⟨p, left, after, hplace, hcase⟩ :=
        place_cons_left measure format remaining first x rest
      rw [hplace, List.forall_mem_cons, ih, wholeCosts, CoversEvenly, length_wholeCosts]
      rcases hcase with ⟨hwhole, hp, rfl, rfl⟩ | ⟨hover, hp, -⟩
      · rw [and_iff_right hp, and_iff_right hwhole]
      · rw [iff_false_left fun h ↦ hp h.1]
        intro h
        omega

/-- What is left covers what the files that are left would cost as they are. So one that costs no
more than the mean of these is within its part, whatever has become of those before it. -/
theorem outcome_eq_verbatim_of_atMostMean
    (hseparator : ∀ s, measure s ≤ measure (mapSeparator ++ s)) {remaining : Nat}
    {first counted : Bool} {files : List Listed} (hfirst : counted = true → first = true)
    (hsum : (wholeCosts measure format counted files).sum ≤ remaining) {i : Nat}
    (hmean : AtMostMean (wholeCosts measure format counted files) i) :
    ∀ p ∈ (place measure format remaining first files)[i]?, p.outcome = .verbatim := by
  induction files generalizing remaining first counted i with
  | nil => simp [place]
  | cons x rest ih =>
      have hcost := wholeCost_le_counted measure format hseparator hfirst x
      obtain ⟨p, left, after, hplace, hcase⟩ :=
        place_cons_left measure format remaining first x rest
      rw [wholeCosts] at hsum hmean
      rw [List.sum_cons] at hsum
      rw [hplace]
      cases i with
      | zero =>
          rw [atMostMean_zero, length_wholeCosts] at hmean
          have hpart := Nat.mul_le_mul_right (rest.length + 1) hcost
          rcases hcase with ⟨-, hp, -, -⟩ | ⟨hover, -, -⟩
          · simpa using hp
          · omega
      | succ i =>
          rw [atMostMean_succ] at hmean
          rw [List.getElem?_cons_succ]
          apply ih (by simp) _ hmean
          rcases hcase with ⟨-, -, rfl, -⟩ | ⟨-, -, hleft⟩ <;> omega

end Costs

/-! ## Maps -/

/-- A map shows files in their order as they are. -/
structure CodeMap.IsWhole (m : CodeMap) (format : MapFormat) (files : List Listed) : Prop where
  content : m.content =
    String.intercalate mapSeparator (files.map (mapEntry format false))
  included : m.included = files.map (·.file.path)
  collapsed : m.collapsed = []
  truncated : m.truncated = []

namespace CodeMap.Accounts

variable {m : CodeMap} {format : MapFormat} {files : List Listed} {placed : List Placed}

/-- What is neither folded nor left out is shown as it is. -/
theorem outcome_eq_verbatim (h : m.Accounts format files placed) (hcollapsed : m.collapsed = [])
    (htruncated : m.truncated = []) : ∀ p ∈ placed, p.outcome = .verbatim := by
  intro p hp
  rw [h.collapsed, List.map_eq_nil_iff, List.filter_eq_nil_iff] at hcollapsed
  rw [h.truncated, List.map_eq_nil_iff, List.filter_eq_nil_iff] at htruncated
  have hfolded := hcollapsed p hp
  have hdropped := htruncated p hp
  cases houtcome : p.outcome <;> simp_all [Placed.isIncluded]

theorem isWhole_iff (h : m.Accounts format files placed) :
    m.IsWhole format files ↔ ∀ p ∈ placed, p.outcome = .verbatim := by
  constructor
  · intro hwhole
    exact h.outcome_eq_verbatim hwhole.collapsed hwhole.truncated
  · intro hall
    have hin : placed.filter (·.isIncluded) = placed := by
      apply List.filter_eq_self.mpr
      intro p hp
      simp [Placed.isIncluded, hall p hp]
    have hentry : placed.map (·.entry format) = files.map (mapEntry format false) := by
      rw [← h.listed, List.map_map]
      apply List.map_congr_left
      intro p hp
      rw [Function.comp_apply, Placed.entry, hall p hp]
      rfl
    refine ⟨?_, ?_, ?_, ?_⟩
    · rw [h.content, hin, hentry]
    · rw [h.included, hin, h.paths_eq]
    · rw [h.collapsed, List.map_eq_nil_iff, List.filter_eq_nil_iff]
      intro p hp
      simp [hall p hp]
    · rw [h.truncated, List.map_eq_nil_iff, List.filter_eq_nil_iff]
      intro p hp
      simp [Placed.isIncluded, hall p hp]

end CodeMap.Accounts

theorem estimate_le_separated (s : String) :
    Budget.estimate s ≤ Budget.estimate (mapSeparator ++ s) := by
  apply Budget.estimate_mono
  rw [String.length_append]
  exact Nat.le_add_left _ _

/-- A budget shows all files as they are if and only if it covers their costs evenly in the order of
rank, which it does if it covers the demand and no cost is above the mean of itself and those behind
it. Whenever it covers the demand, every file whose cost is not above that mean is shown as it is,
whatever becomes of the others, and so the last one always is. -/
theorem lost_only_above_mean (measure : Measure) (depth : Depth) (format : MapFormat) (budget : Int)
    (files : List File) :
    let m := packCodeMap measure depth format budget files
    let ordered := prioritize depth files
    let costs := wholeCosts measure format true ordered
    m.demand = costs.sum ∧
      (m.IsWhole format ordered ↔ CoversEvenly budget.toNat costs) ∧
      (m.demand ≤ budget →
        ((∀ i, AtMostMean costs i) → m.IsWhole format ordered) ∧
        ((∀ s, measure s ≤ measure (mapSeparator ++ s)) →
          ∃ placed, m.Accounts format ordered placed ∧
            (∀ i, AtMostMean costs i → ∀ p ∈ placed[i]?, p.outcome = .verbatim) ∧
            ∀ p ∈ placed.getLast?, p.outcome = .verbatim)) := by
  intro m ordered costs
  have haccounts : m.Accounts format ordered (place measure format budget.toNat true ordered) :=
    accounts_place measure depth format budget files
  have hdemand : m.demand = costs.sum := demandOf_eq_sum measure format ordered
  have hwhole : m.IsWhole format ordered ↔ CoversEvenly budget.toNat costs :=
    haccounts.isWhole_iff.trans (place_all_verbatim_iff measure format _ true ordered)
  refine ⟨hdemand, hwhole, ?_⟩
  intro hcovered
  have hsum : costs.sum ≤ budget.toNat := by omega
  constructor
  · intro hmean
    exact hwhole.mpr (coversEvenly_of_atMostMean hsum hmean)
  · intro hseparator
    have hverbatim : ∀ i, AtMostMean costs i →
        ∀ p ∈ (place measure format budget.toNat true ordered)[i]?, p.outcome = .verbatim :=
      fun _ ↦ outcome_eq_verbatim_of_atMostMean measure format hseparator (fun _ ↦ rfl) hsum
    refine ⟨_, haccounts, hverbatim, ?_⟩
    intro p hp
    have hlength := congrArg List.length haccounts.listed
    rw [List.length_map, ← length_wholeCosts measure format true ordered] at hlength
    rw [List.getLast?_eq_getElem?, hlength] at hp
    exact hverbatim _ (atMostMean_last costs) p hp

/-- The larger of two files is ranked first, and half of what covers both does not cover it. -/
theorem covered_demand_loses_first :
    let m := packCodeMap Budget.estimate .all .signatures 21
      [fileWith "main.go" "func f(n int, names []string)", fileWith "x.go" "func f()"]
    m.demand ≤ 21 ∧ m.included = ["x.go"] ∧ m.truncated = ["main.go"] := by
  simp only [packCodeMap]
  rw [prioritize_of_pairwise (by decide +kernel) (by decide)]
  decide +kernel

/-- With the smaller file first the same demand loses nothing. -/
theorem lost_only_above_mean_two :
    let files := [fileWith "main.go" "func f()", fileWith "x.go" "func f(n int, names []string)"]
    let m := packCodeMap Budget.estimate .all .signatures 21 files
    m.demand ≤ 21 ∧ m.IsWhole .signatures (prioritize .all files) ∧
      ∃ placed, m.Accounts .signatures (prioritize .all files) placed ∧
        ∀ p ∈ placed.getLast?, p.outcome = .verbatim := by
  intro files m
  have hranked : prioritize .all files = files.map fun file ↦ ⟨file, file.entries⟩ :=
    prioritize_of_pairwise (by decide +kernel) (by decide)
  have hcosts : wholeCosts Budget.estimate .signatures true (prioritize .all files) = [8, 13] := by
    rw [hranked]
    decide +kernel
  obtain ⟨hdemand, -, hcovered⟩ :=
    lost_only_above_mean Budget.estimate .all .signatures 21 files
  rw [hcosts] at hdemand hcovered
  have hle : m.demand ≤ 21 := hdemand.le
  obtain ⟨hwhole, hlast⟩ := hcovered (by exact_mod_cast hle)
  refine ⟨hle, hwhole ?_, ?_⟩
  · intro i
    match i with
    | 0 => simp [AtMostMean]
    | 1 => simp [AtMostMean]
    | i + 2 => simp [AtMostMean]
  · obtain ⟨placed, haccounts, -, hlast⟩ := hlast estimate_le_separated
    exact ⟨placed, haccounts, hlast⟩

end Dossier.Document

import Dossier.Proofs.Document.Funding

/-!
# What a code map asks for

The demand of a code map is what all its files would cost as they are, so it does not depend on the
budget. No map takes more than that: a file takes its cost, or less if it is folded, or nothing. A map
that shows all files as they are takes as much but for rounding, since its files are measured one by
one and the map is measured as a whole.
-/

namespace Dossier.Document

open Budget (estimate charsPerToken)
open Outline (File)

/-! ## What is taken -/

section Taken

variable (measure : Measure) (format : MapFormat)

/-- A file takes no more than it would as it is. -/
theorem measure_piece_placeOne_le (hempty : measure "" = 0) (cap : Nat) (separator : String)
    (x : Listed) : measure (placeOne measure format cap separator x).piece ≤
      measure (separator ++ mapEntry format false x) := by
  by_cases hwhole : measure (separator ++ mapEntry format false x) ≤ cap
  · rw [placeOne_of_le measure format hwhole]
  · obtain ⟨-, ⟨-, -, hcost⟩ | ⟨-, hpiece⟩⟩ := placeOne_cases measure format cap separator x
    · exact Nat.le_trans hcost (Nat.le_of_not_le hwhole)
    · rw [hpiece, hempty]
      exact Nat.zero_le _

/-- The files together take no more than they would as they are. A separator may be counted for a
file that stands behind none, as long as this does not make the file cheaper. -/
theorem sum_measure_place_le_wholeCosts (hempty : measure "" = 0)
    (hseparator : ∀ s, measure s ≤ measure (mapSeparator ++ s)) (remaining : Nat)
    {first counted : Bool} (hfirst : counted = true → first = true) (files : List Listed) :
    ((place measure format remaining first files).map fun p ↦ measure p.piece).sum ≤
      (wholeCosts measure format counted files).sum := by
  induction files generalizing remaining first counted with
  | nil => exact Nat.zero_le _
  | cons x rest ih =>
      obtain ⟨p, hp, hplace⟩ := place_cons_decided measure format remaining first x rest
      have hpiece : measure p.piece ≤ wholeCost measure format first x :=
        hp ▸ measure_piece_placeOne_le measure format hempty _ _ x
      have hcost := wholeCost_le_counted measure format hseparator hfirst x
      have hrest := @ih (remaining - p.cost measure) (first && !p.isIncluded) false (by simp)
      rw [hplace, List.map_cons, List.sum_cons, wholeCosts, List.sum_cons]
      omega

/-- What all files cost as they are is measured piece by piece, on the pieces of the map that shows
them as they are. -/
theorem exists_wholeCosts_eq_map (files : List Listed) :
    ∃ pieces : List String, wholeCosts measure format true files = pieces.map measure ∧
      pieces.length = files.length ∧
      String.join pieces =
        String.intercalate mapSeparator (files.map (mapEntry format false)) := by
  cases files with
  | nil => exact ⟨[], rfl, rfl, rfl⟩
  | cons x rest =>
      refine ⟨mapEntry format false x :: (rest.map (mapEntry format false)).map (mapSeparator ++ ·),
        ?_, ?_, ?_⟩
      · rw [wholeCosts, wholeCosts_false, wholeCost, if_pos rfl, String.empty_append, List.map_cons,
          List.map_map, List.map_map]
        rfl
      · simp
      · rw [List.map_cons, intercalate_cons_eq_append_join, String.join_cons]

end Taken

/-! ## Maps -/

/-- The demand of some files is what they would cost as they are, and is the same for every budget. No
map takes more, and a map that shows all files as they are takes less by at most three quarters of a
token a file. -/
theorem demand_fixed_by_files (depth : Depth) (format : MapFormat) (files : List File) :
    let ordered := prioritize depth files
    let demand := (wholeCosts estimate format true ordered).sum
    ∀ budget : Int,
      let m := packCodeMap estimate depth format budget files
      m.demand = demand ∧ m.tokens ≤ demand ∧
        (m.collapsed = [] → m.truncated = [] →
          4 * (demand - m.tokens) ≤ 3 * ordered.length) := by
  intro ordered demand budget m
  have haccounts := accounts_place estimate depth format budget files
  refine ⟨demandOf_eq_sum estimate format ordered, ?_, ?_⟩
  · calc
      m.tokens ≤ ((place estimate format budget.toNat true ordered).map fun p ↦
          estimate p.piece).sum := by
        have hjoin := Budget.estimate_join_le
          ((place estimate format budget.toNat true ordered).map (·.piece))
        rwa [List.map_map] at hjoin
      _ ≤ demand := sum_measure_place_le_wholeCosts estimate format Budget.estimate_empty
        estimate_le_separated _ (fun _ ↦ rfl) ordered
  · intro hcollapsed htruncated
    have hcontent : m.content =
        String.intercalate mapSeparator (ordered.map (mapEntry format false)) :=
      (haccounts.isWhole_iff.mpr (haccounts.outcome_eq_verbatim hcollapsed htruncated)).content
    obtain ⟨pieces, hcosts, hlength, hjoin⟩ := exists_wholeCosts_eq_map estimate format ordered
    have hrounded := Budget.mul_sum_estimate_le pieces
    have hmeasured : m.content.length ≤ charsPerToken * m.tokens :=
      Budget.length_le_estimate m.content
    rw [hjoin, ← hcontent, ← hcosts, hlength] at hrounded
    simp only [charsPerToken] at hrounded hmeasured
    omega

/-- Four files that all lose three characters to rounding. -/
theorem demand_fixed_by_files_four :
    let files := [fileWith "a.go" "func f() T", fileWith "b.go" "func f()",
      fileWith "c.go" "func f()", fileWith "d.go" "func f()"]
    let m := packCodeMap estimate .all .signatures 32 files
    m.collapsed = [] ∧ m.truncated = [] ∧ m.demand = 32 ∧ m.tokens = 29 ∧
      4 * (32 - m.tokens) ≤ 3 * 4 := by
  intro files m
  have hranked : prioritize .all files = files.map fun file ↦ ⟨file, file.entries⟩ :=
    prioritize_of_pairwise (by decide +kernel) (by decide)
  have hcosts : (wholeCosts estimate .signatures true (prioritize .all files)).sum = 32 := by
    rw [hranked]
    decide +kernel
  have hm : m.collapsed = [] ∧ m.truncated = [] ∧ m.tokens = 29 := by
    simp only [m, packCodeMap, hranked]
    decide +kernel
  obtain ⟨hcollapsed, htruncated, htokens⟩ := hm
  obtain ⟨hdemand, -, hrounded⟩ := demand_fixed_by_files .all .signatures files 32
  rw [hcosts] at hdemand hrounded
  rw [hranked] at hrounded
  exact ⟨hcollapsed, htruncated, hdemand, htokens, hrounded hcollapsed htruncated⟩

end Dossier.Document

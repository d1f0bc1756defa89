import Dossier.Proofs.Document.Layout

/-!
# Contents that are cut twice

A content that does not fit a budget fills it when it is cut, or nothing is left of it if the mark of the
cut has no room. A second cut to less takes the mark of the first one away as a whole. So two cuts are
one cut to the lesser budget.
-/

namespace Dossier.Document

open Budget (estimate charsFor)

/-- What stands behind the beginning of a content that has been cut. -/
def cutEnding : String := "\n" ++ cutMark

/-- How many characters are left of a content that is cut to a budget. -/
def roomFor (budget : Int) : Nat :=
  charsFor budget - cutEnding.length

variable {content : String} {budget lesser : Int}

/-! ## One cut -/

theorem cutToFit_of_fits (h : (estimate content : Int) ≤ budget) :
    cutToFit estimate budget content = content :=
  if_pos h

theorem cutToFit_of_over (h : budget < estimate content) : cutToFit estimate budget content =
    if roomFor budget = 0 then "" else Text.take (roomFor budget) content ++ cutEnding :=
  if_neg (Int.not_le.mpr h)

@[simp] theorem cutToFit_empty (budget : Int) : cutToFit estimate budget "" = "" := by
  by_cases hbudget : 0 ≤ budget
  · exact cutToFit_of_fits hbudget
  · have hroom : roomFor budget = 0 := by
      simp only [roomFor, charsFor, Int.toNat_of_nonpos (Int.le_of_not_le hbudget)]
      omega
    rw [cutToFit_of_over (Int.not_le.mp hbudget), if_pos hroom]

theorem roomFor_mono (h : lesser ≤ budget) : roomFor lesser ≤ roomFor budget := by
  simp only [roomFor, charsFor, Budget.charsPerToken]
  omega

theorem roomFor_add_length (h : roomFor budget ≠ 0) :
    roomFor budget + cutEnding.length = charsFor budget := by
  rw [roomFor] at h ⊢
  omega

/-- More than the room is there of what does not fit. -/
theorem charsFor_lt_length (h : budget < estimate content) (hroom : roomFor budget ≠ 0) :
    charsFor budget < content.length := by
  have hpos : 0 < budget.toNat := by
    simp only [roomFor, charsFor, Budget.charsPerToken] at hroom
    omega
  rw [← Nat.not_le, ← Budget.estimate_le_toNat_iff]
  omega

/-- What a content is cut to a budget: within the budget, the content itself if it fits, and otherwise
nothing if the mark has no room, or so much of its beginning that the budget is filled with the mark. -/
structure IsCut (content : String) (budget : Int) (cut : String) : Prop where
  estimate_le : (estimate cut : Int) ≤ max 0 budget
  eq_of_fits : (estimate content : Int) ≤ budget → cut = content
  cut_of_over : budget < estimate content →
    cut = "" ∧ charsFor budget ≤ ("\n" ++ cutMark).length ∨
      ∃ part rest, content = part ++ rest ∧ rest ≠ "" ∧ cut = part ++ "\n" ++ cutMark ∧
        cut.length = charsFor budget

theorem isCut_cutToFit (content : String) (budget : Int) :
    IsCut content budget (cutToFit estimate budget content) where
  estimate_le := by
    have hle := estimate_cutToFit_le budget content
    omega
  eq_of_fits := cutToFit_of_fits
  cut_of_over := by
    intro hover
    rw [cutToFit_of_over hover]
    by_cases hroom : roomFor budget = 0
    · rw [if_pos hroom]
      exact .inl ⟨rfl, Nat.sub_eq_zero_iff_le.mp hroom⟩
    · have hlong := charsFor_lt_length hover hroom
      have hfilled := roomFor_add_length hroom
      rw [if_neg hroom]
      refine .inr ⟨Text.take (roomFor budget) content, Text.drop (roomFor budget) content, ?_, ?_, ?_,
        ?_⟩
      · refine String.toList_inj.mp ?_
        rw [String.toList_append, Text.toList_take, Text.drop, String.toList_ofList,
          List.take_append_drop]
      · intro hrest
        have hlength := congrArg String.length hrest
        rw [Text.drop, String.length_ofList, List.length_drop, String.length_toList] at hlength
        simp only [String.length_empty] at hlength
        omega
      · rw [cutEnding, String.append_assoc]
      · rw [String.length_append, Text.length_take]
        omega

/-! ## Two cuts -/

/-- A cut to less takes the whole ending of the first cut away. -/
theorem take_cut {n m : Nat} (hle : n ≤ m) (hlong : m ≤ content.length) :
    Text.take n (Text.take m content ++ cutEnding) = Text.take n content := by
  refine String.toList_inj.mp ?_
  have hpart : n ≤ (content.toList.take m).length := by
    rw [List.length_take, String.length_toList]
    omega
  rw [Text.toList_take, String.toList_append, Text.toList_take, Text.toList_take,
    List.take_append_of_le_length hpart, List.take_take, Nat.min_eq_left hle]

theorem cutToFit_cutToFit_of_lt (hless : lesser < budget) (hover : budget < estimate content) :
    cutToFit estimate lesser (cutToFit estimate budget content) =
      cutToFit estimate lesser content := by
  rw [cutToFit_of_over (Int.lt_trans hless hover), cutToFit_of_over hover]
  have hmono := roomFor_mono (Int.le_of_lt hless)
  by_cases hroom : roomFor budget = 0
  · rw [if_pos hroom, if_pos (by omega), cutToFit_empty]
  · have hlong := charsFor_lt_length hover hroom
    have hfilled := roomFor_add_length hroom
    rw [if_neg hroom]
    -- The first cut fills its budget, so it does not fit the lesser one.
    have hcut : lesser < estimate (Text.take (roomFor budget) content ++ cutEnding) := by
      rw [Budget.estimate, String.length_append, Text.length_take]
      simp only [charsFor, Budget.charsPerToken] at hlong hfilled ⊢
      omega
    rw [cutToFit_of_over hcut, take_cut hmono (by omega)]

/-- A content that is cut is within its budget and fills it, unless it fits or the mark has no room; and
cutting what has been cut is cutting to the lesser budget. -/
theorem cut_twice_is_cut_once (content : String) (first second : Int) :
    IsCut content first (cutToFit estimate first content) ∧
      cutToFit estimate second (cutToFit estimate first content) =
        cutToFit estimate (min first second) content := by
  refine ⟨isCut_cutToFit content first, ?_⟩
  by_cases hfits : (estimate content : Int) ≤ first
  · rw [cutToFit_of_fits hfits]
    by_cases hsecond : second ≤ first
    · rw [Int.min_eq_right hsecond]
    · have hle : first ≤ second := Int.le_of_not_le hsecond
      rw [Int.min_eq_left hle, cutToFit_of_fits hfits, cutToFit_of_fits (Int.le_trans hfits hle)]
  · have hover : first < estimate content := Int.not_le.mp hfits
    by_cases hless : second < first
    · rw [Int.min_eq_right (Int.le_of_lt hless), cutToFit_cutToFit_of_lt hless hover]
    · have hle : first ≤ second := Int.not_lt.mp hless
      rw [Int.min_eq_left hle]
      by_cases hcut : cutToFit estimate first content = ""
      · rw [hcut, cutToFit_empty]
      · exact cutToFit_of_fits (Int.le_trans (estimate_cutToFit_le_of_ne_empty hcut) hle)

example : cutToFit estimate 5 (cutToFit estimate 10 (String.ofList (List.replicate 41 'x'))) =
    "xxxxx\n...(truncated)" := by
  decide +kernel

end Dossier.Document

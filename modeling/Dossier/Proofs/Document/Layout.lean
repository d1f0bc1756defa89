import Dossier.Document.Assemble
import Dossier.Proofs.Budget.Estimate
import Dossier.Proofs.Text.Length

/-!
# The room that a layout takes

Titles are short, fencing a text makes it no longer than its fences and itself, and so a document is
estimated at no more than its empty layout and its contents together. The empty layout itself always
has room in the least budget that settings may ask for.
-/

namespace Dossier.Document

open Budget (estimate charsFor)

/-! ## Titles and code -/

theorem length_heading_le (s : String) : (heading s).length ≤ maxTitle := by
  refine Nat.le_trans (Text.length_strip_le _) ?_
  rw [Text.length_take]
  exact Nat.min_le_left _ _

theorem length_titleLine_le (name : String) : (titleLine name).length ≤ maxTitle + 3 := by
  have hheading := length_heading_le name
  have hproject : "project".length = 7 := rfl
  have hmark : "# ".length = 2 := rfl
  have hfeed : "\n".length = 1 := rfl
  simp only [titleLine, String.length_append]
  split <;> simp only [maxTitle] at * <;> omega

theorem length_codeText_le (s : String) : (codeText s).length ≤ s.length :=
  Text.length_replaceRuns_le '`' (by decide) s

/-! ## Cutting -/

/-- What is cut to a budget is within it. -/
theorem estimate_cutToFit_le (budget : Int) (content : String) :
    estimate (cutToFit estimate budget content) ≤ budget.toNat := by
  simp only [cutToFit]
  split
  · omega
  · split
    · simp
    · rename_i hroom
      rw [Budget.estimate_le_toNat_iff, String.length_append, Text.length_take]
      omega

theorem estimate_pos_of_ne_empty {s : String} (h : s ≠ "") : 0 < estimate s := by
  have hlength : s.length ≠ 0 := fun h0 ↦ h (String.length_eq_zero_iff.mp h0)
  simp only [estimate, Budget.charsPerToken]
  omega

/-- What is left of a content that is cut to a share takes no more than the share, whatever the sign
of the share. -/
theorem estimate_cutToFit_le_of_ne_empty {budget : Int} {content : String}
    (h : cutToFit estimate budget content ≠ "") :
    (estimate (cutToFit estimate budget content) : Int) ≤ budget := by
  have hle := estimate_cutToFit_le budget content
  have hpos := estimate_pos_of_ne_empty h
  omega

/-! ## Documents -/

/-- How many characters a section adds to a document. -/
def sectionLength (s : Section) : Nat :=
  (s.parts.map fun part ↦ part.length + 1).sum

theorem length_assemble (name : String) (sections : List Section) :
    (assemble name sections).length =
      (titleLine name).length + (notice.length + 2) + (sections.map sectionLength).sum := by
  have hsum : ((sections.flatMap Section.parts).map fun part ↦ part.length + 1).sum =
      (sections.map sectionLength).sum := by
    induction sections with
    | nil => rfl
    | cons s rest ih => simp [sectionLength, ih]
  have hfeed : "\n".length = 1 := rfl
  rw [assemble, Text.length_joinLines_cons, List.map_cons, List.sum_cons, hsum,
    String.length_append]
  omega

theorem Section.parts_about (topic : Topic) (content : String) :
    (Section.about topic content).parts =
      ["## " ++ topic.title ++ "\n",
        (if topic = .tree then fenced "" content else content) ++ "\n"] := by
  cases topic <;> rfl

theorem sectionLength_about_le (topic : Topic) (content : String) :
    sectionLength (.about topic content) ≤
      sectionLength (.about topic "") + content.length := by
  have hcode := length_codeText_le content
  have hempty : (codeText "").length = 0 := rfl
  simp only [sectionLength, Section.parts_about, fenced, List.map_cons, List.map_nil,
    List.sum_cons, List.sum_nil, String.length_append]
  split
  · simp only [String.length_append]
    omega
  · simp only [String.length_empty]
    omega

/-- A document with sections on some of the topics takes no more than the layout with all topics
and the contents. -/
theorem estimate_assemble_le (name : String) (content : Topic → String) (keep : Topic → Bool)
    (topics : List Topic) :
    estimate (assemble name ((topics.filter keep).map fun topic ↦ .about topic (content topic))) ≤
      estimate (assemble name (topics.map (Section.about · ""))) +
        ((topics.filter keep).map fun topic ↦ estimate (content topic)).sum := by
  have hsections : (((topics.filter keep).map fun topic ↦
        Section.about topic (content topic)).map sectionLength).sum ≤
      ((topics.map (Section.about · "")).map sectionLength).sum +
        ((topics.filter keep).map fun topic ↦ (content topic).length).sum := by
    induction topics with
    | nil => simp
    | cons topic rest ih =>
        have htopic := sectionLength_about_le topic (content topic)
        simp only [List.filter_cons, List.map_map] at ih ⊢
        split <;> simp only [List.map_cons, List.sum_cons, Function.comp_apply] <;> omega
  have hlength :
      (assemble name ((topics.filter keep).map fun topic ↦
        .about topic (content topic))).length ≤
      ((assemble name (topics.map (Section.about · "")) ::
        (topics.filter keep).map content).map String.length).sum := by
    rw [List.map_cons, List.sum_cons, List.map_map, length_assemble, length_assemble]
    simp only [Function.comp_def]
    omega
  have hestimate := Budget.estimate_le_sum _ hlength
  simpa [List.map_map, Function.comp_def] using hestimate

/-- Whatever the project is called, its layout has room in the least budget. -/
theorem layoutOverhead_le (name : String) : layoutOverhead estimate name ≤ 100 := by
  have htitle := length_titleLine_le name
  have hsections : ((Topic.all.map (Section.about · "")).map sectionLength).sum ≤ 90 := by decide
  have hnotice : notice.length ≤ 70 := by decide
  rw [layoutOverhead, Budget.estimate_le_iff, length_assemble]
  simp only [maxTitle, Budget.charsPerToken] at *
  omega

end Dossier.Document

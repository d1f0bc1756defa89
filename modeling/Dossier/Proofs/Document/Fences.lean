import Dossier.Document.Assemble
import Dossier.Document.KeyFiles
import Dossier.Proofs.Document.Markup
import Mathlib.Algebra.Order.BigOperators.Group.List
import Mathlib.Algebra.Ring.Parity

/-!
# Fences

A line that begins with three backticks opens or closes a fence. Texts that are joined by line feeds
have the fences of all together, text between fences has two, and a text that is cut off has no more
than before.
-/

namespace Dossier.Document

/-! ## Fences in a text -/

/-- How many lines of a text begin with three backticks. -/
def fenceLines (s : String) : Nat :=
  (Text.physicalLines s).countP (Text.startsWith · "```")

theorem fenceLines_append (a b : String) :
    fenceLines (a ++ "\n" ++ b) = fenceLines a + fenceLines b := by
  rw [fenceLines, Text.physicalLines_append, List.countP_append]
  rfl

theorem fenceLines_joinLines (ls : List String) :
    fenceLines (Text.joinLines ls) = (ls.map fenceLines).sum := by
  by_cases hne : ls = []
  · subst hne
    rfl
  · rw [fenceLines, Text.physicalLines_joinLines hne, List.countP_flatMap]
    rfl

theorem fenceLines_line {line : String} (h : Text.OneLine line) :
    fenceLines line = if Text.startsWith line "```" then 1 else 0 := by
  rw [fenceLines, Text.physicalLines, Text.split_singleton h, List.countP_singleton]

theorem FenceFree.line {s line : String} (h : FenceFree s.toList)
    (hline : line ∈ Text.physicalLines s) : FenceFree line.toList := by
  obtain ⟨piece, hpiece, rfl⟩ := List.mem_map.mp hline
  rw [String.toList_ofList]
  exact h.of_infix (Text.isInfix_of_mem_splitChars hpiece)

theorem fenceLines_eq_zero {s : String} (h : FenceFree s.toList) : fenceLines s = 0 := by
  rw [fenceLines, List.countP_eq_zero]
  intro line hline hfence
  have hbegins : fence <+: line.toList := by
    simpa [Text.startsWith, fence] using hfence
  exact h.line hline hbegins.isInfix

theorem fenceLines_take_le (n : Nat) (s : String) : fenceLines (Text.take n s) ≤ fenceLines s := by
  have hcount (t : String) : fenceLines t =
      (Text.splitChars (· == '\n') t.toList).countP fun piece ↦ fence.isPrefixOf piece := by
    rw [fenceLines, Text.physicalLines, Text.split, List.countP_map]
    refine List.countP_congr fun piece _ ↦ ?_
    simp [Text.startsWith, fence]
  rw [hcount, hcount, Text.toList_take]
  have hasked (a b : List Char) (h : fence.isPrefixOf a = true) :
      fence.isPrefixOf (a ++ b) = true := by
    rw [List.isPrefixOf_iff_prefix] at h ⊢
    exact h.trans (List.prefix_append a b)
  have hle := Text.countP_splitChars_append_le (p := (· == '\n')) (fun piece ↦
    fence.isPrefixOf piece) hasked (s.toList.take n) (s.toList.drop n)
  rwa [List.take_append_drop] at hle

theorem fenceLines_codeText (s : String) : fenceLines (codeText s) = 0 :=
  fenceLines_eq_zero (fenceFree_codeText s)

/-- A line that begins with another character than a backtick. -/
theorem fenceLines_of_head {line : String} (hline : Text.OneLine line)
    (hhead : line.toList.head? ≠ some '`') : fenceLines line = 0 := by
  rw [fenceLines_line hline, if_neg]
  intro h
  obtain ⟨rest, hrest⟩ : fence <+: line.toList := by
    simpa [Text.startsWith, fence] using h
  rw [← hrest] at hhead
  exact hhead rfl

theorem fenceLines_opening {info : String} (h : Text.OneLine info) :
    fenceLines ("```" ++ info) = 1 := by
  rw [fenceLines_line (.append (by decide) h), if_pos]
  simp [Text.startsWith]

/-- The last of the fences around a text stands on a line of its own. -/
theorem between_eq (info s : String) : "```" ++ info ++ "\n" ++ s ++ "\n```" =
    "```" ++ info ++ "\n" ++ (s ++ "\n" ++ "```") := by
  simp [String.append_assoc]

/-- A text without fences of its own has two around it. -/
theorem fenceLines_between {info s : String} (hinfo : Text.OneLine info) (h : fenceLines s = 0) :
    fenceLines ("```" ++ info ++ "\n" ++ s ++ "\n```") = 2 := by
  rw [between_eq, fenceLines_append, fenceLines_append, fenceLines_opening hinfo, h]
  rfl

theorem fenceLines_fenced {info : String} (h : Text.OneLine info) (s : String) :
    fenceLines (fenced info s) = 2 :=
  fenceLines_between h (fenceLines_codeText s)

theorem fenceLines_cutToFit_le (measure : Measure) (budget : Int) (content : String) :
    fenceLines (cutToFit measure budget content) ≤ fenceLines content := by
  rw [cutToFit]
  split
  · exact Nat.le_refl _
  · dsimp only
    split
    · exact Nat.zero_le _
    · have hmark : fenceLines cutMark = 0 := by decide
      rw [← String.append_assoc, fenceLines_append, hmark, Nat.add_zero]
      exact fenceLines_take_le _ content

end Dossier.Document

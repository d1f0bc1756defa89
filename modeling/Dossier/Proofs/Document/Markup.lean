import Dossier.Document.Markup
import Dossier.Proofs.Text.OneLine
import Dossier.Proofs.Text.Runs
import Mathlib.Data.List.Infix

/-!
# Texts that end no fence

Code that is put between fences and titles have no three backticks in a row, and a title stays on
its line.
-/

namespace Dossier.Document

/-- What a fence begins with. -/
def fence : List Char := ['`', '`', '`']

/-- Three backticks in a row occur nowhere. -/
def FenceFree (cs : List Char) : Prop :=
  ¬ fence <:+: cs

theorem fenceFree_iff {cs : List Char} : FenceFree cs ↔ ¬ List.replicate 3 '`' <:+: cs :=
  Iff.rfl

namespace FenceFree

variable {c : Char} {cs run rest : List Char}

theorem of_infix (h : FenceFree cs) (hpart : run <:+: cs) : FenceFree run :=
  fun hfence ↦ h (hfence.trans hpart)

theorem nil : FenceFree [] := by
  simp [FenceFree, fence]

theorem cons (hc : c ≠ '`') (h : FenceFree cs) : FenceFree (c :: cs) := by
  rw [FenceFree, List.infix_cons_iff]
  rintro (hbegins | hfence)
  · exact hc (List.cons_prefix_cons.mp hbegins).1.symm
  · exact h hfence

theorem append_of_forall_ne (hrun : ∀ c ∈ run, c ≠ '`') (h : FenceFree rest) :
    FenceFree (run ++ rest) := by
  induction run with
  | nil => exact h
  | cons c run ih =>
      exact (ih fun d hd ↦ hrun d (List.mem_cons_of_mem c hd)).cons (hrun c List.mem_cons_self)

end FenceFree

open Text (mapRuns mapRunsChars)

section

variable {edit : List Char → List Char}

theorem fenceFree_codeText (s : String) : FenceFree (codeText s).toList := by
  rw [codeText, Text.replaceRuns, mapRuns, String.toList_ofList]
  refine fenceFree_iff.mpr (Text.not_isInfix_mapRunsChars (by decide) (fun run _ ↦ ?_) s.toList)
  split
  · exact Nat.lt_succ_self 2
  · omega

theorem fenceFree_withoutFences (s : String) : FenceFree (withoutFences s).toList := by
  rw [withoutFences, mapRuns, String.toList_ofList]
  refine fenceFree_iff.mpr (Text.not_isInfix_mapRunsChars (by decide) (fun run _ ↦ ?_) s.toList)
  rw [List.length_take]
  omega

/-- Editing runs of other characters brings no backticks together if no run is taken away. -/
theorem fenceFree_mapRunsChars_of_kept {p : Char → Bool} (hedit : ∀ run, run ≠ [] →
      (∀ c ∈ run, p c = true) → edit run ≠ [] ∧ ∀ c ∈ edit run, c ≠ '`') (cs : List Char) :
    (∀ k, List.replicate k '`' <+: mapRunsChars p edit cs → List.replicate k '`' <+: cs) ∧
      (FenceFree cs → FenceFree (mapRunsChars p edit cs)) := by
  induction cs using Text.runs_induction p with
  | nil => simp
  | cons c cs hc ih =>
      obtain ⟨hticks, hfree⟩ := ih
      rw [Text.mapRunsChars_cons hc]
      have hbegins (k : Nat) (h : List.replicate k '`' <+: c :: mapRunsChars p edit cs) :
          List.replicate k '`' <+: c :: cs := by
        cases k with
        | zero => exact List.nil_prefix
        | succ k =>
            rw [List.replicate_succ] at h ⊢
            obtain ⟨hhead, htail⟩ := List.cons_prefix_cons.mp h
            exact List.cons_prefix_cons.mpr ⟨hhead, hticks k htail⟩
      refine ⟨hbegins, fun h ↦ ?_⟩
      rw [FenceFree, List.infix_cons_iff] at h ⊢
      rintro (hfence | hfence)
      · exact h (.inl (hbegins 3 hfence))
      · exact hfree (fun hcs ↦ h (.inr hcs)) hfence
  | run run rest hne hrun hrest ih =>
      obtain ⟨-, hfree⟩ := ih
      rw [Text.mapRunsChars_append hne hrun hrest]
      obtain ⟨hkept, hticks⟩ := hedit run hne hrun
      constructor
      · -- An edited run begins with another character than a backtick.
        intro k h
        obtain ⟨c, edited, hedited⟩ := List.exists_cons_of_ne_nil hkept
        cases k with
        | zero => exact List.nil_prefix
        | succ k =>
            rw [hedited, List.replicate_succ, List.cons_append] at h
            have hc : c ≠ '`' := hticks c (hedited ▸ List.mem_cons_self)
            exact absurd (List.cons_prefix_cons.mp h).1.symm hc
      · intro h
        have hafter : FenceFree (mapRunsChars p edit rest) :=
          hfree (h.of_infix (List.suffix_append run rest).isInfix)
        exact hafter.append_of_forall_ne hticks

end

/-! ## Titles -/

theorem heading_isInfix (s : String) : (heading s).toList <:+:
    (Text.replaceRuns '-' 3 "-" (withoutFences (withoutMark (onOneLine s)))).toList := by
  rw [heading, Text.strip, String.toList_ofList, Text.toList_take]
  exact (Text.stripChars_isInfix _).trans (List.take_prefix maxTitle _).isInfix

theorem fenceFree_heading (s : String) : FenceFree (heading s).toList := by
  refine FenceFree.of_infix ?_ (heading_isInfix s)
  rw [Text.replaceRuns, mapRuns, String.toList_ofList]
  refine (fenceFree_mapRunsChars_of_kept (fun run hne hrun ↦ ?_) _).2 (fenceFree_withoutFences _)
  split
  · simp
  · refine ⟨hne, fun c hc ↦ ?_⟩
    rw [eq_of_beq (hrun c hc)]
    decide

/-- A text that is written on one line has no line breaks. -/
theorem not_isBreak_of_mem_onOneLine (s : String) :
    ∀ c ∈ (onOneLine s).toList, (c == '\r' || c == '\n') = false := by
  have hblank : ∀ c ∈ [' '], (c == '\r' || c == '\n') = false :=
    List.forall_mem_singleton.mpr (by decide)
  rw [onOneLine, mapRuns, String.toList_ofList]
  exact Text.not_of_mem_mapRunsChars (fun _ _ _ ↦ hblank) _

theorem oneLine_onOneLine (s : String) : Text.OneLine (onOneLine s) :=
  fun h ↦ by simpa using not_isBreak_of_mem_onOneLine s _ h

/-- A title has no character that the text on one line does not have. -/
theorem heading_subset (s : String) : (heading s).toList ⊆ (onOneLine s).toList := by
  have hmark : (withoutMark (onOneLine s)).toList ⊆ (onOneLine s).toList := by
    rw [withoutMark]
    split
    · simp only [Text.trimStart, String.toList_ofList]
      exact List.Subset.trans (List.dropWhile_suffix _).subset (List.dropWhile_suffix _).subset
    · exact List.Subset.refl _
  have hfences : (withoutFences (withoutMark (onOneLine s))).toList ⊆
      (withoutMark (onOneLine s)).toList := by
    rw [withoutFences, mapRuns, String.toList_ofList]
    exact Text.mapRunsChars_subset (fun run _ _ ↦ List.take_subset ..) _
  have hdashes := Text.replaceRuns_subset '-' 3 (withoutFences (withoutMark (onOneLine s)))
  exact List.Subset.trans (heading_isInfix s).subset
    (List.Subset.trans hdashes (List.Subset.trans hfences hmark))

theorem oneLine_heading (s : String) : Text.OneLine (heading s) :=
  fun h ↦ oneLine_onOneLine s (heading_subset s h)

end Dossier.Document

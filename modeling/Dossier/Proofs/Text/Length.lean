import Dossier.Text.Lines
import Dossier.Text.Runs
import Mathlib.Algebra.BigOperators.Ring.List
import Mathlib.Algebra.GroupWithZero.Nat

/-!
# Lengths of edited texts

Trimming never makes a text longer, and neither does an edit of its runs that makes no run longer.
-/

namespace Dossier.Text

@[simp] theorem length_take (n : Nat) (s : String) : (take n s).length = min n s.length := by
  simp [take, String.length_toList]

theorem take_length_add_append (a b c : String) {k : Nat} (hk : k ≤ b.length) :
    take (a.length + k) (a ++ (b ++ c)) = a ++ take k b := by
  refine String.toList_inj.mp ?_
  rw [toList_take, String.toList_append, String.toList_append, String.toList_append, toList_take,
    ← String.length_toList, List.take_length_add_append, List.take_append_of_le_length]
  rwa [String.length_toList]

theorem length_stripChars_le (cs : List Char) : (stripChars cs).length ≤ cs.length := by
  have hend : stripChars cs <+: cs.dropWhile isBlank := trimEndChars_prefix isBlank _
  exact Nat.le_trans hend.length_le (List.dropWhile_suffix isBlank).length_le

theorem length_strip_le (s : String) : (strip s).length ≤ s.length := by
  simpa [strip, String.length_toList] using length_stripChars_le s.toList

section Runs

variable {p : Char → Bool} {edit : List Char → List Char}

theorem length_closeRun_le (h : ∀ run, (edit run).length ≤ run.length)
    (state : List Char × List Char) :
    (closeRun edit state).length ≤ state.1.length + state.2.length := by
  obtain ⟨run, after⟩ := state
  cases run with
  | nil => simp [closeRun]
  | cons c run => simpa [closeRun] using h (c :: run)

theorem length_extendRun_le (h : ∀ run, (edit run).length ≤ run.length) (c : Char)
    (state : List Char × List Char) :
    (extendRun p edit c state).1.length + (extendRun p edit c state).2.length ≤
      state.1.length + state.2.length + 1 := by
  have hclose := length_closeRun_le h state
  simp only [extendRun]
  split <;> simp only [List.length_cons, List.length_nil] <;> omega

theorem length_mapRuns_le (h : ∀ run, (edit run).length ≤ run.length) (s : String) :
    (mapRuns p edit s).length ≤ s.length := by
  have hfold (cs : List Char) :
      (cs.foldr (extendRun p edit) ([], [])).1.length +
        (cs.foldr (extendRun p edit) ([], [])).2.length ≤ cs.length := by
    induction cs with
    | nil => simp
    | cons c cs ih =>
        have hstep := length_extendRun_le (p := p) h c (cs.foldr (extendRun p edit) ([], []))
        simp only [List.foldr_cons, List.length_cons]
        omega
  have hclose := length_closeRun_le h (s.toList.foldr (extendRun p edit) ([], []))
  simpa [mapRuns, mapRunsChars, String.length_toList] using Nat.le_trans hclose (hfold s.toList)

end Runs

theorem length_replaceRuns_le (c : Char) {least : Nat} {new : String} (h : new.length ≤ least)
    (s : String) : (replaceRuns c least new s).length ≤ s.length := by
  refine length_mapRuns_le (fun run ↦ ?_) s
  split
  · rw [String.length_toList]
    omega
  · exact Nat.le_refl _

/-- Texts that are joined take the length of the separator in addition for each text but the first. -/
theorem length_intercalate_cons (separator s : String) (rest : List String) :
    (String.intercalate separator (s :: rest)).length =
      s.length + (rest.map fun t ↦ t.length + separator.length).sum := by
  induction rest generalizing s with
  | nil => simp
  | cons next rest ih =>
      rw [String.intercalate_cons_cons, String.length_append, String.length_append, ih,
        List.map_cons, List.sum_cons]
      omega

/-- Lines that are joined take one character more for each line but the first. -/
theorem length_joinLines_cons (line : String) (rest : List String) :
    (joinLines (line :: rest)).length = line.length + (rest.map fun s ↦ s.length + 1).sum :=
  length_intercalate_cons "\n" line rest

end Dossier.Text

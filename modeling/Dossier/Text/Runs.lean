import Dossier.Text.Basic

/-!
# Runs

A run is a longest stretch of characters of one class. `mapRuns` edits every run of a text and
leaves the characters between the runs as they are.
-/

namespace Dossier.Text

/-- Edits a run, if there is one, and puts it in front of the text after it. -/
def closeRun (edit : List Char → List Char) : List Char × List Char → List Char
  | ([], after) => after
  | (run, after) => edit run ++ after

/-- Extends the run at the start of a text by a character of the class, or closes it. -/
def extendRun (p : Char → Bool) (edit : List Char → List Char) (c : Char)
    (state : List Char × List Char) : List Char × List Char :=
  if p c then (c :: state.1, state.2) else ([], c :: closeRun edit state)

/-- Edits every run of characters that satisfy `p`. -/
def mapRunsChars (p : Char → Bool) (edit : List Char → List Char) (cs : List Char) : List Char :=
  closeRun edit (cs.foldr (extendRun p edit) ([], []))

/-- A text in which every run of characters that satisfy `p` is edited. -/
def mapRuns (p : Char → Bool) (edit : List Char → List Char) (s : String) : String :=
  String.ofList (mapRunsChars p edit s.toList)

/-- Puts `new` in the place of every run of `c` that is at least `least` long. -/
def replaceRuns (c : Char) (least : Nat) (new s : String) : String :=
  mapRuns (· == c) (fun run => if least ≤ run.length then new.toList else run) s

end Dossier.Text

import Dossier.Document.Markup
import Dossier.Failure
import Dossier.Path.Glob

/-!
# Key files

Files whose text is shown as it is, in the order of their paths and within a budget. The first file
that does not fit is cut if enough of it is left, and ends the section.
-/

namespace Dossier.Document

/-- A file is not worth showing if no more than this number of tokens is left for it. -/
def minCutTokens : Int := 100

/-- What stands in front of the text of a file. -/
def excerptHead (path : String) : String :=
  let suffix := Text.trimStart (· == '.') (Path.suffixOf (Path.nameOf path))
  "### " ++ path ++ "\n\n```" ++ suffix ++ "\n"

/-- A file with its whole text. -/
def excerpt (path text : String) : String :=
  excerptHead path ++ codeText text ++ "\n```"

/-- A file whose text is cut so that the whole takes about `remaining` tokens. -/
def cutExcerpt (measure : Measure) (remaining : Int) (path text : String) : String :=
  let ending := "\n" ++ cutMark ++ "\n```"
  let room := Budget.charsFor (remaining - measure (excerptHead path ++ ending))
  excerptHead path ++ codeText (Text.take room text) ++ ending

/-- The excerpts of a section, what they take together, and the warnings. -/
structure Excerpts where
  pieces : List String := []
  tokens : Nat := 0
  warnings : List String := []
deriving DecidableEq, Repr, Inhabited

/-- A warning that a file is left out. -/
def skippedKeyFile (path reason : String) : String :=
  "Skipping key file " ++ path ++ ": " ++ reason

/-- The excerpts after one more file has been offered, and whether more files may follow it. -/
def offer (fs : FileSystem) (measure : Measure) (root : Path) (budget : Int) (done : Excerpts)
    (path : String) : Except Failure (Excerpts × Bool) :=
  let p := root.join (Path.ofText path)
  if p.parts.any (·.toList.contains '\x00') then .error .nulInPath
  else match fs.readText p with
    | .error .endless => .error (.endless p)
    | .error e =>
      .ok ({ done with warnings := done.warnings ++ [skippedKeyFile path (e.message p)] }, true)
    | .ok text =>
      let piece := excerpt path text
      if (done.tokens + measure piece : Nat) ≤ budget then
        .ok ({ done with pieces := done.pieces ++ [piece], tokens := done.tokens + measure piece },
          true)
      else if minCutTokens < budget - done.tokens then
        let cut := cutExcerpt measure (budget - done.tokens) path text
        .ok ({ done with pieces := done.pieces ++ [cut], tokens := done.tokens + measure cut }, false)
      else .ok (done, false)

/-- Adds files to the excerpts as long as they fit. -/
def addExcerpts (fs : FileSystem) (measure : Measure) (root : Path) (budget : Int)
    (done : Excerpts) : List String → Except Failure Excerpts
  | [] => .ok done
  | path :: rest => do
    let (done, more) ← offer fs measure root budget done path
    if more then addExcerpts fs measure root budget done rest else return done

/-- The section of the files among some that are on a list of patterns. -/
def keyFiles (fs : FileSystem) (measure : Measure) (root : Path) (files patterns : List String)
    (budget : Int) : Except Failure Excerpts :=
  addExcerpts fs measure root budget {} (Glob.select (some patterns) [] files)

/-- Excerpts as one text. -/
def Excerpts.content (x : Excerpts) : String :=
  String.intercalate "\n\n" x.pieces

end Dossier.Document

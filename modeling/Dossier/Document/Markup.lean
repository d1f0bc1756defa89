import Dossier.Budget.Tokens
import Dossier.Text.Lines
import Dossier.Text.Runs

/-!
# Markup

Text that is put into a markdown document: titles that stay on one line, code that cannot end its
own fence, and contents cut to a budget.
-/

namespace Dossier.Document

/-! ## Titles -/

/-- How long a title may be. -/
def maxTitle : Nat := 200

/-- Every run of line breaks written as one space. -/
def onOneLine (s : String) : String :=
  Text.mapRuns (fun c => c == '\r' || c == '\n') (fun _ => [' ']) s

/-- A text without the mark of a heading at its start and the blanks after it. -/
def withoutMark (s : String) : String :=
  if Text.startsWith s "#" then
    Text.trimStart Text.isBlank (Text.trimStart (· == '#') s)
  else s

/-- A text in which every three backticks in a row are left out. -/
def withoutFences (s : String) : String :=
  Text.mapRuns (· == '`') (fun run => run.take (run.length % 3)) s

/-- A text that stays on its line as a title or as a part of one. -/
def heading (s : String) : String :=
  Text.strip (Text.take maxTitle
    (Text.replaceRuns '-' 3 "-" (withoutFences (withoutMark (onOneLine s)))))

/-! ## Code -/

/-- Three or more backticks in a row would close a fence: two are put in their place. -/
def codeText (s : String) : String :=
  Text.replaceRuns '`' 3 "``" s

/-- A text between fences. -/
def fenced (info s : String) : String :=
  "```" ++ info ++ "\n" ++ codeText s ++ "\n```"

/-! ## Cutting -/

/-- What stands at the end of a content that has been cut. -/
def cutMark : String := "...(truncated)"

/-- A content as it is if it is within the budget; else its beginning with a mark, together within
the budget, or nothing if the mark has no room. -/
def cutToFit (measure : Measure) (budget : Int) (content : String) : String :=
  if (measure content : Int) ≤ budget then content
  else
    let ending := "\n" ++ cutMark
    let room := Budget.charsFor budget - ending.length
    if room = 0 then "" else Text.take room content ++ ending

end Dossier.Document

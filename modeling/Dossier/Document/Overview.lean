import Dossier.Document.Markup
import Dossier.Path.Basic
import Dossier.Profile.Basic
import Dossier.Text.Numeral

/-!
# Overview

The profile of a project in a few lines.
-/

namespace Dossier.Document

/-- Order of counted names: the greater count first, then by name. -/
def moreFrequent (a b : String × Int) : Bool :=
  decide (b.2 < a.2) || (a.2 == b.2 && Text.notAfter a.1 b.1)

/-- Counted names, the most frequent first. -/
def languagesText (counts : List (String × Int)) : String :=
  String.intercalate ", " ((counts.mergeSort moreFrequent).map fun (name, n) =>
    name ++ " (" ++ Text.ofInt n ++ ")")

/-- The line about a member of the project. -/
def workspaceLine (w : Workspace) : String :=
  "  - `" ++ w.path ++ "`" ++
    (if w.name = Path.nameOf w.path then "" else " (" ++ heading w.name ++ ")") ++
    (match w.runtime.filter (· != "") with
      | some runtime => " [" ++ runtime ++ "]"
      | none => "") ++
    (match w.description.filter (· != "") with
      | some description => ": " ++ heading description
      | none => "")

/-- A line with a label and several items, if there are items. -/
def itemsLine (label : String) (items : List String) : List String :=
  if items.isEmpty then [] else ["- **" ++ label ++ "**: " ++ String.intercalate ", " items]

/-- The lines of the overview. -/
def overviewLines (profile : Profile) (languages : List (String × Int)) : List String :=
  (match profile.description.filter (· != "") with
    | some description => [heading description, ""]
    | none => []) ++
  ["- **Runtime**: " ++ profile.runtime] ++
  (if languages.isEmpty then [] else ["- **Languages**: " ++ languagesText languages]) ++
  itemsLine "Frameworks" profile.frameworks ++
  itemsLine "Tooling" profile.tooling ++
  (match profile.monorepo with
    | some monorepo => ["- **Monorepo**: " ++ monorepo.tool, "- **Workspaces**:"] ++
        monorepo.workspaces.map workspaceLine
    | none => [])

/-- The overview of a project. -/
def overview (profile : Profile) (languages : List (String × Int)) : String :=
  Text.joinLines (overviewLines profile languages)

end Dossier.Document

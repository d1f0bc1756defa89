import Dossier.Document.Markup

/-!
# Assembling a document

A document has a title, a notice and sections in a fixed order.
-/

namespace Dossier.Document

/-- What a section is about. -/
inductive Topic where
  | overview
  | tree
  | keyFiles
  | codeMap
  | knowledge
deriving DecidableEq, Repr, Inhabited

namespace Topic

/-- All topics, in the order of their sections. -/
def all : List Topic := [.overview, .tree, .keyFiles, .codeMap, .knowledge]

/-- The short name of a topic. -/
def id : Topic → String
  | .overview => "overview"
  | .tree => "structure"
  | .keyFiles => "key_files"
  | .codeMap => "code_map"
  | .knowledge => "knowledge"

/-- The title of the section on a topic. -/
def title : Topic → String
  | .overview => "Overview"
  | .tree => "Structure"
  | .keyFiles => "Key Files"
  | .codeMap => "Code Map"
  | .knowledge => "Knowledge"

/-- The percentage of a budget that a topic gets. -/
def weight : Topic → Int
  | .overview => 8
  | .tree => 12
  | .keyFiles => 25
  | .codeMap => 40
  | .knowledge => 15

end Topic

/-- A section. -/
structure Section where
  /-- The short name of what it is about. -/
  id : String
  title : String
  content : String
deriving DecidableEq, Repr, Inhabited

/-- The section on a topic. -/
def Section.about (topic : Topic) (content : String) : Section :=
  ⟨topic.id, topic.title, content⟩

/-- The notice below the title. -/
def notice : String :=
  "> Generated by `devctx context`; regenerate with `devctx context`"

/-- A section as it is shown; the directory tree stands between fences. -/
def Section.parts (s : Section) : List String :=
  ["## " ++ s.title ++ "\n",
    (if s.id = Topic.tree.id then fenced "" s.content else s.content) ++ "\n"]

/-- The title of a document. -/
def titleLine (name : String) : String :=
  let title := heading name
  "# " ++ (if title = "" then "project" else title) ++ "\n"

/-- A document. -/
def assemble (name : String) (sections : List Section) : String :=
  Text.joinLines (titleLine name :: (notice ++ "\n") :: sections.flatMap Section.parts)

/-- The tokens of a document whose sections are all there and empty. -/
def layoutOverhead (measure : Measure) (name : String) : Nat :=
  measure (assemble name (Topic.all.map (Section.about · "")))

end Dossier.Document

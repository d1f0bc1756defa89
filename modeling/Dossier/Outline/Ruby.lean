import Dossier.Outline.Declaration

/-!
# Ruby

Methods at the top level, and classes and modules with the headers of their methods. Classes and
modules inside a module are entries of their own.
-/

namespace Dossier.Outline.Ruby

open Text (strip stripEnd)

variable (source : Bytes)

/-- Whether a node defines a method. -/
def isMethod (node : Node) : Bool :=
  node.kind == "method" || node.kind == "singleton_method"

/-- Whether a node defines a class or a module. -/
def isContainer (node : Node) : Bool :=
  node.kind == "class" || node.kind == "module"

/-- The body of a definition. -/
def body? (node : Node) : Option Node :=
  node.field? "body" <|> node.firstOf? ["body_statement"]

/-- The text of a definition up to its body, or its first line. -/
def headerText (node : Node) : String :=
  match body? node with
  | some body => strip (source.slice node.start body.start)
  | none => strip (Text.firstLine (node.text source))

/-- What stands in a class or module. -/
def members (node : Node) : List Node :=
  match body? node with
  | some body => body.members
  | none => node.members

/-- A method at the top level. -/
def methodEntry (node : Node) : Declaration :=
  { kind := .function, name := nameOf source node, signature := headerText source node
    line := node.line source }

/-- A class or module. -/
def containerEntry (node : Node) : Declaration :=
  { kind := .cls, name := nameOf source node
    signature := container (headerText source node)
      (((members node).filter isMethod).map (headerText source)) "end"
    line := node.line source }

/-- Modules are entered, classes are not. -/
def way (node : Node) : Node.Way :=
  if node.kind = "module" then
    match node.fieldIndex? "body" <|> node.kindIndex? ["body_statement"] with
    | some i => .membersOf i
    | none => .members
  else .stop

/-- The declarations at a node of the top level. -/
def entriesAt (node : Node) : List Declaration :=
  if isMethod node then [methodEntry source node]
  else ((Node.reach way node).filter isContainer).map (containerEntry source)

/-- The outline of a source. -/
def outline (root : Node) : List Declaration :=
  root.members.flatMap (entriesAt source)

end Dossier.Outline.Ruby

import Dossier.Outline.Declaration

/-!
# Python

Functions, classes with the headers of their methods and their annotated fields, annotated
variables and constants in capitals. A decorated definition is shown with its decorators.
-/

namespace Dossier.Outline.Python

open Text (strip stripEnd)

variable (source : Bytes)

/-- The definition inside a decorated one. -/
def definition (node : Node) : Node :=
  if node.kind = "decorated_definition" then
    (node.field? "definition" <|>
      node.firstOf? ["function_definition", "class_definition"]).getD node
  else node

/-- The text of a definition from its decorators up to its body, ending with a colon. -/
def definitionText (outer inner : Node) : String :=
  let stop := match inner.field? "body" with
    | some body => body.start
    | none => inner.stop
  let text := Text.dedentTail (outer.column source) (strip (source.slice outer.start stop))
  (if Text.endsWith text ":" then stripEnd (Text.dropEnd 1 text) else text) ++ ":"

/-- The assignment to a plain name that a statement consists of, with that name. -/
def assignment? (node : Node) : Option (Node × Node) :=
  if node.kind = "expression_statement" then do
    let assignment ← node.firstOf? ["assignment"]
    let left ← assignment.field? "left"
    if left.kind = "identifier" then some (assignment, left) else none
  else none

/-- The name and the annotation of an assignment. -/
def assignmentText (assignment left : Node) : String :=
  match assignment.field? "type" with
  | some type => left.text source ++ ": " ++ type.text source
  | none => left.text source

/-- Whether a name is written in capitals; a final line feed does not count. -/
def isConstantName (name : String) : Bool :=
  let cs := name.toList
  let cs := if cs.getLast? = some '\n' then cs.dropLast else cs
  match cs with
  | c :: rest => c.isUpper && rest.all fun d => d.isUpper || d.isDigit || d == '_'
  | [] => false

/-- A statement in the body of a class, as a member to show. -/
def member? (node : Node) : Option Member :=
  let inner := definition node
  if inner.kind = "function_definition" then some (.method (definitionText source node inner))
  else match assignment? node with
    | some (assignment, left) =>
      if (assignment.field? "type").isSome then
        some (.field (assignmentText source assignment left))
      else none
    | none => none

/-- The members of a class. -/
def membersOf (node : Node) : List Member :=
  match node.field? "body" with
  | some body => body.members.filterMap (member? source)
  | none => []

/-- The text of a class: its header, and its members indented. -/
def classText (outer inner : Node) : String :=
  let members := membersOf source inner
  let header := definitionText source outer inner
  if members.isEmpty then header
  else header ++ "\n" ++ Text.joinLines (members.map fun m => Text.indentLines "  " m.text)

/-- The declaration at a node. -/
def entryAt? (node : Node) : Option Declaration :=
  let inner := definition node
  if inner.kind = "function_definition" then
    some { kind := .function, name := guessName source inner
           signature := definitionText source node inner, line := node.line source }
  else if inner.kind = "class_definition" then
    some { kind := .cls, name := guessName source inner
           signature := classText source node inner, line := node.line source
           fieldsOnly := fieldsOnly (membersOf source inner) }
  else match assignment? node with
    | some (assignment, left) =>
      let name := left.text source
      if (assignment.field? "type").isNone && !isConstantName name then none
      else some { kind := .const, name, signature := assignmentText source assignment left
                  line := node.line source }
    | none => none

/-- The outline of a source. -/
def outline (root : Node) : List Declaration :=
  root.members.filterMap (entryAt? source)

end Dossier.Outline.Python

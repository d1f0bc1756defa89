import Dossier.Outline.Declaration

/-!
# Languages of braced classes

Languages whose types are declared with a body in braces differ only in the kinds of their nodes.
`ClassRules` collects the kinds, and one definition outlines them all.
-/

namespace Dossier.Outline

open Text (strip stripEnd)

/-- The kinds of nodes in a language of braced classes. -/
structure ClassRules where
  /-- Type declarations, and what each declares. -/
  types : List (String × Kind)
  /-- Functions outside any type. -/
  functions : List String := []
  /-- Wrappers whose members count as top level. -/
  wrappers : List String := []
  /-- The body of a type, where no field names it. -/
  bodies : List String := []
  methods : List String
  fields : List String
  /-- The body of a method, where no field names it. -/
  methodBodies : List String := []

namespace ClassRules

variable (rules : ClassRules) (source : Bytes)

/-- The body of a type. -/
def body? (node : Node) : Option Node :=
  node.field? "body" <|> node.firstOf? rules.bodies

/-- The text of a method up to its body. -/
def methodText (node : Node) : String :=
  match node.field? "body" <|> node.firstOf? rules.methodBodies with
  | some body => header source node (some body)
  | none => withoutTerminator (node.text source)

/-- A node in the body of a type, as a member to show. -/
def member? (node : Node) : Option Member :=
  if rules.methods.contains node.kind then some (.method (rules.methodText source node))
  else if rules.fields.contains node.kind then
    some (.field (withoutTerminator (node.text source)))
  else none

/-- The members of a type. -/
def membersOf (node : Node) : List Member :=
  match rules.body? node with
  | some body => body.members.filterMap (rules.member? source)
  | none => []

/-- The declaration of a type. -/
def typeEntry (kind : Kind) (node : Node) : Declaration :=
  if kind = .enum then
    { kind, name := nameOf source node, signature := strip (node.text source)
      line := node.line source }
  else
    let members := rules.membersOf source node
    { kind, name := nameOf source node
      signature := container (openHeader source node (rules.body? node)) (members.map (·.text))
      line := node.line source, fieldsOnly := fieldsOnly members }

/-- The declaration at a node. -/
def entryAt (node : Node) : List Declaration :=
  match rules.types.lookup node.kind with
  | some kind => [rules.typeEntry source kind node]
  | none =>
    if rules.functions.contains node.kind then
      [{ kind := .function, name := nameOf source node
         signature := header source node (node.field? "body"), line := node.line source }]
    else []

/-- Wrappers are entered, all else is not. -/
def way (node : Node) : Node.Way :=
  if rules.wrappers.contains node.kind then .members else .stop

/-- The outline of a source. -/
def outline (root : Node) : List Declaration :=
  (Node.reachMembers rules.way root.children).flatMap (rules.entryAt source)

end ClassRules

/-- Java: only the types at the top level. -/
def javaRules : ClassRules where
  types := [("class_declaration", .cls), ("record_declaration", .cls),
    ("interface_declaration", .interface), ("enum_declaration", .enum)]
  methods := ["method_declaration", "constructor_declaration", "compact_constructor_declaration"]
  fields := ["field_declaration", "constant_declaration"]

/-- C#: types in any namespace. -/
def csharpRules : ClassRules where
  types := [("class_declaration", .cls), ("struct_declaration", .cls),
    ("record_declaration", .cls), ("record_struct_declaration", .cls),
    ("interface_declaration", .interface), ("enum_declaration", .enum)]
  wrappers := ["namespace_declaration", "file_scoped_namespace_declaration", "declaration_list"]
  bodies := ["declaration_list"]
  methods := ["method_declaration", "constructor_declaration", "destructor_declaration",
    "operator_declaration"]
  fields := ["field_declaration", "property_declaration", "event_field_declaration"]
  methodBodies := ["block", "arrow_expression_clause"]

/-- PHP: functions and types in any namespace. -/
def phpRules : ClassRules where
  types := [("class_declaration", .cls), ("trait_declaration", .cls),
    ("interface_declaration", .interface), ("enum_declaration", .enum)]
  functions := ["function_definition"]
  wrappers := ["program", "namespace_definition", "compound_statement"]
  bodies := ["declaration_list"]
  methods := ["method_declaration"]
  fields := ["property_declaration", "const_declaration"]

end Dossier.Outline

import Dossier.Outline.Declaration

/-!
# TypeScript and JavaScript

Exported declarations of every kind, re-exports and default exports, and the functions, classes and
types that are not exported. The text of an exported declaration starts at its export keyword.
-/

namespace Dossier.Outline.Script

open Text (strip stripEnd)

variable (source : Bytes)

/-- Nodes that declare something. -/
def declarationKinds : List String :=
  ["function_declaration", "generator_function_declaration", "function_signature",
    "class_declaration", "abstract_class_declaration", "interface_declaration",
    "type_alias_declaration", "enum_declaration", "lexical_declaration", "variable_declaration",
    "ambient_declaration"]

/-- Whether the value of a variable or export is a function. -/
def isFunctionValue (node : Node) : Bool :=
  ["arrow_function", "function_expression", "function", "generator_function"].contains node.kind

/-- Members that have behaviour. -/
def methodKinds : List String := ["method_definition"]

/-- Members that are shown whole. -/
def fieldKinds : List String :=
  ["public_field_definition", "field_definition", "property_declaration",
    "abstract_method_signature", "method_signature"]

/-! ## Classes -/

/-- A node in the body of a class, as a member to show. -/
def member? (node : Node) : Option Member :=
  if methodKinds.contains node.kind then
    some (.method (header source node (node.field? "body")))
  else if fieldKinds.contains node.kind then
    some (.field (withoutTerminator (node.text source)))
  else none

/-- The members of a class. -/
def membersOf (node : Node) : List Member :=
  match node.field? "body" with
  | some body => body.members.filterMap (member? source)
  | none => []

/-- The text of a class whose declaration begins at `start`. -/
def classText (start : Nat) (node : Node) : String :=
  let stop := match node.field? "body" with
    | some body => body.start
    | none => node.stop
  container (opened (strip (source.slice start stop))) ((membersOf source node).map (·.text))

/-! ## Variables -/

/-- The name of a declarator: an identifier as it is, of any other target a guess. -/
def declaratorName (node : Node) : String :=
  match node.field? "name" with
  | some name => if name.kind = "identifier" then name.text source else guessName source node
  | none => guessName source node

/-- One declarator of a statement. The text before the first declarator is `lead`. A variable that
is no function counts only if it is exported. -/
def declared? (exported : Bool) (lead : String) (line : Nat) (node : Node) :
    Option Declaration :=
  let name := declaratorName source node
  let value? := node.field? "value"
  match value?.filter isFunctionValue with
  | some value =>
    let stop := match value.field? "body" with
      | some body => body.start
      | none => value.stop
    some { kind := .function, name, signature := strip (lead ++ source.slice node.start stop)
           exported, line }
  | none =>
    if exported then
      let text := match node.field? "type", value? with
        | some type, _ => source.slice node.start type.stop
        | none, some value =>
          Text.trimEnd (· == '=') (stripEnd (source.slice node.start value.start))
        | none, none => source.slice node.start node.stop
      some { kind := .const, name, signature := strip (lead ++ text), exported, line }
    else none

/-- The declarators of a statement that begins at `start`. -/
def variableEntries (exported : Bool) (start : Nat) (node : Node) : List Declaration :=
  match node.members.filter (·.kind == "variable_declarator") with
  | [] => []
  | first :: rest =>
    let lead := source.slice start first.start
    (first :: rest).filterMap (declared? source exported lead (node.line source))

/-! ## Declarations -/

/-- An ambient declaration leads on to what it declares. -/
def way (node : Node) : Node.Way :=
  if node.kind = "ambient_declaration" then
    match node.kindIndex? declarationKinds with
    | some i => .child i
    | none => .stop
  else .stop

/-- What a declaration declares in the end, through all ambient wrappers. -/
def innermost (node : Node) : Node :=
  (Node.reach way node).getLastD node

/-- The entries of a declaration that is no wrapper and whose text begins at `start`. -/
def plainEntries (exported : Bool) (start : Nat) (node : Node) : List Declaration :=
  let whole := source.slice start node.stop
  let entry (kind : Kind) (signature : String) : Declaration :=
    { kind, name := guessName source node, signature, exported, line := node.line source }
  match node.kind with
  | "function_declaration" | "generator_function_declaration" =>
    let stop := match node.field? "body" with
      | some body => body.start
      | none => node.stop
    [entry .function (strip (source.slice start stop))]
  | "function_signature" => [entry .function (withoutTerminator whole)]
  | "class_declaration" | "abstract_class_declaration" =>
    [{ entry .cls (classText source start node) with
        fieldsOnly := fieldsOnly (membersOf source node) }]
  | "interface_declaration" => [entry .interface (strip whole)]
  | "type_alias_declaration" => [entry .type (withoutTerminator whole)]
  | "enum_declaration" => [entry .enum (strip whole)]
  | "lexical_declaration" | "variable_declaration" => variableEntries source exported start node
  | _ => []

/-- The entries of a declaration whose text begins at `start`. -/
def declarationEntries (exported : Bool) (start : Nat) (node : Node) : List Declaration :=
  plainEntries source exported start (innermost node)

/-! ## Exports -/

/-- Quotes and spaces around the name of a module. -/
def isModuleQuote (c : Char) : Bool :=
  c == '"' || c == '\'' || c == '`' || c == ' '

/-- The module named after a `from`, as group 1. -/
def fromPattern : Text.Pattern :=
  .all
    [.lit "from", .blanks, .one fun c => c == '"' || c == '\'',
      .group 1 (.run 1 fun c => c != '"' && c != '\''), .one fun c => c == '"' || c == '\'']

/-- The label of a re-export. -/
def reexportLabel : String := "re-export"

/-- The label of an export clause, with the module it names. -/
def reexportName (node : Node) : String :=
  let module := match node.field? "source" with
    | some name => Text.trimEnd isModuleQuote (Text.trimStart isModuleQuote (name.text source))
    | none => ""
  if module ≠ "" then reexportLabel ++ " from " ++ module
  else match (fromPattern.search (node.text source)).bind (·.group? 1) with
    | some name => reexportLabel ++ " from " ++ String.ofList name
    | none => reexportLabel

/-- A default export of a value. -/
def defaultEntry (node value : Node) : Declaration :=
  let entry (kind : Kind) (signature : String) : Declaration :=
    { kind, name := "default", signature, line := node.line source }
  if isFunctionValue value then
    match value.field? "body" with
    | some body => entry .function (strip (source.slice node.start body.start))
    | none => entry .function (withoutTerminator (node.text source))
  else if value.kind = "class" then
    { entry .cls (classText source node.start value) with
      fieldsOnly := fieldsOnly (membersOf source value) }
  else entry .const (withoutTerminator (node.text source))

/-- The entries of an export statement. -/
def exportEntries (node : Node) : List Declaration :=
  match node.field? "declaration" <|> node.firstOf? declarationKinds with
  | some declaration => declarationEntries source true node.start declaration
  | none => match node.field? "value" with
    | some value => [defaultEntry source node value]
    | none =>
      [{ kind := .const, name := reexportName source node
         signature := withoutTerminator (node.text source), line := node.line source }]

/-- An export leads on to what it declares, as an ambient declaration does. -/
def wayIn (node : Node) : Node.Way :=
  if node.kind = "export_statement" then
    match node.fieldIndex? "declaration" <|> node.kindIndex? declarationKinds with
    | some i => .child i
    | none => .stop
  else way node

/-- The declarations at a node of the top level. -/
def entriesAt (node : Node) : List Declaration :=
  if node.kind = "export_statement" then exportEntries source node
  else declarationEntries source false node.start node

/-- The outline of a source. -/
def outline (root : Node) : List Declaration :=
  root.members.flatMap (entriesAt source)

end Dossier.Outline.Script

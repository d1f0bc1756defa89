import Dossier.Outline.Declaration

/-!
# Go

Functions, methods, types and the names of constants and variables. In a group every
specification is an entry of its own.
-/

namespace Dossier.Outline.Go

open Text (strip stripEnd)

variable (source : Bytes)

/-- A function or method. -/
def functionEntry (node : Node) : Declaration :=
  { kind := .function, name := nameOf source node
    signature := header source node (node.field? "body"), line := node.line source }

/-- What a type is declared as. -/
def typeKind (node : Node) : Kind :=
  if node.kind = "struct_type" then .cls
  else if node.kind = "interface_type" then .interface
  else .type

/-- One specification of a type declaration. -/
def typeOf? (decl spec : Node) : Option Declaration :=
  if spec.kind = "type_alias" then
    some { kind := .type, name := nameOf source spec
           signature := "type " ++ strip (spec.text source), line := spec.line source }
  else (spec.field? "type").map fun type =>
    let text :=
      if decl.hasChild "(" then "type " ++ strip (source.slice spec.start type.stop)
      else strip (source.slice decl.start type.stop)
    { kind := typeKind type, name := nameOf source spec, signature := text
      line := spec.line source, fieldsOnly := typeKind type == .cls }

/-- The types of a type declaration. -/
def typeEntries (node : Node) : List Declaration :=
  (node.members.filter fun spec => spec.kind == "type_spec" || spec.kind == "type_alias").filterMap
    (typeOf? source node)

/-- The names of one specification of constants or variables. -/
def specEntries (keyword : String) (spec : Node) : List Declaration :=
  let names := (spec.members.filter (·.kind == "identifier")).map (·.text source)
  let suffix := match spec.field? "type" with
    | some type => " " ++ type.text source
    | none => ""
  (names.filter (· != "_")).map fun name =>
    { kind := .const, name, signature := keyword ++ " " ++ name ++ suffix
      line := spec.line source }

/-- The constants or variables of a declaration. -/
def valueEntries (keyword : String) (node : Node) : List Declaration :=
  (node.members.filter fun spec => spec.kind == "const_spec" || spec.kind == "var_spec").flatMap
    (specEntries source keyword)

/-- The declarations at a node. -/
def entriesAt (node : Node) : List Declaration :=
  if node.kind = "function_declaration" ∨ node.kind = "method_declaration" then
    [functionEntry source node]
  else if node.kind = "type_declaration" then typeEntries source node
  else if node.kind = "const_declaration" then valueEntries source "const" node
  else if node.kind = "var_declaration" then valueEntries source "var" node
  else []

/-- The outline of a source. -/
def outline (root : Node) : List Declaration :=
  root.members.flatMap (entriesAt source)

end Dossier.Outline.Go

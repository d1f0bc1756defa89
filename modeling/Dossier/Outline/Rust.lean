import Dossier.Outline.Declaration

/-!
# Rust

Items at the top level and in inline modules. The methods of an implementation block are entries
of their own; a trait shows its members.
-/

namespace Dossier.Outline.Rust

open Text (strip stripEnd)

variable (source : Bytes)

/-- Items that are shown whole. -/
def wholeKinds : List (String × Kind) :=
  [("struct_item", .cls), ("union_item", .cls), ("enum_item", .enum), ("type_item", .type)]

/-- A function. -/
def functionEntry (node : Node) : Declaration :=
  { kind := .function, name := nameOf source node
    signature := header source node (node.field? "body"), line := node.line source }

/-- A node in the body of a trait, as a text to show. -/
def traitMember? (node : Node) : Option String :=
  if node.kind = "function_item" then some (header source node (node.field? "body"))
  else if ["function_signature_item", "associated_type", "const_item"].contains node.kind then
    some (withoutTerminator (node.text source))
  else none

/-- The text of a trait. -/
def traitText (node : Node) : String :=
  match node.field? "body" with
  | none => strip (node.text source)
  | some body =>
    container (openHeader source node (some body)) (body.members.filterMap (traitMember? source))

/-- The text of a constant up to its type, or else up to its value. -/
def constText (node : Node) : String :=
  match node.field? "type" with
  | some type => strip (source.slice node.start type.stop)
  | none => match node.field? "value" with
    | some value =>
      strip (Text.trimEnd (· == '=') (strip (source.slice node.start value.start)))
    | none => withoutTerminator (node.text source)

/-- The declarations at a node. -/
def entriesAt (node : Node) : List Declaration :=
  match wholeKinds.lookup node.kind with
  | some kind =>
    [{ kind, name := nameOf source node, signature := strip (node.text source)
       line := node.line source, fieldsOnly := kind == .cls }]
  | none =>
    if node.kind = "function_item" then [functionEntry source node]
    else if node.kind = "trait_item" then
      [{ kind := .interface, name := nameOf source node, signature := traitText source node
         line := node.line source }]
    else if node.kind = "impl_item" then
      match node.field? "body" with
      | some body =>
        (body.members.filter (·.kind == "function_item")).map (functionEntry source)
      | none => []
    else if node.kind = "const_item" ∨ node.kind = "static_item" then
      [{ kind := .const, name := nameOf source node, signature := constText source node
         line := node.line source }]
    else []

/-- Modules with a body are entered. -/
def way (node : Node) : Node.Way :=
  if node.kind = "mod_item" then
    match node.fieldIndex? "body" with
    | some i => .membersOf i
    | none => .stop
  else .stop

/-- The outline of a source. -/
def outline (root : Node) : List Declaration :=
  (Node.reachMembers way root.children).flatMap (entriesAt source)

end Dossier.Outline.Rust

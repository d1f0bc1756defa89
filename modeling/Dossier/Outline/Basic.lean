import Dossier.Source.Language

/-!
# Outlines

The outline of a file is the list of its declarations without their bodies.
-/

namespace Dossier.Outline

/-- The kinds of declarations. -/
inductive Kind where
  | function
  | cls
  | interface
  | type
  | enum
  | const
  /-- A kind that no outline here has, under its name. -/
  | other (name : String)
deriving DecidableEq, Repr, Inhabited

namespace Kind

/-- The name of a kind. -/
def name : Kind → String
  | .function => "function"
  | .cls => "class"
  | .interface => "interface"
  | .type => "type"
  | .enum => "enum"
  | .const => "const"
  | .other name => name

/-- The kinds that outlines have. -/
def all : List Kind := [.function, .cls, .interface, .type, .enum, .const]

/-- The kind with a name. -/
def ofName (s : String) : Kind :=
  (all.find? (·.name == s)).getD (.other s)

/-- Kinds whose whole text declares and does nothing. -/
def isDeclarative : Kind → Bool
  | .interface | .type | .enum => true
  | _ => false

end Kind

/-- A declaration. -/
structure Declaration where
  kind : Kind
  name : String
  /-- The text of the declaration up to its body. -/
  signature : String
  exported : Bool := true
  line : Nat := 1
  /-- For a class: it has members and all of them are fields. -/
  fieldsOnly : Bool := false
deriving DecidableEq, Repr, Inhabited

/-- Whether the signature may be folded into one line. -/
def Declaration.collapsible (e : Declaration) : Bool :=
  e.kind.isDeclarative || (e.kind == .cls && e.fieldsOnly)

/-- The declarations of one file. -/
structure File where
  path : String
  /-- The name of the language, which need not be one that is outlined here. -/
  language : String
  entries : List Declaration := []
  /-- The declarations were guessed line by line. -/
  heuristic : Bool := false
deriving DecidableEq, Repr, Inhabited

/-- The declarations that other files can see. -/
def File.exportedEntries (f : File) : List Declaration :=
  f.entries.filter (·.exported)

end Dossier.Outline

import Dossier.Outline.Basic
import Dossier.Source.Reach
import Dossier.Text.Pattern

/-!
# Declarations

What the outlines of all languages share: the name of a declaration, its header, and the text of a
declaration that shows its members.
-/

namespace Dossier.Outline

open Text (strip stripEnd)

/-! ## Names -/

/-- The name of a declaration that has none. -/
def anonymous : String := "<anonymous>"

/-- Kinds of nodes whose text is a name. -/
def identifierKinds : List String :=
  ["identifier", "name", "type_identifier", "field_identifier", "property_identifier", "constant",
    "method_name", "scoped_identifier"]

/-- An identifier, remembered as group 1. -/
def identifierPattern : Text.Pattern :=
  .group 1 (.seq (.one Text.isIdentStart) (.run 0 Text.isIdentRest))

/-- A declaring word and the identifier after it. -/
def declaredPattern : Text.Pattern :=
  .all
    [.boundary,
      .anyOf ["function", "class", "interface", "type", "enum", "struct", "trait", "record",
        "module", "def", "func", "fn", "const", "let", "var", "static"],
      .blanks, .opt (.lit "*"), .gap, identifierPattern]

/-- The name found in a text: the identifier after a declaring word, else any identifier. -/
def nameInText (s : String) : String :=
  match (declaredPattern.search s).bind (·.group? 1) with
  | some name => String.ofList name
  | none => match (identifierPattern.search s).bind (·.group? 1) with
    | some name => String.ofList name
    | none => anonymous

/-- The text of the first named child that is an identifier, else the name found in the text. -/
def guessName (source : Bytes) (node : Node) : String :=
  match node.firstOf? identifierKinds with
  | some child => child.text source
  | none => nameInText (node.text source)

/-- The text of the node that fills a field, unless it is blank; else a guess. -/
def nameOf (source : Bytes) (node : Node) (field : String := "name") : String :=
  match node.field? field with
  | some child =>
    let text := strip (child.text source)
    if text = "" then guessName source node else text
  | none => guessName source node

/-! ## Headers -/

/-- The text from the start of a node up to its body, or all of it, aligned to the left. -/
def header (source : Bytes) (node : Node) (body? : Option Node) : String :=
  let text := match body? with
    | some body => source.slice node.start body.start
    | none => node.text source
  Text.dedentTail (node.column source) (strip text)

/-- A text that ends with an opening brace. -/
def opened (s : String) : String :=
  if Text.endsWith s "\x7b" then s else s ++ " \x7b"

/-- The header of a node, ending with an opening brace. -/
def openHeader (source : Bytes) (node : Node) (body? : Option Node) : String :=
  opened (header source node body?)

/-- A text without one terminator at its end and without blanks around what is left. -/
def withoutTerminator (s : String) (terminator : String := ";") : String :=
  let s := strip s
  if terminator = "" then ""
  else if Text.endsWith s terminator then strip (Text.dropEnd terminator.length s) else s

/-! ## Members -/

/-- A member shown in the declaration of a class. -/
inductive Member where
  | method (text : String)
  | field (text : String)
deriving DecidableEq, Repr

namespace Member

/-- The text of a member. -/
def text : Member → String
  | .method s | .field s => s

/-- Whether a member has behaviour. -/
def isMethod : Member → Bool
  | .method _ => true
  | .field _ => false

end Member

/-- Whether there are members and all of them are fields. -/
def fieldsOnly (members : List Member) : Bool :=
  !members.isEmpty && members.all fun m => !m.isMethod

/-- A header, every line of every member indented, and a closing token. -/
def container (header : String) (members : List String) (close : String := "\x7d") : String :=
  if members.isEmpty then
    if close = "\x7d" then header ++ " \x7d" else header ++ "\n" ++ close
  else
    header ++ "\n" ++ Text.joinLines (members.map (Text.indentLines "  ")) ++ "\n" ++ close

end Dossier.Outline

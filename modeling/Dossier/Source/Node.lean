import Dossier.Text.Lines
import Dossier.Text.Utf8

/-!
# Syntax trees

A node has a kind, a span of bytes in its source and children. Some children carry the name of the
field they fill in their parent; named children are those that are more than punctuation. Spans
are not trusted: a slice takes what the source has.
-/

namespace Dossier

/-- A node of a syntax tree. -/
structure Node where
  kind : String
  named : Bool
  field : Option String
  start : Nat
  stop : Nat
  children : List Node
deriving Inhabited

/-- The bytes of a source. -/
abbrev Bytes := List UInt8

namespace Bytes

/-- The bytes of a text. -/
def ofText (s : String) : Bytes :=
  s.toUTF8.data.toList

/-- The bytes from `start` up to `stop`, as far as there are any. -/
def between (bytes : Bytes) (start stop : Nat) : Bytes :=
  (bytes.take stop).drop start

/-- The text from `start` up to `stop`. -/
def slice (bytes : Bytes) (start stop : Nat) : String :=
  Text.Utf8.decodeLossy (bytes.between start stop)

/-- An offset that counts from the end if it is negative. -/
def offset (bytes : Bytes) (n : Int) : Nat :=
  if n < 0 then (bytes.length + n).toNat else n.toNat

/-- The line of a byte, the first line being 1. -/
def lineAt (bytes : Bytes) (start : Nat) : Nat :=
  (bytes.take start).count 10 + 1

/-- How many offsets lie between an offset and the line feed before it. The last line goes on
behind the end of the bytes. -/
def columnAt (bytes : Bytes) (start : Nat) : Nat :=
  ((bytes.take start).reverse.takeWhile (· != 10)).length + (start - bytes.length)

end Bytes

namespace Node

/-- The named children. -/
def members (node : Node) : List Node :=
  node.children.filter (·.named)

/-- The first child that fills a field. -/
def field? (node : Node) (name : String) : Option Node :=
  node.children.find? (·.field == some name)

/-- The first named child of one of the kinds. -/
def firstOf? (node : Node) (kinds : List String) : Option Node :=
  node.members.find? fun child => kinds.contains child.kind

/-- Whether some child, named or not, is of a kind. -/
def hasChild (node : Node) (kind : String) : Bool :=
  node.children.any (·.kind == kind)

/-- The text of a node. -/
def text (node : Node) (source : Bytes) : String :=
  source.slice node.start node.stop

/-- The line on which a node starts. -/
def line (node : Node) (source : Bytes) : Nat :=
  source.lineAt node.start

/-- The column at which a node starts, in bytes. -/
def column (node : Node) (source : Bytes) : Nat :=
  source.columnAt node.start

/-- A short description: the kind and the line. -/
def summary (node : Node) (source : Bytes) : String :=
  "SyntaxNode(" ++ node.kind ++ "@" ++ Text.ofNat (node.line source) ++ ")"

theorem mem_children_of_field? {node child : Node} {name : String}
    (h : node.field? name = some child) : child ∈ node.children :=
  List.mem_of_find?_eq_some h

theorem mem_members_of_firstOf? {node child : Node} {kinds : List String}
    (h : node.firstOf? kinds = some child) : child ∈ node.members :=
  List.mem_of_find?_eq_some h

theorem mem_children_of_mem_members {node child : Node} (h : child ∈ node.members) :
    child ∈ node.children :=
  (List.mem_filter.mp h).1

end Node

end Dossier

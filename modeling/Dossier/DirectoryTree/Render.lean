import Dossier.DirectoryTree.Basic

/-!
# Showing directory trees

One line a node, with rules that connect a node to its siblings and to its parent.
-/

namespace Dossier

namespace TreeNode

/-- What the line of a node says. -/
def label : TreeNode → String
  | .file name _ remark => match remark with
    | some text => if text = "" then name else name ++ " # " ++ text
    | none => name
  | .directory name _ _ => name ++ "/"
  | .collapsed name _ files dirs =>
    name ++ "/ (" ++ Text.ofInt files ++ " files, " ++ Text.ofInt dirs ++ " dirs)"

/-- The rule in front of a node. -/
def connector (last : Bool) : String :=
  if last then "└── " else "├── "

/-- The rule in front of what is below a node. -/
def continuation (last : Bool) : String :=
  if last then "    " else "│   "

mutual

/-- The lines of a node and of all below it. -/
def lines (pad : String) (last : Bool) : TreeNode → List String
  | .directory name path children =>
    (pad ++ connector last ++ label (.directory name path [])) ::
      forestLines (pad ++ continuation last) children
  | .file name path remark => [pad ++ connector last ++ label (.file name path remark)]
  | .collapsed name path files dirs =>
    [pad ++ connector last ++ label (.collapsed name path files dirs)]

/-- The lines of siblings and of all below them. -/
def forestLines (pad : String) : List TreeNode → List String
  | [] => []
  | node :: rest => lines pad rest.isEmpty node ++ forestLines pad rest

end

/-- Siblings and all below them, one line a node. -/
def render (pad : String) (nodes : List TreeNode) : String :=
  Text.joinLines (forestLines pad nodes)

end TreeNode

namespace DirectoryTree

/-- A tree below the line of its root. -/
def renderBelow (title : String) (nodes : List TreeNode) : String :=
  let body := TreeNode.render "" nodes
  if body = "" then title ++ "/" else title ++ "/\n" ++ body

/-- What the line of a root says. -/
def titleOf (fs : FileSystem) (root : Path) : Except Failure String := do
  let p ← fs.resolve root
  return if p.name = "" then p.text else p.name

/-- The greatest depth, from the given one down to 1, whose text fits; 1 if none does. -/
def deepest (fits : Nat → Bool) : Nat → Nat
  | 0 | 1 => 1
  | depth + 2 => if fits (depth + 2) then depth + 2 else deepest fits (depth + 1)

/-- The deepest tree whose estimate is within a budget, and the warnings of that tree. -/
def fitting (fs : FileSystem) (style : Style) (paths : List String) (root : Path) (budget : Int) :
    Except Failure (String × List String) := do
  let title ← titleOf fs root
  let shown (depth : Nat) := renderBelow title (build fs style paths root depth).1
  let depth := deepest (fun depth => decide ((Budget.estimate (shown depth) : Int) ≤ budget))
    style.maxDepth.toNat
  return (shown depth, (build fs style paths root depth).2)

end DirectoryTree

end Dossier

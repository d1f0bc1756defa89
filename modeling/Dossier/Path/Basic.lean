import Dossier.Text.Basic

/-!
# Paths

A path is an optional root and a list of components. Reading a path drops empty components and
single dots and keeps double dots, because what a double dot means depends on links. Exactly two
slashes at the start are a root of their own.
-/

namespace Dossier

/-- A path: its root (empty for a relative path) and its components. -/
structure Path where
  root : String := ""
  parts : List String := []
deriving DecidableEq, Repr, Inhabited

namespace Path

/-- The root a text begins with. -/
def rootOf (s : String) : String :=
  match s.toList with
  | '/' :: '/' :: '/' :: _ => "/"
  | '/' :: '/' :: _ => "//"
  | '/' :: _ => "/"
  | _ => ""

/-- Reads a path. -/
def ofText (s : String) : Path :=
  ⟨rootOf s, (Text.split '/' s).filter fun part => part != "" && part != "."⟩

/-- Writes a path; the path with nothing in it is a dot. -/
def text (p : Path) : String :=
  if p.root = "" ∧ p.parts = [] then "."
  else p.root ++ String.intercalate "/" p.parts

/-- Whether a path starts at a root. -/
def isAbsolute (p : Path) : Bool :=
  p.root != ""

/-- The path `q` seen from `p`: an absolute path stays as it is. -/
def join (p q : Path) : Path :=
  if q.isAbsolute then q else { p with parts := p.parts ++ q.parts }

/-- One component below `p`. -/
def child (p : Path) (name : String) : Path :=
  { p with parts := p.parts ++ [name] }

/-- The last component, or nothing. -/
def name (p : Path) : String :=
  p.parts.getLastD ""

/-- The components below `base`, if `p` begins with `base`. -/
def below? (p base : Path) : Option (List String) :=
  if p.root = base.root ∧ base.parts.isPrefixOf p.parts then
    some (p.parts.drop base.parts.length)
  else none

/-- Whether `p` is `base` or lies below it. -/
def isWithin (p base : Path) : Bool :=
  (p.below? base).isSome

/-- The components of a relative path as a text with slashes. -/
def relativeText (parts : List String) : String :=
  text ⟨"", parts⟩

/-! ## File names -/

/-- The position of the dot that separates the stem of a file name from its suffix, counted from
the end. A dot at either end of the name does not count. -/
def suffixLength (name : String) : Nat :=
  let cs := name.toList.reverse
  let n := (cs.takeWhile (· != '.')).length
  if n = 0 ∨ cs.length ≤ n + 1 then 0 else n + 1

/-- The suffix of a file name with its dot, or nothing. -/
def suffixOf (name : String) : String :=
  Text.drop (name.length - suffixLength name) name

/-- A file name without its suffix. -/
def stemOf (name : String) : String :=
  Text.dropEnd (suffixLength name) name

/-- The suffix of the last component. -/
def suffix (p : Path) : String :=
  suffixOf p.name

/-- The last component without its suffix. -/
def stem (p : Path) : String :=
  stemOf p.name

/-- The last component of the path that a text stands for. -/
def nameOf (s : String) : String :=
  (ofText s).name

@[simp] theorem join_relative (p : Path) (parts : List String) :
    p.join ⟨"", parts⟩ = ⟨p.root, p.parts ++ parts⟩ := by
  simp [join, isAbsolute]

/-! ## Without links -/

/-- Lets every double dot cancel the component before it. -/
def cancelDots (parts : List String) : List String :=
  parts.foldl (fun done part => if part = ".." then done.dropLast else done ++ [part]) []

end Path

end Dossier

import Dossier.Failure

/-!
# Canonical paths

The canonical form of an absolute path has no links and no dots. It exists also when the path
leads nowhere: components that name nothing are kept, and so are those that may not be looked at. A
circle of links has none, and neither has a chain of links that is too long to be followed from end to
end.
-/

namespace Dossier.FileSystem

/-- Why a path has no canonical form. -/
inductive Obstacle where
  /-- A circle of links, with what is left of the path. -/
  | circle (left : List String)
  /-- Links lead to links too often. -/
  | depth
deriving DecidableEq, Repr

/-- Adds what is left of a path behind an obstacle. -/
def Obstacle.before (rest : List String) : Obstacle → Obstacle
  | .circle left => .circle (left ++ rest)
  | .depth => .depth

/-- How many links may be followed one inside another. A single look-up follows far fewer, but here
the place that a link leads to is found out link by link. -/
def maxNestedLinks : Nat := 980

/-- Follows the links along `rest`, from the canonical location `here`. The links that are being
followed are `busy`; meeting one of them again is a circle. -/
def resolveFrom (fs : FileSystem) (depth : Nat) (busy : List Location) (here : Location)
    (rest : List String) : Except Obstacle Location :=
  match rest with
  | [] => .ok here
  | name :: rest =>
    if name = "." then resolveFrom fs depth busy here rest
    else if name = ".." then resolveFrom fs depth busy here.dropLast rest
    else
      let next := here ++ [name]
      match fs.at? next with
      | some (.link target) =>
        if busy.contains next then .error (.circle (next ++ rest))
        else if isOverlong ⟨"/", next⟩ || fs.forbidden .stay ⟨"/", next⟩ then
          resolveFrom fs depth busy next rest
        else match depth with
          | 0 => .error .depth
          | depth + 1 =>
            let start := if Text.startsWith target "/" then [] else here
            match resolveFrom fs depth (next :: busy) start (targetParts target) with
            | .error obstacle => .error (obstacle.before rest)
            | .ok there => resolveFrom fs (depth + 1) busy there rest
      | _ => resolveFrom fs depth busy next rest
termination_by (depth, rest.length)

/-- The canonical form of an absolute path. -/
def resolve (fs : FileSystem) (p : Path) : Except Failure Path :=
  if p.parts.any (·.toList.contains '\x00') then .error .nulInPath
  else match fs.resolveFrom maxNestedLinks [] [] p.parts with
    | .ok location => .ok ⟨"/", location⟩
    | .error .depth => .error (.tooDeep .any)
    | .error (.circle left) =>
      let q : Path := ⟨"/", Path.cancelDots (left.filter (· != "."))⟩
      match fs.look q with
      | .error .loop => .error (.linkLoop q)
      | _ => .ok q

end Dossier.FileSystem

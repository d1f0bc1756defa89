import Dossier.Text.Wildcard

/-!
# Path globs

Patterns for slash separated paths. A star stands for characters within one component, two stars
for characters of any number of components on one line, two stars and a slash for any number of
whole components, a question mark for one character within a component. A final line feed of the
path may stay unmatched.
-/

namespace Dossier.Glob

open Text (skipThen)

/-- The parts of a pattern. -/
inductive Token where
  | lit (c : Char)
  | one
  /-- Characters within one component. -/
  | within
  /-- Characters on one line. -/
  | across
  /-- Whole components, each with its slash. -/
  | components
deriving DecidableEq, Repr

/-- The parts of a path pattern. -/
def tokens : List Char → List Token
  | '*' :: '*' :: '/' :: cs => .components :: tokens cs
  | '*' :: '*' :: cs => .across :: tokens cs
  | '*' :: cs => .within :: tokens cs
  | '?' :: cs => .one :: tokens cs
  | c :: cs => .lit c :: tokens cs
  | [] => []

/-- The parts of a pattern in which only the star is special, and crosses components. -/
def starTokens (cs : List Char) : List Token :=
  cs.map fun c => if c = '*' then .across else .lit c

/-- Whether a text is used up, but for one line feed. -/
def atEnd : List Char → Bool
  | [] => true
  | ['\n'] => true
  | _ => false

/-- Whether `k` accepts what follows the slash at the start of a text. -/
def afterSlash (k : List Char → Bool) : List Char → Bool
  | '/' :: cs => k cs
  | _ => false

/-- Whether the parts of a pattern stand for a path. -/
def matchTokens : List Token → List Char → Bool
  | [], cs => atEnd cs
  | .lit c :: ts, d :: cs => c == d && matchTokens ts cs
  | .one :: ts, d :: cs => d != '/' && matchTokens ts cs
  | .within :: ts, cs => skipThen (· != '/') (matchTokens ts) cs
  | .across :: ts, cs => skipThen (· != '\n') (matchTokens ts) cs
  | .components :: ts, cs =>
    matchTokens ts cs || skipThen (· != '\n') (afterSlash (matchTokens ts)) cs
  | _, [] => false

/-- Whether a pattern stands for a path. -/
def matches? (pattern path : String) : Bool :=
  matchTokens (tokens pattern.toList) path.toList

/-- Whether one of the patterns stands for a path. -/
def matchesAny (patterns : List String) (path : String) : Bool :=
  patterns.any (matches? · path)

/-- The paths that are not excluded and, if there is a list to include, are on it. -/
def select (include? : Option (List String)) (exclude : List String) (paths : List String) :
    List String :=
  paths.filter fun path =>
    !matchesAny exclude path && include?.all fun patterns => matchesAny patterns path

end Dossier.Glob

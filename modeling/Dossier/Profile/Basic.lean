/-!
# Project profiles

What is known about a project as a whole.
-/

namespace Dossier

/-- A member of a project that holds several. -/
structure Workspace where
  path : String
  name : String
  runtime : Option String := none
  description : Option String := none
deriving DecidableEq, Repr, Inhabited

/-- The members of a project and the tool that manages them. -/
structure Monorepo where
  tool : String
  workspaces : List Workspace := []
deriving DecidableEq, Repr, Inhabited

/-- What is known about a project. -/
structure Profile where
  name : String
  description : Option String := none
  runtime : String := "unknown"
  frameworks : List String := []
  tooling : List String := []
  monorepo : Option Monorepo := none
deriving DecidableEq, Repr, Inhabited

end Dossier

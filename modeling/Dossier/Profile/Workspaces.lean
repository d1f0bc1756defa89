import Dossier.Profile.Basic
import Dossier.Profile.Manifest

/-!
# Workspaces

A project with several members lists them by path patterns. Every directory that a pattern stands
for is a member once, in the order of the patterns; what has been installed does not count.
-/

namespace Dossier.Profile

open Data (Datum)

/-- Files that give a management tool away. -/
def managerMarkers : List (String × List String) :=
  [("pnpm", ["pnpm-workspace.yaml"]), ("lerna", ["lerna.json"]), ("nx", ["nx.json"]),
    ("turborepo", ["turbo.json"]), ("rush", ["rush.json"]), ("go-workspace", ["go.work"])]

/-- A line that uses a member of a Go workspace, its path as group 1. -/
def usePattern : Text.Pattern :=
  .all [.gap, .opt (.all [.lit "use", .blanks]),
    .group 1 (.all [.lit "./",
      .run 1 fun c => !(Text.isBlank c || c == '(' || c == ')')])]

/-- How a project lists its members. -/
structure Membership where
  tool : Option String := none
  patterns : List String := []
deriving DecidableEq, Repr, Inhabited

/-- The members that a `package.json` lists. -/
def packageMembers? (package : Table) : Option (List Datum) :=
  let listed := match Datum.lookup "workspaces" package with
    | some (.map entries) => Datum.lookup "packages" entries
    | other => other
  match listed with
  | some (.list items) => some items
  | _ => none

/-- The members that a `Cargo.toml` lists. -/
def crateMembers? (cargo : Table) : Option (List Datum) :=
  match (section? cargo "workspace").bind (Datum.lookup "members") with
  | some (.list items) => some items
  | _ => none

/-- The installer of the members that a `package.json` lists, if it has to be told. -/
def installerOf (fs : FileSystem) (dir : Path) (asked : Bool) : Except Failure (Option String) := do
  if asked then return if ← fs.leadsAnywhere (dir.child "bun.lockb") then some "bun" else some "npm"
  else return none

/-- How the project in a directory lists its members. -/
def membershipOf (yaml : Data.Reader) (fs : FileSystem) (dir : Path) :
    Except Failure Membership := do
  let package ← readJson fs (dir.child "package.json")
  let manager ← firstMarked fs dir managerMarkers
  let fromPackage := packageMembers? package
  let installer ← installerOf fs dir (fromPackage.isSome && manager.isNone)
  let pnpm ← Datum.elementsOrNone
    (Datum.lookup "packages" (← readTable fs yaml (dir.child "pnpm-workspace.yaml")))
  let lerna ← Datum.elementsOrNone
    (Datum.lookup "packages" (← readJson fs (dir.child "lerna.json")))
  let crates := crateMembers? (← readToml fs (dir.child "Cargo.toml"))
  let used := usePattern.groupsOnLines 1 (← readPlain fs (dir.child "go.work"))
  return {
    tool := manager <|> installer <|> crates.map fun _ => "cargo"
    patterns := texts (fromPackage.getD [] ++ pnpm ++ lerna ++ crates.getD []) ++ used }

/-- Drops `./` at the start as often as it stands there. -/
def dropHere : List Char → List Char
  | '.' :: '/' :: cs => dropHere cs
  | cs => cs

/-- A pattern without blanks and slashes around it; none if it excludes or is empty. -/
def cleanPattern? (pattern : String) : Option String :=
  if Text.startsWith pattern "!" then none
  else
    let cleaned := String.ofList (dropHere (Text.trimEnd (· == '/') (Text.strip pattern)).toList)
    if cleaned = "" then none else some cleaned

/-- Whether a path that a pattern stands for is a member. -/
def isMember (fs : FileSystem) (p : Path) : Except Failure Bool := do
  return (← fs.reaches true p) && !p.parts.contains "node_modules"

/-- What is known about a member. -/
def describe (fs : FileSystem) (dir : Path) (shown : String) : Except Failure Workspace := do
  let identity ← identify fs dir
  let runtime ← runtimeOf fs dir
  return {
    path := shown
    name := identity.properName?.getD dir.name
    runtime := if runtime = "unknown" then none else some runtime
    description := identity.description }

/-- The path of a member as it is shown: from the root on. -/
def shownPath (root p : Path) : String :=
  Path.relativeText ((p.below? root).getD [])

/-- Adds a path to the members found so far, if it is one and not among them yet. -/
def addMember (fs : FileSystem) (root : Path) (found : List Workspace) (p : Path) :
    Except Failure (List Workspace) := do
  if !(← isMember fs p) || found.any (·.path == shownPath root p) then return found
  else return found ++ [← describe fs p (shownPath root p)]

/-- Adds the members that a pattern stands for to those found so far. -/
def addPattern (fs : FileSystem) (root : Path) (found : List Workspace) (pattern : String) :
    Except Failure (List Workspace) :=
  match cleanPattern? pattern with
  | some cleaned => do (← fs.expand root cleaned).foldlM (addMember fs root) found
  | none => .ok found

/-- The members of the project in a directory; none if it lists none. -/
def monorepoOf (yaml : Data.Reader) (fs : FileSystem) (root : Path) :
    Except Failure (Option Monorepo) := do
  let membership ← membershipOf yaml fs root
  match ← membership.patterns.foldlM (addPattern fs root) [] with
  | [] => return none
  | workspaces => return some ⟨membership.tool.getD "workspace", workspaces⟩

end Dossier.Profile

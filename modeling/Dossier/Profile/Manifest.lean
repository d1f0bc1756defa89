import Dossier.Data.Json
import Dossier.Data.Toml
import Dossier.FileSystem.Expand
import Dossier.Text.Pattern

/-!
# Manifests

The files in which a project describes itself, and what they say about its identity and its runtime.
A manifest that cannot be read counts as empty, unless a value in it does not exist.
-/

namespace Dossier

/-- The entries of a manifest. -/
abbrev Table := List (Data.Datum × Data.Datum)

namespace Profile

open Data (Datum Fault)

/-! ## Reading -/

/-- The entries of a value that has been read: a mapping has some, everything else has none. -/
def tableOf : Except Fault Datum → Except Failure Table
  | .ok (.map entries) => .ok entries
  | .error (.fatal f _) => .error f
  | _ => .ok []

/-- The entries of a file in one of the formats that are read as text. -/
def readTable (fs : FileSystem) (parse : Data.Reader) (p : Path) : Except Failure Table := do
  if !(← fs.leadsToFile p) then return []
  match fs.readText p with
  | .ok s => tableOf (parse s)
  | .error _ => return []

/-- The entries of a JSON file. -/
def readJson (fs : FileSystem) (p : Path) : Except Failure Table :=
  readTable fs Data.Json.parse p

/-- The entries of a TOML file, which has to be UTF-8. -/
def readToml (fs : FileSystem) (p : Path) : Except Failure Table := do
  if !(← fs.leadsToFile p) then return []
  match fs.readBytes p with
  | .ok bytes => match Text.Utf8.decode bytes with
    | .ok s => tableOf (Data.Toml.parse s)
    | .error e => throw (.undecodable e)
  | .error _ => return []

/-- The text of a file, empty if it has none. -/
def readPlain (fs : FileSystem) (p : Path) : Except Failure String := do
  return if ← fs.leadsToFile p then (fs.readText p).toOption.getD "" else ""

/-- The entries of a mapping inside a manifest. -/
def section? (table : Table) (key : String) : Option Table :=
  match Datum.lookup key table with
  | some (.map entries) => some entries
  | _ => none

/-- The keys that are texts. -/
def textKeys (table : Table) : List String :=
  table.filterMap fun (key, _) => key.text?

/-- The items that are texts. -/
def texts (items : List Datum) : List String :=
  items.filterMap Datum.text?

/-! ## Identity -/

/-- How a project calls and describes itself. -/
structure Identity where
  name : Option String := none
  description : Option String := none
deriving DecidableEq, Repr, Inhabited

/-- A text that is not blank, without the blanks around it. -/
def filled? (d? : Option Datum) : Option String :=
  (d?.bind Datum.text?).bind fun s => if Text.allBlank s then none else some (Text.strip s)

/-- The identity that the entries of a manifest give. -/
def identityIn (table : Table) : Identity :=
  ⟨filled? (Datum.lookup "name" table), filled? (Datum.lookup "description" table)⟩

/-- The identity that the entries give if something stands under the name. -/
def named? (table : Table) : Option Identity :=
  match Datum.lookup "name" table with
  | some d => if d.isEmpty then none else some (identityIn table)
  | none => none

/-- The line that names a Go module, the name as group 1. -/
def modulePattern : Text.Pattern :=
  .all [.lit "module", .blanks, .group 1 (.run 1 fun c => !Text.isBlank c)]

/-- The identity that a Go module file gives: the last part of the name of the module. -/
def moduleIdentity (content : String) : Identity :=
  match modulePattern.groupsOnLines 1 content with
  | path :: _ => ⟨some (Text.afterLast '/' path), none⟩
  | [] => {}

/-- The identity of the project in a directory, by the first manifest that gives one. -/
def identify (fs : FileSystem) (dir : Path) : Except Failure Identity := do
  let package ← readJson fs (dir.child "package.json")
  if !package.isEmpty then return identityIn package
  let pyproject ← readToml fs (dir.child "pyproject.toml")
  if let some identity := named? ((section? pyproject "project").getD []) then return identity
  let poetry := (section? pyproject "tool").bind (section? · "poetry")
  if let some identity := named? (poetry.getD []) then return identity
  let cargo ← readToml fs (dir.child "Cargo.toml")
  if let some identity := named? ((section? cargo "package").getD []) then return identity
  let composer ← readJson fs (dir.child "composer.json")
  if let some identity := named? composer then return identity
  return moduleIdentity (← readPlain fs (dir.child "go.mod"))

/-- The name that an identity gives, if it is not empty. -/
def Identity.properName? (identity : Identity) : Option String :=
  identity.name.filter (· != "")

/-! ## Runtime -/

/-- Runtimes and the files that give them away. -/
def runtimeMarkers : List (String × List String) :=
  [("bun", ["bun.lockb", "bun.lock", "bunfig.toml"]),
    ("deno", ["deno.json", "deno.jsonc"]),
    ("node", ["package.json"]),
    ("rust", ["Cargo.toml"]),
    ("python", ["pyproject.toml", "setup.py", "setup.cfg", "requirements.txt", "Pipfile"]),
    ("go", ["go.mod"]),
    ("java", ["pom.xml", "build.gradle", "build.gradle.kts"]),
    ("ruby", ["Gemfile"]),
    ("php", ["composer.json"])]

/-- Whether a directory holds a file with one of the suffixes of a .NET project. -/
def holdsSolution (fs : FileSystem) (dir : Path) : Bool :=
  let names : List String := match fs.scan dir with
    | .ok entries => entries.map (·.1)
    | .error _ => []
  names.any fun name => Text.endsWith name ".csproj" || Text.endsWith name ".sln"

/-- The first name in a table that has one of its markers in a directory. -/
def firstMarked (fs : FileSystem) (dir : Path) (table : List (String × List String)) :
    Except Failure (Option String) := do
  let found ← table.findM? fun (_, markers) =>
    markers.anyM fun marker => fs.leadsAnywhere (dir.child marker)
  return found.map (·.1)

/-- The runtime of the project in a directory. -/
def runtimeOf (fs : FileSystem) (dir : Path) : Except Failure String := do
  match ← firstMarked fs dir runtimeMarkers with
  | some runtime => return runtime
  | none => return if holdsSolution fs dir then "dotnet" else "unknown"

end Profile

end Dossier

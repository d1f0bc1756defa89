import Dossier.FileSystem.Probe
import Dossier.Path.Glob
import Dossier.Progress
import Dossier.Source.Language
import Dossier.Text.Wildcard

/-!
# Inventory

The files of a project, pipes, sockets and devices among them. Names on the list of ignored patterns
are left out with all that is below them, links are not followed, and a directory that cannot be listed
counts as empty and is reported. No directory more than `maxDepth` levels below the root is entered.
Of what is met it is asked whether it is a link, and the walk ends if that is not answered.
-/

namespace Dossier

/-- Names that are ignored in every project. -/
def defaultIgnored : List String :=
  [".git", ".hg", ".svn", "node_modules", "dist", "build", "out", ".next", ".nuxt", ".output",
    ".turbo", ".cache", ".parcel-cache", ".vercel", "coverage", "__pycache__", ".pytest_cache",
    ".mypy_cache", ".ruff_cache", ".tox", ".venv", "venv", "target", ".gradle", "obj", "vendor",
    ".idea", ".DS_Store", "*.pyc", "*.pyo", "*.egg-info", "*.tsbuildinfo", ".env", ".env.*",
    "package-lock.json", "yarn.lock", "pnpm-lock.yaml", "bun.lockb", "Cargo.lock", "poetry.lock",
    "composer.lock", "Gemfile.lock"]

/-! ## The root -/

/-- Makes sure that the root of a project is a directory that can be listed. -/
def FileSystem.ensureReadable (fs : FileSystem) (root : Path) : Except Failure Unit :=
  match fs.probe root with
  | .error e => .error (.refused e root)
  | .ok none => .error (.rootMissing root)
  | .ok (some (.directory _)) => match fs.scan root with
    | .ok _ => .ok ()
    | .error e => .error (.rootUnreadable root e)
  | .ok (some _) => .error (.rootNotDirectory root)

/-! ## Entries -/

namespace Entry

/-- Entries in the order of their names. -/
def sortedByName {α : Type} (xs : List (String × α)) : List (String × α) :=
  xs.mergeSort fun a b => Text.notAfter a.1 b.1

/-- The real directories among some entries that are not hidden, in the order of their names. -/
def subdirectories (hidden : String → Bool) (entries : List (String × Entry)) :
    List (String × List (String × Entry)) :=
  sortedByName (entries.filterMap fun (name, e) => match e with
    | .directory inner => if hidden name then none else some (name, inner)
    | _ => none)

end Entry

/-- A warning that a directory counts as empty. -/
def unreadableDirectory (shown : String) (e : FileError) : String :=
  "Unreadable directory " ++ shown ++ ": " ++ e.reason

namespace Inventory

open Entry (subdirectories)

/-! ## Noise -/

/-- Suffixes of files that are generated. -/
def noiseSuffixes : List String :=
  [".egg", ".min.js", ".min.css", ".pyd", ".so"]

/-- Whether a file is generated, by its name in any case. -/
def isNoise (path : String) : Bool :=
  let path := Text.lower path
  let name := Path.nameOf path
  noiseSuffixes.any (Text.endsWith path) || Text.endsWith name ".d.ts.map" || name == "next-env.d.ts"

/-! ## The walk -/

/-- How many levels below the root are entered. -/
def maxDepth : Nat := 20

/-- What a walk leaves out, and which directories refuse to be listed; places are given by the names
from the root down to them. -/
structure Scope where
  hidden : String → Bool
  denied : List String → Bool

/-- The files in a directory and up to `levels` levels below it. -/
def filesBelow (scope : Scope) : (levels : Nat) → (here : List String) →
    List (String × Entry) → List String
  | levels, here, entries =>
    let own := (entries.filter fun (name, e) => e.isData && !scope.hidden name).map
      fun (name, _) => Path.relativeText (here ++ [name])
    own.filter (!isNoise ·) ++ match levels with
      | 0 => []
      | levels + 1 => (subdirectories scope.hidden entries).flatMap fun (name, inner) =>
        if scope.denied (here ++ [name]) then []
        else filesBelow scope levels (here ++ [name]) inner

/-- The directories below another one that are reached and cannot be listed. -/
def deniedBelow (scope : Scope) : (levels : Nat) → (here : List String) →
    List (String × Entry) → List (List String)
  | 0, _, _ => []
  | levels + 1, here, entries =>
    (subdirectories scope.hidden entries).flatMap fun (name, inner) =>
      if scope.denied (here ++ [name]) then [here ++ [name]]
      else deniedBelow scope levels (here ++ [name]) inner

/-- How many links that do not lead to directories are passed by. -/
def linksBelow (scope : Scope) (leadsIn : List String → Bool) : (levels : Nat) →
    (here : List String) → List (String × Entry) → Nat
  | levels, here, entries =>
    (entries.countP fun (name, e) =>
      e.isLink && !scope.hidden name && !leadsIn (here ++ [name])) +
    match levels with
      | 0 => 0
      | levels + 1 => ((subdirectories scope.hidden entries).map fun (name, inner) =>
        if scope.denied (here ++ [name]) then 0
        else linksBelow scope leadsIn levels (here ++ [name]) inner).foldr (· + ·) 0

/-- The entries of a directory of which it is asked whether they are links: those that lead to
directories, unless it is the last one that is entered, and then the others. -/
def askedIn (scope : Scope) (leadsIn : List String → Bool) (last : Bool) (here : List String)
    (entries : List (String × Entry)) : List (List String) :=
  let shown := entries.filter fun (name, _) => !scope.hidden name
  let inward : String × Entry → Bool := fun (name, e) =>
    e.isDirectory || e.isLink && leadsIn (here ++ [name])
  ((if last then [] else shown.filter inward) ++ shown.filter (!inward ·)).map
    fun (name, _) => here ++ [name]

/-- The places in a directory and below it of which it is asked whether they are links. -/
def askedBelow (scope : Scope) (leadsIn : List String → Bool) : (levels : Nat) →
    (here : List String) → List (String × Entry) → List (List String)
  | levels, here, entries =>
    askedIn scope leadsIn (levels == 0) here entries ++ match levels with
      | 0 => []
      | levels + 1 => (subdirectories scope.hidden entries).flatMap fun (name, inner) =>
        if scope.denied (here ++ [name]) then []
        else askedBelow scope leadsIn levels (here ++ [name]) inner

end Inventory

/-- The files of a project and what was met on the way. -/
structure Inventory where
  files : List String
  warnings : List String
  skippedLinks : Nat
  /-- How many files were found. -/
  found : Nat
deriving DecidableEq, Repr

namespace Inventory

/-- The scope of a walk below a root. -/
def Scope.below (fs : FileSystem) (ignored : List String) (root : Path) : Scope where
  hidden := Text.isIgnored ignored
  denied := fun here => fs.denied.contains (root.join ⟨"", here⟩)

/-- The files of the project at a root. -/
def take (fs : FileSystem) (ignored : List String) (root : Path) : Except Failure Inventory := do
  fs.ensureReadable root
  let entries := (fs.scan root).toOption.getD []
  let scope := Scope.below fs ignored root
  let leadsIn := fun here => fs.isDirectory (root.join ⟨"", here⟩)
  (askedBelow scope leadsIn maxDepth [] entries).forM fun here =>
    fs.askLink (root.join ⟨"", here⟩)
  let files := filesBelow scope maxDepth [] entries
  return {
    files := Text.sorted files.eraseDups
    warnings := (deniedBelow scope maxDepth [] entries).map fun here =>
      unreadableDirectory (Path.relativeText here) .denied
    skippedLinks := linksBelow scope leadsIn maxDepth [] entries
    found := files.length }

/-- The progress of a walk. -/
def progress (inventory : Inventory) : List Progress :=
  let links := if inventory.skippedLinks = 0 then ""
    else " (skipped " ++ Text.ofNat inventory.skippedLinks ++ " symlinks)"
  [.begun "Discovering files...",
    .finished ("Found " ++ Text.ofNat inventory.found ++ " files" ++ links)]

/-! ## Sources -/

/-- The files in one of the source languages that are not excluded. -/
def sources (exclude : List String) (files : List String) : List String :=
  files.filter fun path => (Language.ofPath? path).isSome && !Glob.matchesAny exclude path

/-- Counts one more of a language. -/
def countIn (language : Language) : List (Language × Nat) → List (Language × Nat)
  | [] => [(language, 1)]
  | (l, n) :: rest => if l = language then (l, n + 1) :: rest else (l, n) :: countIn language rest

/-- How many files there are in each language, in the order in which the languages are met. -/
def languageCounts (files : List String) : List (Language × Nat) :=
  (files.filterMap Language.ofPath?).foldl (fun counts language => countIn language counts) []

/-- Whether a file holds tests, by its path in any case. -/
def isTest (path : String) : Bool :=
  let path := Text.lower path
  let name := Path.nameOf path
  ["test/", "tests/", "__tests__/"].any (fun dir =>
    Text.startsWith path dir || Text.contains path ("/" ++ dir)) ||
  Text.contains name ".spec." || Text.contains name ".test." ||
  Text.startsWith name "test_" || Text.endsWith name "_test.go" || Text.endsWith name "_test.py"

end Inventory

end Dossier

import Dossier.Document.CodeMap
import Dossier.FileSystem.Resolve
import Dossier.Inventory
import Dossier.Profile.Basic

/-!
# Notes

What is known about a project beyond its code: notes that its authors have written, and notes that
are generated from its files. Written notes are taken in order until one does not fit; a generated
note that does not fit is left out alone.
-/

namespace Dossier.Document

open Outline (File)

/-- A note. -/
structure Note where
  title : String
  content : String
deriving DecidableEq, Repr, Inhabited

/-- A note as it is shown. -/
def Note.text (note : Note) : String :=
  "### " ++ note.title ++ "\n\n" ++ note.content

/-! ## Written notes -/

/-- Whether the canonical form of a path is that of `base` or lies below it. -/
def leadsWithin (fs : FileSystem) (base p : Path) : Except Failure Bool := do
  let base ← fs.resolve base
  let p ← fs.resolve p
  return p.isWithin base

/-- The names of the files in a directory that are notes, in order. -/
def noteNames (fs : FileSystem) (dir : Path) : Except FileError (List String) := do
  let names ← fs.namesIn dir
  -- Of several refusals the one that is about a permission is told.
  if names.any fun name => fs.forbidden .follow (dir.child name) then .error .denied
  else
    let files ← names.filterM fun name => do return (← fs.seek (dir.child name)).any Entry.isFile
    return Text.sorted (files.filter (Path.suffixOf · == ".md"))

/-- The note in a file, or a warning; nothing if the file is blank. -/
def readNote (fs : FileSystem) (dir : Path) (name : String) : Option Note × List String :=
  let p := dir.child name
  match fs.readText p with
  | .error e => (none, ["Skipping knowledge file " ++ name ++ ": " ++ e.message p])
  | .ok text =>
    if Text.allBlank text then (none, [])
    else (some ⟨Path.stemOf name, Text.strip text⟩, [])

/-- The warning about a directory of notes that cannot be read. -/
def unreadableNotes (dir : String) (e : FileError) : String :=
  "Unreadable knowledge directory " ++ dir ++ ": " ++ e.reason

/-- The notes in a directory of the project, with warnings. -/
def writtenNotes (fs : FileSystem) (root : Path) (dir : String) :
    Except Failure (List Note × List String) := do
  let p := root.join (Path.ofText dir)
  if !(← leadsWithin fs root p) then
    return ([], ["Ignoring knowledge_dir " ++ Text.quoted dir ++ ": outside the project"])
  match fs.probe p with
  | .error e => throw (.refused e p)
  | .ok (some (.directory _)) => match noteNames fs p with
    | .error e => return ([], [unreadableNotes dir e])
    | .ok names =>
      let outcomes := names.map (readNote fs p)
      return (outcomes.filterMap (·.1), outcomes.flatMap (·.2))
  | .ok _ => return ([], [])

/-! ## Architecture -/

/-- What well-known directories are for. -/
def directoryRoles : List (String × String) :=
  [("routes", "API routes"), ("api", "API layer"), ("controllers", "controllers"),
    ("services", "business logic"), ("models", "data models"), ("middleware", "middleware"),
    ("components", "UI components"), ("hooks", "React hooks"), ("pages", "page components"),
    ("views", "views"), ("lib", "shared library"), ("utils", "utilities"), ("helpers", "helpers"),
    ("config", "configuration"), ("core", "core logic"), ("common", "shared code"),
    ("shared", "shared code"), ("store", "state management"), ("handlers", "request handlers"),
    ("resolvers", "GraphQL resolvers"), ("schemas", "schemas"), ("types", "type definitions"),
    ("entities", "domain entities"), ("repositories", "data access"),
    ("migrations", "DB migrations"), ("cmd", "CLI commands"), ("pkg", "packages"),
    ("internal", "internal packages")]

/-- Directories that hold the layers of a project. -/
def layerParents : List String := ["src", "app", "lib"]

/-- The layer at the top of a path. -/
def topLayer? (path : String) : Option (String × String) :=
  match Text.split '/' path with
  | dir :: _ :: _ => (directoryRoles.lookup dir).map (dir, ·)
  | _ => none

/-- The layer one level below the top of a path. -/
def innerLayer? (path : String) : Option (String × String) :=
  match Text.split '/' path with
  | parent :: dir :: _ :: _ =>
    if layerParents.contains parent then
      (directoryRoles.lookup dir).map (parent ++ "/" ++ dir, ·)
    else none
  | _ => none

/-- The layers of a project and what they are for, each once. -/
def layers (files : List String) : List (String × String) :=
  (files.filterMap topLayer? ++ files.filterMap innerLayer?).eraseDups

/-- Names of files in which a program begins. -/
def entryFileNames : List String :=
  ["index.ts", "index.tsx", "index.js", "main.ts", "main.js", "main.go", "main.rs", "lib.rs",
    "main.py", "app.py", "__main__.py", "Main.java", "Application.java", "Program.cs"]

/-- The files near the root in which a program begins. -/
def entryPoints (files : List String) : List String :=
  files.filter fun path => entryFileNames.contains (Path.nameOf path) && Text.count '/' path ≤ 2

/-- The first items of a list; a negative number leaves out as many at the end. -/
def firstItems {α : Type} (n : Int) (xs : List α) : List α :=
  if n < 0 then xs.take (xs.length + n).toNat else xs.take n.toNat

/-- How many files in which a program begins are named. -/
def maxEntryPoints : Int := 5

/-- Paragraphs of lines with an empty line between them. -/
def paragraphs (blocks : List (List String)) : String :=
  Text.joinLines (List.intercalate [""] (blocks.filter (!·.isEmpty)))

/-- A note with some lines; none if there are no lines. -/
def noteOf? (title : String) (blocks : List (List String)) : Option Note :=
  if blocks.all (·.isEmpty) then none else some ⟨title, paragraphs blocks⟩

/-- The note about the layers, the entry points and the workspaces of a project. -/
def architecture? (profile : Profile) (files : List String) : Option Note :=
  let layers := layers files
  let entries := firstItems maxEntryPoints (entryPoints files)
  noteOf? "Architecture (auto)"
    [if layers.isEmpty then []
      else "**Layers:**" :: layers.map fun (dir, role) => "- `" ++ dir ++ "/`: " ++ role,
      if entries.isEmpty then []
      else ["**Entry points:** " ++
        String.intercalate ", " (entries.map fun path => "`" ++ path ++ "`")],
      match profile.monorepo with
      | some monorepo => ["**Monorepo (" ++ monorepo.tool ++ "):** " ++
          Text.ofNat monorepo.workspaces.length ++ " workspaces"]
      | none => []]

/-! ## Conventions -/

/-- Ways to write a file name of several words. -/
inductive Naming where
  | kebab
  | camel
  | pascal
  | snake
deriving DecidableEq, Repr

/-- The name of a way to write file names. -/
def Naming.name : Naming → String
  | .kebab => "kebab-case"
  | .camel => "camelCase"
  | .pascal => "PascalCase"
  | .snake => "snake_case"

/-- All ways to write file names; of several that are used as often the first counts. -/
def Naming.all : List Naming := [.kebab, .camel, .pascal, .snake]

/-- The way a stem is written, if it shows one. -/
def namingOf? (stem : String) : Option Naming :=
  let cs := stem.toList
  if cs.contains '-' then some .kebab
  else if cs.contains '_' then some .snake
  else if cs.head?.any Text.isUpper && cs.any Text.isLower then some .pascal
  else if cs.head?.any Text.isLower && cs.any Text.isUpper then some .camel
  else none

/-- The first item with the greatest number. -/
def mostFrequent {α : Type} (count : α → Nat) (first : α) (rest : List α) : α :=
  rest.foldl (fun best x => if count best < count x then x else best) first

/-- The way in which more than three of ten sources are named, if there are enough sources. -/
def namingConvention? (files : List String) : Option Naming :=
  let sources := files.filter fun path => (Language.ofPath? path).isSome && !Inventory.isTest path
  let found := sources.filterMap fun path =>
    namingOf? (Text.beforeFirst '.' (Path.nameOf path))
  let style := mostFrequent found.count .kebab Naming.all
  if 3 ≤ sources.length ∧ 3 * sources.length < 10 * found.count style then some style else none

/-- Directories that hold tests. -/
def testDirectories : List String := ["test", "tests", "__tests__", "spec"]

/-- A number of files with a mark, if there are any. -/
def counted (mark : String) (n : Nat) : List String :=
  if n = 0 then [] else [mark ++ " (" ++ Text.ofNat n ++ " files)"]

/-- Where the tests of a project are. -/
def testLayout? (files : List String) : Option String :=
  let parts :=
    counted "*.test.*" (files.countP fun path => Text.contains path ".test.") ++
    counted "*.spec.*" (files.countP fun path =>
      Text.contains path ".spec." && !Text.contains path ".test.") ++
    counted "test_*" (files.countP fun path => Text.startsWith (Path.nameOf path) "test_") ++
    counted "*_test.*" (files.countP fun path =>
      Text.endsWith path "_test.go" || Text.endsWith path "_test.py") ++
    counted "test dirs" (files.countP fun path =>
      (Text.split '/' path).dropLast.any testDirectories.contains)
  if parts.isEmpty then none else some (String.intercalate ", " parts)

/-- How the modules of a project export. -/
def exportStyle? (files : List File) : Option String :=
  let exports := (files.filter fun file => Language.listsExports file.language).flatMap File.exportedEntries
  let default := exports.countP fun e => Text.contains e.signature "export default"
  let named := exports.length - default
  if exports.isEmpty then none
  else if 4 * exports.length < 5 * named then some "predominantly named exports"
  else if 4 * exports.length < 5 * default then some "predominantly default exports"
  else some ("mixed (" ++ Text.ofNat named ++ " named, " ++ Text.ofNat default ++ " default)")

/-- The note about naming, tests and exports. -/
def conventions? (outlines : List File) (files : List String) : Option Note :=
  let barrels := outlines.countP fun file => isBarrel file.entries
  noteOf? "Conventions (auto)"
    [(namingConvention? files).toList.map (fun style => "**File naming:** " ++ style.name) ++
      (testLayout? files).toList.map ("**Tests:** " ++ ·) ++
      (exportStyle? outlines).toList.map ("**Exports:** " ++ ·) ++
      if barrels = 0 then []
      else ["**Barrel files:** " ++ Text.ofNat barrels ++ " re-export files"]]

/-! ## Choosing -/

/-- The notes that fit, each of those before it that fit being paid for. -/
def thatFit (measure : Measure) (remaining : Int) : List Note → List Note
  | [] => []
  | note :: rest =>
    if (measure note.text : Int) ≤ remaining then
      note :: thatFit measure (remaining - measure note.text) rest
    else thatFit measure remaining rest

/-- The notes up to the first that does not fit. -/
def untilFull (measure : Measure) (remaining : Int) : List Note → List Note
  | [] => []
  | note :: rest =>
    if (measure note.text : Int) ≤ remaining then
      note :: untilFull measure (remaining - measure note.text) rest
    else []

/-- The generated notes that fit. -/
def generatedNotes (measure : Measure) (profile : Profile) (outlines : List File)
    (files : List String) (budget : Int) : List Note :=
  if budget ≤ 0 then []
  else thatFit measure budget
    ((architecture? profile files).toList ++ (conventions? outlines files).toList)

/-- What the generated notes are made from. -/
structure Sources where
  profile : Profile
  outlines : List File := []
  files : List String := []

/-- The section of notes within a budget, with warnings; `generate?` asks for generated notes. -/
def knowledge (fs : FileSystem) (measure : Measure) (root : Path) (dir : String) (budget : Int)
    (generate? : Option Sources) : Except Failure (String × List String) := do
  let (notes, warnings) ← writtenNotes fs root dir
  let written := untilFull measure budget notes
  let left := budget - (written.map fun note => (measure note.text : Int)).foldr (· + ·) 0
  let generated := match generate? with
    | some s => generatedNotes measure s.profile s.outlines s.files left
    | none => []
  return (String.intercalate "\n\n" ((written ++ generated).map Note.text), warnings)

end Dossier.Document

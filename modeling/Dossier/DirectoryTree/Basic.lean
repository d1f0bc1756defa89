import Dossier.Budget.Tokens
import Dossier.FileSystem.Resolve
import Dossier.Inventory

/-!
# Directory trees

An overview of the directories of a project: directories first, then files, each in the order of their
names. A directory with too many entries is shown by their numbers alone, unless something
significant lies in it, and a directory with nothing to show is left out. `fitting` gives the
deepest tree that fits a budget.
-/

namespace Dossier

/-- A node of a directory tree. -/
inductive TreeNode where
  | file (name path : String) (remark : Option String)
  | directory (name path : String) (children : List TreeNode)
  /-- A directory shown by the numbers of its files and directories. -/
  | collapsed (name path : String) (files dirs : Int)
deriving Repr, Inhabited

namespace DirectoryTree

open Entry (sortedByName subdirectories)

/-! ## What is shown -/

/-- Names of files that are not shown. -/
def defaultNoise : List String :=
  ["*.lock", "*.lockb", "*-lock.json", "*-lock.yaml", ".editorconfig", ".eslintrc*",
    ".eslintignore", "eslint.config.*", ".prettierrc*", ".prettierignore", "prettier.config.*",
    ".stylelintrc*", ".npmrc", ".nvmrc", ".gitattributes", ".gitignore", ".dockerignore", "*.map"]

/-- What is said about well-known files. -/
def defaultAnnotations : List (String × String) :=
  [("package.json", "project manifest"), ("tsconfig.json", "TypeScript config"),
    ("Cargo.toml", "Rust manifest"), ("pyproject.toml", "Python config"),
    ("setup.py", "Python packaging"), ("go.mod", "Go module"), ("Gemfile", "Ruby dependencies"),
    ("composer.json", "PHP dependencies"), ("pom.xml", "Maven build"),
    ("build.gradle", "Gradle build"), ("Dockerfile", "container build"),
    ("README.md", "documentation"), ("CLAUDE.md", "assistant context"),
    (".env.example", "environment template")]

/-- How a tree is shown. -/
structure Style where
  ignored : List String := defaultIgnored
  maxDepth : Int := 4
  annotations : List (String × String) := defaultAnnotations
  noise : List String := defaultNoise
  /-- The greatest number of entries that are shown one by one. -/
  threshold : Int := 15
deriving Repr, Inhabited

/-- Whether a pattern with a star, or a slash, stands for a path. -/
def annotates (pattern path : String) : Bool :=
  Glob.matchTokens (Glob.starTokens pattern.toList) path.toList

/-- What is said about a file: the text under its name, else the one under the first pattern that
stands for its path or its name. -/
def annotationFor (annotations : List (String × String)) (name path : String) : Option String :=
  match annotations.lookup name with
  | some text => some text
  | none => (annotations.find? fun (pattern, _) =>
      (Text.contains pattern "*" || Text.contains pattern "/") &&
        (annotates pattern path || annotates pattern name)).map (·.2)

/-! ## Significant directories -/

/-- A list of names and all its beginnings that are not empty. -/
def beginnings (parts : List String) : List (List String) :=
  (List.range parts.length).map fun n => parts.take (n + 1)

/-- A path and the directories above it. -/
def ancestry (path : String) : List String :=
  let text := Text.trimEnd (· == '/') (Text.trimStart (· == '/') (Path.ofText path).text)
  (beginnings (Text.split '/' text)).map (String.intercalate "/")

/-- Every directory that is one of the paths or contains one. -/
def significant (paths : List String) : List String :=
  (paths.flatMap ancestry).eraseDups

/-! ## Building -/

/-- What decides about the nodes of a tree; places are given by the names from the root down to
them. -/
structure Scope where
  hidden : String → Bool
  noise : String → Bool
  denied : List String → Bool
  significant : String → Bool
  remark : (name path : String) → Option String
  threshold : Int

/-- The names of the shown entries of a directory that are not directories, in order. -/
def leaves (scope : Scope) (entries : List (String × Entry)) : List String :=
  Text.sorted ((entries.filter fun (name, e) =>
    !e.isDirectory && !scope.hidden name && !scope.noise name).map (·.1))

/-- How many entries of a directory are shown. -/
def shownCount (scope : Scope) (entries : List (String × Entry)) : Nat :=
  (subdirectories scope.hidden entries).length + (leaves scope entries).length

/-- Whether a directory is shown by numbers alone. One with nothing to show never is. -/
def isCollapsed (scope : Scope) (here : List String) (entries : List (String × Entry)) : Bool :=
  let count := shownCount scope entries
  count != 0 && decide (scope.threshold < (count : Int)) &&
    !scope.significant (Path.relativeText here)

/-- The node of a file in a directory. -/
def leaf (scope : Scope) (here : List String) (name : String) : TreeNode :=
  let path := Path.relativeText (here ++ [name])
  .file name path (scope.remark name path)

/-- The node of a directory whose own nodes are known. -/
def branch (name : String) (here : List String) : List TreeNode → Option TreeNode
  | [] => none
  | children => some (.directory name (Path.relativeText here) children)

/-- The nodes of a directory with `levels` levels of entries. -/
def nodes (scope : Scope) : (levels : Nat) → (here : List String) → List (String × Entry) →
    List TreeNode
  | 0, _, _ => []
  | levels + 1, here, entries =>
    (subdirectories scope.hidden entries).filterMap (fun (name, inner) =>
      let there := here ++ [name]
      if levels = 0 || scope.denied there then none
      else if isCollapsed scope there inner then
        some (.collapsed name (Path.relativeText there) (leaves scope inner).length
          (subdirectories scope.hidden inner).length)
      else branch name there (nodes scope levels there inner)) ++
    (leaves scope entries).map (leaf scope here)

/-- The directories that are reached below another one and cannot be listed. -/
def unreadable (scope : Scope) : (levels : Nat) → (here : List String) → List (String × Entry) →
    List (List String)
  | 0, _, _ => []
  | levels + 1, here, entries =>
    (subdirectories scope.hidden entries).flatMap fun (name, inner) =>
      let there := here ++ [name]
      if levels = 0 then []
      else if scope.denied there then [there]
      else if isCollapsed scope there inner then []
      else unreadable scope levels there inner

/-- The scope of a tree below a root. -/
def Scope.below (fs : FileSystem) (style : Style) (significant : List String) (root : Path) :
    Scope where
  hidden := Text.isIgnored style.ignored
  noise := Text.isIgnored style.noise
  denied := fun here => fs.denied.contains (root.join ⟨"", here⟩)
  significant := significant.contains
  remark := annotationFor style.annotations
  threshold := style.threshold

/-- The tree of the directory at a root with a number of levels, and warnings. -/
def build (fs : FileSystem) (style : Style) (paths : List String) (root : Path) (levels : Nat) :
    List TreeNode × List String :=
  if levels = 0 then ([], [])
  else match fs.scan root with
    | .error e => ([], [unreadableDirectory "." e])
    | .ok entries =>
      let scope := Scope.below fs style (significant paths) root
      (nodes scope levels [] entries,
        (unreadable scope levels [] entries).map fun here =>
          unreadableDirectory (Path.relativeText here) .denied)

end DirectoryTree

end Dossier

import Dossier.Failure
import Dossier.Outline.BracedClasses
import Dossier.Outline.Go
import Dossier.Outline.LineRules
import Dossier.Outline.Python
import Dossier.Outline.Ruby
import Dossier.Outline.Rust
import Dossier.Outline.Script
import Dossier.Progress

/-!
# Outlines of files

A source is outlined from its syntax tree if there is one, and line by line if not. A file that
cannot be read or is too large is left out with a warning. A tree whose wrappers are nested too deeply
is not followed to its end, and a file that never ends is not read to it.
-/

namespace Dossier

/-- What turns a source into a syntax tree, where it can. -/
abbrev Parser := Language → String → Option Node

namespace Outline

/-- The outline of a source from its syntax tree. -/
def ofTree (language : Language) (source : Bytes) (root : Node) : List Declaration :=
  match language with
  | .typescript | .tsx | .javascript => Script.outline source root
  | .python => Python.outline source root
  | .go => Go.outline source root
  | .rust => Rust.outline source root
  | .java => javaRules.outline source root
  | .csharp => csharpRules.outline source root
  | .ruby => Ruby.outline source root
  | .php => phpRules.outline source root

/-- How the walk through a syntax tree goes on from a node that may wrap declarations. -/
def wayIn (language : Language) : Node → Node.Way :=
  match language with
  | .typescript | .tsx | .javascript => Script.wayIn
  | .rust => Rust.way
  | .csharp => csharpRules.way
  | .ruby => Ruby.way
  | .php => phpRules.way
  | .python | .go | .java => fun _ => .stop

/-- How many wrappers may be nested in a syntax tree: they are entered one inside another. -/
def maxWrappers : Nat := 970

/-- Whether the wrappers below the root of a syntax tree are nested too deeply to be entered. -/
def isTooNested (language : Language) (root : Node) : Bool :=
  decide (maxWrappers < Node.depthAmong (wayIn language) root.children)

/-- The outline of a source that is blank or has a syntax tree. -/
def ofSource? (parse : Parser) (language : Language) (source : String) : Option (List Declaration) :=
  if Text.allBlank source then some []
  else (parse language source).map (ofTree language (Bytes.ofText source))

/-- The size above which a file is not parsed, in bytes. -/
def maxSourceBytes : Nat := 512 * 1024

/-- The outline of the source of a file; none if nothing is declared. -/
def fileOf? (parse : Parser) (language : Language) (path source : String) : Option File :=
  let (entries, heuristic) := match ofSource? parse language source with
    | some entries => (entries, false)
    | none => (LineRules.outline language source, true)
  if entries.isEmpty then none else some { path, language := language.name, entries, heuristic }

/-- A warning that a file is left out. -/
def skipping (path reason : String) : String :=
  "Skipping " ++ path ++ ": " ++ reason

/-- The path under which a file is reported. -/
def reportedPath (root path : Path) : Except Failure String :=
  if path.isAbsolute then
    match path.below? root with
    | some parts => .ok (Path.relativeText parts)
    | none => .error (.notBelow path root)
  else .ok path.text

/-- Whether the syntax tree of a source cannot be followed to its end. -/
def defeats (parse : Parser) (language : Language) (source : String) : Bool :=
  !Text.allBlank source && (parse language source).any (isTooNested language)

/-- The outline of what a path leads to, with warnings. -/
def outlineOf (fs : FileSystem) (parse : Parser) (language : Language) (shown : String)
    (target : Path) : Except Failure (Option File × List String) :=
  match fs.look target with
  | .error e => .ok (none, [skipping shown e.reason])
  | .ok e =>
    if maxSourceBytes < e.size then
      .ok (none, [skipping shown (Text.ofNat e.size ++ " bytes exceeds the " ++
        Text.ofNat maxSourceBytes ++ " byte parse limit")])
    else match fs.readText target with
      | .error .endless => .error (.endless target)
      | .error (.refused e) => .ok (none, [skipping shown e.reason])
      | .error (.undecodable _) => .ok (none, [skipping shown "not valid UTF-8"])
      | .ok source =>
        if defeats parse language source then .error (.tooDeep .any)
        else .ok (fileOf? parse language shown source, [])

/-- The outline of the file at a path, with warnings. -/
def outlineAt (fs : FileSystem) (parse : Parser) (root path : Path) :
    Except Failure (Option File × List String) :=
  match Language.ofPath? path.name with
  | none => .ok (none, [])
  | some language =>
    match reportedPath root path with
    | .error f => .error f
    | .ok shown =>
      if (root.join path).parts.any (·.toList.contains '\x00') then .error .nulInPath
      else outlineOf fs parse language shown (root.join path)

/-- Outlines in the order of their paths. -/
def byPath (files : List File) : List File :=
  files.mergeSort fun a b => Text.notAfter a.path b.path

/-- How many of the files were outlined line by line, if any. -/
def heuristicWarning (files : List File) : List String :=
  match files.countP (·.heuristic) with
  | 0 => []
  | n => [Text.ofNat n ++ " files summarized without a grammar (heuristic signatures)"]

/-- The outlines of files below the root in the order of their paths, with warnings and the
progress of the step. -/
def collect (fs : FileSystem) (parse : Parser) (root : Path) (paths : List String) :
    Except Failure (List File × List String × List Progress) := do
  let outcomes ← paths.mapM fun path => outlineAt fs parse root (root.join (Path.ofText path))
  let files := byPath (outcomes.filterMap (·.1))
  return (files, outcomes.flatMap (·.2) ++ heuristicWarning files,
    [.begun ("Extracting signatures from " ++ Text.ofNat paths.length ++ " files..."),
      .finished ("Extracted signatures from " ++ Text.ofNat files.length ++ " files")])

end Outline

end Dossier

import Dossier.CommandLine.Help
import Dossier.Document.Compile

/-!
# Running a command

A run reads its arguments, does what they ask for and says how it went: an exit code, what is
printed, what is reported, and the document to write.
-/

namespace Dossier.CommandLine

open Budget (Tokenizer)
open Data (Datum)
open Document (Compiled Request Services)
open Outline (File)

/-- Where a run takes place. -/
structure Site where
  fs : FileSystem
  /-- The directory that relative paths start from. -/
  here : Path
  home : Path
  services : Services
  tokenizer : Tokenizer := {}

/-- How a run went. -/
structure Outcome where
  code : Nat
  printed : String := ""
  reported : String := ""
  /-- Where a document has been written, and its text. -/
  document : Option (Path × String) := none
deriving DecidableEq, Repr

/-- A text with a line feed. -/
def line (s : String) : String := s ++ "\n"

/-! ## Paths -/

/-- A path with a tilde at its start replaced by the home of the user. -/
def expandHome (home : Path) (p : Path) : Except Failure Path :=
  match p.root, p.parts with
  | "", part :: rest =>
    if part = "~" then .ok (home.join ⟨"", rest⟩)
    else if Text.startsWith part "~" then .error .unknownHome
    else .ok p
  | _, _ => .ok p

/-- The canonical form of a path that a user has given. -/
def userPath (s : Site) (text : String) : Except Failure Path := do
  let p ← expandHome s.home (Path.ofText text)
  s.fs.resolve (s.here.join p)

/-! ## Reports -/

/-- A report of an error. -/
def errorReport (message : String) : String :=
  line ("\x7b\"error\": " ++ Data.Json.quoted message ++ "\x7d")

/-- A report of warnings: their number, and all of them if that is asked for. -/
def warningReport (verbose : Bool) (warnings : List String) : String :=
  if warnings.isEmpty then ""
  else line ("warnings=" ++ Text.ofNat warnings.length) ++
    if verbose then String.join (warnings.map fun w => line ("  " ++ w)) else ""

/-! ## The context command -/

/-- A mapping with text keys. -/
def mapping (entries : List (String × Datum)) : Datum :=
  .map (entries.map fun (key, value) => (.text key, value))

/-- A list of texts. -/
def textList (xs : List String) : Datum :=
  .list (xs.map .text)

/-- What is said about a compiled document, as data. -/
def compiledData (x : Compiled) (includeMarkdown : Bool) : Datum :=
  mapping ([("total_tokens", .int x.tokens), ("budget", .int x.budget),
    ("sections", .list (x.sections.map fun (s, n) =>
      mapping [("id", .text s.id), ("title", .text s.title), ("tokens", .int n)])),
    ("truncated", textList x.truncated),
    ("allocation", mapping (x.allocation.map fun (topic, n) => (topic.id, .int n))),
    ("warnings", textList x.warnings),
    ("output_path", match x.output with
      | some p => .text p.text
      | none => .null)] ++
    if includeMarkdown then [("markdown", .text x.markdown)] else [])

/-- How many bytes of a document are shown. -/
def previewBytes : Int := 512

/-- What is said about a compiled document, in lines. -/
def compiledLines (x : Compiled) : List String :=
  ["[CONTEXT]",
    "sections=" ++ Text.ofNat x.sections.length ++ " truncated=" ++ Text.ofNat x.truncated.length,
    "tokens=" ++ Text.ofNat x.tokens ++ "/" ++ Text.ofInt x.budget] ++
  match x.output with
  | some p => ["written=" ++ p.text]
  | none =>
    ["", "[SECTIONS]"] ++
    x.sections.map (fun (s, n) =>
      s.id ++ ": " ++ Text.ofNat n ++ "/" ++
        Text.ofInt (((x.allocation.find? (·.1.id == s.id)).map (·.2)).getD 0)) ++
    (if x.truncated.isEmpty then [] else "" :: "[TRUNCATED]" :: x.truncated) ++
    ["", Text.Utf8.preview previewBytes x.markdown]

/-- The outcome of compiling a document. -/
def compiledOutcome (verbose json includeMarkdown : Bool) (x : Compiled) : Outcome :=
  { code := 0
    printed := line
      (if json then Data.Json.render (compiledData x includeMarkdown)
      else Text.joinLines (compiledLines x))
    reported := Progress.text x.progress ++ warningReport verbose x.warnings
    document := x.output.map (·, x.markdown) }

/-! ## The tree command -/

/-- The tree of a project and the warnings, unless a value is missed. -/
def projectTree (yaml : Data.Reader) (fs : FileSystem) (root : Path) (budget : Int)
    (depth : Option Nat) (missed : Option Blank) : Except Failure (String × List String) := do
  fs.ensureReadable root
  let (settings, warnings) ← Settings.load yaml fs root
  if let some option := missed then throw (.blank option)
  let style := Document.treeStyle settings
  let (shown, more) ← match depth with
    | some levels => do
      let (nodes, more) := DirectoryTree.build fs style [] root levels
      pure (DirectoryTree.renderBelow (← DirectoryTree.titleOf fs root) nodes, more)
    | none => DirectoryTree.fitting fs style [] root budget
  return (shown, warnings ++ more)

/-! ## The signatures command -/

/-- The outline of a file in lines. -/
def outlineLines (file : File) (all : Bool) : List String :=
  let entries := if all then file.entries else file.exportedEntries
  ("[" ++ file.path ++ "] language=" ++ file.language ++ " mode=" ++
    (if file.heuristic then "heuristic" else "grammar") ++ " count=" ++
    Text.ofNat entries.length) ::
  entries.flatMap fun e =>
    (Text.ofNat e.line ++ ": " ++ e.kind.name ++ " " ++ e.name) ::
      (Text.lines e.signature).map ("    " ++ ·)

/-- The outcome of outlining a file. -/
def outlineOutcome (s : Site) (verbose : Bool) (root : Path) (file : String) (all : Bool) :
    Except Failure Outcome := do
  let p ← s.fs.resolve (root.join (Path.ofText file))
  if !p.isWithin root then
    return { code := 2, reported := errorReport "file is outside the project" }
  match ← s.fs.probed p with
  | some (.file _) =>
    let (outline, warnings) ← Outline.outlineAt s.fs s.services.parse root p
    return {
      code := 0
      printed := line (match outline with
        | some outline => Text.joinLines (outlineLines outline all)
        | none => "(no signatures)")
      reported := warningReport verbose warnings }
  | _ => return { code := 2, reported := errorReport "file not found" }

/-! ## Runs -/

/-- The outcome of reading arguments that end the run. -/
def Halt.outcome (halt : Halt) : Outcome :=
  match halt.stop with
  | .help => { code := 0, printed := helpOf halt.verb }
  | .wrong complaint => { code := 2, reported := complaintText halt.verb complaint }

/-- The outcome of a failure: one that is about the root of the project is reported. -/
def failed (f : Failure) : Except Failure Outcome :=
  if f.isAboutRoot then .ok { code := 1, reported := errorReport f.message } else .error f

/-- The directory below which documents are written. -/
def outRootOf (s : Site) (given : Option String) : Except Failure Path :=
  match given.filter (· != "") with
  | some text => userPath s text
  | none => .ok (Document.defaultOutRoot s.home)

/-- What is read of a project before a missed value is needed: the workers are needed for the
outlines, the budget only after them. -/
def surveyUntil (s : Site) (root : Path) (settings : Settings) : Blank → Except Failure Unit
  | .workers => do
    let _ ← Profile.detect s.services.yaml s.fs root
    let _ ← Inventory.take s.fs (Document.treeStyle settings).ignored root
    return ()
  | _ => do
    let _ ← Document.survey s.fs s.services root settings none
    return ()

/-- Goes as far as compiling a document goes without a missed value. What fails before the value
is needed counts first. -/
def runUntil (s : Site) (root : Path) (precise : Bool) (option : Blank) :
    Except Failure Outcome × Site :=
  match Document.prepare s.services.yaml s.fs root with
  | .error f => (failed f, s)
  | .ok (root, settings, _) =>
    let failure := match surveyUntil s root settings option with
      | .error f => f
      | .ok () => .blank option
    (failed failure, { s with tokenizer := (s.tokenizer.configure s.services.load precise).1 })

/-- Compiles a document for a request. -/
def runRequest (s : Site) (verbose json includeMarkdown : Bool) (request : Request) :
    Except Failure Outcome × Site :=
  let (result, tokenizer) := Document.compile s.fs s.services s.tokenizer request
  match result with
  | .error f => (failed f, { s with tokenizer })
  | .ok (compiled, fs) =>
    (.ok (compiledOutcome verbose json includeMarkdown compiled), { s with tokenizer, fs })

/-- Does what the arguments ask for. A task that fails for the root of the project has an outcome;
for any other failure there is none. -/
def perform (s : Site) (root : Path) (verbose : Bool) : Option Task →
    Except Failure Outcome × Site
  | none => (.ok { code := 1, printed := helpOf none }, s)
  | some (.context budget dryRun json includeMarkdown precise outRoot missed) =>
    match outRootOf s outRoot, missed with
    | .error f, _ => (.error f, s)
    | .ok _, some option => runUntil s root precise option
    | .ok outRoot, none =>
      runRequest s verbose json includeMarkdown { root, budget, dryRun, precise, outRoot }
  | some (.tree budget depth missed) =>
    (match projectTree s.services.yaml s.fs root budget depth missed with
      | .ok (shown, warnings) =>
        .ok { code := 0, printed := line shown, reported := warningReport verbose warnings }
      | .error f => failed f, s)
  | some (.signatures file all) => (outlineOutcome s verbose root file all, s)

/-- Runs the program with some arguments. -/
def run (s : Site) (args : List String) : Except Failure Outcome × Site :=
  match readArguments args with
  | .error halt => (.ok halt.outcome, s)
  | .ok invocation => match invocation.root.map (userPath s) with
    | none => (.error (.blank .root), s)
    | some (.error f) => (.error f, s)
    | some (.ok root) => perform s root invocation.verbose invocation.task

end Dossier.CommandLine

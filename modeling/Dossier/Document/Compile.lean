import Dossier.Budget.Shares
import Dossier.DirectoryTree.Render
import Dossier.Document.Assemble
import Dossier.Document.KeyFiles
import Dossier.Document.Notes
import Dossier.Document.Overview
import Dossier.FileSystem.Edit
import Dossier.Outline.Extract
import Dossier.Profile.Detect

/-!
# Compiling a document

Every section is built within its share of the budget. What the sections leave over goes to those
that lack room, the code map is built again if its share has grown, and the others are cut to their
shares. The room that titles and fences take is set aside before the budget is split.
-/

namespace Dossier.Document

open Budget (Shares Tokenizer)
open Outline (File)

/-! ## Requests -/

/-- What a run is asked for. -/
structure Request where
  /-- The root of the project. -/
  root : Path
  /-- The budget, if it is not left to the settings. -/
  budget : Option Int := none
  /-- Whether the document is only built and not written. -/
  dryRun : Bool := false
  precise : Bool := false
  /-- The directory below which the document is written. -/
  outRoot : Path
  /-- The profile of the project, if it is known already. -/
  profile : Option Profile := none

/-- What a run relies on: how sources are parsed, how the encoding is loaded, and how YAML is read. -/
structure Services where
  parse : Parser
  load : Except String Measure
  yaml : Data.Reader

/-- A compiled document, and what is said about it. -/
structure Compiled where
  markdown : String
  tokens : Nat
  budget : Int
  /-- The sections and the tokens they take. -/
  sections : List (Section × Nat)
  truncated : List String
  allocation : Shares Topic
  warnings : List String
  progress : List Progress
  output : Option Path := none

/-! ## The output file -/

/-- The canonical path of a project as a single name. -/
def slug (root : Path) : String :=
  Text.replaceChar '/' '-' root.text

/-- Where the document of the project at a canonical root is written. -/
def outputPath (outRoot root : Path) : Path :=
  (outRoot.child (slug root)).child "CLAUDE.md"

/-- Where documents are written unless a request says otherwise. -/
def defaultOutRoot (home : Path) : Path :=
  (home.child ".claude").child "projects"

/-! ## Contents -/

/-- How the directory tree is shown under some settings. -/
def treeStyle (settings : Settings) : DirectoryTree.Style :=
  { ignored := defaultIgnored ++ settings.ignore
    annotations := Keyed.putAll settings.annotations DirectoryTree.defaultAnnotations }

/-- What has been read of a project. -/
structure Findings where
  profile : Profile
  files : List String
  /-- The sources that are outlined. -/
  sources : List String
  outlines : List File
  warnings : List String
  progress : List Progress

/-- The profile of the project at a root, unless it is known already. -/
def profileOf (yaml : Data.Reader) (fs : FileSystem) (root : Path) (known : Option Profile) :
    Except Failure Profile :=
  match known with
  | some profile => .ok profile
  | none => Profile.detect yaml fs root

/-- Reads what the sections are made from. -/
def survey (fs : FileSystem) (services : Services) (root : Path) (settings : Settings)
    (known : Option Profile) : Except Failure Findings := do
  let profile ← profileOf services.yaml fs root known
  let inventory ← Inventory.take fs (treeStyle settings).ignored root
  let sources := Inventory.sources settings.excludeSignatures inventory.files
  let (outlines, warnings, progress) ← Outline.collect fs services.parse root sources
  return {
    profile
    files := inventory.files
    sources
    outlines
    warnings := inventory.warnings ++ warnings
    progress := inventory.progress ++ progress }

/-- The paths that keep their directories from being shown by numbers. -/
def significantPaths (settings : Settings) (found : Findings) : List String :=
  found.outlines.map (·.path) ++ Glob.select (some settings.keyFiles) [] found.files

/-- The counted languages of the sources, by name. -/
def namedCounts (files : List String) : List (String × Int) :=
  (Inventory.languageCounts files).map fun (language, n) => (language.name, (n : Int))

/-- The code map of the outlines within a budget. -/
def codeMapOf (measure : Measure) (settings : Settings) (found : Findings) (budget : Int) :
    CodeMap :=
  packCodeMap measure settings.depth settings.format budget found.outlines

/-- The contents of the sections other than the code map, with warnings. -/
structure Contents where
  overview : String
  tree : String
  keyFiles : String
  knowledge : String
  warnings : List String

/-- The content on a topic. -/
def Contents.on (contents : Contents) (codeMap : String) : Topic → String
  | .overview => contents.overview
  | .tree => contents.tree
  | .keyFiles => contents.keyFiles
  | .codeMap => codeMap
  | .knowledge => contents.knowledge

/-- Builds the contents within their shares. -/
def contentsOf (fs : FileSystem) (measure : Measure) (root : Path) (settings : Settings)
    (found : Findings) (allocation : Shares Topic) : Except Failure Contents := do
  let (tree, treeWarnings) ← DirectoryTree.fitting fs (treeStyle settings)
    (significantPaths settings found) root (allocation.get .tree)
  let excerpts ← keyFiles fs measure root found.files settings.keyFiles (allocation.get .keyFiles)
  if let some code := settings.knowledgeFlaw then
    throw (.unencodable (Text.flawIn (root.join (Path.ofText settings.knowledgeDir)).text code))
  let (notes, noteWarnings) ← knowledge fs measure root settings.knowledgeDir
    (allocation.get .knowledge)
    (if settings.autoKnowledge then some ⟨found.profile, found.outlines, found.files⟩ else none)
  return {
    overview := overview found.profile (namedCounts found.sources)
    tree
    keyFiles := excerpts.content
    knowledge := notes
    warnings := treeWarnings ++ excerpts.warnings ++ noteWarnings }

/-! ## Sections -/

/-- The shares of the topics in what a budget leaves beside the layout. -/
def split (measure : Measure) (name : String) (budget : Int) : Shares Topic :=
  Shares.allocate (max 0 (budget - layoutOverhead measure name))
    (Topic.all.map fun topic => (topic, topic.weight))

/-- What the topics use: the code map asks for all that it could show. -/
def usage (measure : Measure) (contents : Contents) (codeMap : CodeMap) : Shares Topic :=
  Topic.all.map fun topic =>
    let used := measure (contents.on codeMap.content topic)
    (topic, if topic = .codeMap then max used codeMap.demand else used)

/-- The content on a topic cut to its share; the code map is built to fit. -/
def settle (measure : Measure) (shares : Shares Topic) (topic : Topic) (content : String) :
    String :=
  if topic = .codeMap then content else cutToFit measure (shares.get topic) content

/-- The sections that have a content, with the tokens they take. -/
def sectionsOf (measure : Measure) (shares : Shares Topic) (contents : Contents)
    (codeMap : String) : List (Section × Nat) :=
  Topic.all.filterMap fun topic =>
    let content := settle measure shares topic (contents.on codeMap topic)
    if content = "" then none else some (.about topic content, measure content)

/-- The code map, built again if its share has grown. -/
def repacked (measure : Measure) (settings : Settings) (found : Findings)
    (allocation revised : Shares Topic) (codeMap : CodeMap) : CodeMap :=
  if allocation.get .codeMap < revised.get .codeMap then
    codeMapOf measure settings found (revised.get .codeMap)
  else codeMap

/-- The document of a project that has been read, with the contents built within their shares. -/
def finish (measure : Measure) (settings : Settings) (budget : Int) (found : Findings)
    (contents : Contents) : Compiled :=
  let allocation := split measure found.profile.name budget
  let first := codeMapOf measure settings found (allocation.get .codeMap)
  let revised := allocation.redistribute (usage measure contents first)
  let codeMap := repacked measure settings found allocation revised first
  let sections := sectionsOf measure revised contents codeMap.content
  let markdown := assemble found.profile.name (sections.map (·.1))
  { markdown
    tokens := measure markdown
    budget
    sections
    truncated := codeMap.truncated
    allocation := revised
    warnings := found.warnings ++ contents.warnings
    progress := found.progress ++ [.begun "Building sections...",
      .finished ("Built " ++ Text.ofNat sections.length ++ " sections")] }

/-- Builds the document of a project that has been read. -/
def compose (fs : FileSystem) (measure : Measure) (root : Path) (settings : Settings)
    (budget : Int) (found : Findings) : Except Failure Compiled := do
  let contents ← contentsOf fs measure root settings found
    (split measure found.profile.name budget)
  return finish measure settings budget found contents

/-! ## Runs -/

/-- The canonical root of a project that can be read, its settings, and warnings. -/
def prepare (yaml : Data.Reader) (fs : FileSystem) (root : Path) :
    Except Failure (Path × Settings × List String) := do
  let root ← fs.resolve root
  fs.ensureReadable root
  let (settings, warnings) ← Settings.load yaml fs root
  return (root, settings, warnings)

/-- Builds the document of a project whose settings are known. -/
def build (fs : FileSystem) (services : Services) (t : Tokenizer) (request : Request) (root : Path)
    (settings : Settings) (warnings : List String) : Except Failure Compiled := do
  let found ← survey fs services root settings request.profile
  let compiled ← compose fs t.measure root settings (request.budget.getD settings.budget) found
  return { compiled with warnings := warnings ++ compiled.warnings }

/-- Writes a document, unless the request asks not to. -/
def publish (fs : FileSystem) (request : Request) (root : Path) (compiled : Compiled) :
    Except Failure (Compiled × FileSystem) := do
  if request.dryRun then return (compiled, fs)
  else
    let p := outputPath request.outRoot root
    let fs ← fs.writeText p compiled.markdown
    return ({ compiled with
      output := some p
      progress := compiled.progress ++ [.finished ("Wrote " ++ p.text)] }, fs)

/-- Compiles the document of a project. The tokenizer is switched as soon as the settings are
known. -/
def compile (fs : FileSystem) (services : Services) (t : Tokenizer) (request : Request) :
    Except Failure (Compiled × FileSystem) × Tokenizer :=
  match prepare services.yaml fs request.root with
  | .error f => (.error f, t)
  | .ok (root, settings, warnings) =>
    let (t, notices) := t.configure services.load request.precise
    (do publish fs request root
          (← build fs services t request root settings (warnings ++ notices)), t)

end Dossier.Document

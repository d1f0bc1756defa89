import Dossier.Data.Datum
import Dossier.FileSystem.Probe

/-!
# Settings

The settings of a project, read from a settings file at its root. What reads the text of the file is
given. Every field is checked on its own: a field that is missing has its default, and one with an
unusable value has its default as well and leaves a warning.
-/

namespace Dossier

/-- Which declarations the code map shows. -/
inductive Depth where
  | exports
  | all
deriving DecidableEq, Repr, Inhabited

/-- How the code map shows a declaration. -/
inductive MapFormat where
  | signatures
  | compact
deriving DecidableEq, Repr, Inhabited

/-- The name of a depth. -/
def Depth.name : Depth → String
  | .exports => "exports"
  | .all => "all"

/-- The depth with a name; any other text asks for the exports. -/
def Depth.ofName (s : String) : Depth :=
  if s = "all" then .all else .exports

/-- The name of a format. -/
def MapFormat.name : MapFormat → String
  | .signatures => "signatures"
  | .compact => "compact"

/-- The format with a name; any other text asks for the signatures. -/
def MapFormat.ofName (s : String) : MapFormat :=
  if s = "compact" then .compact else .signatures

/-- Files that are not outlined unless the settings say otherwise. -/
def defaultExcluded : List String :=
  ["**/*.test.*", "**/*.spec.*", "**/test_*.py", "**/*_test.go", "**/tests/**", "**/__tests__/**"]

/-- What a project asks for. -/
structure Settings where
  budget : Int := 12000
  keyFiles : List String := []
  excludeSignatures : List String := defaultExcluded
  knowledgeDir : String := ".devctx/knowledge"
  /-- A code in the name of that directory that has no form in a path. -/
  knowledgeFlaw : Option Nat := none
  depth : Depth := .exports
  autoKnowledge : Bool := false
  format : MapFormat := .signatures
  ignore : List String := []
  annotations : List (String × String) := []
  /-- The settings file, if there is one. -/
  source : Option String := none
deriving DecidableEq, Repr, Inhabited

namespace Settings

open Data (Datum Fault)

/-! ## Values -/

/-- The least budget that settings may ask for. -/
def minBudget : Int := 1000

/-- The greatest budget that settings may ask for. -/
def maxBudget : Int := 100000

/-- A budget in the range that settings may ask for. -/
def budget? : Datum → Option Int
  | .int n => if minBudget ≤ n ∧ n ≤ maxBudget then some n else none
  | _ => none

/-- The texts of a list, if all items are texts. -/
def allTexts? (items : List Datum) : Option (List String) :=
  items.mapM Datum.text?

/-- Patterns: one text or a list of texts, without blanks around them and without the empty ones. -/
def patterns? (d : Datum) : Option (List String) :=
  let listed := match d with
    | .list items => allTexts? items
    | d => d.text?.map ([·])
  listed.map fun texts => (texts.map Text.strip).filter (· != "")

/-- A text that is not blank, without the blanks around it. -/
def filledText? (d : Datum) : Option String :=
  d.text?.bind fun s => if Text.allBlank s then none else some (Text.strip s)

/-- A truth value. -/
def flag? : Datum → Option Bool
  | .bool b => some b
  | _ => none

/-- The name of a depth. -/
def depth? (d : Datum) : Option Depth :=
  d.text?.bind fun s => [Depth.exports, Depth.all].find? (·.name == s)

/-- The name of a format. -/
def format? (d : Datum) : Option MapFormat :=
  d.text?.bind fun s => [MapFormat.signatures, MapFormat.compact].find? (·.name == s)

/-- A text under every one of some text keys. -/
def annotations? : Datum → Option (List (String × String))
  | .map entries => entries.mapM fun (key, value) => do return (← key.text?, ← value.text?)
  | _ => none

/-! ## Fields -/

/-- The fields of a settings file, in the order in which they are checked. -/
inductive Field where
  | budget
  | keyFiles
  | excludeSignatures
  | ignore
  | knowledgeDir
  | depth
  | autoKnowledge
  | format
  | annotations
deriving DecidableEq, Repr

/-- The key of a field. -/
def Field.key : Field → String
  | .budget => "budget"
  | .keyFiles => "key_files"
  | .excludeSignatures => "exclude_signatures"
  | .ignore => "ignore"
  | .knowledgeDir => "knowledge_dir"
  | .depth => "signature_depth"
  | .autoKnowledge => "auto_knowledge"
  | .format => "code_map_format"
  | .annotations => "annotations"

/-- All fields, in the order in which they are checked. -/
def Field.all : List Field :=
  [.budget, .keyFiles, .excludeSignatures, .ignore, .knowledgeDir, .depth, .autoKnowledge, .format,
    .annotations]

/-- Settings with the value of one field, unless the value is unusable. -/
def set? (settings : Settings) (field : Field) (value : Datum) : Option Settings :=
  match field with
  | .budget => (budget? value).map fun x => { settings with budget := x }
  | .keyFiles => (patterns? value).map fun x => { settings with keyFiles := x }
  | .excludeSignatures => (patterns? value).map fun x => { settings with excludeSignatures := x }
  | .ignore => (patterns? value).map fun x => { settings with ignore := x }
  | .knowledgeDir => (filledText? value).map fun x =>
    { settings with knowledgeDir := x, knowledgeFlaw := value.flaw? }
  | .depth => (depth? value).map fun x => { settings with depth := x }
  | .autoKnowledge => (flag? value).map fun x => { settings with autoKnowledge := x }
  | .format => (format? value).map fun x => { settings with format := x }
  | .annotations => (annotations? value).map fun x => { settings with annotations := x }

/-- A warning that a value is unusable. -/
def unusable (file : String) (field : Field) (value : Datum) : String :=
  file ++ ": invalid " ++ field.key ++ " " ++ value.literal ++ "; using default"

/-- Takes one field over, with a warning if its value is unusable. A warning cannot show a value that
has no literal. -/
def take (file : String) (entries : List (Datum × Datum)) (state : Settings × List String)
    (field : Field) : Except Failure (Settings × List String) :=
  match Datum.lookup field.key entries with
  | none => .ok state
  | some value => match state.1.set? field value with
    | some settings => .ok (settings, state.2)
    | none => match value.hidden? with
      | none => .ok (state.1, state.2 ++ [unusable file field value])
      | some hindrance => .error hindrance.failure

/-- The settings that the entries of a file give, with warnings. -/
def ofEntries (file : String) (entries : List (Datum × Datum)) :
    Except Failure (Settings × List String) :=
  Field.all.foldlM (take file entries) ({ source := some file }, [])

/-! ## Files -/

/-- The names of a settings file; the first one that is there counts. -/
def fileNames : List String :=
  [".devctx.yaml", ".devctx.yml", ".devctx.json"]

/-- The entries that count: those under `context`, if there are any, else all. -/
def relevant (entries : List (Datum × Datum)) : List (Datum × Datum) :=
  match Datum.lookup "context" entries with
  | some (.map inner) => inner
  | _ => entries

/-- A warning that a file is not read. -/
def unreadable (file reason : String) : String :=
  "Failed to parse " ++ file ++ ": " ++ reason ++ "; using defaults"

/-- The settings in a file, with warnings. -/
def inFile (yaml : Data.Reader) (fs : FileSystem) (root : Path) (file : String) :
    Except Failure (Settings × List String) :=
  let p := root.child file
  match fs.readText p with
  | .error e => .ok ({ source := some file }, [unreadable file (e.message p)])
  | .ok s => match yaml s with
    | .error (.malformed reason) => .ok ({ source := some file }, [unreadable file reason])
    | .error (.fatal f _) => .error f
    | .ok .null => .ok ({ source := some file }, [])
    | .ok (.map entries) => ofEntries file (relevant entries)
    | .ok _ => .ok ({ source := some file },
        ["Invalid " ++ file ++ ": expected a mapping; using defaults"])

/-- The settings of the project at a root, with warnings. -/
def load (yaml : Data.Reader) (fs : FileSystem) (root : Path) : Except Failure (Settings × List String) := do
  match ← fileNames.findM? fun file => fs.leadsToFile (root.child file) with
  | some file => inFile yaml fs root file
  | none => return ({}, [])

end Settings

end Dossier

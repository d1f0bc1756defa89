import Dossier.Document.Markup
import Dossier.Outline.Basic
import Dossier.Settings

/-!
# The code map

The declarations of the files that matter most, within a budget. Files are taken in the order of
their rank. Each may use an even part of what is left; one that needs more is folded if that makes
it fit, and is left out otherwise.
-/

namespace Dossier.Document

open Outline (Declaration File)

/-! ## Rank -/

/-- How much a file matters; the first tier matters most. -/
inductive Tier where
  | entryPoint
  | service
  | general
  | schema
  | barrel
  | types
deriving DecidableEq, Repr

/-- The position of a tier. -/
def Tier.rank : Tier → Nat
  | .entryPoint => 0
  | .service => 1
  | .general => 2
  | .schema => 3
  | .barrel => 4
  | .types => 5

/-- Stems of files in which a program begins. -/
def entryStems : List String :=
  ["index", "main", "mod", "app", "server", "cli", "program", "lib", "__main__"]

/-- Words in the path of a file that offers a service. -/
def serviceWords : List String :=
  ["route", "router", "handler", "service", "controller", "api", "middleware", "resolver",
    "endpoint", "server", "command"]

/-- Stems of files that describe data. -/
def schemaStems : List String :=
  ["config", "configuration", "settings", "schema", "schemas", "constants", "consts", "env",
    "environment", "models"]

/-- Whether a file only passes on what others declare. -/
def isBarrel (entries : List Declaration) : Bool :=
  !entries.isEmpty && entries.all fun e => Text.startsWith e.name "re-export"

/-- Whether a file only declares types. -/
def isTypeOnly (path : String) (entries : List Declaration) : Bool :=
  Text.endsWith path ".d.ts" ||
    (!entries.isEmpty && entries.all fun e => e.kind == .interface || e.kind == .type)

/-- The name of a file up to its first dot, in lower case. -/
def stemOf (path : String) : String :=
  Text.beforeFirst '.' (Text.lower (Path.nameOf path))

/-- Characters between the words of a path. -/
def betweenWords (c : Char) : Bool :=
  c == '/' || c == '.' || c == '_' || c == '-'

/-- The words of a path, in lower case. -/
def wordsOf (path : String) : List String :=
  ((Text.splitChars betweenWords (Text.lower path).toList).filter (!·.isEmpty)).map String.ofList

/-- Whether a word names a service, in the singular or the plural. -/
def namesService (word : String) : Bool :=
  serviceWords.contains (Text.trimEnd (· == 's') word) || serviceWords.contains word

/-- How much a file matters. -/
def tierOf (path : String) (entries : List Declaration) : Tier :=
  if isBarrel entries then .barrel
  else if isTypeOnly path entries then .types
  else if entryStems.contains (stemOf path) ||
      (Path.ofText (Text.lower path)).parts.dropLast.contains "bin" then .entryPoint
  else if (wordsOf path).any namesService then .service
  else if schemaStems.contains (stemOf path) then .schema
  else .general

/-- A file with the declarations that are shown of it. -/
structure Listed where
  file : File
  entries : List Declaration
deriving DecidableEq, Repr, Inhabited

/-- The declarations of a file at a depth. -/
def selectEntries (depth : Depth) (file : File) : List Declaration :=
  match depth with
  | .all => file.entries
  | .exports => file.exportedEntries

/-- The tier of a file by the declarations that are shown of it. -/
def Listed.tier (x : Listed) : Tier :=
  tierOf x.file.path x.entries

/-- Order by tier and then by path. -/
def Listed.notAfter (x y : Listed) : Bool :=
  decide (x.tier.rank < y.tier.rank) ||
    (x.tier.rank == y.tier.rank && Text.notAfter x.file.path y.file.path)

/-- The files that have something to show, those that matter most first. -/
def prioritize (depth : Depth) (files : List File) : List Listed :=
  ((files.map fun file => ⟨file, selectEntries depth file⟩).filter
    fun x : Listed => !x.entries.isEmpty).mergeSort Listed.notAfter

/-! ## Text -/

/-- The first line that does not begin with the mark of a decorator, or else the first line. -/
def headOf (lines : List String) : String :=
  let isHead (line : String) : Bool := !Text.startsWith (Text.trimStart Text.isBlank line) "@"
  Text.stripEnd ((lines.find? isHead).getD (lines.headD ""))

/-- The signature of a declaration folded into one line, if it may be folded. -/
def folded (e : Declaration) : String :=
  let lines := Text.lines e.signature
  if !e.collapsible || lines.length ≤ 1 then e.signature
  else
    let head := headOf lines
    if Text.endsWith head "\x7b" then head ++ " ... \x7d" else head ++ " ..."

/-- A declaration by its kind, name and line. -/
def compact (e : Declaration) : String :=
  e.kind.name ++ " " ++ e.name ++ " (line " ++ Text.ofNat e.line ++ ")"

/-- The declarations of a file, one after the other. -/
def block (format : MapFormat) (fold : Bool) (entries : List Declaration) : String :=
  Text.joinLines (entries.map fun e => match format with
    | .compact => compact e
    | .signatures => if fold then folded e else e.signature)

/-- The part of the map about one file. -/
def mapEntry (format : MapFormat) (fold : Bool) (x : Listed) : String :=
  "### " ++ x.file.path ++ "\n" ++ fenced x.file.language (block format fold x.entries)

/-! ## Packing -/

/-- What stands between two parts of the map. -/
def mapSeparator : String := "\n\n"

/-- What becomes of a file. -/
inductive Outcome where
  | verbatim
  | folded
  | dropped
deriving DecidableEq, Repr

/-- A file and what becomes of it. -/
structure Placed where
  listed : Listed
  outcome : Outcome
  /-- What is added to the map, with the separator in front of it. -/
  piece : String
deriving DecidableEq, Repr

/-- Whether a file is on the map. -/
def Placed.isIncluded (p : Placed) : Bool :=
  p.outcome != .dropped

/-- What becomes of a file that may use `cap` tokens. -/
def placeOne (measure : Measure) (format : MapFormat) (cap : Nat) (separator : String) (x : Listed) :
    Placed :=
  let whole := separator ++ mapEntry format false x
  let short := separator ++ mapEntry format true x
  if measure whole ≤ cap then ⟨x, .verbatim, whole⟩
  else if format = .compact ∨ short = whole ∨ cap < measure short then ⟨x, .dropped, ""⟩
  else ⟨x, .folded, short⟩

/-- What becomes of files that have `remaining` tokens together; `first` tells that the map is still
empty. -/
def place (measure : Measure) (format : MapFormat) (remaining : Nat) (first : Bool) :
    List Listed → List Placed
  | [] => []
  | x :: rest =>
    let p := placeOne measure format (remaining / (rest.length + 1))
      (if first then "" else mapSeparator) x
    if p.isIncluded then
      p :: place measure format (remaining - measure p.piece) false rest
    else p :: place measure format remaining first rest

/-- The tokens that the files take if nothing is folded or left out. -/
def demandOf (measure : Measure) (format : MapFormat) : List Listed → Nat
  | [] => 0
  | x :: rest =>
    measure (mapEntry format false x) +
      (rest.map fun y => measure (mapSeparator ++ mapEntry format false y)).foldr (· + ·) 0

/-- A code map. -/
structure CodeMap where
  content : String
  tokens : Nat
  /-- The tokens that the whole map would take. -/
  demand : Nat
  included : List String
  collapsed : List String
  truncated : List String
deriving DecidableEq, Repr, Inhabited

/-- The paths of the files with an outcome. -/
def pathsWhere (keep : Outcome → Bool) (placed : List Placed) : List String :=
  (placed.filter fun p => keep p.outcome).map (·.listed.file.path)

/-- The map of some files within a budget. -/
def packCodeMap (measure : Measure) (depth : Depth) (format : MapFormat) (budget : Int)
    (files : List File) : CodeMap :=
  let ordered := prioritize depth files
  let placed := place measure format budget.toNat true ordered
  let content := String.join (placed.map (·.piece))
  { content
    tokens := measure content
    demand := demandOf measure format ordered
    included := pathsWhere (· != .dropped) placed
    collapsed := pathsWhere (· == .folded) placed
    truncated := pathsWhere (· == .dropped) placed }

end Dossier.Document

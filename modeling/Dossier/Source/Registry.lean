import Dossier.Keyed
import Dossier.Source.Language
import Dossier.Source.Node
import Dossier.Text.Codes

/-!
# Grammar registry

Grammars are loaded when they are first asked for. A registry remembers which loads succeeded and
which failed, so that no grammar is loaded twice, and keeps the reason of each failure. A language
that is not allowed is never loaded and leaves no reason. A source that has no encoding, or that a
loaded grammar cannot parse, leaves a reason as well. Sources are given by their codes.
-/

namespace Dossier

/-- Which grammars may be loaded, how, and what is known about the ones asked for so far. -/
structure Registry where
  allowed : List Language := Language.all
  load : Language → Except String Unit
  /-- What a loaded grammar makes of a source: an empty tree, unless something else is given. -/
  parser : Language → String → Except String Node := fun _ _ => .ok default
  known : List (Language × Bool) := []
  errors : List (Language × String) := []
  /-- The languages whose grammars were loaded, or could not be, in that order. -/
  loads : List Language := []

namespace Registry

/-- Loads a grammar and says whether that succeeded, with the registry afterwards. -/
def fetch (r : Registry) (language : Language) : Bool × Registry :=
  let r := { r with loads := r.loads ++ [language] }
  match r.load language with
  | .ok () => (true, r)
  | .error reason => (false, { r with errors := Keyed.put language reason r.errors })

/-- Whether a grammar is there, and the registry afterwards. -/
def request (r : Registry) (language : Language) : Bool × Registry :=
  match r.known.lookup language with
  | some there => (there, r)
  | none =>
    let (there, r) := if r.allowed.contains language then r.fetch language else (false, r)
    (there, { r with known := r.known ++ [(language, there)] })

/-- What a loaded grammar makes of a source, which is encoded first. -/
def treeOf (r : Registry) (language : Language) (source : List Nat) : Except String Node :=
  match Text.encode source with
  | .ok s => r.parser language s
  | .error e => .error ("UnicodeEncodeError: " ++ e.message)

/-- The tree of a source if there is one, and the registry afterwards. -/
def parse (r : Registry) (language : Language) (source : List Nat) : Option Node × Registry :=
  let (there, r) := r.request language
  if there then
    match r.treeOf language source with
    | .ok tree => (some tree, r)
    | .error reason => (none, { r with errors := Keyed.put language reason r.errors })
  else (none, r)

/-- The languages of a list whose grammars are there, and the registry afterwards. -/
def requestAll (r : Registry) : List Language → List Language × Registry
  | [] => ([], r)
  | language :: rest =>
    let (there, r) := r.request language
    let (more, r) := requestAll r rest
    (if there then language :: more else more, r)

/-- A question to the registry. -/
inductive Query where
  | has (language : Option Language)
  | parses (language : Option Language) (source : List Nat := [])
  | available
  | suffixes
  | failures
deriving DecidableEq, Repr

/-- What the registry says. -/
inductive Reply where
  | flag (yes : Bool)
  | languages (ls : List Language)
  | suffixes (xs : List String)
  | failures (reasons : List (Language × String))
deriving DecidableEq, Repr

/-- Answers a question, with the registry afterwards. -/
def answer (r : Registry) : Query → Reply × Registry
  | .has none | .parses none _ => (.flag false, r)
  | .has (some language) =>
    let (there, r) := r.request language
    (.flag there, r)
  | .parses (some language) source =>
    let (tree, r) := r.parse language source
    (.flag tree.isSome, r)
  | .available =>
    let (ls, r) := r.requestAll Language.all
    (.languages ls, r)
  | .suffixes =>
    let (ls, r) := r.requestAll Language.all
    (.suffixes (Language.sortedSuffixes ls), r)
  | .failures => (.failures r.errors, r)

/-- Answers questions one after the other. -/
def answers (r : Registry) : List Query → List Reply
  | [] => []
  | q :: qs =>
    let (reply, r) := r.answer q
    reply :: r.answers qs

end Registry

end Dossier

import Dossier.FileSystem.Probe
import Dossier.Text.Wildcard

/-!
# Expanding path patterns

A pattern below a directory is a list of components. A component with wildcards stands for every
entry whose name it matches, two stars for a directory and all real directories below it, any
other component for itself. All but the last component must lead to directories. What may not be
looked up is passed over.
-/

namespace Dossier.FileSystem

/-- A component of a pattern. -/
inductive Step where
  | exact (name : String)
  | wild (tokens : List Text.Wildcard.Token)
  | anyDepth
deriving DecidableEq, Repr

/-- The component that a text stands for. -/
def Step.ofText (s : String) : Except Failure Step :=
  if s = "**" then .ok .anyDepth
  else if Text.contains s "**" then .error .partialRecursion
  else if Text.Wildcard.isWild s then .ok (.wild (Text.Wildcard.tokens s.toList))
  else .ok (.exact s)

/-- How many components a pattern may have: they are read one inside another. -/
def maxSteps : Nat := 196

/-- The components of a pattern. -/
def stepsOf (pattern : String) : Except Failure (List Step) :=
  let p := Path.ofText pattern
  if p.isAbsolute then .error .absolutePattern
  else if p.parts.isEmpty then .error .emptyPattern
  else do
    let steps ← (p.parts.take maxSteps).mapM Step.ofText
    if maxSteps < p.parts.length then .error (.tooDeep .any) else return steps

/-- Whether a path leads to something; to a directory, if `inner` asks for one. -/
def reaches (fs : FileSystem) (inner : Bool) (p : Path) : Except Failure Bool :=
  fs.leadsTo (fun e => !inner || e.isDirectory) p

/-- Whether a component leads on to a path: it leads there, and the path may be looked up. -/
def passes (fs : FileSystem) (inner : Bool) (p : Path) : Except Failure Bool :=
  if fs.forbidden .follow p then .ok false else fs.reaches inner p

/-- Whether the components that follow may go on from an entry of a directory: to a directory, if
`inner` asks for one. Where nothing follows, the entry is not looked up. -/
def admits (fs : FileSystem) (inner : Bool) (p : Path) : Except Failure Bool :=
  if inner then do return (← fs.sought p).any Entry.isDirectory else .ok true

/-- The entries of the directory at `p` of which it is known whether they are directories: all but the
links that may not be followed. -/
def knownEntries (fs : FileSystem) (p : Path) (entries : List (String × Entry)) :
    List (String × Entry) :=
  entries.filter fun (name, e) => !(e.isLink && fs.forbidden .follow (p.child name))

/-- Asks of the entries of the directory at `p` whether they are directories, which only a link
with a name that is too long refuses to say. -/
def checkEntries (fs : FileSystem) (p : Path) (entries : List (String × Entry)) :
    Except Failure Unit :=
  entries.forM fun (name, e) => do
    if e.isLink then discard (fs.sought (p.child name))

mutual

/-- The path of an entry and those of all real directories below it; the listing of a directory
may be refused. -/
def directoriesBelow (denied : Path → Bool) (p : Path) : Entry → List Path
  | .directory entries => p :: if denied p then [] else directoriesAmong denied p entries
  | _ => []

/-- The paths of all real directories among some entries and below them. -/
def directoriesAmong (denied : Path → Bool) (p : Path) : List (String × Entry) → List Path
  | [] => []
  | (name, e) :: rest =>
    directoriesBelow denied (p.child name) e ++ directoriesAmong denied p rest

end

/-- A directory and all real directories below it. -/
def directoriesFrom (fs : FileSystem) (p : Path) : List Path :=
  match fs.stat p with
  | .ok e => directoriesBelow fs.denied.contains p e
  | .error _ => []

/-- The names in a directory that fit a wildcard; none if the listing is refused. If components
follow, every entry is asked whether it is a directory. -/
def fittingNames (fs : FileSystem) (p : Path) (inner : Bool) (tokens : List Text.Wildcard.Token) :
    Except Failure (List String) :=
  match fs.scan p with
  | .ok entries => do
    let entries := if inner then fs.knownEntries p entries else entries
    if inner then fs.checkEntries p entries
    return (entries.map (·.1)).filter fun name => Text.Wildcard.matchTokens tokens name.toList
  | .error .denied => .ok []
  | .error e => .error (.refused e p)

/-- How many levels of directories two stars go down. -/
def maxDescent : Nat := 980

/-- The paths that components stand for below a directory. -/
def expandSteps (fs : FileSystem) : List Step → Path → Except Failure (List Path)
  | [], p => .ok [p]
  | .exact name :: rest, p => do
    if ← fs.passes (!rest.isEmpty) (p.child name) then expandSteps fs rest (p.child name)
    else return []
  | .wild tokens :: rest, p => do
    let found ← (← fs.fittingNames p (!rest.isEmpty) tokens).mapM fun name => do
      if ← fs.admits (!rest.isEmpty) (p.child name) then expandSteps fs rest (p.child name)
      else return []
    return found.flatten
  | .anyDepth :: rest, p => do
    let found ← (fs.directoriesFrom p).mapM fun q => do
      if p.parts.length + maxDescent < q.parts.length then .error (.tooDeep .any)
      else
        let found ← expandSteps fs rest q
        -- Only then are the entries of the directory listed.
        if isOverlong q then .error (.refused .nameTooLong q) else return found
    return found.flatten

/-- Order of paths with the same root: by their components. -/
def notAfter (p q : Path) : Bool :=
  !decide (q.parts < p.parts)

/-- The paths that a pattern stands for below a directory, in order. -/
def expand (fs : FileSystem) (base : Path) (pattern : String) : Except Failure (List Path) := do
  let steps ← stepsOf pattern
  if ← fs.reaches true base then return (← fs.expandSteps steps base).mergeSort notAfter
  else return []

end Dossier.FileSystem

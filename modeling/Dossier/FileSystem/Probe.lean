import Dossier.Failure

/-!
# Asking what a path leads to

A path that leads nowhere is no failure, whatever the reason, with two exceptions: the system refuses
to look up a name or a path that is too long, and one that the program has no permission to look up.
That ends the run.
-/

namespace Dossier.FileSystem

/-- What a path leads to, or nothing if it leads nowhere, whether or not it may be looked up. -/
def sought (fs : FileSystem) (p : Path) : Except Failure (Option Entry) :=
  match fs.seek p with
  | .ok found => .ok found
  | .error e => .error (.refused e p)

/-- What a path leads to, or nothing if it leads nowhere. -/
def probed (fs : FileSystem) (p : Path) : Except Failure (Option Entry) :=
  if fs.forbidden .follow p then .error (.refused .denied p) else fs.sought p

/-- Whether a path leads to something that is as asked. -/
def leadsTo (fs : FileSystem) (asked : Entry → Bool) (p : Path) : Except Failure Bool := do
  return (← fs.probed p).any asked

/-- Whether a path leads anywhere. -/
def leadsAnywhere (fs : FileSystem) (p : Path) : Except Failure Bool :=
  fs.leadsTo (fun _ => true) p

/-- Whether a path leads to a regular file. -/
def leadsToFile (fs : FileSystem) (p : Path) : Except Failure Bool :=
  fs.leadsTo Entry.isFile p

/-- Whether a path leads to a directory. -/
def leadsToDirectory (fs : FileSystem) (p : Path) : Except Failure Bool :=
  fs.leadsTo Entry.isDirectory p

/-- Why the system does not say whether what stands at a path is a link, if it does not. -/
def silence? (fs : FileSystem) (p : Path) : Option FileError :=
  if isOverlong p then some .nameTooLong
  else if fs.forbidden .stay p then some .denied
  else none

/-- Asks whether what stands at a path is a link. -/
def askLink (fs : FileSystem) (p : Path) : Except Failure Unit :=
  match fs.silence? p with
  | some e => .error (.refused e p)
  | none => .ok ()

end Dossier.FileSystem

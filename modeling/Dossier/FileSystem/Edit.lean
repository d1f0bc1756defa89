import Dossier.FileSystem.Probe

/-!
# Changes to a file system

Each change gives a new file system. `place`, `ensureDirectory` and `erase` act on a location as it
stands; the others act on a path, follow links as the system does, and can be refused.
-/

namespace Dossier.FileSystem

/-! ## At a location -/

/-- Puts an entry at a location and makes the directories above it. -/
def place (fs : FileSystem) (location : Location) (e : Entry) : FileSystem :=
  { fs with entries := e.insert location fs.entries }

/-- Makes a directory at a location unless there is one. -/
def ensureDirectory (fs : FileSystem) (location : Location) : FileSystem :=
  match fs.at? location with
  | some (.directory _) => fs
  | _ => fs.place location (.directory [])

/-- Takes away what lies at a location, and all below it. -/
def erase (fs : FileSystem) (location : Location) : FileSystem :=
  { fs with entries := Entry.erase location fs.entries }

/-! ## At a path -/

/-- Makes one directory below one that exists. A link under its name is in the way, wherever the
link leads. -/
def makeDirectory (fs : FileSystem) (p : Path) : Except FileError FileSystem :=
  if isOverlong p then .error .nameTooLong
  else if p.parts = [] then .error .exists
  else do
    let parent ← fs.locate { p with parts := p.parts.dropLast }
    match fs.at? parent with
    | some (.directory entries) =>
      if p.name = ".." then .error .exists
      else if maxNameBytes < p.name.utf8ByteSize then .error .nameTooLong
      else if (entries.lookup p.name).isSome then .error .exists
      else .ok (fs.place (parent ++ [p.name]) (.directory []))
    | _ => .error .notDirectory

/-- Makes a directory and those above it, unless they exist. -/
def makeDirectories (fs : FileSystem) (root : String) :
    (reversed : List String) → Except Failure FileSystem
  | [] => .ok fs
  | name :: above =>
    let p : Path := ⟨root, (name :: above).reverse⟩
    match fs.makeDirectory p with
    | .ok fs => .ok fs
    | .error .missing => do
      let fs ← makeDirectories fs root above
      match fs.makeDirectory p with
      | .ok fs => .ok fs
      | .error e => if fs.isDirectory p then .ok fs else .error (.refused e p)
    | .error e => if fs.isDirectory p then .ok fs else .error (.refused e p)

/-- Makes the directory at a path and those above it, unless they exist. -/
def makePath (fs : FileSystem) (p : Path) : Except Failure FileSystem :=
  fs.makeDirectories p.root p.parts.reverse

/-- Makes the directories above a path. -/
def makeParents (fs : FileSystem) (p : Path) : Except Failure FileSystem :=
  fs.makeDirectories p.root p.parts.dropLast.reverse

/-- Writes a file, in the place that a link leads to if there is one, and makes the directories above
the path. -/
def writeBytes (fs : FileSystem) (p : Path) (bytes : ByteArray) : Except Failure FileSystem := do
  let fs ← fs.makeParents p
  match fs.locateAs .create p with
  | .ok location => match fs.at? location with
    | some (.directory _) => .error (.refused .isDirectory p)
    | some (.special _) => .error (.refused .noDevice p)
    | _ => .ok (fs.place location (.file bytes))
  | .error e => .error (.refused e p)

/-- Writes a text to a file and makes the directories above it. -/
def writeText (fs : FileSystem) (p : Path) (s : String) : Except Failure FileSystem :=
  fs.writeBytes p s.toUTF8

/-- Makes a link to `target` and the directories above it. -/
def makeLink (fs : FileSystem) (p : Path) (target : String) : Except Failure FileSystem := do
  let fs ← fs.makeParents p
  match fs.locate { p with parts := p.parts.dropLast } with
  | .ok parent =>
    if (fs.at? (parent ++ [p.name])).isSome then .error (.refused .exists p)
    else .ok (fs.place (parent ++ [p.name]) (.link target))
  | .error e => .error (.refused e p)

/-- Removes a file, a link or a directory with all that is in it. A link is removed itself and not
what it leads to. -/
def remove (fs : FileSystem) (p : Path) : Except Failure FileSystem :=
  match fs.locateAs .stay p with
  | .ok location => .ok (fs.erase location)
  | .error e => .error (.refused e p)

end Dossier.FileSystem

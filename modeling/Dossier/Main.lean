import Dossier.CommandLine.Run
import Dossier.Data.Yaml.Document

/-!
# The program

Takes a picture of the project on disk, runs the command on the picture, and carries out what the
outcome says. All decisions are taken by `CommandLine.run`.
-/

namespace Dossier.Program

/-- What lies on disk below a place, which directories cannot be listed, and what cannot be read. -/
structure Picture where
  entry : Option Entry := none
  denied : List Path := []
  unread : List Path := []

/-- Takes a picture of one entry of a directory. A link is kept as the place it leads to. -/
partial def pictureOf (here : Location) (found : IO.FS.DirEntry) : IO Picture := do
  let there := here ++ [found.fileName]
  match (← found.path.symlinkMetadata).type with
  | .file =>
    try return { entry := some (.file (← IO.FS.readBinFile found.path)) }
    catch _ => return { entry := some (.file ByteArray.empty), unread := [⟨"/", there⟩] }
  | .symlink =>
    try return { entry := some (.link (← IO.FS.realPath found.path).toString) }
    catch _ => return { entry := some (.link found.fileName) }
  | .dir =>
    let listed ← try pure (some (← found.path.readDir)) catch _ => pure none
    match listed with
    | none =>
      return { entry := some (.directory []), denied := [⟨"/", there⟩], unread := [⟨"/", there⟩] }
    | some inner =>
      let mut entries : List (String × Entry) := []
      let mut denied : List Path := []
      let mut unread : List Path := []
      for e in inner do
        let picture ← try pictureOf there e catch _ => pure {}
        entries := (picture.entry.map (e.fileName, ·)).toList ++ entries
        denied := denied ++ picture.denied
        unread := unread ++ picture.unread
      return { entry := some (.directory entries), denied, unread }
  | .other => return { entry := some (.special none) }

/-- The file system as far as a run needs it: the root of the project, and a link to it if it is
called by another name. -/
def snapshot (called : Path) : IO FileSystem := do
  let empty : FileSystem := {}
  try
    let real := Path.ofText (← IO.FS.realPath called.text).toString
    let above : IO.FS.DirEntry := ⟨(Path.mk "/" real.parts.dropLast).text, real.name⟩
    let picture ← pictureOf real.parts.dropLast above
    let fs := match picture.entry with
      | some e => empty.place real.parts e
      | none => empty
    let fs := if real.parts = called.parts then fs else fs.place called.parts (.link real.text)
    return { fs with
      denied := picture.denied
      forbidden := fun access p => access == .read && picture.unread.contains p }
  catch _ => return empty

/-- The path by which a user calls the project. -/
def calledPath (here home : Path) (args : List String) : Path :=
  let text := match CommandLine.readArguments args with
    | .ok invocation => invocation.root.getD "."
    | .error _ => "."
  match CommandLine.expandHome home (Path.ofText text) with
  | .ok p => ⟨"/", Path.cancelDots (here.join p).parts⟩
  | .error _ => here

/-- Writes a document to disk. -/
def write (p : Path) (text : String) : IO Unit := do
  IO.FS.createDirAll (Path.mk p.root p.parts.dropLast).text
  IO.FS.writeFile p.text text

end Dossier.Program

open Dossier in
/-- Runs the command that the arguments ask for. -/
def main (args : List String) : IO UInt32 := do
  let here := Path.ofText (← IO.currentDir).toString
  let home := Path.ofText ((← IO.getEnv "HOME").getD "/")
  let fs ← Program.snapshot (Program.calledPath here home args)
  let services : Document.Services :=
    { parse := fun _ _ => none, load := .error "RuntimeError", yaml := Data.Yaml.parse }
  match (CommandLine.run { fs, here, home, services } args).1 with
  | .error failure =>
    IO.eprintln failure.message
    return 1
  | .ok outcome =>
    IO.eprint outcome.reported
    if let some (p, text) := outcome.document then Program.write p text
    IO.print outcome.printed
    return outcome.code.toUInt32

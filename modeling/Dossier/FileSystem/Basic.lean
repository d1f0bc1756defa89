import Dossier.Keyed
import Dossier.Path.Basic
import Dossier.Text.Lines
import Dossier.Text.Quoted
import Dossier.Text.Utf8

/-!
# File systems

A file system is a tree of files, links and directories, with what is refused to the program. Nothing
here changes with time: a write gives a new file system. Components of a location are taken from the
root, and a canonical location is one without links and dots.
-/

namespace Dossier

/-- Why the system refuses an operation on a file. -/
inductive FileError where
  | missing
  | notDirectory
  | isDirectory
  | loop
  | nameTooLong
  | denied
  | exists
  | noDevice
deriving DecidableEq, Repr

namespace FileError

/-- The wording of a refusal. -/
def reason : FileError → String
  | .missing => "No such file or directory"
  | .notDirectory => "Not a directory"
  | .isDirectory => "Is a directory"
  | .loop => "Too many levels of symbolic links"
  | .nameTooLong => "File name too long"
  | .denied => "Permission denied"
  | .exists => "File exists"
  | .noDevice => "No such device or address"

/-- The number of a refusal. -/
def code : FileError → Nat
  | .missing => 2
  | .noDevice => 6
  | .denied => 13
  | .exists => 17
  | .notDirectory => 20
  | .isDirectory => 21
  | .nameTooLong => 36
  | .loop => 40

/-- The wording of a refusal with its number and the path. -/
def message (e : FileError) (p : Path) : String :=
  "[Errno " ++ Text.ofNat e.code ++ "] " ++ e.reason ++ ": " ++ Text.quoted p.text

end FileError

/-- What a directory holds under one name. -/
inductive Entry where
  | file (bytes : ByteArray)
  | link (target : String)
  | directory (entries : List (String × Entry))
  /-- A pipe, a socket or a device, with what comes of reading it: bytes, a refusal, or nothing if the
  reading never ends. -/
  | special (reading : Option (Except FileError ByteArray))
deriving Inhabited

/-- Where something is: the names from the root down to it. -/
abbrev Location := List String

/-- What the program may be forbidden to do at a path. -/
inductive Access where
  /-- Looking up what the path leads to. -/
  | follow
  /-- Looking at what stands there itself, which may be a link. -/
  | stay
  /-- Reading the file or the names of the directory that it leads to. -/
  | read
deriving DecidableEq, Repr

/-- A file system: what the root directory holds, the paths under which a directory refuses to be
scanned, and what the program has no permission to do. Under another path, such as one through a link,
a directory does not refuse. One that the program may not read refuses both. -/
structure FileSystem where
  entries : List (String × Entry) := []
  denied : List Path := []
  forbidden : Access → Path → Bool := fun _ _ => false
deriving Inhabited

namespace Entry

/-- Whether something is a directory itself, not a link to one. -/
def isDirectory : Entry → Bool
  | .directory _ => true
  | _ => false

/-- Whether something is a link. -/
def isLink : Entry → Bool
  | .link _ => true
  | _ => false

/-- Whether something is a regular file. -/
def isFile : Entry → Bool
  | .file _ => true
  | _ => false

/-- How many bytes something has by its own account: only files tell. -/
def size : Entry → Nat
  | .file bytes => bytes.size
  | _ => 0

/-- Whether something is neither a directory nor a link. -/
def isData (e : Entry) : Bool :=
  !e.isDirectory && !e.isLink

/-- What lies under `location` below an entry, without following links. -/
def find? (e : Entry) : Location → Option Entry
  | [] => some e
  | name :: rest => match e with
    | .directory entries => match entries.lookup name with
      | some inner => inner.find? rest
      | none => none
    | _ => none

/-- Puts an entry under a location; directories on the way are made as needed. -/
def insert (new : Entry) : Location → List (String × Entry) → List (String × Entry)
  | [], entries => entries
  | [name], entries => Keyed.put name new entries
  | name :: rest, entries =>
    let below := match entries.lookup name with
      | some (.directory inner) => inner
      | _ => []
    Keyed.put name (.directory (insert new rest below)) entries

/-- Takes the entry under a location away. -/
def erase : Location → List (String × Entry) → List (String × Entry)
  | [], entries => entries
  | [name], entries => entries.filter (·.1 != name)
  | name :: rest, entries => match entries.lookup name with
    | some (.directory inner) => Keyed.put name (.directory (erase rest inner)) entries
    | _ => entries

end Entry

namespace FileSystem

/-- The root directory. -/
def top (fs : FileSystem) : Entry :=
  .directory fs.entries

/-- What lies at a canonical location. -/
def at? (fs : FileSystem) (location : Location) : Option Entry :=
  fs.top.find? location

/-- How many links one look-up follows. -/
def maxLinks : Nat := 40

/-- How many bytes a name may have. -/
def maxNameBytes : Nat := 255

/-- How many bytes the text of a path may have. -/
def maxPathBytes : Nat := 4095

/-- Whether the text of a path is too long for the system. -/
def isOverlong (p : Path) : Bool :=
  decide (maxPathBytes < p.text.utf8ByteSize)

/-- The components of a link's target; a slash at the end asks for a directory. -/
def targetParts (target : String) : List String :=
  (Text.split '/' target).filter (· != "") ++ if Text.endsWith target "/" then ["."] else []

/-- What a look-up does at the end of a path. -/
inductive Ending where
  /-- It follows a link. -/
  | follow
  /-- It stays at a link. -/
  | stay
  /-- It follows a link and stops at a name that its directory does not have yet. -/
  | create
deriving DecidableEq, Repr

/-- Walks from the canonical location `here` along `rest` and follows links, at the end as `ending`
says. -/
def walk (fs : FileSystem) (ending : Ending) (links : Nat) (here : Location) (rest : List String) :
    Except FileError Location :=
  match rest with
  | [] => .ok here
  | name :: rest =>
    match fs.at? here with
    | some (.directory entries) =>
      if name = "." then walk fs ending links here rest
      else if name = ".." then walk fs ending links here.dropLast rest
      else if maxNameBytes < name.utf8ByteSize then .error .nameTooLong
      else match entries.lookup name with
        | none => if rest = [] ∧ ending = .create then .ok (here ++ [name]) else .error .missing
        | some (.link target) =>
          if rest = [] ∧ ending = .stay then .ok (here ++ [name])
          else match links with
            | 0 => .error .loop
            | links + 1 =>
              let start := if Text.startsWith target "/" then [] else here
              walk fs ending links start (targetParts target ++ rest)
        | some _ => walk fs ending links (here ++ [name]) rest
    | some _ => .error .notDirectory
    | none => .error .missing
termination_by (links, rest.length)

/-- The canonical location of a path; what happens at its end is for `ending` to say. -/
def locateAs (fs : FileSystem) (ending : Ending) (p : Path) : Except FileError Location :=
  if isOverlong p then .error .nameTooLong else fs.walk ending maxLinks [] p.parts

/-- The canonical location of a path, all links followed. -/
def locate (fs : FileSystem) (p : Path) : Except FileError Location :=
  fs.locateAs .follow p

/-- What a path leads to, all links followed. -/
def stat (fs : FileSystem) (p : Path) : Except FileError Entry := do
  let location ← fs.locate p
  match fs.at? location with
  | some e => .ok e
  | none => .error .missing

/-- What a path leads to, all links followed, if it may be looked up. -/
def look (fs : FileSystem) (p : Path) : Except FileError Entry :=
  if fs.forbidden .follow p then .error .denied else fs.stat p

/-- What a path leads to, or nothing if it leads nowhere, whether or not it may be looked up. Only a
name that is too long is an error. -/
def seek (fs : FileSystem) (p : Path) : Except FileError (Option Entry) :=
  if p.parts.any (·.toList.contains '\x00') then .ok none
  else match fs.stat p with
    | .ok e => .ok (some e)
    | .error .nameTooLong => .error .nameTooLong
    | .error _ => .ok none

/-- What a path leads to, or nothing if it leads nowhere. That it may not be looked up is an error, and
so is a name that is too long. -/
def probe (fs : FileSystem) (p : Path) : Except FileError (Option Entry) :=
  if fs.forbidden .follow p then .error .denied else fs.seek p

/-- Whether a path leads to a directory. -/
def isDirectory (fs : FileSystem) (p : Path) : Bool :=
  (fs.look p).toOption.any Entry.isDirectory

/-- The entries of the directory a path leads to, listed whether or not that is refused. -/
def entriesOf (fs : FileSystem) (p : Path) : Except FileError (List (String × Entry)) := do
  match ← fs.stat p with
  | .directory entries => .ok entries
  | _ => .error .notDirectory

/-- The entries of the directory a path leads to, unless its scan is refused under that path. -/
def scan (fs : FileSystem) (p : Path) : Except FileError (List (String × Entry)) :=
  if fs.denied.contains p then .error .denied else fs.entriesOf p

/-- The names in the directory a path leads to, if it may be read. -/
def namesIn (fs : FileSystem) (p : Path) : Except FileError (List String) :=
  if fs.forbidden .read p then .error .denied else (fs.entriesOf p).map (·.map (·.1))

/-- Why a file has no text. -/
inductive ReadError where
  | refused (e : FileError)
  /-- The reading never ends. -/
  | endless
  | undecodable (e : Text.Utf8.DecodeError)
deriving DecidableEq, Repr

/-- The wording of a failed read of the file at a path. -/
def ReadError.message (e : ReadError) (p : Path) : String :=
  match e with
  | .refused e => e.message p
  | .endless => "Reading never ends: " ++ Text.quoted p.text
  | .undecodable e => e.message

/-- The bytes of the file a path leads to, if it may be read. -/
def readBytes (fs : FileSystem) (p : Path) : Except ReadError ByteArray :=
  if fs.forbidden .read p then .error (.refused .denied)
  else match fs.stat p with
    | .ok (.file bytes) => .ok bytes
    | .ok (.directory _) => .error (.refused .isDirectory)
    | .ok (.link _) => .error (.refused .loop)
    | .ok (.special none) => .error .endless
    | .ok (.special (some (.ok bytes))) => .ok bytes
    | .ok (.special (some (.error e))) => .error (.refused e)
    | .error e => .error (.refused e)

/-- The text of the file a path leads to, every line break a line feed. -/
def readText (fs : FileSystem) (p : Path) : Except ReadError String :=
  match fs.readBytes p with
  | .error e => .error e
  | .ok bytes => match Text.Utf8.decode bytes with
    | .error e => .error (.undecodable e)
    | .ok s => .ok (Text.unifyNewlines s)

end FileSystem

end Dossier

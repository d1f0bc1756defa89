import Dossier.FileSystem.Basic
import Dossier.Text.Codes

/-!
# Failures

What ends a run without a result. Everything else that goes wrong is a warning and the run goes on.
-/

namespace Dossier

/-- What was being read when it turned out to be nested too deeply. -/
inductive Nesting where
  | list
  | mapping
  | any
deriving DecidableEq, Repr

/-- An option that was left without a value which the run needs. -/
inductive Blank where
  | root
  | budget
  | workers
  | treeBudget
  | treeDepth
deriving DecidableEq, Repr

/-- Why a run has no result. -/
inductive Failure where
  /-- There is nothing at the root of the project. -/
  | rootMissing (root : Path)
  /-- The root of the project is not a directory. -/
  | rootNotDirectory (root : Path)
  /-- The root of the project cannot be listed. -/
  | rootUnreadable (root : Path) (e : FileError)
  /-- A workspace pattern in which two stars are only a part of a component. -/
  | partialRecursion
  /-- A workspace pattern that starts at a root. -/
  | absolutePattern
  /-- A workspace pattern without a component. -/
  | emptyPattern
  /-- A manifest lists members by a value that has none; the kind of the value. -/
  | notIterable (kind : String)
  /-- A manifest is not UTF-8. -/
  | undecodable (e : Text.Utf8.DecodeError)
  /-- A path goes round in a circle of links. -/
  | linkLoop (p : Path)
  /-- A path holds the character that ends a path for the system. -/
  | nulInPath
  /-- A path holds a code that has no encoding. -/
  | unencodable (e : Text.EncodeError)
  /-- A path starts in the home of a user who is not known. -/
  | unknownHome
  /-- The system refuses an operation that is not optional. -/
  | refused (e : FileError) (p : Path)
  /-- Reading a file never ends. -/
  | endless (p : Path)
  /-- A file does not lie below the root of the project. -/
  | notBelow (p root : Path)
  /-- A date that the calendar does not have. -/
  | badDate (reason : String)
  /-- A numeral with more digits than are read. -/
  | longNumeral (digits : Nat)
  /-- A number that has to be shown and has more digits than are shown. -/
  | longNumber
  /-- A numeral that has the mark of a base and no digit. -/
  | emptyNumeral (base : Nat)
  /-- A whole number that is too large for a double. -/
  | numberOutOfRange
  /-- A code of a character beyond the last one. -/
  | noSuchCharacter
  /-- A code of a character that is too large to be looked up. -/
  | codeOutOfRange
  /-- Something is nested more deeply than it is read or followed. -/
  | tooDeep (nesting : Nesting)
  /-- A reader gives up on a text in its own words. -/
  | reader (kind reason : String)
  /-- A value that is needed was left blank. -/
  | blank (option : Blank)
deriving DecidableEq, Repr

namespace Failure

/-- Whether the failure is about the root of the project. -/
def isAboutRoot : Failure → Bool
  | .rootMissing _ | .rootNotDirectory _ | .rootUnreadable _ _ => true
  | _ => false

/-- The wording of a failure. -/
def message : Failure → String
  | .rootMissing root => "Project root does not exist: " ++ root.text
  | .rootNotDirectory root => "Project root is not a directory: " ++ root.text
  | .rootUnreadable root e => "Cannot read project root " ++ root.text ++ ": " ++ e.reason
  | .partialRecursion => "Invalid pattern: '**' can only be an entire path component"
  | .absolutePattern => "Non-relative patterns are unsupported"
  | .emptyPattern => "tuple index out of range"
  | .notIterable kind => Text.quoted kind ++ " object is not iterable"
  | .undecodable e => e.message
  | .linkLoop p => "Symlink loop from " ++ Text.quoted p.text
  | .nulInPath => "embedded null byte"
  | .unencodable e => e.message
  | .unknownHome => "Could not determine home directory."
  | .refused e p => e.message p
  | .endless p => FileSystem.ReadError.endless.message p
  | .notBelow p root =>
    Text.quoted p.text ++ " is not in the subpath of " ++ Text.quoted root.text ++
      " OR one path is relative and the other is absolute."
  | .badDate reason => reason
  | .longNumeral digits =>
    "Exceeds the limit (" ++ Text.ofNat Text.maxDigits ++ " digits) for integer string " ++
      "conversion: value has " ++ Text.ofNat digits ++
      " digits; use sys.set_int_max_str_digits() to increase the limit"
  | .longNumber =>
    "Exceeds the limit (" ++ Text.ofNat Text.maxDigits ++ " digits) for integer string " ++
      "conversion; use sys.set_int_max_str_digits() to increase the limit"
  | .emptyNumeral base =>
    "invalid literal for int() with base " ++ Text.ofNat base ++ ": ''"
  | .numberOutOfRange => "int too large to convert to float"
  | .noSuchCharacter => "chr() arg not in range(0x110000)"
  | .codeOutOfRange => "Python int too large to convert to C int"
  | .tooDeep nesting => "maximum recursion depth exceeded" ++ match nesting with
    | .list => " while decoding a JSON array from a unicode string"
    | .mapping => " while decoding a JSON object from a unicode string"
    | .any => ""
  | .reader _ reason => reason
  | .blank option => match option with
    | .root => "expected str, bytes or os.PathLike object, not list"
    | .budget => "unsupported operand type(s) for -: 'list' and 'int'"
    | .workers => "'>' not supported between instances of 'list' and 'int'"
    | .treeBudget => "'<=' not supported between instances of 'int' and 'list'"
    | .treeDepth => "'<=' not supported between instances of 'list' and 'int'"

end Failure

end Dossier

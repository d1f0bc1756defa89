import Dossier.Data.Shortest
import Dossier.Failure
import Dossier.Text.Codes

/-!
# Data

The values that a manifest or a settings file holds, whatever its format. A mapping keeps the order
in which its keys first appear. A text is a text also if some of its codes are no characters; those
have stand-ins wherever the text is used.
-/

namespace Dossier.Data

/-- A day of the calendar. -/
structure Date where
  year : Nat
  month : Nat
  day : Nat
deriving DecidableEq, Repr

/-- A time of day, down to the millionth of a second. -/
structure Clock where
  hour : Nat
  minute : Nat
  second : Nat
  micro : Nat
deriving DecidableEq, Repr

/-! ## The calendar -/

/-- Whether a year has a 29 February. -/
def isLeap (year : Nat) : Bool :=
  year % 4 == 0 && (year % 100 != 0 || year % 400 == 0)

/-- How many days a month has. -/
def daysIn (year month : Nat) : Nat :=
  if month = 2 then (if isLeap year then 29 else 28)
  else if [4, 6, 9, 11].contains month then 30 else 31

/-- What is wrong with a date, if it is none. -/
def Date.complaint? (d : Date) : Option String :=
  if d.year = 0 then some ("year " ++ Text.ofNat d.year ++ " is out of range")
  else if d.month = 0 ∨ 12 < d.month then some "month must be in 1..12"
  else if d.day = 0 ∨ daysIn d.year d.month < d.day then some "day is out of range for month"
  else none

/-- What is wrong with a time of day, if it is none. -/
def Clock.complaint? (t : Clock) : Option String :=
  if 23 < t.hour then some "hour must be in 0..23"
  else if 59 < t.minute then some "minute must be in 0..59"
  else if 59 < t.second then some "second must be in 0..59"
  else none

/-- How many days of the calendar there are up to a date, the date included. -/
def Date.ordinal (d : Date) : Nat :=
  let years := d.year - 1
  let before := ((List.range (d.month - 1)).map fun i => daysIn d.year (i + 1)).foldr (· + ·) 0
  years * 365 + years / 4 - years / 100 + years / 400 + before + d.day

/-- The millionths of a second up to a moment of universal time, for a date and a time of day that
are ahead of it by some seconds. -/
def instant (d : Date) (t : Clock) (offset : Int) : Int :=
  let seconds : Int := d.ordinal * 86400 + t.hour * 3600 + t.minute * 60 + t.second
  (seconds - offset) * 1000000 + t.micro

/-! ## Values -/

/-- A value. -/
inductive Datum where
  | null
  | bool (b : Bool)
  | int (n : Int)
  | float (x : Float)
  | text (s : String)
  /-- A text some of whose codes are no characters. -/
  | codes (codes : List Nat)
  | date (d : Date)
  | clock (t : Clock)
  /-- A day and a time, with the seconds by which it is ahead of universal time. -/
  | moment (d : Date) (t : Clock) (offset : Option Int)
  | list (items : List Datum)
  | map (entries : List (Datum × Datum))
  /-- A value that nobody asks for: bytes, a set, a list or mapping that holds itself. It has a kind, a
  literal unless that cannot be shown, and what a loop goes through unless there is no such loop. -/
  | foreign (kind : String) (shown : Option String) (held : Option (List Datum))
deriving Inhabited

/-- Why a text has no value. -/
inductive Fault where
  /-- The text does not follow the format, for a reason. -/
  | malformed (reason : String := "not well formed")
  /-- The text follows the format and yet names something that does not exist. Such a failure is
  never about the root of a project. -/
  | fatal (f : Failure) (notRoot : f.isAboutRoot = false)
deriving DecidableEq, Repr

namespace Fault

/-- The calendar does not have a date. -/
def badDate (reason : String) : Fault := .fatal (.badDate reason) rfl

/-- A numeral has too many digits. -/
def longNumeral (digits : Nat) : Fault := .fatal (.longNumeral digits) rfl

/-- A numeral has the mark of a base and no digit. -/
def emptyNumeral (base : Nat) : Fault := .fatal (.emptyNumeral base) rfl

/-- A whole number is too large for a double. -/
def numberOutOfRange : Fault := .fatal .numberOutOfRange rfl

/-- The code of a character lies beyond the last one. -/
def noSuchCharacter : Fault := .fatal .noSuchCharacter rfl

/-- The code of a character is too large to be looked up. -/
def codeOutOfRange : Fault := .fatal .codeOutOfRange rfl

/-- Something is nested too deeply. -/
def tooDeep (nesting : Nesting) : Fault := .fatal (.tooDeep nesting) rfl

end Fault

/-- What reads a text as a value. -/
abbrev Reader := String → Except Fault Datum

namespace Datum

/-- The text with some codes. -/
def ofCodes (codes : List Nat) : Datum :=
  if codes.all (·.isValidChar) then .text (String.ofList (codes.map Char.ofNat)) else .codes codes

/-! ## Looking at a value -/

/-- A text, if the value is one. -/
def text? : Datum → Option String
  | .text s => some s
  | .codes cs => some (Text.ofCodes cs)
  | _ => none

/-- A code of a text that has no form in a path, if there is one. Codes that stand for single bytes
have one. -/
def flaw? : Datum → Option Nat
  | .codes cs => cs.find? fun code => !code.isValidChar && !(0xDC80 ≤ code && code ≤ 0xDCFF)
  | _ => none

/-- The value under a text key of a list of pairs. -/
def lookup (key : String) (entries : List (Datum × Datum)) : Option Datum :=
  (entries.find? fun (k, _) => k.text? == some key).map (·.2)

/-- The value under a key of a mapping. -/
def get? (d : Datum) (key : String) : Option Datum :=
  match d with
  | .map entries => lookup key entries
  | _ => none

/-- Whether a value counts as nothing. -/
def isEmpty : Datum → Bool
  | .null => true
  | .bool b => !b
  | .int n => n == 0
  | .float x => x == 0.0
  | .text s => s == ""
  | .codes cs => cs.isEmpty
  | .list items => items.isEmpty
  | .map entries => entries.isEmpty
  | .foreign _ _ (some held) => held.isEmpty
  | _ => false

/-- The kind of a value, in the words of a failure. -/
def kindName : Datum → String
  | .null => "NoneType"
  | .bool _ => "bool"
  | .int _ => "int"
  | .float _ => "float"
  | .text _ | .codes _ => "str"
  | .date _ => "datetime.date"
  | .clock _ => "datetime.time"
  | .moment _ _ _ => "datetime.datetime"
  | .list _ => "list"
  | .map _ => "dict"
  | .foreign kind _ _ => kind

/-- What a loop over the value goes through: the items of a list, the keys of a mapping, the
characters of a text. -/
def elements (d : Datum) : Except Failure (List Datum) :=
  match d with
  | .list items => .ok items
  | .map entries => .ok (entries.map (·.1))
  | .text s => .ok (s.toList.map fun c => .text (String.singleton c))
  | .codes cs => .ok (cs.map fun code => ofCodes [code])
  | .foreign _ _ (some held) => .ok held
  | other => .error (.notIterable other.kindName)

/-- What a loop goes through if the value is missing or counts as nothing: nothing. -/
def elementsOrNone (d? : Option Datum) : Except Failure (List Datum) :=
  match d? with
  | none => .ok []
  | some d => if d.isEmpty then .ok [] else d.elements

/-! ## Mappings -/

/-- The whole number as which a key counts, if it counts as one. Truth values do. -/
def keyNumber? : Datum → Option Int
  | .bool b => some (if b then 1 else 0)
  | .int n => some n
  | .float x => Shortest.whole? x
  | _ => none

/-- Whether two doubles are the same key: not-a-number is one key. -/
def sameFloat (x y : Float) : Bool :=
  x == y || (x.isNaN && y.isNaN)

/-- Whether two keys are the same. Numbers are if they are equal, whatever their kinds, and moments
with a difference to universal time are if they are at the same time. -/
def sameKey (a b : Datum) : Bool :=
  match a, b with
  | .null, .null => true
  | .text s, .text t => s == t
  | .codes s, .codes t => s == t
  | .date d, .date e => d == e
  | .clock t, .clock u => t == u
  | .moment d t none, .moment e u none => d == e && t == u
  | .moment d t (some o), .moment e u (some p) => instant d t o == instant e u p
  | .float x, .float y => sameFloat x y
  | a, b => match a.keyNumber?, b.keyNumber? with
    | some m, some n => m == n
    | _, _ => false

/-- Puts a value under a key: in the place of an earlier value, or at the end. -/
def put (key value : Datum) : List (Datum × Datum) → List (Datum × Datum)
  | [] => [(key, value)]
  | (k, v) :: rest =>
    if sameKey k key then (k, value) :: rest else (k, v) :: put key value rest

/-! ## Literals -/

/-- A span of time as a literal. -/
def spanLiteral (seconds : Int) : String :=
  let days := seconds.fdiv 86400
  let rest := seconds.fmod 86400
  let parts := (if days = 0 then [] else ["days=" ++ Text.ofInt days]) ++
    (if rest = 0 then [] else ["seconds=" ++ Text.ofInt rest])
  "datetime.timedelta(" ++ (if parts.isEmpty then "0" else String.intercalate ", " parts) ++ ")"

/-- A difference to universal time as a literal. -/
def zoneLiteral (seconds : Int) : String :=
  if seconds = 0 then "datetime.timezone.utc"
  else "datetime.timezone(" ++ spanLiteral seconds ++ ")"

/-- The numbers of a time of day; seconds and millionths only if they are not zero. -/
def clockNumbers (t : Clock) : List Nat :=
  [t.hour, t.minute] ++
    if t.micro ≠ 0 then [t.second, t.micro] else if t.second ≠ 0 then [t.second] else []

/-- Numbers separated by commas. -/
def numbersText (ns : List Nat) : String :=
  String.intercalate ", " (ns.map Text.ofNat)

mutual

/-- A value as a literal on one line. -/
def literal : Datum → String
  | .null => "None"
  | .bool true => "True"
  | .bool false => "False"
  | .int n => Text.ofInt n
  | .float x => Shortest.text x
  | .text s => Text.quoted s
  | .codes cs => Text.quotedCodes cs
  | .date d => "datetime.date(" ++ numbersText [d.year, d.month, d.day] ++ ")"
  | .clock t => "datetime.time(" ++ numbersText (clockNumbers t) ++ ")"
  | .moment d t offset =>
    "datetime.datetime(" ++ numbersText ([d.year, d.month, d.day] ++ clockNumbers t) ++
      (match offset with
        | some seconds => ", tzinfo=" ++ zoneLiteral seconds
        | none => "") ++ ")"
  | .list items => "[" ++ String.intercalate ", " (itemLiterals items) ++ "]"
  | .map entries => "\x7b" ++ String.intercalate ", " (entryLiterals entries) ++ "\x7d"
  | .foreign _ shown _ => shown.getD ""

/-- The items of a list as literals. -/
def itemLiterals : List Datum → List String
  | [] => []
  | item :: rest => literal item :: itemLiterals rest

/-- The entries of a mapping as literals. -/
def entryLiterals : List (Datum × Datum) → List String
  | [] => []
  | (key, value) :: rest => (literal key ++ ": " ++ literal value) :: entryLiterals rest

end

/-- Why a value has no literal. -/
inductive Hindrance where
  | longNumber
  | nesting
deriving DecidableEq, Repr

/-- The failure of showing a value. -/
def Hindrance.failure : Hindrance → Failure
  | .longNumber => .longNumber
  | .nesting => .tooDeep .any

/-- How many lists and mappings may be nested in a value that is shown. -/
def maxShown : Nat := 987

mutual

/-- Why a value cannot be shown, with room for some levels of nesting: a number in it has more digits
than are shown, or there is no room. -/
def hindrance? (room : Nat) : Datum → Option Hindrance
  | .int n => if n.natAbs < Nat.pow 10 Text.maxDigits then none else some .longNumber
  | .list items => match room with
    | 0 => some .nesting
    | room + 1 => itemsHindrance? room items
  | .map entries => match room with
    | 0 => some .nesting
    | room + 1 => entriesHindrance? room entries
  | .foreign _ none _ => some .longNumber
  | _ => none

/-- Why the items of a list cannot be shown. -/
def itemsHindrance? (room : Nat) : List Datum → Option Hindrance
  | [] => none
  | item :: rest => hindrance? room item <|> itemsHindrance? room rest

/-- Why the entries of a mapping cannot be shown. -/
def entriesHindrance? (room : Nat) : List (Datum × Datum) → Option Hindrance
  | [] => none
  | (key, value) :: rest =>
    hindrance? room key <|> hindrance? room value <|> entriesHindrance? room rest

end

/-- Why a value has no literal. -/
def hidden? (d : Datum) : Option Hindrance :=
  hindrance? maxShown d

/-- Whether a value has a literal. -/
def isShowable (d : Datum) : Bool :=
  d.hidden?.isNone

end Datum

end Dossier.Data

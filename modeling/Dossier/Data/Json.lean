import Dossier.Data.Datum

/-!
# JSON

Reading and writing. A text is read as the standard says, except that `NaN`, `Infinity` and
`-Infinity` are numbers too; of several values under one key the last one counts. Values are read up
to `maxNesting` levels deep. Writing uses ASCII only.
-/

namespace Dossier.Data.Json

/-! ## Reading -/

/-- Blanks between tokens. -/
def isSpace (c : Char) : Bool :=
  c == ' ' || c == '\t' || c == '\n' || c == '\r'

/-- Drops the blanks before a token. -/
def skip (cs : List Char) : List Char :=
  cs.dropWhile isSpace

/-- The value of a hexadecimal digit. -/
def hexDigit? (c : Char) : Option Nat :=
  if c.isDigit then some (c.toNat - '0'.toNat)
  else if 'a' ≤ c && c ≤ 'f' then some (c.toNat - 'a'.toNat + 10)
  else if 'A' ≤ c && c ≤ 'F' then some (c.toNat - 'A'.toNat + 10)
  else none

/-- The value of the first `n` characters as hexadecimal digits. -/
def hexNumber? (n : Nat) (cs : List Char) : Option Nat :=
  if (cs.take n).length = n then
    (cs.take n).foldlM (fun total c => (hexDigit? c).map (16 * total + ·)) 0
  else none

/-- The character of an escape of one letter. -/
def simpleEscape? : Char → Option Char
  | '"' => some '"'
  | '\\' => some '\\'
  | '/' => some '/'
  | 'b' => some '\x08'
  | 'f' => some '\x0c'
  | 'n' => some '\n'
  | 'r' => some '\r'
  | 't' => some '\t'
  | _ => none

/-- The code of an escape of four digits, joined with the escape after it if the two form a pair, and
how many characters the second one takes. -/
def unitEscape (unit : Nat) (after : List Char) : Nat × Nat :=
  if 0xD800 ≤ unit ∧ unit < 0xDC00 then
    match after with
    | '\\' :: 'u' :: more => match hexNumber? 4 more with
      | some low =>
        if 0xDC00 ≤ low ∧ low < 0xE000 then
          (0x10000 + (unit - 0xD800) * 0x400 + (low - 0xDC00), 6)
        else (unit, 0)
      | none => (unit, 0)
    | _ => (unit, 0)
  else (unit, 0)

/-- The text up to the closing quote; `done` are the codes read so far, in reverse. -/
def readString (fuel : Nat) (done : List Nat) (cs : List Char) : Except Fault (Datum × List Char) :=
  match fuel, cs with
  | 0, _ | _, [] => .error .malformed
  | fuel + 1, c :: cs =>
    if c = '"' then .ok (.ofCodes done.reverse, cs)
    else if c.toNat < 32 then .error .malformed
    else if c = '\\' then
      match cs with
      | 'u' :: rest => match hexNumber? 4 rest with
        | some unit =>
          let (code, n) := unitEscape unit (rest.drop 4)
          readString fuel (code :: done) (rest.drop (4 + n))
        | none => .error .malformed
      | e :: rest => match simpleEscape? e with
        | some d => readString fuel (d.toNat :: done) rest
        | none => .error .malformed
      | [] => .error .malformed
    else readString fuel (c.toNat :: done) cs

/-- The value of decimal digits. -/
def decimal (ds : List Char) : Nat :=
  ds.foldl (fun n d => 10 * n + (d.toNat - '0'.toNat)) 0

/-- The fraction digits after a point, if any follow. -/
def fraction (cs : List Char) : List Char × List Char :=
  match cs with
  | '.' :: rest =>
    let ds := rest.takeWhile Char.isDigit
    if ds.isEmpty then ([], cs) else (ds, rest.dropWhile Char.isDigit)
  | _ => ([], cs)

/-- The exponent after a letter, if digits follow. -/
def exponent? (cs : List Char) : Option (Int × List Char) :=
  match cs with
  | e :: rest =>
    if e = 'e' ∨ e = 'E' then
      let (negative, digits) := match rest with
        | '-' :: more => (true, more)
        | '+' :: more => (false, more)
        | _ => (false, rest)
      let ds := digits.takeWhile Char.isDigit
      if ds.isEmpty then none
      else
        let n : Int := decimal (ds.dropWhile (· == '0') |>.take 9)
        some (if negative then -n else n, digits.dropWhile Char.isDigit)
    else none
  | [] => none

/-- The number whose digits begin here. -/
def readNumber (negative : Bool) (cs : List Char) : Except Fault (Datum × List Char) :=
  let whole := match cs with
    | '0' :: _ => ['0']
    | _ => cs.takeWhile Char.isDigit
  let rest := cs.drop whole.length
  if whole.isEmpty then .error .malformed
  else
    let (places, afterPlaces) := fraction rest
    let exponent? := exponent? afterPlaces
    let after := match exponent? with
      | some (_, more) => more
      | none => afterPlaces
    if places.isEmpty && exponent?.isNone then
      if Text.maxDigits < whole.length then .error (.longNumeral whole.length)
      else
        let n : Int := decimal whole
        .ok (.int (if negative then -n else n), after)
    else
      let e := (exponent?.map (·.1)).getD 0
      let x := Shortest.nearest (decimal (whole ++ places)) (e - places.length)
      .ok (.float (if negative then -x else x), after)

/-- The rest after a word. -/
def word? (w : String) (cs : List Char) : Option (List Char) :=
  if w.toList.isPrefixOf cs then some (cs.drop w.length) else none

/-- How many lists and mappings may be nested. -/
def maxNesting : Nat := 985

/-- One level of nesting less, if there is one left. -/
def deeper (nesting : Nesting) : Nat → Except Fault Nat
  | 0 => .error (.tooDeep nesting)
  | room + 1 => .ok room

mutual

/-- The value that begins here, with room for some levels of nesting; blanks before it are gone. -/
def readValue (fuel room : Nat) (cs : List Char) : Except Fault (Datum × List Char) :=
  match fuel with
  | 0 => .error .malformed
  | fuel + 1 =>
    match cs with
    | '"' :: rest => readString fuel.succ [] rest
    | '[' :: rest => do
      let room ← deeper .list room
      match skip rest with
      | ']' :: rest => return (.list [], rest)
      | rest => readItems fuel room [] rest
    | '\x7b' :: rest => do
      let room ← deeper .mapping room
      match skip rest with
      | '\x7d' :: rest => return (.map [], rest)
      | rest => readEntries fuel room [] rest
    | '-' :: rest => match word? "Infinity" rest with
      | some rest => .ok (.float (-1.0 / 0.0), rest)
      | none => readNumber true rest
    | c :: _ =>
      if c.isDigit then readNumber false cs
      else match word? "null" cs, word? "true" cs, word? "false" cs with
        | some rest, _, _ => .ok (.null, rest)
        | _, some rest, _ => .ok (.bool true, rest)
        | _, _, some rest => .ok (.bool false, rest)
        | none, none, none => match word? "NaN" cs, word? "Infinity" cs with
          | some rest, _ => .ok (.float (0.0 / 0.0), rest)
          | _, some rest => .ok (.float (1.0 / 0.0), rest)
          | none, none => .error .malformed
    | [] => .error .malformed

/-- The items of a list up to its end; `done` are those read so far, in reverse. -/
def readItems (fuel room : Nat) (done : List Datum) (cs : List Char) :
    Except Fault (Datum × List Char) :=
  match fuel with
  | 0 => .error .malformed
  | fuel + 1 => do
    let (item, rest) ← readValue fuel room (skip cs)
    match skip rest with
    | ',' :: rest => readItems fuel room (item :: done) rest
    | ']' :: rest => return (.list (item :: done).reverse, rest)
    | _ => .error .malformed

/-- The entries of a mapping up to its end; `done` are those read so far. -/
def readEntries (fuel room : Nat) (done : List (Datum × Datum)) (cs : List Char) :
    Except Fault (Datum × List Char) :=
  match fuel with
  | 0 => .error .malformed
  | fuel + 1 =>
    match skip cs with
    | '"' :: rest => do
      let (key, rest) ← readString fuel.succ [] rest
      match skip rest with
      | ':' :: rest =>
        let (value, rest) ← readValue fuel room (skip rest)
        let done := Datum.put key value done
        match skip rest with
        | ',' :: rest => readEntries fuel room done rest
        | '\x7d' :: rest => return (.map done, rest)
        | _ => .error .malformed
      | _ => .error .malformed
    | _ => .error .malformed

end

/-- Reads a text that holds one value, nested up to `room` levels deep, and nothing else. -/
def parseWithin (room : Nat) (s : String) : Except Fault Datum := do
  let cs := skip s.toList
  let (value, rest) ← readValue (2 * cs.length + 1) room cs
  if (skip rest).isEmpty then return value else .error .malformed

/-- Reads a text that holds one value and nothing else. -/
def parse (s : String) : Except Fault Datum :=
  parseWithin maxNesting s

/-! ## Writing -/

/-- One code unit as an escape. -/
def unitText (n : Nat) : List Char :=
  '\\' :: 'u' :: (Text.hex 4 n).toList

/-- How a character is written between quotes. -/
def quoteChar (c : Char) : List Char :=
  match c with
  | '"' => ['\\', '"']
  | '\\' => ['\\', '\\']
  | '\n' => ['\\', 'n']
  | '\r' => ['\\', 'r']
  | '\t' => ['\\', 't']
  | '\x08' => ['\\', 'b']
  | '\x0c' => ['\\', 'f']
  | c =>
    if 32 ≤ c.toNat && c.toNat < 127 then [c]
    else if c.toNat < 0x10000 then unitText c.toNat
    else
      let n := c.toNat - 0x10000
      unitText (0xD800 + n / 0x400) ++ unitText (0xDC00 + n % 0x400)

/-- A text between quotes. -/
def quoted (s : String) : String :=
  String.ofList ('"' :: s.toList.flatMap quoteChar ++ ['"'])

/-- How a code is written between quotes. -/
def quoteCode (code : Nat) : List Char :=
  if code.isValidChar then quoteChar (Char.ofNat code) else unitText code

/-- A text between quotes, given by its codes. -/
def quotedCodes (codes : List Nat) : String :=
  String.ofList ('"' :: codes.flatMap quoteCode ++ ['"'])

/-- The text of a key. -/
def keyText : Datum → String
  | .text s => quoted s
  | .codes cs => quotedCodes cs
  | .null => quoted "null"
  | .bool b => quoted (if b then "true" else "false")
  | other => quoted other.literal

/-- The text of a number that is not whole. -/
def floatText (x : Float) : String :=
  if x.isNaN then "NaN" else if x.isInf then (if x < 0.0 then "-Infinity" else "Infinity")
  else Shortest.text x

mutual

/-- A value over several lines, two blanks deeper for each level. -/
def write (indent : String) : Datum → String
  | .null => "null"
  | .bool b => if b then "true" else "false"
  | .int n => Text.ofInt n
  | .float x => floatText x
  | .list [] => "[]"
  | .list items =>
    let inner := indent ++ "  "
    "[\n" ++ String.intercalate ",\n" (writeItems inner items) ++ "\n" ++ indent ++ "]"
  | .map [] => "\x7b\x7d"
  | .map entries =>
    let inner := indent ++ "  "
    "\x7b\n" ++ String.intercalate ",\n" (writeEntries inner entries) ++ "\n" ++ indent ++ "\x7d"
  | .text s => quoted s
  | .codes cs => quotedCodes cs
  | other => quoted other.literal

/-- The items of a list, one a line. -/
def writeItems (indent : String) : List Datum → List String
  | [] => []
  | item :: rest => (indent ++ write indent item) :: writeItems indent rest

/-- The entries of a mapping, one a line. -/
def writeEntries (indent : String) : List (Datum × Datum) → List String
  | [] => []
  | (key, value) :: rest =>
    (indent ++ keyText key ++ ": " ++ write indent value) :: writeEntries indent rest

end

/-- A value over several lines. -/
def render (d : Datum) : String :=
  write "" d

end Dossier.Data.Json

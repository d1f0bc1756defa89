import Dossier.Data.Json

/-!
# TOML

Reading a TOML document. A table may be filled in several places as long as no place takes back
what another has fixed: a table with a header of its own is not opened twice, and an inline value is
never extended. Values are nested as deeply as there is room: a list takes two places and an inline
table three.
-/

namespace Dossier.Data.Toml

open Json (hexNumber?)

/-! ## Characters -/

/-- Blanks within a line. -/
def isSpace (c : Char) : Bool :=
  c == ' ' || c == '\t'

/-- Blanks and line feeds. -/
def isGap (c : Char) : Bool :=
  isSpace c || c == '\n'

/-- Control characters other than the tab. -/
def isControl (c : Char) : Bool :=
  (c.toNat < 32 && c != '\t') || c.toNat == 127

/-- Characters of a key without quotes. -/
def isBare (c : Char) : Bool :=
  c.isAlphanum || c == '-' || c == '_'

/-- Drops a comment up to the end of its line. -/
def skipComment (cs : List Char) : Except Fault (List Char) :=
  match cs with
  | '#' :: rest =>
    if (rest.takeWhile (· != '\n')).any isControl then .error .malformed
    else .ok (rest.dropWhile (· != '\n'))
  | _ => .ok cs

/-- Drops blanks, line feeds and comments. -/
def skipGap (fuel : Nat) (cs : List Char) : Except Fault (List Char) :=
  let cs := cs.dropWhile isGap
  match fuel, cs with
  | fuel + 1, '#' :: _ => do skipGap fuel (← skipComment cs)
  | _, _ => .ok cs

/-! ## Texts -/

/-- The character of an escape of one letter. -/
def simpleEscape? : Char → Option Char
  | 'b' => some '\x08'
  | 't' => some '\t'
  | 'n' => some '\n'
  | 'f' => some '\x0c'
  | 'r' => some '\r'
  | '"' => some '"'
  | '\\' => some '\\'
  | _ => none

/-- The character with a code of `n` hexadecimal digits. -/
def codeEscape? (n : Nat) (cs : List Char) : Option Char :=
  (hexNumber? n cs).bind fun code =>
    if code.isValidChar then some (Char.ofNat code) else none

/-- What an escape stands for, and what follows it. A backslash at the end of a line of a text over
several lines stands for nothing and takes the blanks after it. -/
def escape (multi : Bool) (cs : List Char) : Except Fault (List Char × List Char) :=
  match cs with
  | [] => .error .malformed
  | c :: rest =>
    if multi && c == '\n' then .ok ([], rest.dropWhile isGap)
    else if multi && isSpace c then
      match rest.dropWhile isSpace with
      | [] => .ok ([], [])
      | '\n' :: more => .ok ([], more.dropWhile isGap)
      | _ => .error .malformed
    else if c = 'u' then match codeEscape? 4 rest with
      | some d => .ok ([d], rest.drop 4)
      | none => .error .malformed
    else if c = 'U' then match codeEscape? 8 rest with
      | some d => .ok ([d], rest.drop 8)
      | none => .error .malformed
    else match simpleEscape? c with
      | some d => .ok ([d], rest)
      | none => .error .malformed

/-- A text up to its closing quotes; `done` are the characters read so far, in reverse. -/
def basicText (fuel : Nat) (multi : Bool) (done cs : List Char) :
    Except Fault (List Char × List Char) :=
  match fuel, cs with
  | 0, _ | _, [] => .error .malformed
  | fuel + 1, c :: rest =>
    if c = '"' then
      if !multi then .ok (done.reverse, rest)
      else if ['"', '"'].isPrefixOf rest then .ok (done.reverse, rest.drop 2)
      else basicText fuel multi ('"' :: done) rest
    else if c = '\\' then do
      let (ds, rest) ← escape multi rest
      basicText fuel multi (ds.reverse ++ done) rest
    else if isControl c && !(multi && c == '\n') then .error .malformed
    else basicText fuel multi (c :: done) rest

/-- The characters before the first place where `stop` begins, and what follows `stop`. -/
def untilText (stop : List Char) (done : List Char) : List Char → Option (List Char × List Char)
  | [] => none
  | c :: cs =>
    if stop.isPrefixOf (c :: cs) then some (done.reverse, (c :: cs).drop stop.length)
    else untilText stop (c :: done) cs

/-- A text between apostrophes. -/
def literalText (multi : Bool) (cs : List Char) : Except Fault (List Char × List Char) :=
  match untilText (if multi then ['\'', '\'', '\''] else ['\'']) [] cs with
  | some (text, rest) =>
    if text.any fun c => isControl c && !(multi && c == '\n') then .error .malformed
    else .ok (text, rest)
  | none => .error .malformed

/-- One or two quotes right after the closing quotes belong to the text. -/
def extraQuotes (q : Char) (text rest : List Char) : List Char × List Char :=
  match rest with
  | a :: b :: more =>
    if a = q ∧ b = q then (text ++ [q, q], more)
    else if a = q then (text ++ [q], b :: more) else (text, rest)
  | [a] => if a = q then (text ++ [q], []) else (text, rest)
  | [] => (text, rest)

/-- A text in any of the four kinds of quotes, the opening quote being the first character. -/
def quotedText (fuel : Nat) (cs : List Char) : Except Fault (List Char × List Char) :=
  match cs with
  | '"' :: '"' :: '"' :: rest => do
    let rest := if rest.head? = some '\n' then rest.tail else rest
    let (text, rest) ← basicText fuel true [] rest
    return extraQuotes '"' text rest
  | '"' :: rest => basicText fuel false [] rest
  | '\'' :: '\'' :: '\'' :: rest => do
    let rest := if rest.head? = some '\n' then rest.tail else rest
    let (text, rest) ← literalText true rest
    return extraQuotes '\'' text rest
  | '\'' :: rest => literalText false rest
  | _ => .error .malformed

/-! ## Keys -/

/-- One part of a key. -/
def keyPart (fuel : Nat) (cs : List Char) : Except Fault (String × List Char) :=
  match cs with
  | '"' :: rest => do
    let (text, rest) ← basicText fuel false [] rest
    return (String.ofList text, rest)
  | '\'' :: rest => do
    let (text, rest) ← literalText false rest
    return (String.ofList text, rest)
  | _ =>
    let bare := cs.takeWhile isBare
    if bare.isEmpty then .error .malformed
    else .ok (String.ofList bare, cs.dropWhile isBare)

/-- The parts of the key that begins here, separated by dots. -/
def key (fuel : Nat) (cs : List Char) : Except Fault (List String × List Char) :=
  match fuel with
  | 0 => .error .malformed
  | fuel + 1 => do
    let (part, rest) ← keyPart fuel.succ cs
    match rest.dropWhile isSpace with
    | '.' :: rest =>
      let (parts, rest) ← key fuel (rest.dropWhile isSpace)
      return (part :: parts, rest)
    | rest => return ([part], rest)

/-! ## Numbers and times -/

/-- Digits, of which two neighbours may have an underscore between them. -/
def grouped (isDigit : Char → Bool) : List Char → List Char × List Char
  | '_' :: c :: cs =>
    if isDigit c then
      let (ds, rest) := grouped isDigit cs
      (c :: ds, rest)
    else ([], '_' :: c :: cs)
  | c :: cs =>
    if isDigit c then
      let (ds, rest) := grouped isDigit cs
      (c :: ds, rest)
    else ([], c :: cs)
  | [] => ([], [])

/-- Digits that do not begin with an underscore. -/
def digits (isDigit : Char → Bool) (cs : List Char) : List Char × List Char :=
  if cs.head?.any isDigit then grouped isDigit cs else ([], cs)

/-- A number with the mark of a base. -/
def basedNumber? (cs : List Char) : Option (Datum × List Char) :=
  let read (base : Nat) (isDigit : Char → Bool) (rest : List Char) : Option (Datum × List Char) :=
    let (ds, rest) := digits isDigit rest
    if ds.isEmpty then none
    else
      let n := ds.foldl (fun n d => base * n + (Json.hexDigit? d).getD 0) 0
      some (.int n, rest)
  match cs with
  | '0' :: 'x' :: rest => read 16 (fun c => (Json.hexDigit? c).isSome) rest
  | '0' :: 'b' :: rest => read 2 (fun c => c == '0' || c == '1') rest
  | '0' :: 'o' :: rest => read 8 (fun c => '0' ≤ c && c ≤ '7') rest
  | _ => none

/-- A decimal number. -/
def decimalNumber (cs : List Char) : Except Fault (Datum × List Char) :=
  let (negative, cs) := match cs with
    | '-' :: rest => (true, rest)
    | '+' :: rest => (false, rest)
    | _ => (false, cs)
  let (whole, rest) := match cs with
    | '0' :: rest => (['0'], rest)
    | _ => digits Char.isDigit cs
  if whole.isEmpty then .error .malformed
  else
    let (places, afterPlaces) := match rest with
      | '.' :: more =>
        let (ds, after) := digits Char.isDigit more
        if ds.isEmpty then ([], rest) else (ds, after)
      | _ => ([], rest)
    let exponent? : Option (Int × List Char) := match afterPlaces with
      | e :: more =>
        if e = 'e' ∨ e = 'E' then
          let (minus, more) := match more with
            | '-' :: m => (true, m)
            | '+' :: m => (false, m)
            | _ => (false, more)
          let (ds, after) := digits Char.isDigit more
          if ds.isEmpty then none
          else
            let n : Int := Json.decimal (ds.dropWhile (· == '0') |>.take 9)
            some (if minus then -n else n, after)
        else none
      | [] => none
    if places.isEmpty && exponent?.isNone then
      if Text.maxDigits < whole.length then .error (.longNumeral whole.length)
      else
        let n : Int := Json.decimal whole
        .ok (.int (if negative then -n else n), rest)
    else
      let (e, after) := exponent?.getD (0, afterPlaces)
      let x := Shortest.nearest (Json.decimal (whole ++ places)) (e - places.length)
      .ok (.float (if negative then -x else x), after)

/-- The value of exactly `n` digits. -/
def fixedDigits? (n : Nat) (cs : List Char) : Option (Nat × List Char) :=
  let ds := cs.take n
  if ds.length = n ∧ ds.all Char.isDigit then some (Json.decimal ds, cs.drop n) else none

/-- The rest after one character. -/
def after? (c : Char) : List Char → Option (List Char)
  | d :: cs => if d = c then some cs else none
  | [] => none

/-- Millionths of a second from the digits after a point, as far as there are any. -/
def micros (cs : List Char) : Nat × List Char :=
  match cs with
  | '.' :: more =>
    let ds := more.takeWhile Char.isDigit
    if ds.isEmpty then (0, cs)
    else
      let six := ds.take 6
      (Json.decimal (six ++ List.replicate (6 - six.length) '0'), more.dropWhile Char.isDigit)
  | _ => (0, cs)

/-- A time of day. -/
def clock? (cs : List Char) : Option (Clock × List Char) := do
  let (hour, cs) ← fixedDigits? 2 cs
  let (minute, cs) ← fixedDigits? 2 (← after? ':' cs)
  let (second, cs) ← fixedDigits? 2 (← after? ':' cs)
  if 23 < hour ∨ 59 < minute ∨ 59 < second then none
  else
    let (micro, cs) := micros cs
    some (⟨hour, minute, second, micro⟩, cs)

/-- A difference to universal time. -/
def offset? (cs : List Char) : Option (Int × List Char) :=
  match cs with
  | 'Z' :: rest | 'z' :: rest => some (0, rest)
  | sign :: rest =>
    if sign = '+' ∨ sign = '-' then do
      let (hour, rest) ← fixedDigits? 2 rest
      let (minute, rest) ← fixedDigits? 2 (← after? ':' rest)
      if 23 < hour ∨ 59 < minute then none
      else
        let n : Int := hour * 3600 + minute * 60
        some (if sign = '-' then -n else n, rest)
    else none
  | [] => none

/-- A day. -/
def date? (cs : List Char) : Option (Date × List Char) := do
  let (year, cs) ← fixedDigits? 4 cs
  let (month, cs) ← fixedDigits? 2 (← after? '-' cs)
  let (day, cs) ← fixedDigits? 2 (← after? '-' cs)
  if month = 0 ∨ 12 < month ∨ day = 0 ∨ 31 < day then none
  else some (⟨year, month, day⟩, cs)

/-- A day, with a time if one follows. -/
def moment? (cs : List Char) : Option (Datum × List Char) := do
  let (date, rest) ← date? cs
  let timed? : Option (Clock × List Char) := match rest with
    | c :: more => if c = 'T' ∨ c = 't' ∨ c = ' ' then clock? more else none
    | [] => none
  match timed? with
  | none => some (.date date, rest)
  | some (clock, rest) => match offset? rest with
    | some (seconds, rest) => some (.moment date clock (some seconds), rest)
    | none => some (.moment date clock none, rest)

/-- Whether a day exists. -/
def exists? : Datum → Bool
  | .date d | .moment d _ _ => d.complaint?.isNone
  | _ => true

/-! ## Tables -/

/-- The entries of a table. -/
abbrev Table := List (Datum × Datum)

/-- Changes the table that a key leads to. Tables on the way are made as needed, and a list of
tables is entered at its last one if `lists` allows it. -/
def atKey (lists : Bool) (change : Table → Except Fault Table) :
    List String → Table → Except Fault Table
  | [], table => change table
  | k :: ks, table => match Datum.lookup k table with
    | none => do return table ++ [(.text k, .map (← atKey lists change ks []))]
    | some (.map inner) => do
      return Datum.put (.text k) (.map (← atKey lists change ks inner)) table
    | some (.list items) => match lists, items.getLast? with
      | true, some (.map inner) => do
        let inner ← atKey lists change ks inner
        return Datum.put (.text k) (.list (items.dropLast ++ [.map inner])) table
      | _, _ => .error .malformed
    | some _ => .error .malformed

/-- Adds a value under a key that must be new. -/
def addNew (k : String) (value : Datum) (table : Table) : Except Fault Table :=
  if (Datum.lookup k table).isSome then .error .malformed
  else .ok (table ++ [(.text k, value)])

/-- Adds an empty table to a list of tables. -/
def addTable (k : String) (table : Table) : Except Fault Table :=
  match Datum.lookup k table with
  | none => .ok (table ++ [(.text k, .list [.map []])])
  | some (.list items) => .ok (Datum.put (.text k) (.list (items ++ [.map []])) table)
  | some _ => .error .malformed

/-- Whether a value cannot be extended once it is written. -/
def isInline : Datum → Bool
  | .list _ | .map _ => true
  | _ => false

/-- Whether a key lies at or below one of the keys. -/
def isBelow (keys : List (List String)) (k : List String) : Bool :=
  keys.any (·.isPrefixOf k)

/-! ## Values -/

/-- Infinity and not-a-number, with an optional sign. -/
def special (cs : List Char) : Except Fault (Datum × List Char) :=
  let (negative, rest) := match cs with
    | '-' :: rest => (true, rest)
    | '+' :: rest => (false, rest)
    | _ => (false, cs)
  match Json.word? "inf" rest, Json.word? "nan" rest with
  | some rest, _ => .ok (.float (if negative then -1.0 / 0.0 else 1.0 / 0.0), rest)
  | _, some rest => .ok (.float (0.0 / 0.0), rest)
  | none, none => .error .malformed

/-- How much room there is for nested values. -/
def maxRoom : Nat := 984

/-- The room that a list takes. -/
def listRoom : Nat := 2

/-- The room that an inline table takes. -/
def tableRoom : Nat := 3

/-- What is left of some room if a part of it is taken. -/
def takeRoom (part room : Nat) : Except Fault Nat :=
  if room < part then .error (.tooDeep .any) else .ok (room - part)

mutual

/-- The value that begins here, with some room for nested values. -/
def value (fuel room : Nat) (cs : List Char) : Except Fault (Datum × List Char) :=
  match fuel with
  | 0 => .error .malformed
  | fuel + 1 =>
    match cs with
    | '"' :: _ | '\'' :: _ => do
      let (text, rest) ← quotedText fuel.succ cs
      return (.text (String.ofList text), rest)
    | '[' :: rest => do
      let room ← takeRoom listRoom room
      match ← skipGap fuel rest with
      | ']' :: rest => return (.list [], rest)
      | rest => items fuel room [] rest
    | '\x7b' :: rest => do
      let room ← takeRoom tableRoom room
      match rest.dropWhile isSpace with
      | '\x7d' :: rest => return (.map [], rest)
      | rest => inlineEntries fuel room [] [] rest
    | _ =>
      match Json.word? "true" cs, Json.word? "false" cs with
      | some rest, _ => .ok (.bool true, rest)
      | _, some rest => .ok (.bool false, rest)
      | none, none => match moment? cs with
        | some (d, rest) => if exists? d then .ok (d, rest) else .error .malformed
        | none => match clock? cs with
          | some (t, rest) => .ok (.clock t, rest)
          | none => match basedNumber? cs with
            | some found => .ok found
            | none => match decimalNumber cs with
              | .error .malformed => special cs
              | result => result

/-- The items of a list up to its end; `done` are those read so far, in reverse. -/
def items (fuel room : Nat) (done : List Datum) (cs : List Char) :
    Except Fault (Datum × List Char) :=
  match fuel with
  | 0 => .error .malformed
  | fuel + 1 => do
    let (item, rest) ← value fuel room cs
    match ← skipGap fuel rest with
    | ']' :: rest => return (.list (item :: done).reverse, rest)
    | ',' :: rest =>
      match ← skipGap fuel rest with
      | ']' :: rest => return (.list (item :: done).reverse, rest)
      | rest => items fuel room (item :: done) rest
    | _ => .error .malformed

/-- The entries of an inline table up to its end; `fixed` are the keys of inline values. -/
def inlineEntries (fuel room : Nat) (done : Table) (fixed : List (List String)) (cs : List Char) :
    Except Fault (Datum × List Char) :=
  match fuel with
  | 0 => .error .malformed
  | fuel + 1 => do
    let (k, rest) ← key fuel.succ cs
    match rest with
    | '=' :: rest =>
      let (v, rest) ← value fuel room (rest.dropWhile isSpace)
      if isBelow fixed k then .error .malformed
      else
        let done ← atKey false (addNew (k.getLastD "") v) k.dropLast done
        match rest.dropWhile isSpace with
        | '\x7d' :: rest => return (.map done, rest)
        | ',' :: rest =>
          inlineEntries fuel room done (if isInline v then k :: fixed else fixed)
            (rest.dropWhile isSpace)
        | _ => .error .malformed
    | _ => .error .malformed

end

/-! ## Documents -/

/-- What has been read of a document: its data, the table in whose section the reader is, the keys
of tables that are not opened again, those that join them at the next header, and the keys of
inline values. -/
structure Document where
  table : Table := []
  header : List String := []
  opened : List (List String) := []
  pending : List (List String) := []
  inline : List (List String) := []

namespace Document

/-- Tables made by dotted keys are closed at the next header. -/
def settle (d : Document) : Document :=
  { d with opened := d.pending ++ d.opened, pending := [] }

/-- Enters the section of a table. -/
def enter (d : Document) (k : List String) : Except Fault Document :=
  if d.opened.contains k || isBelow d.inline k then .error .malformed
  else do
    let table ← atKey true .ok k d.table
    return { d with table, header := k, opened := k :: d.opened }

/-- Enters the section of a new table at the end of a list. -/
def enterNew (d : Document) (k : List String) : Except Fault Document :=
  if isBelow d.inline k then .error .malformed
  else do
    let kept (keys : List (List String)) := keys.filter fun other => !k.isPrefixOf other
    let table ← atKey true (addTable (k.getLastD "")) k.dropLast d.table
    return { d with table, header := k, opened := k :: kept d.opened, inline := kept d.inline }

/-- The keys of the tables that a dotted key passes through. -/
def passed (d : Document) (k : List String) : List (List String) :=
  (List.range (k.length - 1)).map fun i => d.header ++ k.take (i + 1)

/-- Adds a value in the current section. -/
def add (d : Document) (k : List String) (v : Datum) : Except Fault Document :=
  let passed := d.passed k
  let parent := d.header ++ k.dropLast
  if passed.any d.opened.contains || isBelow d.inline parent then .error .malformed
  else do
    let table ← atKey true (addNew (k.getLastD "") v) parent d.table
    return { d with
      table
      pending := passed ++ d.pending
      inline := if isInline v then (d.header ++ k) :: d.inline else d.inline }

end Document

/-- The statement that begins here, which is not blank. There are fewer characters left than
`fuel`. -/
def statement (fuel : Nat) (d : Document) (cs : List Char) :
    Except Fault (Document × List Char) :=
  match cs with
  | '[' :: '[' :: rest => do
    let (k, rest) ← key fuel (rest.dropWhile isSpace)
    let d ← d.settle.enterNew k
    match rest with
    | ']' :: ']' :: rest => return (d, rest)
    | _ => .error .malformed
  | '[' :: rest => do
    let (k, rest) ← key fuel (rest.dropWhile isSpace)
    let d ← d.settle.enter k
    match rest with
    | ']' :: rest => return (d, rest)
    | _ => .error .malformed
  | '#' :: _ => .ok (d, cs)
  | _ => do
    let (k, rest) ← key fuel cs
    match rest with
    | '=' :: rest =>
      let (v, rest) ← value (2 * fuel) maxRoom (rest.dropWhile isSpace)
      return (← d.add k v, rest)
    | _ => .error .malformed

/-- Reads statements, one a line, up to the end. -/
def statements (fuel : Nat) (d : Document) (cs : List Char) : Except Fault Document :=
  match fuel, cs.dropWhile isSpace with
  | 0, _ | _, [] => .ok d
  | fuel + 1, '\n' :: rest => statements fuel d rest
  | fuel + 1, cs => do
    let (d, rest) ← statement fuel.succ d cs
    match ← skipComment (rest.dropWhile isSpace) with
    | [] => return d
    | '\n' :: rest => statements fuel d rest
    | _ => .error .malformed

/-- Writes a carriage return and a line feed as a line feed. -/
def joinReturns : List Char → List Char
  | [] => []
  | '\r' :: '\n' :: cs => '\n' :: joinReturns cs
  | c :: cs => c :: joinReturns cs

/-- Reads a document. -/
def parse (s : String) : Except Fault Datum := do
  let cs := joinReturns s.toList
  let d ← statements cs.length.succ {} cs
  return .map d.table

end Dossier.Data.Toml

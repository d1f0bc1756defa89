import Dossier.Data.Yaml.Node
import Dossier.Text.Pattern

/-!
# YAML documents

The value of a document. A scalar in quotes is a text; a plain one is a truth value, a number, a date
or nothing if it is written like one, and else a text. Two plain scalars are marks: two angle
brackets as a key merge other mappings into theirs, and an equals sign is a text only as a key. Of
several nodes without a value the one with the fewest levels around it counts.

This is the reader that the program takes along. It knows neither anchors nor tags nor block scalars.
A run is given its reader as one of its services and may be given another one.
-/

namespace Dossier.Data.Yaml

open Text (Pattern)

/-! ## How scalars are written -/

/-- A decimal digit. -/
def digit : Pattern := .one Char.isDigit

/-- Any number of digits and underscores. -/
def moreDigits : Pattern := .run 0 fun c => c.isDigit || c == '_'

/-- An optional sign. -/
def sign : Pattern := .opt (.one fun c => c == '+' || c == '-')

/-- An optional exponent, whose sign is not optional. -/
def exponent : Pattern :=
  .opt (.all [.one fun c => c == 'e' || c == 'E', .one fun c => c == '+' || c == '-',
    .run 1 Char.isDigit])

/-- Parts to the base of sixty, each after a colon. -/
def sixties : Pattern :=
  let part : Pattern := .all [.lit ":", .opt (.one fun c => '0' ≤ c && c ≤ '5'), digit]
  .seq part (.many part)

/-- Numbers with a point. -/
def floatPattern : Pattern :=
  .alt (.all [sign, digit, moreDigits, .lit ".", moreDigits, exponent])
    (.alt (.all [.lit ".", digit, moreDigits, exponent])
      (.alt (.all [sign, digit, moreDigits, sixties, .lit ".", moreDigits])
        (.alt (.all [sign, .lit ".", .anyOf ["inf", "Inf", "INF"]])
          (.all [.lit ".", .anyOf ["nan", "NaN", "NAN"]]))))

/-- Whole numbers. -/
def intPattern : Pattern :=
  .alt (.all [sign, .lit "0b", .run 1 fun c => c == '0' || c == '1' || c == '_'])
    (.alt (.all [sign, .lit "0", .run 1 fun c => ('0' ≤ c && c ≤ '7') || c == '_'])
      (.alt (.all [sign, .alt (.lit "0") (.seq (.one fun c => '1' ≤ c && c ≤ '9') moreDigits)])
        (.alt
          (.all [sign, .lit "0x", .run 1 fun c => (Cursor.hexDigit? c).isSome || c == '_'])
          (.all [sign, .one fun c => '1' ≤ c && c ≤ '9', moreDigits, sixties]))))

/-- Two digits, remembered under a number. -/
def twoDigits (n : Nat) : Pattern := .group n (.seq digit digit)

/-- One or two digits, remembered under a number. -/
def fewDigits (n : Nat) : Pattern := .group n (.seq digit (.opt digit))

/-- Four digits, remembered under a number. -/
def fourDigits (n : Nat) : Pattern := .group n (.all [digit, digit, digit, digit])

/-- A day: year, month and day are groups 1 to 3. -/
def dayPattern : Pattern :=
  .all [fourDigits 1, .lit "-", twoDigits 2, .lit "-", twoDigits 3]

/-- A day and a time: hour, minute, second and fraction are groups 4 to 7, the mark of universal
time is group 8, and sign, hours and minutes of a difference are groups 9 to 11. -/
def momentPattern : Pattern :=
  let blank (c : Char) : Bool := c == ' ' || c == '\t'
  .all [fourDigits 1, .lit "-", fewDigits 2, .lit "-", fewDigits 3,
    .alt (.one fun c => c == 'T' || c == 't') (.run 1 blank),
    fewDigits 4, .lit ":", twoDigits 5, .lit ":", twoDigits 6,
    .opt (.seq (.lit ".") (.group 7 (.run 0 Char.isDigit))),
    .opt (.seq (.run 0 blank)
      (.alt (.group 8 (.lit "Z"))
        (.all [.group 9 (.one fun c => c == '+' || c == '-'), fewDigits 10,
          .opt (.seq (.lit ":") (twoDigits 11))])))]

/-! ## Their values -/

/-- The value of a word that stands for a truth value. -/
def bool? (s : String) : Option Bool :=
  if ["yes", "Yes", "YES", "true", "True", "TRUE", "on", "On", "ON"].contains s then some true
  else if ["no", "No", "NO", "false", "False", "FALSE", "off", "Off", "OFF"].contains s then
    some false
  else none

/-- The value of digits. -/
def number (ds : List Char) : Nat :=
  ds.foldl (fun n d => 10 * n + (d.toNat - '0'.toNat)) 0

/-- The value of digits to a base. -/
def basedNumber (base : Nat) (ds : List Char) : Except Fault Int :=
  if ds.isEmpty then .error (.emptyNumeral base)
  else .ok (ds.foldl (fun n d => base * n + ((Cursor.hexDigit? d).getD 0 : Nat)) (0 : Nat) : Nat)

/-- The value of decimal digits, unless there are too many. -/
def longNumber (ds : List Char) : Except Fault Int :=
  if Text.maxDigits < ds.length then .error (.longNumeral ds.length)
  else .ok (number ds : Nat)

/-- A sign and what follows it. -/
def unsigned (cs : List Char) : Bool × List Char :=
  match cs with
  | '-' :: rest => (true, rest)
  | '+' :: rest => (false, rest)
  | _ => (false, cs)

/-- The value of a whole number without its sign. -/
def wholeValue (cs : List Char) : Except Fault Int :=
  match cs with
  | ['0'] => .ok 0
  | '0' :: 'b' :: ds => basedNumber 2 ds
  | '0' :: 'x' :: ds => basedNumber 16 ds
  | '0' :: _ => basedNumber 8 cs
  | _ =>
    if cs.contains ':' then do
      let parts ← (Text.splitChars (· == ':') cs).mapM longNumber
      return parts.foldl (fun total part => 60 * total + part) 0
    else longNumber cs

/-- The value of a whole number. -/
def intValue (s : String) : Except Fault Datum := do
  let (negative, cs) := unsigned (s.toList.filter (· != '_'))
  let n ← wholeValue cs
  return .int (if negative then -n else n)

/-- The value of digits with a point and an exponent. -/
def pointValue (cs : List Char) : Float :=
  let whole := cs.takeWhile Char.isDigit
  let rest := cs.dropWhile Char.isDigit
  let (places, rest) := match rest with
    | '.' :: more => (more.takeWhile Char.isDigit, more.dropWhile Char.isDigit)
    | _ => ([], rest)
  let e : Int := match rest with
    | _ :: more =>
      let (negative, ds) := unsigned more
      let n : Int := number (ds.dropWhile (· == '0') |>.take 9)
      if negative then -n else n
    | [] => 0
  Shortest.nearest (number (whole ++ places)) (e - places.length)

/-- The value of parts to the base of sixty, the last one first, if the value of every place is
one of a double. -/
def sixtiesValue (total : Float) (place : Nat) : List (List Char) → Except Fault Float
  | [] => .ok total
  | part :: rest =>
    let size := Shortest.nearest place 0
    if size.isInf then .error .numberOutOfRange
    else sixtiesValue (total + pointValue part * size) (place * 60) rest

/-- The value of a number with a point, without its sign. -/
def unsignedFloat (cs : List Char) : Except Fault Float :=
  match cs with
  | '.' :: c :: _ =>
    if c.toLower = 'i' then .ok (1.0 / 0.0)
    else if c.toLower = 'n' then .ok (0.0 / 0.0)
    else .ok (pointValue cs)
  | _ =>
    if cs.contains ':' then sixtiesValue 0.0 1 (Text.splitChars (· == ':') cs).reverse
    else .ok (pointValue cs)

/-- The value of a number with a point. -/
def floatValue (s : String) : Except Fault Datum := do
  let (negative, cs) := unsigned (s.toList.filter (· != '_'))
  let x ← unsignedFloat cs
  return .float (if negative then -x else x)

/-- The seconds by which a moment is ahead of universal time, if that is written. -/
def offsetValue (found : Pattern.Place) : Except Fault (Option Int) :=
  let part (n : Nat) : Nat := number ((found.group? n).getD [])
  let seconds : Int := part 10 * 3600 + part 11 * 60
  match found.group? 9 with
  | some sign =>
    let offset := if sign = ['-'] then -seconds else seconds
    if seconds < 86400 then .ok (some offset)
    else .error (.badDate ("offset must be a timedelta strictly between " ++
      "-timedelta(hours=24) and timedelta(hours=24), not " ++ Datum.spanLiteral offset ++ "."))
  | none => .ok (if (found.group? 8).isSome then some 0 else none)

/-- The value of a day, with a time if there is one. -/
def momentValue (found : Pattern.Place) : Except Fault Datum := do
  let part (n : Nat) : Nat := number ((found.group? n).getD [])
  let refuse (complaint? : Option String) : Except Fault Unit := match complaint? with
    | some reason => .error (.badDate reason)
    | none => .ok ()
  let date : Date := ⟨part 1, part 2, part 3⟩
  if (found.group? 4).isNone then
    refuse date.complaint?
    return .date date
  else
    let six := ((found.group? 7).getD []).take 6
    let micro := if six.isEmpty then 0 else number (six ++ List.replicate (6 - six.length) '0')
    let clock : Clock := ⟨part 4, part 5, part 6, micro⟩
    let offset ← offsetValue found
    refuse date.complaint?
    refuse clock.complaint?
    return .moment date clock offset

/-- The day or moment that a text is written like. -/
def moment? (cs : List Char) : Option Pattern.Place :=
  let whole (p : Pattern) : Option Pattern.Place :=
    p.matchThen (fun s => if s.rest.isEmpty then some s else none) ⟨none, cs, []⟩
  whole dayPattern <|> whole momentPattern

/-- The plain scalar that stands for the value of a mapping. -/
def valueMark : String := "="

/-- The plain scalar under which mappings are merged into the one around it. -/
def mergeMark : String := "<<"

/-- The value of a plain scalar. -/
def plainValue (s : String) : Except Fault Datum :=
  let cs := s.toList
  if ["", "~", "null", "Null", "NULL"].contains s then .ok .null
  else match bool? s with
    | some b => .ok (.bool b)
    | none =>
      if floatPattern.matchesAll cs then floatValue s
      else if intPattern.matchesAll cs then intValue s
      else if s = valueMark || s = mergeMark then .error .malformed
      else match moment? cs with
        | some found => momentValue found
        | none => .ok (.text s)

/-! ## The values of nodes -/

/-- A fault and the number of levels around the node that has it. -/
structure Flaw where
  depth : Nat
  fault : Fault
deriving DecidableEq, Repr

/-- Joins two results. Of two flaws the one at the lesser depth counts, else the first one. -/
def both {α β γ : Type} (f : α → β → γ) (a : Except Flaw α) (b : Except Flaw β) :
    Except Flaw γ :=
  match a, b with
  | .ok x, .ok y => .ok (f x y)
  | .error e, .ok _ | .ok _, .error e => .error e
  | .error e, .error e' => .error (if e'.depth < e.depth then e' else e)

/-- Puts the fault of a result at a depth. -/
def atDepth {α : Type} (depth : Nat) (x : Except Fault α) : Except Flaw α :=
  x.mapError (Flaw.mk depth)

/-- Whether a node is the key under which mappings are merged. -/
def Node.isMerge : Node → Bool
  | .scalar text true => text == mergeMark
  | _ => false

/-- The value of a key. Sequences and mappings are no keys. -/
def keyValue : Node → Except Fault Datum
  | .scalar text true => if text = valueMark then .ok (.text text) else plainValue text
  | .scalar text false => .ok (.text text)
  | .codes cs => .ok (.codes cs)
  | .sequence _ | .mapping _ => .error .malformed

mutual

/-- Whether only mappings, and sequences of mappings, are merged into a mapping, and that into
these as well. -/
def mergeable : List (Node × Node) → Bool
  | [] => true
  | (key, value) :: rest => (!key.isMerge || canMerge value) && mergeable rest

/-- Whether a node can be merged into a mapping. -/
def canMerge : Node → Bool
  | .mapping entries => mergeable entries
  | .sequence items => canMergeAll items
  | _ => false

/-- Whether all items of a sequence are mappings that can be merged. -/
def canMergeAll : List Node → Bool
  | [] => true
  | .mapping entries :: rest => mergeable entries && canMergeAll rest
  | _ :: _ => false

end

/-- A list of pairs as a mapping: the last value under a key counts, in the place of the first. -/
def mappingOf (pairs : List (Datum × Datum)) : List (Datum × Datum) :=
  pairs.foldl (fun done (key, value) => Datum.put key value done) []

mutual

/-- The value of a node with `depth` levels around it. -/
def valueOf (depth : Nat) : Node → Except Flaw Datum
  | .scalar text true => atDepth depth (plainValue text)
  | .scalar text false => .ok (.text text)
  | .codes cs => .ok (.codes cs)
  | .sequence items => (valuesOf (depth + 1) items).map .list
  | .mapping entries =>
    if mergeable entries then
      (both (· ++ ·) (mergedPairs (depth + 1) entries) (ownPairs (depth + 1) entries)).map
        fun pairs => .map (mappingOf pairs)
    else .error ⟨depth + 1, .malformed⟩

/-- The values of the items of a sequence. -/
def valuesOf (depth : Nat) : List Node → Except Flaw (List Datum)
  | [] => .ok []
  | item :: rest => both (· :: ·) (valueOf depth item) (valuesOf depth rest)

/-- The pairs that a mapping has itself. -/
def ownPairs (depth : Nat) : List (Node × Node) → Except Flaw (List (Datum × Datum))
  | [] => .ok []
  | (key, value) :: rest =>
    if key.isMerge then ownPairs depth rest
    else both (· :: ·) (both Prod.mk (atDepth depth (keyValue key)) (valueOf depth value))
      (ownPairs depth rest)

/-- The pairs that are merged into a mapping. They come before its own ones, so that these count. -/
def mergedPairs (depth : Nat) : List (Node × Node) → Except Flaw (List (Datum × Datum))
  | [] => .ok []
  | (key, value) :: rest =>
    if key.isMerge then both (· ++ ·) (pairsIn depth value) (mergedPairs depth rest)
    else mergedPairs depth rest

/-- All pairs of a mapping, or of the mappings in a sequence. -/
def pairsIn (depth : Nat) : Node → Except Flaw (List (Datum × Datum))
  | .mapping entries => both (· ++ ·) (mergedPairs depth entries) (ownPairs depth entries)
  | .sequence items => pairsInAll depth items
  | _ => .ok []

/-- All pairs of the mappings in a sequence, those of the last one first, so that the first one
counts. -/
def pairsInAll (depth : Nat) : List Node → Except Flaw (List (Datum × Datum))
  | [] => .ok []
  | item :: rest => both (· ++ ·) (pairsInAll depth rest) (pairsIn depth item)

end

/-- Reads a text with at most one document, in the part of the language that is read here. -/
def parse (s : String) : Except Fault Datum := do
  match ← Node.ofTokens? (tokens s) with
  | some node => (valueOf 0 node).mapError Flaw.fault
  | none => return .null

end Dossier.Data.Yaml

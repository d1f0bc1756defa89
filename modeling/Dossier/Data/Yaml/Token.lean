import Dossier.Data.Datum

/-!
# YAML tokens

A text becomes a list of tokens in which the structure that indentation gives is explicit: blocks
begin and end with tokens of their own, and a key is marked before it although it is only known to
be one when its colon is seen. `Cursor` is where the reader is; `candidates` are the places where a
key may have begun, one for each level of brackets. Where no token can be read, the last token says
why: whoever takes the tokens in turn may find a fault of their own before it.

Anchors, tags, directives and block scalars are not part of what is read; a text with one of them
counts as malformed.
-/

namespace Dossier.Data.Yaml

/-- A token. -/
inductive Token where
  | documentStart
  | documentEnd
  | blockSequence
  | blockMapping
  | blockEnd
  | sequenceStart
  | sequenceEnd
  | mappingStart
  | mappingEnd
  | entry
  | comma
  | key
  | value
  | scalar (text : String) (plain : Bool)
  /-- A scalar in quotes some of whose codes are no characters. -/
  | codes (codes : List Nat)
  /-- The end of what can be read. -/
  | fault (f : Fault)
deriving DecidableEq, Repr

/-- A place where a key may have begun. -/
structure Candidate where
  /-- The number of tokens before it. -/
  token : Nat
  /-- Nothing else than a key can begin there. -/
  required : Bool
  index : Nat
  line : Nat
  column : Nat
deriving DecidableEq, Repr

/-- Where the reader is and what it has seen. -/
structure Cursor where
  rest : List Char
  /-- The length of the whole text. -/
  size : Nat
  index : Nat := 0
  line : Nat := 0
  column : Nat := 0
  /-- How many brackets are open. -/
  depth : Nat := 0
  indent : Int := -1
  indents : List Int := []
  tokens : Array Token := #[]
  /-- Whether a key may begin here. -/
  keyAllowed : Bool := true
  candidates : List (Nat × Candidate) := []

/-! ## Characters -/

/-- Characters that end a line. -/
def isBreak (c : Char) : Bool :=
  c == '\n' || c == '\r' || c == '\x85' || c == '\u2028' || c == '\u2029'

/-- Blanks and line ends. -/
def isSpace (c : Char) : Bool :=
  c == ' ' || c == '\t' || isBreak c

/-- Whether a token can end here: before a blank or at the end of the text. -/
def endsToken (cs : List Char) : Bool :=
  cs.head?.all isSpace

/-- Whether a text may hold a character at all. -/
def isAllowed (c : Char) : Bool :=
  let n := c.toNat
  n == 9 || n == 10 || n == 13 || (32 ≤ n && n ≤ 126) || n == 0x85 || (0xA0 ≤ n && n ≤ 0xD7FF) ||
    (0xE000 ≤ n && n ≤ 0xFFFD) || 0x10000 ≤ n

/-- Whether a mark between documents stands here. -/
def isMark (mark : Char) (cs : List Char) : Bool :=
  cs.take 3 == [mark, mark, mark] && endsToken (cs.drop 3)

/-- Whether any mark between documents stands here. -/
def isAnyMark (cs : List Char) : Bool :=
  isMark '-' cs || isMark '.' cs

namespace Cursor

/-- Moves over `n` characters. -/
def forward (c : Cursor) : Nat → Cursor
  | 0 => c
  | n + 1 => match c.rest with
    | [] => c
    | d :: rest =>
      let c := { c with rest, index := c.index + 1 }
      let c :=
        if isBreak d then { c with line := c.line + 1, column := 0 }
        else if d = '\uFEFF' then c
        else { c with column := c.column + 1 }
      c.forward n

/-- How many characters are left. -/
def left (c : Cursor) : Nat :=
  c.size - c.index

/-- Adds a token. -/
def emit (c : Cursor) (t : Token) : Cursor :=
  { c with tokens := c.tokens.push t }

/-- Puts a token in front of the one with number `n`. -/
def insertAt (c : Cursor) (n : Nat) (t : Token) : Cursor :=
  let after := c.tokens.extract n c.tokens.size
  { c with tokens := (c.tokens.shrink n).push t ++ after }

/-- The character before a line end is read as; an unusual line end stays. -/
def breakText (d : Char) : Char :=
  if d = '\u2028' ∨ d = '\u2029' then d else '\n'

/-! ## Keys and indentation -/

/-- Closes the blocks that are indented deeper than `column`. -/
def unwind (c : Cursor) (column : Int) : List Int → Cursor
  | [] => c
  | outer :: indents =>
    if column < c.indent then
      unwind { c.emit .blockEnd with indent := outer, indents } column indents
    else c

/-- Closes blocks unless brackets are open. -/
def unwindTo (c : Cursor) (column : Int) : Cursor :=
  if c.depth = 0 then c.unwind column c.indents else c

/-- Opens a block if `column` is deeper than the block around it. -/
def deepens (c : Cursor) (column : Nat) : Bool :=
  c.indent < column

/-- The cursor inside a block at `column`. -/
def deepen (c : Cursor) (column : Nat) : Cursor :=
  { c with indent := column, indents := c.indent :: c.indents }

/-- Gives up the candidate of the current level. -/
def dropCandidate (c : Cursor) : Except Fault Cursor :=
  match c.candidates.lookup c.depth with
  | some k =>
    if k.required then .error .malformed
    else .ok { c with candidates := c.candidates.filter (·.1 != c.depth) }
  | none => .ok c

/-- Notes that a key may begin here. -/
def saveCandidate (c : Cursor) : Except Fault Cursor :=
  if c.keyAllowed then do
    let c ← c.dropCandidate
    let required := c.depth == 0 && c.indent == c.column
    let k : Candidate := ⟨c.tokens.size, required, c.index, c.line, c.column⟩
    return { c with candidates := (c.depth, k) :: c.candidates }
  else .ok c

/-- How far a key may reach. -/
def maxKeyLength : Nat := 1024

/-- Whether a candidate is on another line or too far away to be a key. -/
def isStale (c : Cursor) (k : Candidate) : Bool :=
  k.line != c.line || maxKeyLength < c.index - k.index

/-- Gives up the candidates on other lines and those too far away. -/
def dropStale (c : Cursor) : Except Fault Cursor :=
  if c.candidates.any fun (_, k) => c.isStale k && k.required then .error .malformed
  else .ok { c with candidates := c.candidates.filter fun (_, k) => !c.isStale k }

/-! ## Blanks -/

/-- Moves over blanks, comments and line ends. -/
def skip (c : Cursor) : Nat → Cursor
  | 0 => c
  | fuel + 1 =>
    let c := c.forward (c.rest.takeWhile (· == ' ')).length
    let c := if c.rest.head? = some '#' then
      c.forward (c.rest.takeWhile fun d => !isBreak d).length else c
    match c.rest with
    | d :: _ =>
      if isBreak d then
        let c := c.forward 1
        skip (if c.depth = 0 then { c with keyAllowed := true } else c) fuel
      else c
    | [] => c

/-! ## Plain scalars -/

/-- How many characters of a plain scalar stand here without a blank. -/
def plainLength (bracketed : Bool) : List Char → Nat
  | [] => 0
  | d :: cs =>
    let isFlow (e : Char) : Bool := e == ',' || e == '[' || e == ']' || e == '\x7b' || e == '\x7d'
    if isSpace d then 0
    else if d == ':' && (endsToken cs || (bracketed && cs.head?.any isFlow)) then 0
    else if bracketed && (isFlow d || d == '?') then 0
    else plainLength bracketed cs + 1

/-- The line ends and blanks after the first line end of a gap; none if a mark follows one. -/
def moreBreaks (c : Cursor) (done : List Char) : Nat → Cursor × Option (List Char)
  | 0 => (c, some done.reverse)
  | fuel + 1 => match c.rest with
    | d :: _ =>
      if d = ' ' then moreBreaks (c.forward 1) done fuel
      else if isBreak d then
        let c := c.forward 1
        if isAnyMark c.rest then (c, none) else moreBreaks c (breakText d :: done) fuel
      else (c, some done.reverse)
    | [] => (c, some done.reverse)

/-- What a gap inside a plain scalar stands for: its blanks, or a blank for one line end and the
line ends but one for several. Nothing if the scalar cannot go on. -/
def plainGap (c : Cursor) : Cursor × List Char :=
  let blanks := c.rest.takeWhile (· == ' ')
  let c := c.forward blanks.length
  match c.rest with
  | d :: _ =>
    if isBreak d then
      let c := { c.forward 1 with keyAllowed := true }
      if isAnyMark c.rest then (c, [])
      else match moreBreaks c [] c.left with
        | (c, none) => (c, [])
        | (c, some breaks) =>
          let first := if breakText d != '\n' then [d] else if breaks.isEmpty then [' '] else []
          (c, first ++ breaks)
    else (c, blanks)
  | [] => (c, blanks)

/-- A plain scalar; `done` is its text so far, in reverse, `gap` what stands before its next part. -/
def plain (c : Cursor) (indent : Int) (done gap : List Char) : Nat → Cursor × String
  | 0 => (c, String.ofList done.reverse)
  | fuel + 1 =>
    let n := plainLength (c.depth != 0) c.rest
    if n = 0 ∨ c.rest.head? = some '#' then (c, String.ofList done.reverse)
    else
      let done := (c.rest.take n).reverse ++ (gap.reverse ++ done)
      let (c, gap) := { c.forward n with keyAllowed := false }.plainGap
      if gap.isEmpty ∨ (c.depth = 0 ∧ c.column < indent) then (c, String.ofList done.reverse)
      else plain c indent done gap fuel

/-! ## Quoted scalars -/

/-- The character of an escape of one letter. -/
def simpleEscape? : Char → Option Char
  | '0' => some '\x00'
  | 'a' => some '\x07'
  | 'b' => some '\x08'
  | 't' | '\t' => some '\t'
  | 'n' => some '\n'
  | 'v' => some '\x0b'
  | 'f' => some '\x0c'
  | 'r' => some '\r'
  | 'e' => some '\x1b'
  | ' ' => some ' '
  | '"' => some '"'
  | '\\' => some '\\'
  | '/' => some '/'
  | 'N' => some '\x85'
  | '_' => some '\xa0'
  | 'L' => some '\u2028'
  | 'P' => some '\u2029'
  | _ => none

/-- How many hexadecimal digits follow an escape. -/
def codeLength? : Char → Option Nat
  | 'x' => some 2
  | 'u' => some 4
  | 'U' => some 8
  | _ => none

/-- The value of a hexadecimal digit. -/
def hexDigit? (c : Char) : Option Nat :=
  if c.isDigit then some (c.toNat - '0'.toNat)
  else if 'a' ≤ c && c ≤ 'f' then some (c.toNat - 'a'.toNat + 10)
  else if 'A' ≤ c && c ≤ 'F' then some (c.toNat - 'A'.toNat + 10)
  else none

/-- The greatest code that can be looked up. -/
def maxCode : Nat := 0x7FFFFFFF

/-- The code that `n` hexadecimal digits stand for. It need not be that of a character, but there
are none beyond the last one. -/
def codeAt (n : Nat) (cs : List Char) : Except Fault Nat :=
  let code? : Option Nat := if (cs.take n).length = n then
    (cs.take n).foldlM (fun total c => (hexDigit? c).map (16 * total + ·)) 0 else none
  match code? with
  | none => .error .malformed
  | some code =>
    if code < 0x110000 then .ok code
    else if code ≤ maxCode then .error .noSuchCharacter
    else .error .codeOutOfRange

/-- The line ends that follow one inside quotes, with the blanks around them. -/
def quotedBreaks (c : Cursor) (done : List Char) : Nat → Except Fault (Cursor × List Char)
  | 0 => .error .malformed
  | fuel + 1 =>
    if isAnyMark c.rest then .error .malformed
    else
      let c := c.forward (c.rest.takeWhile fun d => d == ' ' || d == '\t').length
      match c.rest with
      | d :: _ =>
        if isBreak d then quotedBreaks (c.forward 1) (breakText d :: done) fuel
        else .ok (c, done.reverse)
      | [] => .ok (c, done.reverse)

/-- What a gap inside quotes stands for. -/
def quotedGap (c : Cursor) : Except Fault (Cursor × List Char) :=
  let blanks := c.rest.takeWhile fun d => d == ' ' || d == '\t'
  let c := c.forward blanks.length
  match c.rest with
  | [] => .error .malformed
  | d :: _ =>
    if isBreak d then do
      let c := c.forward 1
      let (c, breaks) ← c.quotedBreaks [] c.left.succ
      let first := if breakText d != '\n' then [d] else if breaks.isEmpty then [' '] else []
      return (c, first ++ breaks)
    else .ok (c, blanks)

/-- The token of a scalar in quotes, given by its codes. -/
def quotedToken (codes : List Nat) : Token :=
  if codes.all (·.isValidChar) then .scalar (String.ofList (codes.map Char.ofNat)) false
  else .codes codes

/-- Puts characters in front of codes in reverse. -/
def pushAll (cs : List Char) (done : List Nat) : List Nat :=
  (cs.map Char.toNat).reverse ++ done

/-- The scalar up to the closing quote `q`; `done` are its codes so far, in reverse. -/
def quoted (c : Cursor) (q : Char) (done : List Nat) : Nat → Except Fault (Cursor × Token)
  | 0 => .error .malformed
  | fuel + 1 => match c.rest with
    | [] => .error .malformed
    | d :: rest =>
      if isSpace d then do
        let (c, gap) ← c.quotedGap
        quoted c q (pushAll gap done) fuel
      else if d = q then
        if q = '\'' ∧ rest.head? = some '\'' then quoted (c.forward 2) q (pushAll [q] done) fuel
        else .ok (c.forward 1, quotedToken done.reverse)
      else if d = '\\' ∧ q = '"' then
        match rest with
        | [] => .error .malformed
        | e :: more =>
          match simpleEscape? e, codeLength? e with
          | some x, _ => quoted (c.forward 2) q (pushAll [x] done) fuel
          | none, some n => do quoted (c.forward (n + 2)) q ((← codeAt n more) :: done) fuel
          | none, none =>
            if isBreak e then do
              let (c, breaks) ← (c.forward 2).quotedBreaks [] c.left.succ
              quoted c q (pushAll breaks done) fuel
            else .error .malformed
      else quoted (c.forward 1) q (pushAll [d] done) fuel

/-! ## Tokens -/

/-- An opening bracket. -/
def open_ (c : Cursor) (t : Token) : Except Fault Cursor := do
  let c ← c.saveCandidate
  return { (c.emit t).forward 1 with depth := c.depth + 1, keyAllowed := true }

/-- A closing bracket. -/
def close (c : Cursor) (t : Token) : Except Fault Cursor := do
  let c ← c.dropCandidate
  if c.depth = 0 then .error .malformed
  else return { (c.emit t).forward 1 with depth := c.depth - 1, keyAllowed := false }

/-- A mark between documents. -/
def mark (c : Cursor) (t : Token) : Except Fault Cursor := do
  let c ← (c.unwindTo (-1)).dropCandidate
  return { (c.emit t).forward 3 with keyAllowed := false }

/-- The comma between items in brackets. -/
def comma (c : Cursor) : Except Fault Cursor := do
  let c ← { c with keyAllowed := true }.dropCandidate
  return (c.emit .comma).forward 1

/-- The hyphen before an item. -/
def entry (c : Cursor) : Except Fault Cursor := do
  if c.depth = 0 ∧ c.keyAllowed = false then .error .malformed
  else
    let c := if c.depth = 0 ∧ c.deepens c.column then
      (c.deepen c.column).emit .blockSequence else c
    let c ← { c with keyAllowed := true }.dropCandidate
    return (c.emit .entry).forward 1

/-- The question mark before a key. -/
def key (c : Cursor) : Except Fault Cursor := do
  if c.depth = 0 ∧ c.keyAllowed = false then .error .malformed
  else
    let c := if c.depth = 0 ∧ c.deepens c.column then
      (c.deepen c.column).emit .blockMapping else c
    let c ← { c with keyAllowed := c.depth == 0 }.dropCandidate
    return (c.emit .key).forward 1

/-- The colon after a key. The key is the candidate of the level, or it is empty. -/
def value (c : Cursor) : Except Fault Cursor :=
  match c.candidates.lookup c.depth with
  | some k =>
    let c := { c with candidates := c.candidates.filter (·.1 != c.depth) }
    let c := c.insertAt k.token .key
    let c := if c.depth = 0 ∧ c.deepens k.column then
      (c.deepen k.column).insertAt k.token .blockMapping else c
    .ok (({ c with keyAllowed := false }.emit .value).forward 1)
  | none => do
    if c.depth = 0 ∧ c.keyAllowed = false then .error .malformed
    else
      let c := if c.depth = 0 ∧ c.deepens c.column then
        (c.deepen c.column).emit .blockMapping else c
      let c ← { c with keyAllowed := c.depth == 0 }.dropCandidate
      return (c.emit .value).forward 1

/-- A scalar in quotes. -/
def quotedScalar (c : Cursor) (q : Char) : Except Fault Cursor := do
  let c ← c.saveCandidate
  let (c, token) ← { c with keyAllowed := false }.forward 1 |>.quoted q [] c.left.succ
  return c.emit token

/-- A scalar without quotes. -/
def plainScalar (c : Cursor) : Except Fault Cursor := do
  let c ← c.saveCandidate
  let (c, text) := { c with keyAllowed := false }.plain (c.indent + 1) [] [] c.left.succ
  return c.emit (.scalar text true)

/-- Characters with which no plain scalar begins, unless it is one of the first three and no blank
follows. -/
def isIndicator (d : Char) : Bool :=
  "-?:,[]\x7b\x7d#&*!|>'\"%@`".toList.contains d

/-- The next token, at the place where it begins. -/
def next (c : Cursor) : Except Fault Cursor :=
  match c.rest with
  | [] => .error .malformed
  | d :: rest =>
    if c.column = 0 ∧ d = '%' then .error .malformed
    else if c.column = 0 ∧ isMark '-' c.rest then c.mark .documentStart
    else if c.column = 0 ∧ isMark '.' c.rest then c.mark .documentEnd
    else match d with
      | '[' => c.open_ .sequenceStart
      | ']' => c.close .sequenceEnd
      | '\x7b' => c.open_ .mappingStart
      | '\x7d' => c.close .mappingEnd
      | ',' => c.comma
      | '\'' | '"' => c.quotedScalar d
      | _ =>
        if d = '-' ∧ endsToken rest then c.entry
        else if d = '?' ∧ (c.depth ≠ 0 ∨ endsToken rest) then c.key
        else if d = ':' ∧ (c.depth ≠ 0 ∨ endsToken rest) then c.value
        else if isSpace d then .error .malformed
        else if !isIndicator d || (!endsToken rest && (d == '-' || (c.depth == 0 &&
            (d == '?' || d == ':')))) then c.plainScalar
        else .error .malformed

/-- The tokens before a fault and the fault, where the cursor is behind the last of these tokens.
Tokens are not settled from the first one on that may still turn out to be a key. -/
def fail (c : Cursor) (f : Fault) : List Token :=
  let pending := c.candidates.filter fun (_, k) => !c.isStale k
  let settled := (pending.map (·.2.token)).foldl min c.tokens.size
  c.tokens.toList.take settled ++ [.fault f]

/-- Reads tokens up to the end of the text or the first fault. -/
def run (c : Cursor) : Nat → List Token
  | 0 => c.fail .malformed
  | fuel + 1 =>
    match (c.skip c.left.succ).dropStale with
    | .error f => c.fail f
    | .ok here =>
      let outer := here.unwindTo here.column
      if here.rest.isEmpty then
        match (outer.unwindTo (-1)).dropCandidate with
        | .error f => c.fail f
        | .ok last => last.tokens.toList
      else match outer.next with
        | .error f => c.fail f
        | .ok after => after.run fuel

end Cursor

/-- The tokens of a text. -/
def tokens (s : String) : List Token :=
  let cs := s.toList
  if cs.all isAllowed then
    let c : Cursor := { rest := cs, size := cs.length }
    let c := if cs.head? = some '\uFEFF' then c.forward 1 else c
    c.run (cs.length + 1)
  else [.fault .malformed]

end Dossier.Data.Yaml

import Dossier.Text.Basic

/-!
# Lines

`lines` cuts a text at every line end, a carriage return followed by a line feed counting as one,
and does not report an empty line after a final line end. `unifyNewlines` writes every carriage
return, alone or before a line feed, as a line feed. `physicalLines` cuts at line feeds only.
-/

namespace Dossier.Text

/-- Writes a carriage return followed by a line feed as the carriage return alone. -/
def mergeReturns (cs : List Char) : List Char :=
  cs.foldr
    (fun c rest =>
      if c = '\r' then
        match rest with
        | '\n' :: tail => c :: tail
        | _ => c :: rest
      else c :: rest)
    []

/-- Drops the last piece of a split if it is empty. -/
def dropFinalEmpty (pieces : List (List Char)) : List (List Char) :=
  match pieces.getLast? with
  | some [] => pieces.dropLast
  | _ => pieces

/-- The lines of a list of characters, without their ends. -/
def linesChars (cs : List Char) : List (List Char) :=
  dropFinalEmpty (splitChars isLineEnd (mergeReturns cs))

/-- The lines of a text, without their ends. -/
def lines (s : String) : List String :=
  (linesChars s.toList).map String.ofList

/-- Every line break written as a single line feed. -/
def unifyNewlines (s : String) : String :=
  String.ofList ((mergeReturns s.toList).map fun c => if c = '\r' then '\n' else c)

/-- The pieces of a text between line feeds. -/
def physicalLines (s : String) : List String :=
  split '\n' s

/-- Pieces joined by line feeds. -/
def joinLines (ls : List String) : String :=
  String.intercalate "\n" ls

/-- The first piece before a line feed, without blanks at its end. -/
def firstLine (s : String) : String :=
  stripEnd (beforeFirst '\n' s)

/-- Puts `pad` before every piece between line feeds. -/
def indentLines (pad : String) (s : String) : String :=
  joinLines ((physicalLines s).map (pad ++ ·))

/-- Takes from every line but the first as many of its leading spaces and tabs as `column`
allows, so that a block cut out at `column` is aligned to the left. -/
def dedentTail (column : Nat) (s : String) : String :=
  match physicalLines s with
  | [] => s
  | head :: tail =>
    joinLines (head :: tail.map fun line =>
      drop (min column (line.toList.takeWhile fun c => c == ' ' || c == '\t').length) line)

end Dossier.Text

import Dossier.Text.Printable
import Dossier.Text.Numeral

/-!
# Quoted literals

A text between quotes, so that any text is shown on one line of printable characters. Apostrophes
are the quotes unless the text holds an apostrophe and no double quote.
-/

namespace Dossier.Text

/-- How one character is written between quotes `q`. -/
def quoteChar (q c : Char) : List Char :=
  if c = q ∨ c = '\\' then ['\\', c]
  else if c = '\n' then ['\\', 'n']
  else if c = '\r' then ['\\', 'r']
  else if c = '\t' then ['\\', 't']
  else if isPrintable c then [c]
  else if c.toNat < 0x100 then '\\' :: 'x' :: (hex 2 c.toNat).toList
  else if c.toNat < 0x10000 then '\\' :: 'u' :: (hex 4 c.toNat).toList
  else '\\' :: 'U' :: (hex 8 c.toNat).toList

/-- The quote chosen for a text. -/
def quoteFor (cs : List Char) : Char :=
  if cs.contains '\'' && !cs.contains '"' then '"' else '\''

/-- A text as a quoted literal. -/
def quoted (s : String) : String :=
  let q := quoteFor s.toList
  String.ofList (q :: s.toList.flatMap (quoteChar q) ++ [q])

/-- How one code is written between quotes `q`; one that is no character is written as a number. -/
def quoteCode (q : Char) (code : Nat) : List Char :=
  if code.isValidChar then quoteChar q (Char.ofNat code) else '\\' :: 'u' :: (hex 4 code).toList

/-- A text as a quoted literal, given by its codes. -/
def quotedCodes (codes : List Nat) : String :=
  let q := quoteFor ((codes.filter (·.isValidChar)).map Char.ofNat)
  String.ofList (q :: codes.flatMap (quoteCode q) ++ [q])

end Dossier.Text

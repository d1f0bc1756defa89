import Dossier.Text.Numeral

/-!
# Texts by their codes

A text that was put together from escapes may hold one half of a surrogate pair without the other.
Such a code is no character. It counts as one wherever a text is only looked at, and a private
character stands for it there; but the text has no encoding.
-/

namespace Dossier.Text

/-- The private character that stands for a code which is no character. -/
def standIn (code : Nat) : Char :=
  Char.ofNat (code + 0x102000)

/-- The text with some codes. -/
def ofCodes (codes : List Nat) : String :=
  String.ofList (codes.map fun code => if code.isValidChar then Char.ofNat code else standIn code)

/-- Whether a character stands for a code that is no character. -/
def isStandIn (c : Char) : Bool :=
  standIn 0xD800 ≤ c

/-! ## Encoding -/

/-- Codes that have no encoding: the first of them, its position, and how many there are in a row. -/
structure EncodeError where
  code : Nat
  start : Nat
  length : Nat
deriving DecidableEq, Repr

/-- The wording of an encoding error. -/
def EncodeError.message (e : EncodeError) : String :=
  (if e.length = 1 then
    "'utf-8' codec can't encode character '\\u" ++ hex 4 e.code ++ "' in position " ++
      ofNat e.start
  else
    "'utf-8' codec can't encode characters in position " ++ ofNat e.start ++ "-" ++
      ofNat (e.start + e.length - 1)) ++ ": surrogates not allowed"

/-- The text with some codes, if all of them have an encoding. -/
def encode (codes : List Nat) : Except EncodeError String :=
  match codes.dropWhile (·.isValidChar) with
  | [] => .ok (String.ofList (codes.map Char.ofNat))
  | code :: rest => .error {
      code
      start := (codes.takeWhile (·.isValidChar)).length
      length := (rest.takeWhile fun next => !next.isValidChar).length + 1 }

/-- The error about a code in a text whose characters stand for its codes. -/
def flawIn (s : String) (code : Nat) : EncodeError :=
  let rest := s.toList.dropWhile (· != standIn code)
  { code, start := s.length - rest.length, length := (rest.takeWhile isStandIn).length }

end Dossier.Text

import Dossier.Text.Blank

/-!
# Numerals

The decimal digits of every script, integers as a person types them, and the digits of a number.
-/

namespace Dossier.Text

/-- Intervals of decimal digits outside ASCII; each starts with a digit zero and repeats zero to nine. -/
def digitRanges : Array (Nat × Nat) := #[
  (1632, 1641), (1776, 1785), (1984, 1993), (2406, 2415), (2534, 2543), (2662, 2671), (2790, 2799),
  (2918, 2927), (3046, 3055), (3174, 3183), (3302, 3311), (3430, 3439), (3558, 3567), (3664, 3673),
  (3792, 3801), (3872, 3881), (4160, 4169), (4240, 4249), (6112, 6121), (6160, 6169), (6470, 6479),
  (6608, 6617), (6784, 6793), (6800, 6809), (6992, 7001), (7088, 7097), (7232, 7241), (7248, 7257),
  (42528, 42537), (43216, 43225), (43264, 43273), (43472, 43481), (43504, 43513), (43600, 43609),
  (44016, 44025), (65296, 65305), (66720, 66729), (68912, 68921), (69734, 69743), (69872, 69881),
  (69942, 69951), (70096, 70105), (70384, 70393), (70736, 70745), (70864, 70873), (71248, 71257),
  (71360, 71369), (71472, 71481), (71904, 71913), (72016, 72025), (72784, 72793), (73040, 73049),
  (73120, 73129), (92768, 92777), (92864, 92873), (93008, 93017), (120782, 120831),
  (123200, 123209), (123632, 123641), (125264, 125273), (130032, 130041)]

/-- The value of a decimal digit of any script. -/
def digitValue? (c : Char) : Option Nat :=
  if c.isDigit then some (c.toNat - '0'.toNat)
  else if c.toNat < 128 then none
  else match digitRanges.find? fun (first, last) => first ≤ c.toNat && c.toNat ≤ last with
    | some (first, _) => some ((c.toNat - first) % 10)
    | none => none

/-- Blanks that may surround a numeral: all but the four separators below the space. -/
def isNumeralBlank (c : Char) : Bool :=
  isBlank c && !(28 ≤ c.toNat && c.toNat ≤ 31)

/-- The value of digits in which single underscores may stand between two digits. -/
def digitsValue? (base : Nat) (value : Char → Option Nat) (total : Nat) :
    List Char → Option Nat
  | [] => some total
  | '_' :: c :: cs => match value c with
    | some d => digitsValue? base value (base * total + d) cs
    | none => none
  | c :: cs => match value c with
    | some d => digitsValue? base value (base * total + d) cs
    | none => none

/-- A non-empty run of digits, underscores allowed between them. -/
def natural? (base : Nat) (value : Char → Option Nat) : List Char → Option Nat
  | [] => none
  | c :: cs => match value c with
    | some d => digitsValue? base value d cs
    | none => none

/-- The longest numeral that is read, in digits. -/
def maxDigits : Nat := 4300

/-- Reads a decimal integer: blanks around it, an optional sign, digits of any script. -/
def parseInt? (s : String) : Option Int :=
  let cs := s.toList.dropWhile isNumeralBlank
  let cs := (cs.reverse.dropWhile isNumeralBlank).reverse
  if maxDigits < (cs.filter fun c => (digitValue? c).isSome).length then none
  else match cs with
    | '-' :: ds => (natural? 10 digitValue? ds).map fun n => -(n : Int)
    | '+' :: ds => (natural? 10 digitValue? ds).map Int.ofNat
    | ds => (natural? 10 digitValue? ds).map Int.ofNat

/-- Decimal digits of a number. -/
def ofNat (n : Nat) : String :=
  String.ofList (Nat.toDigits 10 n)

/-- Decimal digits of an integer, a minus sign in front of a negative one. -/
def ofInt : Int → String
  | .ofNat n => ofNat n
  | .negSucc n => "-" ++ ofNat (n + 1)

/-- The digits of `n` in lower case hexadecimal, at least `width` of them. -/
def hex (width n : Nat) : String :=
  let ds := Nat.toDigits 16 n
  String.ofList (List.replicate (width - ds.length) '0' ++ ds)

/-- The decimal digits of `n`, at least `width` of them. -/
def padded (width n : Nat) : String :=
  let ds := Nat.toDigits 10 n
  String.ofList (List.replicate (width - ds.length) '0' ++ ds)

end Dossier.Text

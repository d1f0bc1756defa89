import Dossier.Text.Numeral

/-!
# Shortest decimals

The text of a double: the fewest decimal digits that still round to it. A double is an exact
fraction, and the reals that round to it form an interval around it whose ends count if its
significand is even. For ever more digits the two neighbours of the fraction on the decimal grid
are tried, all in exact arithmetic.
-/

namespace Dossier.Data.Shortest

/-- A positive fraction. -/
structure Ratio where
  num : Nat
  den : Nat
deriving DecidableEq, Repr

/-- `m · 2 ^ e` as a fraction. -/
def Ratio.scaled (m : Nat) (e : Int) : Ratio :=
  if 0 ≤ e then ⟨m * Nat.pow 2 e.toNat, 1⟩ else ⟨m, Nat.pow 2 (-e).toNat⟩

/-- Whether a fraction is smaller than another. -/
def Ratio.lt (a b : Ratio) : Bool :=
  a.num * b.den < b.num * a.den

/-- `n · 10 ^ k` as a fraction. -/
def Ratio.decimal (n : Nat) (k : Int) : Ratio :=
  if 0 ≤ k then ⟨n * Nat.pow 10 k.toNat, 1⟩ else ⟨n, Nat.pow 10 (-k).toNat⟩

/-- A fraction divided by `10 ^ k`, rounded down. -/
def Ratio.floorAt (a : Ratio) (k : Int) : Nat :=
  if 0 ≤ k then a.num / (a.den * Nat.pow 10 k.toNat) else a.num * Nat.pow 10 (-k).toNat / a.den

/-- The exponent of the first decimal digit. -/
def Ratio.magnitude (a : Ratio) : Int :=
  let guess : Int := (Nat.toDigits 10 a.num).length - (Nat.toDigits 10 a.den).length
  if a.lt (.decimal 1 guess) then guess - 1 else guess

/-- The reals that round to a double. -/
structure Interval where
  low : Ratio
  high : Ratio
  closed : Bool
deriving DecidableEq, Repr

/-- Whether a fraction lies in an interval. -/
def Interval.contains (i : Interval) (a : Ratio) : Bool :=
  if i.closed then !a.lt i.low && !i.high.lt a else i.low.lt a && a.lt i.high

/-- Whether `value` is nearer to `a` below it than to `b` above it; a tie goes to `b` if the last
digit of `a` is odd. -/
def nearerBelow (value : Ratio) (n : Nat) (k : Int) : Bool :=
  let double := Ratio.mk (2 * value.num) value.den
  let middle := Ratio.decimal (2 * n + 1) k
  double.lt middle || (!middle.lt double && n % 2 == 0)

/-- The first grid with a point in the interval, from `digits` digits on. -/
def search (value : Ratio) (interval : Interval) (digits : Nat) : Nat → Nat × Int
  | 0 =>
    let k := value.magnitude - 16
    (value.floorAt k, k)
  | tries + 1 =>
    let k := value.magnitude - digits + 1
    let n := value.floorAt k
    let below := interval.contains (.decimal n k) && n != 0
    let above := interval.contains (.decimal (n + 1) k)
    if below && (!above || nearerBelow value n k) then (n, k)
    else if above then (n + 1, k)
    else search value interval (digits + 1) tries

/-- The fraction field of a double with the given bits. -/
def fractionOf (bits : Nat) : Nat :=
  bits % Nat.pow 2 52

/-- The exponent field of a double with the given bits. -/
def exponentOf (bits : Nat) : Nat :=
  bits / Nat.pow 2 52 % Nat.pow 2 11

/-- The size of a finite double with the given bits as `m · 2 ^ e`. -/
def significand (bits : Nat) : Nat × Int :=
  if exponentOf bits = 0 then (fractionOf bits, -1074)
  else (fractionOf bits + Nat.pow 2 52, (exponentOf bits : Int) - 1075)

/-- Digits and exponent of the shortest decimal of a positive finite double with the given bits. -/
def ofBits (bits : Nat) : Nat × Int :=
  let fraction := fractionOf bits
  let exponent := exponentOf bits
  let (m, e) := significand bits
  let value := Ratio.scaled m e
  let low := if fraction = 0 ∧ 1 < exponent then Ratio.scaled (4 * m - 1) (e - 2)
    else Ratio.scaled (2 * m - 1) (e - 1)
  search value ⟨low, .scaled (2 * m + 1) (e - 1), m % 2 == 0⟩ 1 17

/-- Digits with the decimal point after the first `point` of them; at least one digit on either
side. -/
def positional (ds : List Char) (point : Int) : List Char :=
  if point ≤ 0 then
    '0' :: '.' :: (List.replicate (-point).toNat '0' ++ ds)
  else
    let n := point.toNat
    let whole := ds.take n ++ List.replicate (n - ds.length) '0'
    let rest := ds.drop n
    whole ++ '.' :: (if rest.isEmpty then ['0'] else rest)

/-- Digits with a point after the first and an exponent of at least two digits. -/
def scientific (ds : List Char) (exponent : Int) : List Char :=
  let mantissa := match ds with
    | [] => []
    | [d] => [d]
    | d :: rest => d :: '.' :: rest
  mantissa ++ 'e' :: (if exponent < 0 then '-' else '+') ::
    (Text.padded 2 exponent.natAbs).toList

/-- The text of a double: positional from a ten thousandth up to `10 ^ 16`, with an exponent
outside. -/
def text (x : Float) : String :=
  if x.isNaN then "nan"
  else
    let bits := x.toBits.toNat
    let sign := if bits / Nat.pow 2 63 = 1 then "-" else ""
    if x.isInf then sign ++ "inf"
    else if bits % Nat.pow 2 63 = 0 then sign ++ "0.0"
    else
      let (n, k) := ofBits (bits % Nat.pow 2 63)
      let all := Nat.toDigits 10 n
      let ds := (all.reverse.dropWhile (· == '0')).reverse
      let point := k + all.length
      sign ++ String.ofList
        (if -4 < point ∧ point ≤ 16 then positional ds point else scientific ds (point - 1))

/-- The whole number that a double is, if it is one. -/
def whole? (x : Float) : Option Int :=
  let bits := x.toBits.toNat
  if x.isNaN || x.isInf then none
  else
    let (m, e) := significand bits
    let r := Ratio.scaled m e
    if r.num % r.den = 0 then
      let n : Int := (r.num / r.den : Nat)
      some (if bits / Nat.pow 2 63 = 1 then -n else n)
    else none

/-- The double nearest to `n · 10 ^ e`. -/
def nearest (n : Nat) (e : Int) : Float :=
  let size := (Nat.toDigits 10 n).length + e
  if n = 0 then 0.0
  else if 400 < size then 1.0 / 0.0
  else if size < -400 then 0.0
  else if 0 ≤ e then Float.ofScientific n false e.toNat else Float.ofScientific n true (-e).toNat

end Dossier.Data.Shortest

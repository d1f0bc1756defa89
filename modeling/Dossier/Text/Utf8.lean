import Dossier.Text.Numeral

/-!
# UTF-8

Strict decoding, which names the first ill-formed run of bytes; lenient decoding, which puts a
substitute in the place of every such run; and the beginning of a text within a number of bytes. A
run is as long as the bytes could still begin a character.
-/

namespace Dossier.Text.Utf8

/-- The ranges in which the bytes after `lead` must lie, or `none` if no character begins so. -/
def continuations? (lead : UInt8) : Option (List (UInt8 × UInt8)) :=
  if lead < 0x80 then some []
  else if lead < 0xC2 then none
  else if lead < 0xE0 then some [(0x80, 0xBF)]
  else if lead < 0xF0 then
    let second := if lead = 0xE0 then (0xA0, 0xBF) else if lead = 0xED then (0x80, 0x9F)
      else (0x80, 0xBF)
    some [second, (0x80, 0xBF)]
  else if lead < 0xF5 then
    let second := if lead = 0xF0 then (0x90, 0xBF) else if lead = 0xF4 then (0x80, 0x8F)
      else (0x80, 0xBF)
    some [second, (0x80, 0xBF), (0x80, 0xBF)]
  else none

/-- How many bytes at the front lie in the given ranges, taken in turn. -/
def fitting : List (UInt8 × UInt8) → List UInt8 → Nat
  | (lo, hi) :: ranges, b :: bytes =>
    if lo ≤ b && b ≤ hi then fitting ranges bytes + 1 else 0
  | _, _ => 0

/-- Why a run of bytes is no character. -/
inductive Fault where
  | badStart
  | badContinuation
  | truncated
deriving DecidableEq, Repr

/-- The wording of a fault. -/
def Fault.reason : Fault → String
  | .badStart => "invalid start byte"
  | .badContinuation => "invalid continuation byte"
  | .truncated => "unexpected end of data"

/-- The character a first byte and its continuation bytes stand for. -/
def assemble (lead : UInt8) (rest : List UInt8) : Char :=
  let mask := match rest.length with
    | 0 => 0x7F
    | 1 => 0x1F
    | 2 => 0x0F
    | _ => 0x07
  Char.ofNat (rest.foldl (fun n b => 64 * n + b.toNat % 64) (lead.toNat &&& mask))

/-- The first character of `lead :: rest`, or why there is none, with the number of bytes of
`rest` that belong to it. -/
def first (lead : UInt8) (rest : List UInt8) : Except Fault Char × Nat :=
  match continuations? lead with
  | none => (.error .badStart, 0)
  | some ranges =>
    let n := fitting ranges rest
    if n = ranges.length then (.ok (assemble lead (rest.take n)), n)
    else if n = rest.length then (.error .truncated, n)
    else (.error .badContinuation, n)

/-- Decodes, with `substitute` in the place of every ill-formed run. -/
def decodeWith (substitute : List Char) : List UInt8 → List Char
  | [] => []
  | lead :: rest =>
    let (unit, n) := first lead rest
    (match unit with
      | .ok c => [c]
      | .error _ => substitute) ++ decodeWith substitute (rest.drop n)
termination_by bytes => bytes.length
decreasing_by simp only [List.length_drop, List.length_cons]; omega

/-- Decodes, with the replacement character for every ill-formed run. -/
def decodeLossy (bytes : List UInt8) : String :=
  String.ofList (decodeWith ['\uFFFD'] bytes)

/-- An ill-formed run: what is wrong with it, its first byte, and the positions it takes. -/
structure DecodeError where
  fault : Fault
  lead : UInt8
  start : Nat
  stop : Nat
deriving DecidableEq, Repr

/-- The first ill-formed run, if the first byte is at position `at`. -/
def firstFault? (start : Nat) : List UInt8 → Option DecodeError
  | [] => none
  | lead :: rest =>
    match first lead rest with
    | (.ok _, n) => firstFault? (start + n + 1) (rest.drop n)
    | (.error fault, n) =>
      let stop := match fault with
        | .truncated => start + rest.length + 1
        | _ => start + n + 1
      some ⟨fault, lead, start, stop⟩
termination_by bytes => bytes.length
decreasing_by simp only [List.length_drop, List.length_cons]; omega

/-- Decodes bytes that are all well formed. -/
def decode (bytes : ByteArray) : Except DecodeError String :=
  match String.fromUTF8? bytes with
  | some s => .ok s
  | none => .error ((firstFault? 0 bytes.data.toList).getD ⟨.truncated, 0, 0, 0⟩)

/-- The wording of a decoding error. -/
def DecodeError.message (e : DecodeError) : String :=
  if e.stop = e.start + 1 then
    "'utf-8' codec can't decode byte 0x" ++ hex 2 e.lead.toNat ++ " in position " ++
      ofNat e.start ++ ": " ++ e.fault.reason
  else
    "'utf-8' codec can't decode bytes in position " ++ ofNat e.start ++ "-" ++
      ofNat (e.stop - 1) ++ ": " ++ e.fault.reason

/-! ## Cutting at a number of bytes -/

/-- A text of at most `limit` bytes as it is. A longer one is cut behind as many bytes, what is left of a
character that has been cut through is dropped, and three dots follow. A negative limit counts from
the end of the text. -/
def preview (limit : Int) (s : String) : String :=
  let bytes := s.toUTF8.data.toList
  if (bytes.length : Int) ≤ limit then s
  else
    let kept := if limit < 0 then (bytes.length + limit).toNat else limit.toNat
    String.ofList (decodeWith [] (bytes.take kept)) ++ "..."

end Dossier.Text.Utf8

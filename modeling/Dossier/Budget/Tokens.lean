import Dossier.Text.Basic

/-!
# Tokens

Texts are measured in tokens. Without an encoding the number is estimated from the length of the
text; with one it is exact. An encoding is loaded when it is first asked for and then kept.
-/

namespace Dossier

/-- A way to measure texts. -/
abbrev Measure := String → Nat

namespace Budget

/-- How many characters count as a token in the estimate. -/
def charsPerToken : Nat := 4

/-- The estimated number of tokens: the number of characters over four, rounded up. -/
def estimate (s : String) : Nat :=
  (s.length + (charsPerToken - 1)) / charsPerToken

/-- How many characters a number of tokens has room for. -/
def charsFor (tokens : Int) : Nat :=
  charsPerToken * tokens.toNat

@[simp] theorem estimate_empty : estimate "" = 0 := rfl

theorem estimate_le_iff {s : String} {n : Nat} :
    estimate s ≤ n ↔ s.length ≤ charsPerToken * n := by
  simp only [estimate, charsPerToken]
  omega

theorem length_le_estimate (s : String) : s.length ≤ charsPerToken * estimate s :=
  estimate_le_iff.mp (Nat.le_refl _)

/-- The encoding loaded so far, and whether it is in use. -/
structure Tokenizer where
  encoding : Option Measure := none
  precise : Bool := false
  /-- How the attempts to load the encoding have ended so far. -/
  attempts : List (Except String Measure) := []

namespace Tokenizer

/-- A warning that there is no encoding, with the kind of the failure. -/
def unavailable (kind : String) : String :=
  "Precise token counting unavailable (" ++ kind ++ "); using character estimate"

/-- Loads the encoding, and switches to it; if that fails, to the estimate, with a warning. -/
def attempt (t : Tokenizer) (load : Except String Measure) : Tokenizer × List String :=
  let attempts := t.attempts ++ [load]
  match load with
  | .ok encoding => ({ encoding := some encoding, precise := true, attempts }, [])
  | .error kind => ({ encoding := none, precise := false, attempts }, [unavailable kind])

/-- Switches between the estimate and the encoding. The encoding is loaded by `load` unless it has
been loaded before. -/
def configure (t : Tokenizer) (load : Except String Measure) (precise : Bool) :
    Tokenizer × List String :=
  if precise then
    match t.encoding with
    | some _ => ({ t with precise := true }, [])
    | none => t.attempt load
  else ({ t with precise := false }, [])

/-- The measure in use. The empty text has no tokens. -/
def measure (t : Tokenizer) : Measure := fun s =>
  match t.precise, t.encoding with
  | true, some encoding => if s = "" then 0 else encoding s
  | _, _ => estimate s

theorem measure_of_not_precise {t : Tokenizer} (h : t.precise = false) : t.measure = estimate := by
  funext s
  simp [measure, h]

end Tokenizer

end Budget

end Dossier

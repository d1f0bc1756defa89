import Dossier.Text.Blank

/-!
# Operations on text

Trimming, splitting and searching. Each operation is defined on lists of characters, where it can
be reasoned about, and lifted to strings under a name of its own.
-/

namespace Dossier.Text

/-! ## Trimming -/

/-- Drops the longest run at the end whose characters all satisfy `p`. -/
def trimEndChars (p : Char → Bool) (cs : List Char) : List Char :=
  (cs.reverse.dropWhile p).reverse

/-- Drops the blanks at both ends. -/
def stripChars (cs : List Char) : List Char :=
  trimEndChars isBlank (cs.dropWhile isBlank)

/-- `s` without the characters at its start that satisfy `p`. -/
def trimStart (p : Char → Bool) (s : String) : String :=
  String.ofList (s.toList.dropWhile p)

/-- `s` without the characters at its end that satisfy `p`. -/
def trimEnd (p : Char → Bool) (s : String) : String :=
  String.ofList (trimEndChars p s.toList)

/-- `s` without blanks at either end. -/
def strip (s : String) : String :=
  String.ofList (stripChars s.toList)

/-- `s` without blanks at its end. -/
def stripEnd (s : String) : String :=
  trimEnd isBlank s

/-- Whether `s` holds nothing but blanks. -/
def allBlank (s : String) : Bool :=
  s.toList.all isBlank

theorem trimEndChars_prefix (p : Char → Bool) (cs : List Char) : trimEndChars p cs <+: cs := by
  have h : cs.reverse.dropWhile p <:+ cs.reverse := List.dropWhile_suffix p
  simpa [trimEndChars] using List.reverse_prefix.mpr h

/-! ## Searching -/

/-- Whether `t` begins with `s`. -/
def startsWith (t s : String) : Bool :=
  s.toList.isPrefixOf t.toList

/-- Whether `t` ends with `s`. -/
def endsWith (t s : String) : Bool :=
  s.toList.isSuffixOf t.toList

/-- Whether `part` occurs in the list as a run. -/
def hasRun (part : List Char) : List Char → Bool
  | [] => part.isEmpty
  | c :: cs => part.isPrefixOf (c :: cs) || hasRun part cs

/-- Whether `part` occurs in `s`. -/
def contains (s part : String) : Bool :=
  hasRun part.toList s.toList

theorem hasRun_iff (part cs : List Char) : hasRun part cs = true ↔ part <:+: cs := by
  induction cs with
  | nil => simp [hasRun]
  | cons c cs ih => simp [hasRun, ih, List.infix_cons_iff]

/-! ## Splitting -/

/-- Splits at every character that satisfies `p`; the separators are dropped and empty pieces
are kept, so there is one piece more than there are separators. -/
def splitChars (p : Char → Bool) (cs : List Char) : List (List Char) :=
  cs.foldr
    (fun c pieces =>
      if p c then [] :: pieces
      else match pieces with
        | [] => [[c]]
        | piece :: rest => (c :: piece) :: rest)
    [[]]

/-- The pieces of `s` between occurrences of `sep`. -/
def split (sep : Char) (s : String) : List String :=
  (splitChars (· == sep) s.toList).map String.ofList

/-- The part of `s` before the first occurrence of `sep`, or all of it. -/
def beforeFirst (sep : Char) (s : String) : String :=
  String.ofList (s.toList.takeWhile (· != sep))

/-- The part of `s` after the last occurrence of `sep`, or all of it. -/
def afterLast (sep : Char) (s : String) : String :=
  String.ofList (s.toList.reverse.takeWhile (· != sep)).reverse

/-- How often `c` occurs in `s`. -/
def count (c : Char) (s : String) : Nat :=
  s.toList.count c

/-- The first `n` characters. -/
def take (n : Nat) (s : String) : String :=
  String.ofList (s.toList.take n)

/-- All but the last `n` characters. -/
def dropEnd (n : Nat) (s : String) : String :=
  String.ofList (s.toList.take (s.length - n))

/-- All but the first `n` characters. -/
def drop (n : Nat) (s : String) : String :=
  String.ofList (s.toList.drop n)

/-- `s` with every occurrence of `c` replaced by `d`. -/
def replaceChar (c d : Char) (s : String) : String :=
  String.ofList (s.toList.map fun x => if x == c then d else x)

@[simp] theorem toList_take (n : Nat) (s : String) : (take n s).toList = s.toList.take n := by
  simp [take]

@[simp] theorem splitChars_nil (p : Char → Bool) : splitChars p [] = [[]] := rfl

theorem splitChars_ne_nil (p : Char → Bool) (cs : List Char) : splitChars p cs ≠ [] := by
  cases cs with
  | nil => simp
  | cons c cs =>
      simp only [splitChars, List.foldr_cons]
      split
      · simp
      · split <;> simp

/-! ## Order -/

/-- Code point order, as a test that a merge sort can use. -/
def notAfter (a b : String) : Bool :=
  !decide (b < a)

/-- Texts in code point order. -/
def sorted (xs : List String) : List String :=
  xs.mergeSort notAfter

end Dossier.Text

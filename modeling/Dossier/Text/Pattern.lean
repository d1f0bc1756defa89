import Dossier.Text.Blank
import Dossier.Text.WordChar

/-!
# Text patterns

Patterns with repetition, choice and numbered groups. A pattern is tried at one place of a text
and prefers, in this order, the earlier branch of a choice and the longer repetition; `matchAt`
returns the rest of the text and the groups of the preferred match, `search` tries every place
from the left.
-/

namespace Dossier.Text

/-- What a text must look like. -/
inductive Pattern where
  /-- Matches the empty text. -/
  | empty
  /-- A character of a class. -/
  | one (p : Char → Bool)
  /-- The longest run of a class first, shorter ones after it, none below the given length. -/
  | run (least : Nat) (p : Char → Bool)
  /-- A place between a word character and something else. -/
  | boundary
  /-- One pattern after the other. -/
  | seq (a b : Pattern)
  /-- The first pattern, or else the second. -/
  | alt (a b : Pattern)
  /-- Any number of times, as often as possible first. -/
  | many (a : Pattern)
  /-- Remembers the text matched, under a number. -/
  | group (n : Nat) (a : Pattern)

namespace Pattern

/-- A place in a text: the character before it, the text after it, the groups seen so far. -/
structure Place where
  before : Option Char
  rest : List Char
  groups : List (Nat × List Char)

/-- The text of the last group with number `n`. -/
def Place.group? (s : Place) (n : Nat) : Option (List Char) :=
  (s.groups.find? (·.1 == n)).map (·.2)

/-- Whether exactly one of the characters around a place is a word character. -/
def Place.atBoundary (s : Place) : Bool :=
  s.before.any isWord != s.rest.head?.any isWord

/-- Tries `k` after the run `taken` (held in reverse, `length` characters long), then after ever
shorter runs of at least `least` characters. -/
def giveBack {α : Type} (k : Place → Option α) (least : Nat) (s : Place) :
    (taken : List Char) → (length : Nat) → (after : List Char) → Option α
  | [], length, after => if least ≤ length then k { s with rest := after } else none
  | c :: cs, length, after =>
    if least ≤ length then
      match k { s with before := some c, rest := after } with
      | some result => some result
      | none => giveBack k least s cs (length - 1) (c :: after)
    else none

/-- Repeats a step that has to consume something, at most `bound` times, and prefers more
repetitions. -/
def iterate {α : Type} (step : (Place → Option α) → Place → Option α) (k : Place → Option α) :
    (bound : Nat) → Place → Option α
  | 0, s => k s
  | bound + 1, s =>
    let again (t : Place) : Option α :=
      if t.rest.length < s.rest.length then iterate step k bound t else none
    match step again s with
    | some result => some result
    | none => k s

/-- Matches at a place and goes on with `k`, which may refuse and so ask for the next match. -/
def matchThen {α : Type} : Pattern → (Place → Option α) → Place → Option α
  | .empty, k, s => k s
  | .one p, k, s => match s.rest with
    | c :: cs => if p c then k { s with before := some c, rest := cs } else none
    | [] => none
  | .run least p, k, s =>
    let taken := (s.rest.takeWhile p).reverse
    giveBack k least s taken taken.length (s.rest.dropWhile p)
  | .boundary, k, s => if s.atBoundary then k s else none
  | .seq a b, k, s => matchThen a (matchThen b k) s
  | .alt a b, k, s => match matchThen a k s with
    | some result => some result
    | none => matchThen b k s
  | .many a, k, s => iterate (matchThen a) k s.rest.length s
  | .group n a, k, s =>
    matchThen a
      (fun t =>
        let text := s.rest.take (s.rest.length - t.rest.length)
        k { t with groups := (n, text) :: t.groups })
      s

/-- The preferred match at the start of a text. -/
def matchAt (p : Pattern) (text : List Char) : Option Place :=
  matchThen p some ⟨none, text, []⟩

/-- The preferred match at the leftmost place where there is one; `before` is the character in
front of the text. -/
def searchFrom (p : Pattern) (before : Option Char) : List Char → Option Place
  | [] => matchThen p some ⟨before, [], []⟩
  | c :: cs => match matchThen p some ⟨before, c :: cs, []⟩ with
    | some found => some found
    | none => searchFrom p (some c) cs

/-- The preferred match at the leftmost place where there is one. -/
def search (p : Pattern) (s : String) : Option Place :=
  searchFrom p none s.toList

/-- Whether some match takes all of a text. -/
def matchesAll (p : Pattern) (text : List Char) : Bool :=
  (matchThen p (fun s => if s.rest.isEmpty then some () else none) ⟨none, text, []⟩).isSome

/-- The matches that begin where a line begins, from left to right and without overlap; `before`
is the character in front of the text. -/
def lineMatches (p : Pattern) (before : Option Char) (text : List Char) : List Place :=
  match text with
  | [] => []
  | c :: cs =>
    let found := if before.all (· == '\n') then matchThen p some ⟨before, c :: cs, []⟩ else none
    match found with
    | some s =>
      if s.rest.length ≤ cs.length then s :: lineMatches p s.before s.rest
      else lineMatches p (some c) cs
    | none => lineMatches p (some c) cs
termination_by text.length
decreasing_by all_goals (simp only [List.length_cons]; omega)

/-- The text of a group in every match that begins where a line begins. -/
def groupsOnLines (p : Pattern) (n : Nat) (s : String) : List String :=
  ((lineMatches p none s.toList).filterMap (·.group? n)).map String.ofList

/-! ## Building patterns -/

/-- A fixed text. -/
def lit (s : String) : Pattern :=
  s.toList.foldr (fun c p => seq (one (· == c)) p) empty

/-- A pattern or nothing. -/
def opt (p : Pattern) : Pattern :=
  alt p empty

/-- Patterns one after the other. -/
def all (ps : List Pattern) : Pattern :=
  ps.foldr seq empty

/-- The first of the fixed texts that lets the rest match. -/
def anyOf : List String → Pattern
  | [] => one fun _ => false
  | [w] => lit w
  | w :: ws => alt (lit w) (anyOf ws)

/-- At least one word character. -/
def word : Pattern :=
  run 1 isWord

/-- At least one blank. -/
def blanks : Pattern :=
  run 1 isBlank

/-- Blanks or nothing. -/
def gap : Pattern :=
  run 0 isBlank

end Pattern

end Dossier.Text

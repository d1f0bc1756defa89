/-!
# Name wildcards

Patterns for a single name: a star stands for any run of characters, a question mark for one
character, a bracket for one character of a set. A bracket that is never closed stands for itself.

An attempt to fit a pattern tells a text that does not fit from one of which no end fits either, so
that only the last star of a pattern is ever tried again. `matchTokens_nil`, `matchTokens_cons` and
`matchTokens_any` say what a match is without that distinction.
-/

namespace Dossier.Text

/-- Whether `k` accepts what is left after skipping a run of characters that satisfy `p`. -/
def skipThen (p : Char → Bool) (k : List Char → Bool) : List Char → Bool
  | [] => k []
  | c :: cs => k (c :: cs) || (p c && skipThen p k cs)

namespace Wildcard

/-- The parts of a name pattern. -/
inductive Token where
  | lit (c : Char)
  | one
  | any
  /-- One character of the intervals, or one outside them if `negated`. -/
  | set (negated : Bool) (intervals : List (Char × Char))
deriving DecidableEq, Repr

/-- Whether a character lies in one of the intervals. -/
def inIntervals (intervals : List (Char × Char)) (c : Char) : Bool :=
  intervals.any fun (first, last) => first ≤ c && c ≤ last

/-! ## Brackets -/

/-- The inside of a bracket and the length of that text with the closing bracket. An exclamation
mark and then a closing bracket right at the start belong to the inside. -/
def bracket? (cs : List Char) : Option (List Char × Nat) :=
  let mark := match cs with
    | '!' :: ']' :: _ => 2
    | '!' :: _ => 1
    | ']' :: _ => 1
    | _ => 0
  let body := (cs.drop mark).takeWhile (· != ']')
  let n := mark + body.length
  if n < cs.length then some (cs.take n, n + 1) else none

/-- Cuts the inside of a bracket at the hyphens that join the ends of an interval: the first has
at least `least` characters before it, each later one at least two. -/
def chunks (least : Nat) (cs : List Char) : List (List Char) :=
  let tail := cs.drop least
  let n := least + (tail.takeWhile (· != '-')).length
  if n < cs.length then cs.take n :: chunks 2 (cs.drop (n + 1)) else [cs]
termination_by cs.length
decreasing_by simp only [List.length_drop]; omega

/-- A hyphen at the very end belongs to the chunk before it. -/
def closeChunks : List (List Char) → List (List Char)
  | [] => []
  | [c] => [c]
  | [c, []] => [c ++ ['-']]
  | c :: cs => c :: closeChunks cs

/-- Takes out the intervals whose ends are in the wrong order. -/
def dropEmpty (cs : List (List Char)) : List (List Char) :=
  cs.foldr
    (fun chunk rest => match rest with
      | next :: more =>
        match chunk.getLast?, next.head? with
        | some last, some first =>
          if first < last then (chunk.dropLast ++ next.tail) :: more else chunk :: rest
        | _, _ => chunk :: rest
      | [] => [chunk])
    []

/-- Every character of the chunks, and the intervals between one chunk and the next. -/
def intervals : List (List Char) → List (Char × Char)
  | [] => []
  | [c] => c.map fun x => (x, x)
  | c :: d :: rest =>
    let joint := match c.getLast?, d.head? with
      | some first, some last => (first, last)
      | _, _ => ('-', '-')
    c.map (fun x => (x, x)) ++ joint :: intervals (d :: rest)

/-- The set that the inside of a bracket stands for. -/
def setOf (inside : List Char) : Token :=
  let least := if inside.head? = some '!' then 2 else 1
  match dropEmpty (closeChunks (chunks least inside)) with
  | ('!' :: chunk) :: rest => .set true (intervals (chunk :: rest))
  | all => .set false (intervals all)

/-! ## Patterns -/

/-- The parts of a pattern. -/
def tokens : List Char → List Token
  | [] => []
  | c :: cs =>
    if c = '*' then .any :: tokens cs
    else if c = '?' then .one :: tokens cs
    else if c = '[' then
      match bracket? cs with
      | some (inside, n) => setOf inside :: tokens (cs.drop n)
      | none => .lit '[' :: tokens cs
    else .lit c :: tokens cs
termination_by cs => cs.length
decreasing_by all_goals (simp only [List.length_drop, List.length_cons]; omega)

/-- Whether a part other than a star stands for a character. -/
def Token.accepts : Token → Char → Bool
  | .lit c, d => c == d
  | .one, _ => true
  | .set negated chars, c => inIntervals chars c != negated
  | .any, _ => false

/-- What comes of an attempt to fit the parts of a pattern to a text. -/
inductive Attempt where
  | fits
  | fails
  /-- The parts fit no end of the text either, so that no star before them can help. -/
  | hopeless
deriving DecidableEq, Repr

/-- Attempts `k` at every end of a text, the longest one first, until one fits or is hopeless. -/
def attemptEnds (k : List Char → Attempt) : List Char → Attempt
  | [] => if k [] = .fits then .fits else .hopeless
  | c :: cs => if k (c :: cs) = .fails then attemptEnds k cs else k (c :: cs)

/-- Attempts to fit the parts of a pattern to a text. -/
def attempt : List Token → List Char → Attempt
  | [], cs => if cs.isEmpty then .fits else .fails
  | .any :: ts, cs => attemptEnds (attempt ts) cs
  | _ :: _, [] => .hopeless
  | t :: ts, c :: cs => if t.accepts c then attempt ts cs else .fails

/-- Whether the parts of a pattern stand for the whole of a name. -/
def matchTokens (ts : List Token) (cs : List Char) : Bool :=
  attempt ts cs == .fits

/-- Whether hopeless attempts are right: none at an end of the text fits. -/
def Honest (k : List Char → Attempt) : Prop :=
  ∀ cs, k cs = .hopeless → ∀ rest, rest <:+ cs → k rest ≠ .fits

theorem attemptEnds_eq_fits_iff {k : List Char → Attempt} (h : Honest k) (cs : List Char) :
    attemptEnds k cs = .fits ↔ ∃ rest, rest <:+ cs ∧ k rest = .fits := by
  induction cs with
  | nil => simp [attemptEnds]
  | cons c cs ih =>
    by_cases hk : k (c :: cs) = .fails
    · simp only [attemptEnds, hk, if_true, ih, List.suffix_cons_iff]
      constructor
      · rintro ⟨rest, hr, hf⟩
        exact ⟨rest, .inr hr, hf⟩
      · rintro ⟨rest, rfl | hr, hf⟩
        · simp [hk] at hf
        · exact ⟨rest, hr, hf⟩
    · simp only [attemptEnds, hk, if_false]
      constructor
      · exact fun hf => ⟨c :: cs, List.suffix_refl _, hf⟩
      · rintro ⟨rest, hr, hf⟩
        cases hv : k (c :: cs) with
        | fits => rfl
        | fails => exact absurd hv hk
        | hopeless => exact absurd hf (h _ hv rest hr)

theorem honest_attemptEnds {k : List Char → Attempt} (h : Honest k) : Honest (attemptEnds k) := by
  intro cs hcs rest hr hf
  obtain ⟨more, hm, hk⟩ := (attemptEnds_eq_fits_iff h rest).mp hf
  have := (attemptEnds_eq_fits_iff h cs).mpr ⟨more, hm.trans hr, hk⟩
  simp [hcs] at this

theorem honest_attempt (ts : List Token) : Honest (attempt ts) := by
  induction ts with
  | nil =>
    intro cs h
    simp only [attempt] at h
    split at h <;> simp at h
  | cons t ts ih =>
    cases t with
    | any => exact honest_attemptEnds ih
    | _ =>
      intro cs h rest hr
      cases rest with
      | nil => simp [attempt]
      | cons d rest =>
        cases cs with
        | nil => simp at hr
        | cons c cs =>
          simp only [attempt] at h ⊢
          split at h
          · split
            · refine ih cs h rest ?_
              rcases List.suffix_cons_iff.mp hr with heq | hs
              · exact (List.cons.inj heq).2 ▸ List.suffix_refl _
              · exact (List.suffix_cons d rest).trans hs
            · simp
          · simp at h

/-- A star stands for any run of characters. -/
theorem matchTokens_any (ts : List Token) (cs : List Char) :
    matchTokens (.any :: ts) cs = true ↔ ∃ rest, rest <:+ cs ∧ matchTokens ts rest = true := by
  simp [matchTokens, attempt, attemptEnds_eq_fits_iff (honest_attempt ts)]

/-- The end of a pattern stands for the empty text. -/
theorem matchTokens_nil (cs : List Char) : matchTokens [] cs = cs.isEmpty := by
  cases cs <;> rfl

/-- A part other than a star stands for one character. -/
theorem matchTokens_cons {t : Token} (h : t ≠ .any) (ts : List Token) (c : Char) (cs : List Char) :
    matchTokens (t :: ts) (c :: cs) = (t.accepts c && matchTokens ts cs) := by
  cases t <;> simp_all [matchTokens, attempt] <;> split <;> simp_all

/-- Whether a pattern stands for a name. -/
def matches? (pattern name : String) : Bool :=
  matchTokens (tokens pattern.toList) name.toList

/-- Whether a pattern has any special character at all. -/
def isWild (pattern : String) : Bool :=
  pattern.toList.any fun c => c == '*' || c == '?' || c == '['

end Wildcard

/-- Whether a name is on the list of patterns. Only a pattern with a star is read as a wildcard;
any other must be the name itself. -/
def isIgnored (patterns : List String) (name : String) : Bool :=
  patterns.any fun pattern =>
    if pattern.toList.contains '*' then Wildcard.matches? pattern name else name == pattern

end Dossier.Text

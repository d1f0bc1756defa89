import Dossier.Path.Glob
import Dossier.Proofs.Text.Split
import Mathlib.Data.List.Infix

/-!
# Globs by segments

A path is a list of segments between slashes, and a glob in which two stars only stand as a
component of their own is a list of components. Such a glob stands for a path if and only if its
components fit the segments from left to right.
-/

namespace Dossier.Glob

open Text (skipThen)

/-! ## What fits -/

/-- The texts between slashes. -/
def segmentsOf (s : String) : List (List Char) :=
  s.toList.splitOn '/'

/-- The component that stands for any number of segments. -/
def deep : List Char := ['*', '*']

/-- What a character of a component stands for: a star for a run of characters, a question mark for
one character, and every other character for itself. -/
def StandsFor (c : Char) (piece : List Char) : Prop :=
  if c = '*' then '/' ∉ piece
  else if c = '?' then ∃ d, d ≠ '/' ∧ piece = [d]
  else piece = [c]

/-- A component fits a segment that is made of what its characters stand for. -/
inductive FitsSegment : List Char → List Char → Prop
  | nil : FitsSegment [] []
  | cons {component segment piece : List Char} {c : Char} (hc : StandsFor c piece)
      (h : FitsSegment component segment) : FitsSegment (c :: component) (piece ++ segment)

/-- Components fit segments from left to right. Two stars stand for any number of segments, and for
at least one if nothing comes after them. -/
inductive FitsSegments : List (List Char) → List (List Char) → Prop
  | nil : FitsSegments [] []
  | one {component segment : List Char} {components segments : List (List Char)}
      (hcomponent : component ≠ deep) (h : FitsSegment component segment)
      (hrest : FitsSegments components segments) :
      FitsSegments (component :: components) (segment :: segments)
  | skip {components segments skipped : List (List Char)} (hne : components ≠ [])
      (h : FitsSegments components segments) :
      FitsSegments (deep :: components) (skipped ++ segments)
  | last {segments : List (List Char)} (hne : segments ≠ []) : FitsSegments [deep] segments

/-- Two stars only stand as a component of their own. -/
def StarsApart (pattern : String) : Prop :=
  ∀ component ∈ segmentsOf pattern, deep <:+: component → component = deep

instance (pattern : String) : Decidable (StarsApart pattern) :=
  inferInstanceAs (Decidable (∀ component ∈ segmentsOf pattern,
    deep <:+: component → component = deep))

theorem StandsFor.slash_not_mem {c : Char} {piece : List Char} (h : StandsFor c piece)
    (hslash : '/' ≠ c) : '/' ∉ piece := by
  rw [StandsFor] at h
  split at h
  · exact h
  · split at h
    · obtain ⟨d, hd, rfl⟩ := h
      simpa using hd.symm
    · subst h
      simpa using hslash

theorem fitsSegment_nil_iff {segment : List Char} : FitsSegment [] segment ↔ segment = [] := by
  constructor
  · rintro ⟨⟩
    rfl
  · rintro rfl
    exact .nil

theorem fitsSegment_cons_iff {component segment : List Char} {c : Char} :
    FitsSegment (c :: component) segment ↔
      ∃ piece rest, piece ++ rest = segment ∧ StandsFor c piece ∧ FitsSegment component rest := by
  constructor
  · rintro ⟨⟩
    exact ⟨_, _, rfl, ‹_›, ‹_›⟩
  · rintro ⟨piece, rest, rfl, hc, h⟩
    exact .cons hc h

theorem FitsSegment.slash_not_mem {component segment : List Char}
    (h : FitsSegment component segment) (hslash : '/' ∉ component) : '/' ∉ segment := by
  induction h with
  | nil => exact hslash
  | cons hc _ ih =>
      rw [List.mem_cons, not_or] at hslash
      rw [List.mem_append, not_or]
      exact ⟨hc.slash_not_mem hslash.1, ih hslash.2⟩

theorem FitsSegments.ne_nil {components segments : List (List Char)}
    (h : FitsSegments components segments) (hne : components ≠ []) : segments ≠ [] := by
  induction h with
  | nil => exact hne
  | one => exact List.cons_ne_nil _ _
  | skip hne' _ ih => exact List.append_ne_nil_of_right_ne_nil _ (ih hne')
  | last hne' => exact hne'

theorem fitsSegments_nil_iff {segments : List (List Char)} :
    FitsSegments [] segments ↔ segments = [] := by
  constructor
  · rintro ⟨⟩
    rfl
  · rintro rfl
    exact .nil

theorem fitsSegments_cons_iff {component : List Char} {components segments : List (List Char)}
    (hcomponent : component ≠ deep) : FitsSegments (component :: components) segments ↔
      ∃ segment rest, [segment] ++ rest = segments ∧ FitsSegment component segment ∧
        FitsSegments components rest := by
  constructor
  · intro h
    cases h with
    | one _ h hrest => exact ⟨_, _, rfl, h, hrest⟩
    | skip => exact absurd rfl hcomponent
    | last => exact absurd rfl hcomponent
  · rintro ⟨segment, rest, rfl, h, hrest⟩
    exact .one hcomponent h hrest

theorem fitsSegments_deep_iff {components segments : List (List Char)} (hne : components ≠ []) :
    FitsSegments (deep :: components) segments ↔
      ∃ skipped rest, skipped ++ rest = segments ∧ FitsSegments components rest := by
  constructor
  · intro h
    cases h with
    | one hdeep => exact absurd rfl hdeep
    | skip _ h => exact ⟨_, _, rfl, h⟩
    | last => exact absurd rfl hne
  · rintro ⟨skipped, rest, rfl, h⟩
    exact .skip hne h

/-! ## Segments of joined texts -/

theorem intercalate_append {segments segments' : List (List Char)} (hne : segments ≠ [])
    (hne' : segments' ≠ []) : ['/'].intercalate (segments ++ segments') =
      ['/'].intercalate segments ++ '/' :: ['/'].intercalate segments' := by
  induction segments with
  | nil => exact absurd rfl hne
  | cons segment rest ih =>
      by_cases hrest : rest = []
      · subst hrest
        rw [List.singleton_append, List.intercalate_cons_of_ne_nil hne', List.intercalate_singleton,
          List.append_assoc]
        rfl
      · rw [List.cons_append, List.intercalate_cons_of_ne_nil (by simp [hrest]),
          List.intercalate_cons_of_ne_nil hrest, ih hrest]
        simp only [List.append_assoc]

theorem slash_not_mem_of_mem_splitOn {cs segment : List Char} (h : segment ∈ cs.splitOn '/') :
    '/' ∉ segment := by
  rw [List.splitOn_eq_splitOnP, ← Text.splitChars_eq_splitOnP] at h
  intro hslash
  have := Text.not_mem_of_mem_splitChars h '/' hslash
  simp at this

/-- The segments of a text come apart where there is a slash. -/
theorem splitOn_eq_append_iff {cs : List Char} {segments segments' : List (List Char)}
    (hne : segments ≠ []) (hne' : segments' ≠ []) :
    cs.splitOn '/' = segments ++ segments' ↔
      ∃ a b, a ++ '/' :: b = cs ∧ a.splitOn '/' = segments ∧ b.splitOn '/' = segments' := by
  constructor
  · intro h
    have hslash : ∀ segment ∈ segments ++ segments', '/' ∉ segment := by
      intro segment hsegment
      exact slash_not_mem_of_mem_splitOn (h ▸ hsegment)
    have hjoin : ['/'].intercalate (cs.splitOn '/') = cs := List.intercalate_splitOn '/'
    rw [h, intercalate_append hne hne'] at hjoin
    refine ⟨_, _, hjoin, List.splitOn_intercalate '/' ?_ hne, List.splitOn_intercalate '/' ?_ hne'⟩
    · intro segment hsegment
      exact hslash segment (List.mem_append_left _ hsegment)
    · intro segment hsegment
      exact hslash segment (List.mem_append_right _ hsegment)
  · rintro ⟨a, b, rfl, rfl, rfl⟩
    exact List.splitOn_append_cons_self a b

theorem splitOn_eq_singleton_iff {cs segment : List Char} :
    cs.splitOn '/' = [segment] ↔ cs = segment ∧ '/' ∉ segment := by
  constructor
  · intro h
    have hjoin : ['/'].intercalate (cs.splitOn '/') = cs := List.intercalate_splitOn '/'
    rw [h, List.intercalate_singleton] at hjoin
    exact ⟨hjoin.symm, slash_not_mem_of_mem_splitOn (h ▸ List.mem_singleton_self segment)⟩
  · rintro ⟨rfl, hslash⟩
    exact List.splitOn_eq_singleton hslash

/-! ## Parts of a pattern -/

/-- The part of a pattern that a character stands for where no two stars meet. -/
def Token.ofChar (c : Char) : Token :=
  if c = '*' then .within else if c = '?' then .one else .lit c

theorem tokens_cons {c : Char} {cs : List Char} (h : c = '*' → cs.head? ≠ some '*') :
    tokens (c :: cs) = Token.ofChar c :: tokens cs := by
  by_cases hstar : c = '*'
  · subst hstar
    cases cs with
    | nil => rfl
    | cons d cs =>
        have hd : d ≠ '*' := by simpa using h rfl
        simp [tokens, Token.ofChar, hd]
  · by_cases hone : c = '?'
    · subst hone
      rfl
    · simp [tokens, Token.ofChar, hstar, hone]

/-- A component is read character by character, up to the end or to a slash. -/
theorem tokens_append {component : List Char} (hstars : ¬ deep <:+: component) {rest : List Char}
    (hrest : rest.head? ≠ some '*') :
    tokens (component ++ rest) = component.map Token.ofChar ++ tokens rest := by
  induction component with
  | nil => rfl
  | cons c component ih =>
      rw [List.infix_cons_iff, not_or] at hstars
      have hnext : c = '*' → (component ++ rest).head? ≠ some '*' := by
        rintro rfl hhead
        cases component with
        | nil => exact hrest hhead
        | cons d component =>
            obtain rfl : d = '*' := by simpa using hhead
            exact hstars.1 ⟨component, rfl⟩
      rw [List.cons_append, tokens_cons hnext, ih hstars.2, List.map_cons, List.cons_append]

/-! ## Matching -/

theorem skipThen_iff {p : Char → Bool} {k : List Char → Bool} {cs : List Char} :
    skipThen p k cs = true ↔
      ∃ run rest, run ++ rest = cs ∧ (∀ c ∈ run, p c = true) ∧ k rest = true := by
  induction cs with
  | nil => simp [skipThen]
  | cons c cs ih =>
      rw [skipThen, Bool.or_eq_true, Bool.and_eq_true, ih]
      constructor
      · rintro (hk | ⟨hc, run, rest, rfl, hrun, hk⟩)
        · exact ⟨[], _, rfl, by simp, hk⟩
        · exact ⟨c :: run, rest, rfl, List.forall_mem_cons.mpr ⟨hc, hrun⟩, hk⟩
      · rintro ⟨run, rest, heq, hrun, hk⟩
        cases run with
        | nil =>
            left
            rwa [← heq]
        | cons d run =>
            obtain ⟨rfl, rfl⟩ := List.cons.inj heq
            obtain ⟨hd, hrun⟩ := List.forall_mem_cons.mp hrun
            exact .inr ⟨hd, run, rest, rfl, hrun, hk⟩

theorem afterSlash_iff {k : List Char → Bool} {cs : List Char} :
    afterSlash k cs = true ↔ ∃ rest, '/' :: rest = cs ∧ k rest = true := by
  cases cs with
  | nil => simp [afterSlash]
  | cons c cs =>
      by_cases hc : c = '/'
      · subst hc
        simp [afterSlash]
      · simp [afterSlash, hc, Ne.symm hc]

theorem matchTokens_lit {c : Char} {ts : List Token} {cs : List Char} :
    matchTokens (.lit c :: ts) cs = true ↔ ∃ rest, c :: rest = cs ∧ matchTokens ts rest = true := by
  cases cs with
  | nil => simp [matchTokens]
  | cons d cs => simp [matchTokens, and_comm]

theorem matchTokens_cons {c : Char} {ts : List Token} {cs : List Char} :
    matchTokens (Token.ofChar c :: ts) cs = true ↔
      ∃ piece rest, piece ++ rest = cs ∧ StandsFor c piece ∧ matchTokens ts rest = true := by
  by_cases hstar : c = '*'
  · subst hstar
    have hrun : ∀ run : List Char, (∀ d ∈ run, (d != '/') = true) ↔ '/' ∉ run := by
      intro run
      simp only [bne_iff_ne, ne_eq]
      exact ⟨fun h hmem ↦ h _ hmem rfl, fun h d hd hslash ↦ h (hslash ▸ hd)⟩
    simp only [Token.ofChar, StandsFor, if_true, matchTokens, skipThen_iff, hrun]
  · by_cases hone : c = '?'
    · subst hone
      cases cs with
      | nil => simp [Token.ofChar, StandsFor, matchTokens]
      | cons d cs => simp [Token.ofChar, StandsFor, matchTokens, and_comm]
    · simp [Token.ofChar, StandsFor, hstar, hone, matchTokens_lit]

/-- The parts of a component match a segment that it fits. -/
theorem matchTokens_append {component : List Char} {ts : List Token} {cs : List Char} :
    matchTokens (component.map Token.ofChar ++ ts) cs = true ↔
      ∃ segment rest, segment ++ rest = cs ∧ FitsSegment component segment ∧
        matchTokens ts rest = true := by
  induction component generalizing cs with
  | nil => simp [fitsSegment_nil_iff]
  | cons c component ih =>
      rw [List.map_cons, List.cons_append, matchTokens_cons]
      constructor
      · rintro ⟨piece, left, rfl, hc, hmatch⟩
        obtain ⟨segment, rest, rfl, hfits, hmatch⟩ := ih.mp hmatch
        exact ⟨piece ++ segment, rest, List.append_assoc .., .cons hc hfits, hmatch⟩
      · rintro ⟨segment, rest, rfl, hfits, hmatch⟩
        obtain ⟨piece, segment, rfl, hc, hfits⟩ := fitsSegment_cons_iff.mp hfits
        refine ⟨piece, segment ++ rest, (List.append_assoc ..).symm, hc, ?_⟩
        exact ih.mpr ⟨segment, rest, rfl, hfits, hmatch⟩

theorem atEnd_iff {cs : List Char} (hline : '\n' ∉ cs) : atEnd cs = true ↔ cs = [] := by
  cases cs with
  | nil => simp [atEnd]
  | cons c cs =>
      obtain ⟨hc, -⟩ := not_or.mp (List.mem_cons.not.mp hline)
      simp only [reduceCtorEq, iff_false, atEnd]
      split <;> simp_all

/-- On one line, whole components can be skipped up to any slash. -/
theorem matchTokens_components {ts : List Token} {cs : List Char} (hline : '\n' ∉ cs) :
    matchTokens (.components :: ts) cs = true ↔
      matchTokens ts cs = true ∨ ∃ a b, a ++ '/' :: b = cs ∧ matchTokens ts b = true := by
  rw [matchTokens, Bool.or_eq_true, skipThen_iff]
  apply or_congr_right
  constructor
  · rintro ⟨run, rest, rfl, -, hslash⟩
    obtain ⟨b, rfl, hmatch⟩ := afterSlash_iff.mp hslash
    exact ⟨run, b, rfl, hmatch⟩
  · rintro ⟨a, b, rfl, hmatch⟩
    refine ⟨a, '/' :: b, rfl, ?_, afterSlash_iff.mpr ⟨b, rfl, hmatch⟩⟩
    intro c hc
    rw [bne_iff_ne]
    rintro rfl
    exact hline (List.mem_append_left _ hc)

theorem matchTokens_across {cs : List Char} (hline : '\n' ∉ cs) :
    matchTokens [.across] cs = true := by
  rw [matchTokens, skipThen_iff]
  refine ⟨cs, [], List.append_nil cs, ?_, rfl⟩
  intro c hc
  rw [bne_iff_ne]
  rintro rfl
  exact hline hc

/-- The last component matches a text that is one segment. -/
theorem matchTokens_last_iff {component : List Char} (hslash : '/' ∉ component)
    (hstars : ¬ deep <:+: component) {cs : List Char} (hline : '\n' ∉ cs) :
    matchTokens (tokens component) cs = true ↔
      ∃ segment, cs.splitOn '/' = [segment] ∧ FitsSegment component segment := by
  have htokens : tokens (component ++ []) = component.map Token.ofChar ++ tokens [] :=
    tokens_append hstars (by simp)
  rw [List.append_nil] at htokens
  rw [htokens, matchTokens_append]
  constructor
  · rintro ⟨segment, rest, rfl, hfits, hend⟩
    have hrest : '\n' ∉ rest := fun hmem ↦ hline (List.mem_append_right _ hmem)
    obtain rfl := (atEnd_iff hrest).mp hend
    rw [List.append_nil]
    exact ⟨segment, splitOn_eq_singleton_iff.mpr ⟨rfl, hfits.slash_not_mem hslash⟩, hfits⟩
  · rintro ⟨segment, hsplit, hfits⟩
    obtain ⟨rfl, -⟩ := splitOn_eq_singleton_iff.mp hsplit
    exact ⟨cs, [], List.append_nil cs, hfits, rfl⟩

/-- A component before a slash matches the first of several segments. -/
theorem matchTokens_slash_iff {component : List Char} (hslash : '/' ∉ component)
    (hstars : ¬ deep <:+: component) {rest cs : List Char} :
    matchTokens (tokens (component ++ '/' :: rest)) cs = true ↔
      ∃ segment b, segment ++ '/' :: b = cs ∧ segment.splitOn '/' = [segment] ∧
        FitsSegment component segment ∧ matchTokens (tokens rest) b = true := by
  have hread : tokens ('/' :: rest) = .lit '/' :: tokens rest := tokens_cons (by simp)
  rw [tokens_append hstars (by simp), matchTokens_append, hread]
  constructor
  · rintro ⟨segment, left, rfl, hfits, hmatch⟩
    obtain ⟨b, rfl, hmatch⟩ := matchTokens_lit.mp hmatch
    exact ⟨segment, b, rfl, List.splitOn_eq_singleton (hfits.slash_not_mem hslash), hfits, hmatch⟩
  · rintro ⟨segment, b, rfl, -, hfits, hmatch⟩
    exact ⟨segment, '/' :: b, rfl, hfits, matchTokens_lit.mpr ⟨b, rfl, hmatch⟩⟩

/-- The parts of a pattern match the texts whose segments its components fit. -/
theorem matchTokens_intercalate_iff {components : List (List Char)} (hne : components ≠ [])
    (hslash : ∀ component ∈ components, '/' ∉ component)
    (hstars : ∀ component ∈ components, deep <:+: component → component = deep) {cs : List Char}
    (hline : '\n' ∉ cs) :
    matchTokens (tokens (['/'].intercalate components)) cs = true ↔
      FitsSegments components (cs.splitOn '/') := by
  induction components generalizing cs with
  | nil => exact absurd rfl hne
  | cons component rest ih =>
      obtain ⟨hcomponent, hslash⟩ := List.forall_mem_cons.mp hslash
      obtain ⟨hdeep, hstars⟩ := List.forall_mem_cons.mp hstars
      by_cases hrest : rest = []
      · subst hrest
        rw [List.intercalate_singleton]
        by_cases heq : component = deep
        · subst heq
          exact iff_of_true (matchTokens_across hline) (.last (List.splitOn_ne_nil _ _))
        · rw [matchTokens_last_iff hcomponent (mt hdeep heq) hline, fitsSegments_cons_iff heq]
          simp [fitsSegments_nil_iff, eq_comm]
      · -- Whatever comes first is cut off at a slash, so the rest is to match an end of the text.
        have ih {b : List Char} (hb : b <:+ cs) :=
          ih hrest hslash hstars fun hmem ↦ hline (hb.subset hmem)
        rw [List.intercalate_cons_of_ne_nil hrest, List.append_assoc, List.singleton_append]
        by_cases heq : component = deep
        · subst heq
          rw [fitsSegments_deep_iff hrest]
          refine (matchTokens_components hline).trans ?_
          constructor
          · rintro (hmatch | ⟨a, b, rfl, hmatch⟩)
            · exact ⟨[], _, rfl, (ih List.suffix_rfl).mp hmatch⟩
            · refine ⟨_, _, (List.splitOn_append_cons_self a b).symm, (ih ?_).mp hmatch⟩
              exact (List.suffix_cons '/' b).trans (List.suffix_append a _)
          · rintro ⟨skipped, segments, hsplit, hfits⟩
            by_cases hskipped : skipped = []
            · subst hskipped
              rw [List.nil_append] at hsplit
              exact .inl ((ih List.suffix_rfl).mpr (hsplit ▸ hfits))
            · obtain ⟨a, b, rfl, -, rfl⟩ :=
                (splitOn_eq_append_iff hskipped (hfits.ne_nil hrest)).mp hsplit.symm
              refine .inr ⟨a, b, rfl, (ih ?_).mpr hfits⟩
              exact (List.suffix_cons '/' b).trans (List.suffix_append a _)
        · rw [matchTokens_slash_iff hcomponent (mt hdeep heq), fitsSegments_cons_iff heq]
          constructor
          · rintro ⟨segment, b, rfl, hsegment, hfits, hmatch⟩
            refine ⟨segment, b.splitOn '/', ?_, hfits, (ih ?_).mp hmatch⟩
            · rw [List.splitOn_append_cons_self, hsegment]
            · exact (List.suffix_cons '/' b).trans (List.suffix_append segment _)
          · rintro ⟨segment, segments, hsplit, hfits, hrests⟩
            obtain ⟨a, b, rfl, ha, rfl⟩ :=
              (splitOn_eq_append_iff (List.cons_ne_nil _ _) (hrests.ne_nil hrest)).mp hsplit.symm
            obtain ⟨rfl, -⟩ := splitOn_eq_singleton_iff.mp ha
            refine ⟨a, b, rfl, ha, hfits, (ih ?_).mpr hrests⟩
            exact (List.suffix_cons '/' b).trans (List.suffix_append a _)

/-- A glob in which two stars only stand as a component of their own matches a path on one line if
and only if its components fit the segments of the path from left to right. -/
theorem matchesAny_iff_fitsSegments {pattern path : String} (hstars : StarsApart pattern)
    (hline : '\n' ∉ path.toList) :
    matchesAny [pattern] path = true ↔ FitsSegments (segmentsOf pattern) (segmentsOf path) := by
  have hslash : ∀ component ∈ segmentsOf pattern, '/' ∉ component :=
    fun component ↦ slash_not_mem_of_mem_splitOn
  have hmatch := matchTokens_intercalate_iff (List.splitOn_ne_nil '/' pattern.toList) hslash hstars
    hline
  rw [List.intercalate_splitOn] at hmatch
  rw [matchesAny, List.any_cons, List.any_nil, Bool.or_false]
  exact hmatch

/-- Two stars cross directories or stand for none, one star stays in a segment, and what is special
elsewhere stands for itself. -/
theorem matchesAny_iff_fitsSegments_nested :
    StarsApart "src/**/(a+)*.t?" ∧ '\n' ∉ "src/x/y/(a+)b.ts".toList ∧
      FitsSegments (segmentsOf "src/**/(a+)*.t?") (segmentsOf "src/x/y/(a+)b.ts") ∧
      FitsSegments (segmentsOf "src/**/(a+)*.t?") (segmentsOf "src/(a+).ts") ∧
      ¬ FitsSegments (segmentsOf "src/*.ts") (segmentsOf "src/a/b.ts") := by
  refine ⟨by decide, by decide, ?_, ?_, ?_⟩
  · exact (matchesAny_iff_fitsSegments (by decide) (by decide)).mp (by decide)
  · exact (matchesAny_iff_fitsSegments (by decide) (by decide)).mp (by decide)
  · exact mt (matchesAny_iff_fitsSegments (by decide) (by decide)).mpr (by decide)

end Dossier.Glob

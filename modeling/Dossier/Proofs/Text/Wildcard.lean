import Dossier.Text.Wildcard
import Mathlib.Data.List.Basic
import Mathlib.Tactic.SplitIfs

/-!
# Stars in ignore patterns

In an ignore pattern only the star is meant to be special: it stands for any run of characters, and
every other character stands for itself. But a pattern with a star in it is read as a wildcard, in
which question marks and closed brackets are special as well. So a pattern is read as it is meant
exactly if it has no star, or neither question marks nor closed brackets.
-/

namespace Dossier.Text.Wildcard

variable {pattern name cs inside after : List Char} {ts : List Token} {n : Nat}

/-! ## Names that fit -/

/-- A name fits a pattern in which a star stands for a run of characters, and every other character
for itself. -/
inductive FitsStars : List Char → List Char → Prop
  | nil : FitsStars [] []
  | star {pattern name : List Char} (run : List Char) (h : FitsStars pattern name) :
      FitsStars ('*' :: pattern) (run ++ name)
  | char {pattern name : List Char} {c : Char} (hc : c ≠ '*') (h : FitsStars pattern name) :
      FitsStars (c :: pattern) (c :: name)

/-- The characters of a pattern that stand for themselves. -/
def plainChars (pattern : List Char) : List Char :=
  pattern.filter (· ≠ '*')

theorem plainChars_star (pattern : List Char) : plainChars ('*' :: pattern) = plainChars pattern :=
  rfl

theorem plainChars_cons {c : Char} (hc : c ≠ '*') (pattern : List Char) :
    plainChars (c :: pattern) = c :: plainChars pattern := by
  simp [plainChars, hc]

theorem plainChars_append (before after : List Char) :
    plainChars (before ++ after) = plainChars before ++ plainChars after :=
  List.filter_append ..

theorem fitsStars_nil_iff : FitsStars [] name ↔ name = [] := by
  constructor
  · rintro ⟨⟩
    rfl
  · rintro rfl
    exact .nil

theorem fitsStars_star_iff :
    FitsStars ('*' :: pattern) name ↔ ∃ rest, rest <:+ name ∧ FitsStars pattern rest := by
  constructor
  · intro h
    cases h with
    | star run h => exact ⟨_, List.suffix_append run _, h⟩
    | char hc => exact absurd rfl hc
  · rintro ⟨rest, ⟨run, rfl⟩, h⟩
    exact .star run h

theorem fitsStars_cons_iff {c : Char} (hc : c ≠ '*') :
    FitsStars (c :: pattern) name ↔ ∃ rest, name = c :: rest ∧ FitsStars pattern rest := by
  constructor
  · intro h
    cases h with
    | star => exact absurd rfl hc
    | char _ h => exact ⟨_, rfl, h⟩
  · rintro ⟨rest, rfl, h⟩
    exact .char hc h

theorem FitsStars.plainChars_sublist (h : FitsStars pattern name) :
    (plainChars pattern).Sublist name := by
  induction h with
  | nil => exact .slnil
  | star run _ ih => exact ih.trans (List.sublist_append_right run _)
  | char hc _ ih =>
      rw [plainChars_cons hc]
      exact ih.cons_cons _

/-- Every star may stand for nothing. -/
theorem fitsStars_plainChars (pattern : List Char) : FitsStars pattern (plainChars pattern) := by
  induction pattern with
  | nil => exact .nil
  | cons c pattern ih =>
      by_cases hc : c = '*'
      · subst hc
        exact .star [] ih
      · rw [plainChars_cons hc]
        exact .char hc ih

theorem fitsStars_iff_eq (h : '*' ∉ pattern) : FitsStars pattern name ↔ name = pattern := by
  induction pattern generalizing name with
  | nil => exact fitsStars_nil_iff
  | cons c pattern ih =>
      rw [List.mem_cons, not_or] at h
      obtain ⟨hc, hpattern⟩ := h
      rw [fitsStars_cons_iff (Ne.symm hc)]
      simp only [ih hpattern]
      exact ⟨fun ⟨_, hname, hrest⟩ ↦ hrest ▸ hname, fun hname ↦ ⟨pattern, hname, rfl⟩⟩

/-! ## Brackets -/

/-- There is a closed bracket: an opening one, something other than nothing or the mark of a
negation, and a closing one. -/
def HasBracket (pattern : List Char) : Prop :=
  ∃ before inside after, pattern = before ++ '[' :: (inside ++ ']' :: after) ∧
    inside ≠ [] ∧ inside ≠ ['!']

/-- The number of characters at the start of a bracket that cannot close it. -/
theorem exists_mark (cs : List Char) : ∃ mark,
    (bracket? cs =
      if mark + ((cs.drop mark).takeWhile (· != ']')).length < cs.length then
        some (cs.take (mark + ((cs.drop mark).takeWhile (· != ']')).length),
          mark + ((cs.drop mark).takeWhile (· != ']')).length + 1)
      else none) ∧
    ∀ inside after, cs = inside ++ ']' :: after →
      (mark ≤ inside.length ↔ inside ≠ [] ∧ inside ≠ ['!']) := by
  refine ⟨_, rfl, fun inside after hcs ↦ ?_⟩
  subst hcs
  match inside with
  | [] => simp
  | [c] =>
      by_cases hc : c = '!'
      · simp [hc]
      · split <;> simp_all
  | c :: d :: inside =>
      split <;> simp_all

theorem exists_of_length_takeWhile_lt {x : Char} (h : (cs.takeWhile (· != x)).length < cs.length) :
    ∃ after, cs = cs.takeWhile (· != x) ++ x :: after := by
  induction cs with
  | nil => cases h
  | cons c cs ih =>
      by_cases hc : c = x
      · exact ⟨cs, by simp [hc]⟩
      · have hcons : (c :: cs).takeWhile (· != x) = c :: cs.takeWhile (· != x) := by simp [hc]
        rw [hcons] at h ⊢
        obtain ⟨after, hafter⟩ := ih (Nat.lt_of_succ_lt_succ h)
        exact ⟨after, congrArg (c :: ·) hafter⟩

theorem length_takeWhile_append_le (x : Char) (cs after : List Char) :
    ((cs ++ x :: after).takeWhile (· != x)).length ≤ cs.length := by
  induction cs with
  | nil => simp
  | cons c cs ih =>
      rw [List.cons_append, List.takeWhile_cons]
      split
      · exact Nat.succ_le_succ ih
      · exact Nat.zero_le _

/-- What is read as a bracket is closed and has something inside. -/
theorem exists_of_bracket?_eq_some (h : bracket? cs = some (inside, n)) :
    ∃ after, cs = inside ++ ']' :: after ∧ cs.drop n = after ∧ inside ≠ [] ∧ inside ≠ ['!'] := by
  obtain ⟨mark, hbracket, hmark⟩ := exists_mark cs
  rw [hbracket] at h
  split at h
  next hlt =>
    obtain ⟨rfl, rfl⟩ := Prod.mk.inj (Option.some_inj.mp h)
    obtain ⟨before, after, hcs, hlength⟩ : ∃ before after, cs = before ++ ']' :: after ∧
        before.length = mark + ((cs.drop mark).takeWhile (· != ']')).length := by
      have hrest : ((cs.drop mark).takeWhile (· != ']')).length < (cs.drop mark).length := by
        rw [List.length_drop]
        omega
      obtain ⟨after, hafter⟩ := exists_of_length_takeWhile_lt hrest
      refine ⟨cs.take mark ++ (cs.drop mark).takeWhile (· != ']'), after, ?_, ?_⟩
      · rw [List.append_assoc, ← hafter, List.take_append_drop]
      · rw [List.length_append, List.length_take]
        omega
    have htake : cs.take before.length = before := by rw [hcs, List.take_left]
    have hdrop : cs.drop (before.length + 1) = after := by rw [hcs]; simp
    rw [← hlength, htake, hdrop]
    refine ⟨after, hcs, rfl, (hmark before after hcs).mp ?_⟩
    rw [hlength]
    exact Nat.le_add_right ..
  next => cases h

theorem bracket?_ne_none (hinside : inside ≠ []) (hnegated : inside ≠ ['!']) :
    bracket? (inside ++ ']' :: after) ≠ none := by
  obtain ⟨mark, hbracket, hmark⟩ := exists_mark (inside ++ ']' :: after)
  have hle := (hmark inside after rfl).mpr ⟨hinside, hnegated⟩
  have hbody := length_takeWhile_append_le ']' (inside.drop mark) after
  rw [← List.drop_append_of_le_length hle, List.length_drop] at hbody
  rw [hbracket, if_pos]
  · exact Option.some_ne_none _
  · rw [List.length_append, List.length_cons]
    omega

theorem not_hasBracket_nil : ¬ HasBracket [] := by
  rintro ⟨before, inside, after, heq, -⟩
  simp at heq

theorem HasBracket.cons (h : HasBracket pattern) (c : Char) : HasBracket (c :: pattern) := by
  obtain ⟨before, inside, after, rfl, hinside⟩ := h
  exact ⟨c :: before, inside, after, rfl, hinside⟩

/-- A bracket of a pattern begins at its first character, or later. -/
theorem hasBracket_cons_iff {c : Char} : HasBracket (c :: cs) ↔
    c = '[' ∧ bracket? cs ≠ none ∨ HasBracket cs := by
  constructor
  · rintro ⟨before, inside, after, heq, hinside, hnegated⟩
    cases before with
    | nil =>
        obtain ⟨rfl, rfl⟩ := List.cons.inj heq
        exact .inl ⟨rfl, bracket?_ne_none hinside hnegated⟩
    | cons d before =>
        obtain ⟨-, rfl⟩ := List.cons.inj heq
        exact .inr ⟨before, inside, after, rfl, hinside, hnegated⟩
  · rintro (⟨rfl, hbracket⟩ | h)
    · obtain ⟨⟨inside, n⟩, hsome⟩ := Option.ne_none_iff_exists'.mp hbracket
      obtain ⟨after, rfl, -, hinside⟩ := exists_of_bracket?_eq_some hsome
      exact ⟨[], inside, after, rfl, hinside⟩
    · exact h.cons c

/-! ## Parts of patterns -/

/-- The part that a character stands for where there is no bracket. -/
def tokenOf (c : Char) : Token :=
  if c = '*' then .any else if c = '?' then .one else .lit c

theorem tokenOf_star : tokenOf '*' = .any := rfl

theorem tokenOf_ne_any {c : Char} (hc : c ≠ '*') : tokenOf c ≠ .any := by
  rw [tokenOf, if_neg hc]
  split <;> simp

theorem tokens_cons {c : Char} (h : c = '[' → bracket? cs = none) :
    tokens (c :: cs) = tokenOf c :: tokens cs := by
  rw [tokens, tokenOf]
  split_ifs with hstar hone hopen
  · rfl
  · rfl
  · rw [h hopen, hopen]
  · rfl

theorem tokens_eq_map (h : ¬ HasBracket pattern) : tokens pattern = pattern.map tokenOf := by
  induction pattern with
  | nil => rw [tokens, List.map_nil]
  | cons c pattern ih =>
      rw [hasBracket_cons_iff, not_or, not_and_not_right] at h
      rw [tokens_cons h.1, ih h.2, List.map_cons]

theorem setOf_ne_any (inside : List Char) : setOf inside ≠ .any := by
  rw [setOf]
  split <;> simp

/-- How many characters a name must have at least. -/
def leastLength (ts : List Token) : Nat :=
  ts.countP (· ≠ .any)

theorem leastLength_cons {t : Token} (ht : t ≠ .any) (ts : List Token) :
    leastLength (t :: ts) = leastLength ts + 1 := by
  simp [leastLength, ht]

theorem leastLength_any (ts : List Token) : leastLength (.any :: ts) = leastLength ts := by
  simp [leastLength]

theorem tokens_bracket (h : bracket? cs = some (inside, n)) :
    tokens ('[' :: cs) = setOf inside :: tokens (cs.drop n) := by
  rw [tokens, if_neg (by decide), if_neg (by decide), if_pos rfl, h]

theorem length_plainChars_bracket (inside after : List Char) :
    (plainChars after).length + 2 ≤ (plainChars ('[' :: (inside ++ ']' :: after))).length := by
  rw [plainChars_cons (by decide), plainChars_append, plainChars_cons (by decide)]
  simp only [List.length_cons, List.length_append]
  omega

/-- A closed bracket stands for one character and is written in three or more. -/
theorem leastLength_tokens (pattern : List Char) :
    leastLength (tokens pattern) ≤ (plainChars pattern).length ∧
      (HasBracket pattern → leastLength (tokens pattern) < (plainChars pattern).length) := by
  cases pattern with
  | nil =>
      rw [tokens]
      exact ⟨Nat.zero_le _, fun h ↦ absurd h not_hasBracket_nil⟩
  | cons c cs =>
      by_cases hopen : c = '[' → bracket? cs = none
      · obtain ⟨hle, hlt⟩ := leastLength_tokens cs
        have htail (h : HasBracket (c :: cs)) : HasBracket cs :=
          (hasBracket_cons_iff.mp h).resolve_left (not_and_not_right.mpr hopen)
        rw [tokens_cons hopen]
        by_cases hc : c = '*'
        · rw [hc] at htail ⊢
          rw [tokenOf_star, leastLength_any, plainChars_star]
          exact ⟨hle, fun h ↦ hlt (htail h)⟩
        · rw [leastLength_cons (tokenOf_ne_any hc), plainChars_cons hc]
          exact ⟨Nat.succ_le_succ hle, fun h ↦ Nat.succ_lt_succ (hlt (htail h))⟩
      · obtain ⟨rfl, hbracket⟩ := Classical.not_imp.mp hopen
        obtain ⟨⟨inside, n⟩, hsome⟩ := Option.ne_none_iff_exists'.mp hbracket
        obtain ⟨after, hcs, hdrop, -⟩ := exists_of_bracket?_eq_some hsome
        have hshorter : after.length < cs.length := by
          rw [hcs, List.length_append, List.length_cons]
          omega
        have hle := (leastLength_tokens after).1
        have hplain := length_plainChars_bracket inside after
        rw [tokens_bracket hsome, hdrop, leastLength_cons (setOf_ne_any inside), hcs]
        exact ⟨by omega, fun _ ↦ by omega⟩
termination_by pattern.length

/-! ## Both readings -/

theorem matchTokens_cons_nil {t : Token} (ht : t ≠ .any) (ts : List Token) :
    matchTokens (t :: ts) [] = false := by
  cases t with
  | any => exact absurd rfl ht
  | lit | one | set => rfl

/-- Every star of a pattern that fits a name may stand for nothing instead. -/
theorem exists_least (h : matchTokens ts name = true) :
    ∃ least, matchTokens ts least = true ∧ least.length = leastLength ts := by
  induction ts generalizing name with
  | nil => exact ⟨[], rfl, rfl⟩
  | cons t ts ih =>
      by_cases ht : t = .any
      · obtain ⟨rest, -, hrest⟩ := (matchTokens_any ts name).mp (ht ▸ h)
        obtain ⟨least, hleast, hlength⟩ := ih hrest
        refine ⟨least, ?_, ?_⟩
        · rw [ht, matchTokens_any]
          exact ⟨least, List.suffix_refl _, hleast⟩
        · rw [hlength, ht, leastLength_any]
      · cases name with
        | nil => simp [matchTokens_cons_nil ht] at h
        | cons c name =>
            rw [matchTokens_cons ht, Bool.and_eq_true] at h
            obtain ⟨least, hleast, hlength⟩ := ih h.2
            refine ⟨c :: least, ?_, ?_⟩
            · rw [matchTokens_cons ht, h.1, hleast]
              rfl
            · rw [leastLength_cons ht, List.length_cons, hlength]

theorem matchTokens_map_tokenOf (h : '?' ∉ pattern) :
    matchTokens (pattern.map tokenOf) name = true ↔ FitsStars pattern name := by
  induction pattern generalizing name with
  | nil =>
      rw [List.map_nil, matchTokens_nil, List.isEmpty_iff, fitsStars_nil_iff]
  | cons c pattern ih =>
      rw [List.mem_cons, not_or] at h
      by_cases hc : c = '*'
      · rw [hc, List.map_cons, tokenOf_star, matchTokens_any, fitsStars_star_iff]
        simp only [ih h.2]
      · have htoken : tokenOf c = .lit c := by rw [tokenOf, if_neg hc, if_neg (Ne.symm h.1)]
        rw [List.map_cons, htoken, fitsStars_cons_iff hc]
        cases name with
        | nil => simp [matchTokens_cons_nil]
        | cons d name =>
            rw [matchTokens_cons (by simp), Token.accepts, Bool.and_eq_true, beq_iff_eq, ih h.2]
            constructor
            · rintro ⟨rfl, hrest⟩
              exact ⟨name, rfl, hrest⟩
            · rintro ⟨rest, heq, hrest⟩
              obtain ⟨rfl, rfl⟩ := List.cons.inj heq
              exact ⟨rfl, hrest⟩

/-- The text of a pattern with another character in the place of every question mark. -/
theorem matchTokens_replaced (pattern : List Char) :
    matchTokens (pattern.map tokenOf)
      ((plainChars pattern).map fun c ↦ if c = '?' then '!' else c) = true := by
  induction pattern with
  | nil => rfl
  | cons c pattern ih =>
      by_cases hc : c = '*'
      · rw [hc, List.map_cons, tokenOf_star, plainChars_star, matchTokens_any]
        exact ⟨_, List.suffix_refl _, ih⟩
      · rw [List.map_cons, plainChars_cons hc, List.map_cons,
          matchTokens_cons (tokenOf_ne_any hc), ih, Bool.and_true, tokenOf, if_neg hc]
        split_ifs <;> simp [Token.accepts]

/-- A pattern with question marks or closed brackets does not fit the names that it is meant to. -/
theorem not_forall_fitsStars (h : '?' ∈ pattern ∨ HasBracket pattern) :
    ¬ ∀ name, matchTokens (tokens pattern) name = true ↔ FitsStars pattern name := by
  intro hall
  by_cases hbracket : HasBracket pattern
  · have hplain := (hall _).mpr (fitsStars_plainChars pattern)
    obtain ⟨least, hleast, hlength⟩ := exists_least hplain
    have hle := ((hall least).mp hleast).plainChars_sublist.length_le
    have hlt := (leastLength_tokens pattern).2 hbracket
    omega
  · have hquestion := h.resolve_right hbracket
    have hreplaced := matchTokens_replaced pattern
    rw [← tokens_eq_map hbracket, hall] at hreplaced
    have heq := hreplaced.plainChars_sublist.eq_of_length (List.length_map _).symm
    have hmem : '?' ∈ plainChars pattern := List.mem_filter.mpr ⟨hquestion, by decide⟩
    rw [heq, List.mem_map] at hmem
    obtain ⟨c, -, hc⟩ := hmem
    split_ifs at hc with hmark
    · exact absurd hc (by decide)
    · exact hmark hc

end Wildcard

/-! ## Ignored names -/

open Wildcard

/-- Patterns in which nothing but a star is special. -/
def StarOnly (pattern : String) : Prop :=
  '*' ∈ pattern.toList → '?' ∉ pattern.toList ∧ ¬ HasBracket pattern.toList

theorem isIgnored_iff {patterns : List String} {name : String} :
    isIgnored patterns name = true ↔ ∃ pattern ∈ patterns, isIgnored [pattern] name = true := by
  simp [isIgnored]

theorem isIgnored_singleton_iff {pattern name : String} (h : StarOnly pattern) :
    isIgnored [pattern] name = true ↔ FitsStars pattern.toList name.toList := by
  rw [isIgnored, List.any_cons, List.any_nil, Bool.or_false]
  split
  next hstar =>
    obtain ⟨hquestion, hbracket⟩ := h (List.contains_iff_mem.mp hstar)
    rw [matches?, tokens_eq_map hbracket, matchTokens_map_tokenOf hquestion]
  next hstar =>
    rw [List.contains_iff_mem] at hstar
    rw [fitsStars_iff_eq hstar, beq_iff_eq, String.toList_inj]

/-- A list of patterns in which nothing but a star is special ignores the names that fit one of
them. A pattern ignores the names that fit it, and no other, exactly if nothing but a star is special
in it: it has no star, or neither question marks nor closed brackets. -/
theorem ignored_by_stars_iff (patterns : List String) :
    ((∀ pattern ∈ patterns, StarOnly pattern) → ∀ name, isIgnored patterns name = true ↔
      ∃ pattern ∈ patterns, FitsStars pattern.toList name.toList) ∧
    ∀ pattern, (∀ name, isIgnored [pattern] name = true ↔
      FitsStars pattern.toList name.toList) ↔ StarOnly pattern := by
  refine ⟨fun h name ↦ ?_, fun pattern ↦ ⟨fun hall hstar ↦ ?_, fun h name ↦ ?_⟩⟩
  · rw [isIgnored_iff]
    exact exists_congr fun pattern ↦ and_congr_right fun hpattern ↦
      isIgnored_singleton_iff (h pattern hpattern)
  · by_contra hspecial
    have hread (name : List Char) :
        matchTokens (tokens pattern.toList) name = true ↔ FitsStars pattern.toList name := by
      have hname := hall (String.ofList name)
      rwa [isIgnored, List.any_cons, List.any_nil, Bool.or_false,
        if_pos (List.contains_iff_mem.mpr hstar), matches?, String.toList_ofList] at hname
    rw [not_and_or, not_not, not_not] at hspecial
    exact not_forall_fitsStars hspecial hread
  · exact isIgnored_singleton_iff h

/-- A star with the name of a file in brackets does not fit that file. -/
theorem ignored_by_stars_iff_route :
    FitsStars "[id]*".toList "[id].tsx".toList ∧ isIgnored ["[id]*"] "[id].tsx" = false ∧
      ¬ StarOnly "[id]*" ∧ (∀ pattern ∈ ["*.log", "[id].tsx"], StarOnly pattern) ∧
      isIgnored ["*.log", "[id].tsx"] "[id].tsx" = true := by
  have hfits : FitsStars "[id]*".toList "[id].tsx".toList := by
    have htail : FitsStars ['*'] ".tsx".toList := .star ".tsx".toList .nil
    exact .char (by decide) (.char (by decide) (.char (by decide) (.char (by decide) htail)))
  have hunfit : isIgnored ["[id]*"] "[id].tsx" = false := by decide +kernel
  have honly : ∀ pattern ∈ ["*.log", "[id].tsx"], StarOnly pattern := by
    have hlog : StarOnly "*.log" := by
      refine fun _ ↦ ⟨by decide, fun ⟨before, inside, after, heq, _⟩ ↦ ?_⟩
      have hmem : '[' ∈ "*.log".toList := by simp [heq]
      exact absurd hmem (by decide)
    have hroute : StarOnly "[id].tsx" := fun hstar ↦ absurd hstar (by decide)
    simpa using ⟨hlog, hroute⟩
  refine ⟨hfits, hunfit, fun hstar ↦ ?_, honly, ?_⟩
  · have hall := ((ignored_by_stars_iff []).2 "[id]*").mpr hstar
    exact absurd ((hall "[id].tsx").mpr hfits) (by simp [hunfit])
  · refine ((ignored_by_stars_iff _).1 honly "[id].tsx").mpr ⟨"[id].tsx", by simp, ?_⟩
    exact (fitsStars_iff_eq (by decide)).mpr rfl

end Dossier.Text

import Dossier.Outline.LineRules
import Mathlib.Data.List.Infix

/-!
# Where a declaration on one line is cut

A cut is made before the first opener of a body at which as many brackets are closed as were opened, from
whichever place before it one counts. Angle characters count as well, so an arrow inside a bracket
may stand for the bracket's own end. A cut is outside round and square brackets exactly if behind no
bracket that is left open more angles are closed than opened.
-/

namespace Dossier.Outline.LineRules

/-! ## Brackets -/

/-- An opening bracket and the one that closes it. -/
inductive Pair : Char → Char → Prop where
  | round : Pair '(' ')'
  | square : Pair '[' ']'

/-- Round and square brackets that open. -/
def isOpening (c : Char) : Bool :=
  c == '(' || c == '['

/-- Round and square brackets that close. -/
def isClosing (c : Char) : Bool :=
  c == ')' || c == ']'

def isBracket (c : Char) : Bool :=
  isOpening c || isClosing c

/-- Texts whose round and square brackets are properly nested. -/
inductive Nested : List Char → Prop where
  | nil : Nested []
  | other {c : Char} {cs : List Char} (hc : isBracket c = false) (hcs : Nested cs) : Nested (c :: cs)
  | pair {o c : Char} {inside rest : List Char} (hpair : Pair o c) (hinside : Nested inside)
      (hrest : Nested rest) : Nested (o :: inside ++ c :: rest)

variable {cs s p q : List Char} {c o opener : Char} {depth : Nat}

theorem Pair.isOpening (h : Pair o c) : isOpening o = true ∧ isClosing o = false := by
  cases h <;> decide

theorem Pair.isClosing (h : Pair o c) : LineRules.isClosing c = true ∧ LineRules.isOpening c = false := by
  cases h <;> decide

theorem Nested.append (hp : p.any isBracket = false) (hq : Nested q) : Nested (p ++ q) := by
  induction p with
  | nil => exact hq
  | cons c p ih =>
      rw [List.any_cons, Bool.or_eq_false_iff] at hp
      exact .other hp.1 (ih hp.2)

theorem Nested.countP_eq (h : Nested cs) : cs.countP isOpening = cs.countP isClosing := by
  induction h with
  | nil => rfl
  | other hc _ ih =>
      rw [isBracket, Bool.or_eq_false_iff] at hc
      simpa [List.countP_cons, hc] using ih
  | pair hpair _ _ ihInside ihRest =>
      simp only [List.cons_append, List.countP_cons, List.countP_append, hpair.isOpening,
        hpair.isClosing, if_true, Bool.false_eq_true, if_false]
      omega

/-- From no place on more brackets are opened than closed. -/
theorem Nested.countP_suffix_le (h : Nested cs) (hs : s <:+ cs) :
    s.countP isOpening ≤ s.countP isClosing := by
  induction h generalizing s with
  | nil => simp [List.suffix_nil.mp hs]
  | other hc hcs ih =>
      rcases List.suffix_cons_iff.mp hs with rfl | hs
      · exact (Nested.other hc hcs).countP_eq.le
      · exact ih hs
  | @pair o c inside rest hpair hinside hrest ihInside ihRest =>
      rcases List.suffix_cons_iff.mp hs with rfl | ⟨front, hfront⟩
      · exact (Nested.pair hpair hinside hrest).countP_eq.le
      · rcases List.append_eq_append_iff.mp hfront with ⟨tail, hinsideEq, rfl⟩ | ⟨front', -, hrestEq⟩
        · have hle := ihInside ⟨front, hinsideEq.symm⟩
          have heq := hrest.countP_eq
          simp only [List.countP_append, List.countP_cons, hpair.isClosing, if_true,
            Bool.false_eq_true, if_false]
          omega
        · cases front' with
          | nil =>
              have heq := hrest.countP_eq
              rw [List.nil_append] at hrestEq
              simp only [← hrestEq, List.countP_cons, hpair.isClosing, if_true,
                Bool.false_eq_true, if_false]
              omega
          | cons d front' => exact ihRest ⟨front', (List.cons.inj hrestEq).2.symm⟩

/-- What a text with nested brackets begins with is nested as well, or leaves a bracket open behind which
it is nested. -/
theorem Nested.of_append (h : Nested (p ++ q)) :
    Nested p ∨ ∃ before mark inside, p = before ++ mark :: inside ∧ isOpening mark = true ∧
      Nested inside := by
  generalize hcs : p ++ q = cs at h
  induction h generalizing p q with
  | nil =>
      rw [(List.append_eq_nil_iff.mp hcs).1]
      exact .inl .nil
  | @other c cs hc _ ih =>
      rcases List.append_eq_cons_iff.mp hcs with ⟨rfl, -⟩ | ⟨p, rfl, rfl⟩
      · exact .inl .nil
      · rcases ih rfl with hp | ⟨before, mark, inside, rfl, hmark, hinside⟩
        · exact .inl (.other hc hp)
        · exact .inr ⟨c :: before, mark, inside, rfl, hmark, hinside⟩
  | @pair o c inside rest hpair hinside _ ihInside ihRest =>
      rcases List.append_eq_cons_iff.mp hcs with ⟨rfl, -⟩ | ⟨p, rfl, hp⟩
      · exact .inl .nil
      · rcases List.append_eq_append_iff.mp hp.symm with ⟨tail, hinsideEq, -⟩ | ⟨more, rfl, hmore⟩
        · rcases ihInside hinsideEq.symm with hnested | ⟨before, mark, inner, rfl, hmark, hinner⟩
          · exact .inr ⟨[], o, p, rfl, hpair.isOpening.1, hnested⟩
          · exact .inr ⟨o :: before, mark, inner, rfl, hmark, hinner⟩
        · rcases List.cons_eq_append_iff.mp hmore with ⟨rfl, -⟩ | ⟨more, rfl, hrestEq⟩
          · exact .inr ⟨[], o, inside, by simp, hpair.isOpening.1, hinside⟩
          · rcases ihRest hrestEq.symm with hnested | ⟨before, mark, inner, rfl, hmark, hinner⟩
            · exact .inl (.pair hpair hinside hnested)
            · exact .inr ⟨o :: inside ++ c :: before, mark, inner, by simp, hmark, hinner⟩

/-! ## The counter of a cut -/

/-- Characters that count as opening brackets. -/
def opens (c : Char) : Bool :=
  isOpening c || c == '<'

/-- Characters that count as closing brackets. -/
def closes (c : Char) : Bool :=
  isClosing c || c == '>'

/-- Texts in which from no place on more brackets are opened than closed. -/
def IsLevel (cs : List Char) : Prop :=
  ∀ s, s <:+ cs → s.countP opens ≤ s.countP closes

/-- How many brackets count as open behind a character. -/
def depthAt (depth : Nat) (c : Char) : Nat :=
  if opens c then depth + 1 else if closes c then depth - 1 else depth

theorem not_closes_of_opens (h : opens c = true) : closes c = false := by
  simp only [opens, isOpening, Bool.or_eq_true, beq_iff_eq] at h
  rcases h with (rfl | rfl) | rfl <;> decide

/-- The counter never falls below zero, so it tells how far the opening brackets of some end of the text
outnumber its closing ones. -/
theorem foldl_depthAt_le_iff {bound : Nat} : cs.foldl depthAt 0 ≤ bound ↔
    ∀ s, s <:+ cs → s.countP opens ≤ s.countP closes + bound := by
  induction cs using List.reverseRecOn generalizing bound with
  | nil => simp
  | append_singleton cs c ih =>
      have hends : (∀ s, s <:+ cs ++ [c] → s.countP opens ≤ s.countP closes + bound) ↔
          ∀ s, s <:+ cs → (s ++ [c]).countP opens ≤ (s ++ [c]).countP closes + bound := by
        constructor
        · intro h s hs
          exact h _ (List.suffix_concat_iff.mpr (.inr ⟨s, rfl, hs⟩))
        · intro h s hs
          rcases List.suffix_concat_iff.mp hs with rfl | ⟨front, rfl, hfront⟩
          · simp
          · exact h front hfront
      rw [hends, List.foldl_concat, depthAt]
      simp only [List.countP_append, List.countP_singleton]
      cases hopens : opens c with
      | true =>
          rw [not_closes_of_opens hopens]
          simp only [if_true, Bool.false_eq_true, if_false, Nat.add_zero]
          cases bound with
          | zero =>
              refine iff_of_false (Nat.not_succ_le_zero _) fun h ↦ ?_
              simpa using h [] List.nil_suffix
          | succ bound => simp only [Nat.add_le_add_iff_right, ih, ← Nat.add_assoc]
      | false =>
          cases closes c with
          | true =>
              simp only [if_true, Bool.false_eq_true, if_false, Nat.add_zero,
                Nat.sub_le_iff_le_add, ih]
              exact forall₂_congr fun s _ ↦ by rw [Nat.add_assoc, Nat.add_comm 1]
          | false => simp only [Bool.false_eq_true, if_false, Nat.add_zero, ih]

theorem foldl_depthAt_eq_zero_iff : cs.foldl depthAt 0 = 0 ↔ IsLevel cs := by
  rw [← Nat.le_zero, foldl_depthAt_le_iff, IsLevel]
  simp only [Nat.add_zero]

/-! ## The cut -/

theorem cutChars_eq (opener : Char) (depth : Nat) (done cs : List Char) :
    cutChars opener depth done cs = done.reverse ++ cutChars opener depth [] cs := by
  induction cs generalizing depth done with
  | nil => simp [cutChars]
  | cons c cs ih =>
      have hstep (next : Nat) : cutChars opener next (c :: done) cs =
          done.reverse ++ cutChars opener next [c] cs := by
        rw [ih next (c :: done), ih next [c]]
        simp
      rw [cutChars, cutChars]
      split
      · exact hstep _
      · split
        · exact hstep _
        · split
          · simp
          · exact hstep _

theorem cutChars_cons (hopener : opens opener = false ∧ closes opener = false) :
    cutChars opener depth [] (c :: cs) =
      if c = opener ∧ depth = 0 then [] else c :: cutChars opener (depthAt depth c) [] cs := by
  have hopens : (c = '(' ∨ c = '[' ∨ c = '<') ↔ opens c = true := by
    simp [opens, isOpening, or_assoc]
  have hcloses : (c = ')' ∨ c = ']' ∨ c = '>') ↔ closes c = true := by
    simp [closes, isClosing, or_assoc]
  have hstep (next : Nat) : cutChars opener next [c] cs = c :: cutChars opener next [] cs :=
    cutChars_eq opener next [c] cs
  simp only [cutChars, hopens, hcloses, hstep, depthAt, List.reverse_nil]
  cases hc : opens c with
  | true =>
      have hne : c ≠ opener := by
        rintro rfl
        exact Bool.false_ne_true (hopener.1.symm.trans hc)
      simp [hne]
  | false =>
      cases hc : closes c with
      | true =>
          have hne : c ≠ opener := by
            rintro rfl
            exact Bool.false_ne_true (hopener.2.symm.trans hc)
          cases depth <;> simp [hne]
      | false => simp

/-- A cut is made before an opener at which nothing counts as open, and before none that comes earlier. -/
theorem cutChars_first (hopener : opens opener = false ∧ closes opener = false) (depth : Nat)
    (cs : List Char) :
    (cutChars opener depth [] cs = cs ∨ ∃ after, cs = cutChars opener depth [] cs ++ opener :: after ∧
      (cutChars opener depth [] cs).foldl depthAt depth = 0) ∧
    ∀ before after, cs = before ++ opener :: after → before.foldl depthAt depth = 0 →
      (cutChars opener depth [] cs).length ≤ before.length := by
  induction cs generalizing depth with
  | nil => simp [cutChars]
  | cons c cs ih =>
      obtain ⟨hcut, hfirst⟩ := ih (depthAt depth c)
      rw [cutChars_cons hopener]
      split
      next hhere =>
        obtain ⟨rfl, rfl⟩ := hhere
        exact ⟨.inr ⟨cs, rfl, rfl⟩, fun _ _ _ _ ↦ Nat.zero_le _⟩
      next hgoes =>
        constructor
        · rcases hcut with hall | ⟨after, hafter, hlevel⟩
          · exact .inl (by rw [hall])
          · exact .inr ⟨after, by rw [List.cons_append, ← hafter], hlevel⟩
        · intro before after hsplit hlevel
          cases before with
          | nil =>
              exact absurd ⟨(List.cons.inj hsplit).1, hlevel⟩ hgoes
          | cons d before =>
              obtain ⟨rfl, htail⟩ := List.cons.inj hsplit
              exact Nat.succ_le_succ (hfirst before after htail hlevel)

/-- The text before the first opener at a level place. -/
structure IsCutAt (opener : Char) (line cut : List Char) : Prop where
  next : ∃ after, line = cut ++ opener :: after
  level : IsLevel cut
  first : ∀ before after, line = before ++ opener :: after → IsLevel before →
    cut.length ≤ before.length

theorem cutBody_eq_or_isCutAt (line : String)
    (hopener : opens opener = false ∧ closes opener = false) :
    ((cutBody line opener).toList = line.toList ↔
      ∀ before after, line.toList = before ++ opener :: after → ¬ IsLevel before) ∧
    ((cutBody line opener).toList ≠ line.toList →
      IsCutAt opener line.toList (cutBody line opener).toList) := by
  obtain ⟨hcut, hfirst⟩ := cutChars_first hopener 0 line.toList
  have hchars : (cutBody line opener).toList = cutChars opener 0 [] line.toList :=
    String.toList_ofList
  simp only [foldl_depthAt_eq_zero_iff, ← hchars] at hcut hfirst
  constructor
  · constructor
    · intro hall before after hsplit hlevel
      have hle := hfirst before after hsplit hlevel
      rw [hall, hsplit, List.length_append, List.length_cons] at hle
      omega
    · intro hnone
      refine hcut.resolve_right ?_
      rintro ⟨after, hafter, hlevel⟩
      exact hnone _ after hafter hlevel
  · intro hproper
    obtain ⟨after, hafter, hlevel⟩ := hcut.resolve_left hproper
    exact ⟨⟨after, hafter⟩, hlevel, hfirst⟩

theorem countP_opens (cs : List Char) : cs.countP opens = cs.countP isOpening + cs.count '<' := by
  induction cs with
  | nil => rfl
  | cons c cs ih =>
      rw [List.countP_cons, List.countP_cons, List.count_cons, ih, opens]
      by_cases hc : c = '<'
      · subst hc
        simp [isOpening]
        omega
      · simp [hc]
        omega

theorem countP_closes (cs : List Char) : cs.countP closes = cs.countP isClosing + cs.count '>' := by
  induction cs with
  | nil => rfl
  | cons c cs ih =>
      rw [List.countP_cons, List.countP_cons, List.count_cons, ih, closes]
      by_cases hc : c = '>'
      · subst hc
        simp [isClosing]
        omega
      · simp [hc]
        omega

/-- At a level place, more angles are closed than opened behind a bracket that is left open. -/
theorem IsLevel.count_lt {before inside : List Char} {mark : Char}
    (h : IsLevel (before ++ mark :: inside)) (hmark : isOpening mark = true) (hinside : Nested inside) :
    inside.count '<' < inside.count '>' := by
  have hle := h (mark :: inside) (List.suffix_append ..)
  have hopens : opens mark = true := by rw [opens, hmark, Bool.true_or]
  rw [List.countP_cons_of_pos hopens, List.countP_cons_of_neg (by simp [not_closes_of_opens hopens]),
    countP_opens, countP_closes, hinside.countP_eq] at hle
  omega

/-- In a line with nested brackets a cut is outside the brackets exactly if behind no bracket that is left
open more angles are closed than opened. -/
theorem cut_outside_brackets_iff {line : String} (hline : Nested line.toList)
    (hopener : opens opener = false ∧ closes opener = false) :
    let cut := (cutBody line opener).toList
    (cut = line.toList ↔
      ∀ before after, line.toList = before ++ opener :: after → ¬ IsLevel before) ∧
    (cut ≠ line.toList → IsCutAt opener line.toList cut ∧
      (Nested cut ↔ ∀ before mark inside, cut = before ++ mark :: inside → isOpening mark = true →
        Nested inside → inside.count '>' ≤ inside.count '<')) := by
  intro cut
  obtain ⟨hwhole, hcut⟩ := cutBody_eq_or_isCutAt line hopener
  refine ⟨hwhole, fun hproper ↦ ⟨hcut hproper, ?_⟩⟩
  obtain ⟨⟨after, hafter⟩, hlevel, -⟩ := hcut hproper
  constructor
  · -- In a nested text no bracket is left open at all.
    intro hnested before mark inside hsplit hmark hinside
    have hle := hnested.countP_suffix_le (hsplit ▸ List.suffix_append before (mark :: inside))
    have hnotClosing : isClosing mark = false := by
      simp only [isOpening, Bool.or_eq_true, beq_iff_eq] at hmark
      rcases hmark with rfl | rfl <;> decide
    rw [List.countP_cons_of_pos hmark, List.countP_cons_of_neg (by simp [hnotClosing]),
      hinside.countP_eq] at hle
    omega
  · intro hfew
    rw [hafter] at hline
    refine hline.of_append.resolve_right ?_
    rintro ⟨before, mark, inside, hsplit, hmark, hinside⟩
    have hle := hfew before mark inside hsplit hmark hinside
    have hlt := (show IsLevel (before ++ mark :: inside) from hsplit ▸ hlevel).count_lt hmark hinside
    omega

/-- A function with an arrow in its parameters, `function f(g = () => {}) {}`. -/
def arrowLine : String :=
  "function f(g = () => \x7b\x7d) \x7b\x7d"

theorem arrowLine_nested : Nested arrowLine.toList := by
  have hline : arrowLine.toList = "function f".toList ++ ('(' :: ("g = ".toList ++
      ('(' :: [] ++ ')' :: (" => \x7b\x7d".toList ++ []))) ++
        ')' :: (" \x7b\x7d".toList ++ [])) := by
    decide
  have hinside : Nested ("g = ".toList ++
      ('(' :: [] ++ ')' :: (" => \x7b\x7d".toList ++ []))) :=
    .append (by decide) (.pair .round .nil (.append (by decide) .nil))
  rw [hline]
  exact .append (by decide) (.pair .round hinside (.append (by decide) .nil))

theorem cut_outside_brackets_iff_arrow :
    cutBody arrowLine '\x7b' = "function f(g = () => " ∧
      IsLevel "function f(g = () => ".toList ∧ ¬ Nested "function f(g = () => ".toList := by
  have hcut : cutBody arrowLine '\x7b' = "function f(g = () => " := by decide
  have hopener : opens '\x7b' = false ∧ closes '\x7b' = false := by decide
  obtain ⟨-, hproper⟩ := cut_outside_brackets_iff arrowLine_nested hopener
  rw [hcut] at hproper
  obtain ⟨hat, hiff⟩ := hproper (by decide)
  refine ⟨hcut, hat.level, ?_⟩
  rw [hiff]
  intro hfew
  have hinside : Nested "g = () => ".toList :=
    .append (p := "g = ".toList) (by decide) (.pair .round .nil (.append (p := " => ".toList) (q := [])
      (by decide) .nil))
  exact absurd (hfew "function f".toList '(' _ (by decide) rfl hinside) (by decide)

end Dossier.Outline.LineRules

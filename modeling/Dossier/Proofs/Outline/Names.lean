import Dossier.Proofs.Outline.LineNumbers
import Dossier.Proofs.Outline.NamePlaces

/-!
# Names in an outline without a grammar

A name that a rule finds begins a word of its line, with one exception: the rule for functions of the
languages with export keywords asks for no blank behind `function`, so it takes the rest of a longer word for
a name. No other word that merely begins with a word of the language makes a declaration of its line.
-/

namespace Dossier.Outline.LineRules

open Text (Pattern isBlank isWord lines)
open Text.Pattern (Reading Reads)

variable {language : Language} {kind : Kind} {before after : List Char} {w v : String}

/-! ## Words at the start of a line -/

/-- The word characters at the start of a line. -/
def firstWord (line : String) : List Char :=
  line.toList.takeWhile isWord

theorem exists_behind_firstWord (line : String) : ∃ rest, line.toList = firstWord line ++ rest ∧
    (∀ c ∈ firstWord line, isWord c = true) ∧ ∀ c ∈ rest.head?, isWord c = false := by
  refine ⟨line.toList.dropWhile isWord, List.takeWhile_append_dropWhile.symm, fun c hc ↦
    List.mem_takeWhile_imp hc, fun c hc ↦ ?_⟩
  have hstops := List.head?_dropWhile_not isWord line.toList
  rw [Option.mem_def.mp hc] at hstops
  exact hstops

theorem isWord_of_mem_leadingWords (hw : w ∈ leadingWords language) :
    ∀ c ∈ w.toList, isWord c = true := by
  have hall : ∀ w ∈ leadingWords language, w.toList.all isWord = true := by
    cases language <;> decide +kernel
  exact List.all_eq_true.mp (hall w hw)

theorem not_isUpper_of_mem_leadingWords (hw : w ∈ leadingWords language) :
    ∃ c ∈ w.toList.head?, c.isUpper = false := by
  have hany : ∀ w ∈ leadingWords language, w.toList.head?.any (!·.isUpper) = true := by
    cases language <;> decide +kernel
  simpa [Option.any_eq_true] using hany w hw

/-- No word of a language begins with another one. -/
theorem eq_of_prefix_leadingWords (hw : w ∈ leadingWords language) (hv : v ∈ leadingWords language)
    (h : w.toList <+: v.toList) : w = v := by
  have hfree : ∀ w ∈ leadingWords language, ∀ v ∈ leadingWords language,
      w.toList <+: v.toList → w = v := by
    cases language <;> decide +kernel
  exact hfree w hw v hv h

theorem takeWhile_isWord_append {word gap : List Char} (hword : ∀ c ∈ word, isWord c = true)
    (hgap : Apart gap) (rest : List Char) : (word ++ gap ++ rest).takeWhile isWord = word := by
  obtain ⟨c, hc, hbegins⟩ := hgap.begins
  obtain ⟨gap, rfl⟩ : ∃ tail, gap = c :: tail := List.head?_eq_some_iff.mp hc
  rw [List.append_assoc, List.takeWhile_append_of_pos hword, List.cons_append,
    List.takeWhile_cons_of_neg (by simp [hbegins]), List.append_nil]

theorem IsNamePlace.firstWord_mem (h : IsNamePlace language kind before after) :
    (∃ w ∈ leadingWords language, (before ++ after).takeWhile isWord = w.toList) ∨
      (∃ c ∈ (before ++ after).head?, c.isUpper = true) ∨
      language.hasExports = true ∧ "function".toList <+: before ++ after := by
  have hparted {word gap : List Char} {w : String} (rest : List Char) (hw : w ∈ leadingWords language)
      (hgap : Apart gap) (hword : word = w.toList ++ gap) :
      ∃ v ∈ leadingWords language, (word ++ rest).takeWhile isWord = v.toList :=
    ⟨w, hw, hword ▸ takeWhile_isWord_append (isWord_of_mem_leadingWords hw) hgap rest⟩
  cases h with
  | constant _ _ hc => exact .inr (.inl ⟨_, rfl, hc⟩)
  | declared hlead hword =>
      cases hlead with
      | cons hfirst _ =>
          obtain ⟨w, hw, gap, hgap, hfirst⟩ := hfirst
          rw [List.append_assoc, List.append_assoc]
          exact .inl (hparted _ (List.mem_append_left _ hw) hgap hfirst)
      | nil =>
          rw [List.nil_append]
          cases hword with
          | parted hword hgap =>
              have hw := List.mem_append_right (modifierWords language)
                (List.mem_map_of_mem (f := Prod.snd) hword)
              exact .inl (hparted _ hw hgap rfl)
          | attached hexports => exact .inr (.inr ⟨hexports, List.prefix_append ..⟩)

/-- A name goes on with a word only directly behind `function`. -/
theorem IsNamePlace.isWord_getLast?_iff (h : IsNamePlace language kind before after) :
    before.getLast?.any isWord = true ↔
      language.hasExports = true ∧ kind = .function ∧ "function".toList <:+ before := by
  have hfunction : "function".toList.getLast? = some 'n' := by decide
  constructor
  · intro hlast
    cases h with
    | constant => cases hlast
    | declared _ hword =>
        cases hword with
        | attached hexports hkind => exact ⟨hexports, hkind, List.suffix_append ..⟩
        | parted _ hgap =>
            obtain ⟨c, hc, hends⟩ := hgap.ends
            rw [List.getLast?_append, List.getLast?_append, Option.mem_def.mp hc] at hlast
            exact absurd (hends.symm.trans hlast) Bool.false_ne_true
  · rintro ⟨-, -, front, rfl⟩
    rw [List.getLast?_append, hfunction, Option.some_or]
    decide

/-! ## Words that go on behind `function` -/

/-- The rule for functions of the languages with export keywords. -/
def functionPattern : Pattern :=
  .all [.opt exportWord, maybe "default", maybe "declare", maybe "async", .lit "function", .gap,
    .opt (.lit "*"), .gap, .opt name]

theorem matchAt_functionPattern {word rest : List Char} (hne : word ≠ [])
    (hword : ∀ c ∈ word, isWord c = true) (hrest : ∀ c ∈ rest.head?, isWord c = false) :
    functionPattern.matchAt ("function".toList ++ (word ++ rest)) =
      some ⟨word.getLast?.or (some 'n'), rest, [(2, word)]⟩ := by
  obtain ⟨c, word, rfl⟩ := List.exists_cons_of_ne_nil hne
  have hc := hword c List.mem_cons_self
  have hblank : ∀ d ∈ (c :: word ++ rest).head?, isBlank d = false := by
    rintro d ⟨⟩
    rw [← Bool.not_eq_true]
    intro hblank
    exact Bool.false_ne_true ((isWord_eq_false_of_isBlank hblank).symm.trans hc)
  have hstar : (c == '*') = false := by
    rw [beq_eq_false_iff_ne]
    rintro rfl
    exact absurd hc (by decide)
  let here : Pattern.Place := ⟨some 'n', c :: word ++ rest, []⟩
  let found : Pattern.Place := ⟨(c :: word).getLast?.or (some 'n'), rest, [(2, c :: word)]⟩
  have hname : (Pattern.all [.opt name]).matchThen some here = some found := by
    refine Pattern.matchThen_opt_of_eq_some
      (Pattern.matchThen_run (c :: word) rfl (Nat.succ_pos _) hword hrest ?_)
    rw [List.length_append, Nat.add_sub_cancel, List.take_left]
    rfl
  have hgap : (Pattern.all [.gap, .opt name]).matchThen some here = some found :=
    Pattern.matchThen_run [] rfl (Nat.zero_le _) (by simp) hblank hname
  have hopt : (Pattern.all [.opt (.lit "*"), .gap, .opt name]).matchThen some here = some found := by
    refine (Pattern.matchThen_opt_of_eq_none ?_).trans hgap
    simp [here, Pattern.lit, Pattern.matchThen, hstar]
  -- The words that may come first all fail at the first character.
  have hstart : (Pattern.all [.gap, .opt (.lit "*"), .gap, .opt name]).matchThen some here =
      some found :=
    Pattern.matchThen_run [] rfl (Nat.zero_le _) (by simp) hblank hopt
  exact hstart

/-- The function that a line declares whose first word goes on behind `function`. -/
def functionEntry (language : Language) (number : Nat) (line : String) : Declaration where
  kind := .function
  name := String.ofList ((firstWord line).drop "function".length)
  signature := signatureOf language .function line
  exported := false
  line := number

theorem entryOn?_function (hexports : language.hasExports = true) (number : Nat) {line : String}
    (hstarts : "function".toList <+: firstWord line) (hlonger : firstWord line ≠ "function".toList) :
    entryOn? language number line = some (functionEntry language number line) := by
  obtain ⟨word, hfirst⟩ := hstarts
  obtain ⟨rest, hline, hword, hrest⟩ := exists_behind_firstWord line
  rw [← hfirst, List.append_assoc] at hline
  have hne : word ≠ [] := by
    rintro rfl
    rw [List.append_nil] at hfirst
    exact hlonger hfirst.symm
  have hmatch : functionPattern.matchAt line.toList =
      some ⟨word.getLast?.or (some 'n'), rest, [(2, word)]⟩ := by
    rw [hline]
    exact matchAt_functionPattern hne
      (fun c hc ↦ hword c (hfirst ▸ List.mem_append_right _ hc)) hrest
  have hname : (firstWord line).drop "function".length = word := by
    rw [← hfirst, ← String.length_toList, List.drop_left]
  have hrule : applyRule? language number line ⟨functionPattern, .function⟩ =
      some (functionEntry language number line) := by
    rw [applyRule?, hmatch, Option.map_some, hexports, functionEntry, hname]
    rfl
  obtain ⟨rules, hrules⟩ : ∃ rules, rulesOf language = ⟨functionPattern, .function⟩ :: rules := by
    cases language <;> first | exact ⟨_, rfl⟩ | cases hexports
  rw [entryOn?, hrules, List.findSome?_cons, hrule]
  split
  next hnil =>
    rw [hnil] at hline
    cases hline
  next c cs hcons =>
    rw [hcons] at hline
    obtain rfl : c = 'f' := (List.cons.inj hline).1
    rfl

/-! ## Names -/

/-- A reading of a line that ends where the preferred match of a rule ends. -/
structure Rule.Finds (rule : Rule) (line : String) (t : Reading) : Prop where
  reads : Reads rule.pattern (.start line.toList) t
  preferred : rule.pattern.matchAt line.toList = some t.place

/-- A reading of a line parts it where the name of an entry belongs. -/
structure IsNamedAt (language : Language) (line : String) (e : Declaration) (t : Reading)
    (before after : List Char) : Prop where
  parts : line.toList = before ++ after
  place : IsNamePlace language e.kind before after
  goesOn_iff : before.getLast?.any isWord = true ↔
    language.hasExports = true ∧ e.kind = .function ∧ "function".toList <:+ before
  taken : ∀ front name, t.capture? 2 = some (front, name) →
    front = before ∧ name <+: after ∧ e.name = String.ofList name
  missing : t.capture? 2 = none → e.name = defaultName line

theorem Rule.Finds.exists_isNamedAt {rule : Rule} {number : Nat} {line : String} {e : Declaration}
    {t : Reading} (h : rule.Finds line t) (hrule : rule ∈ rulesOf language)
    (he : applyRule? language number line rule = some e) :
    ∃ before after, IsNamedAt language line e t before after := by
  rw [applyRule?, h.preferred, Option.map_some] at he
  obtain rfl := Option.some_inj.mp he
  obtain ⟨before, after, hline, hplace, hname⟩ := places_of_mem hrule h.reads
  refine ⟨before, after, hline, hplace, hplace.isWord_getLast?_iff, fun front name hcapture ↦ ?_,
    fun hnone ↦ ?_⟩
  · obtain ⟨hfront, hstarts⟩ := hname front name hcapture
    simp only [Reading.group?_place, hcapture, Option.map_some, hfront, hstarts, and_self]
  · simp only [Reading.group?_place, hnone, Option.map_none]

theorem exists_finds_of_applyRule? {rule : Rule} {number : Nat} {line : String} {e : Declaration}
    (he : applyRule? language number line rule = some e) : ∃ t, rule.Finds line t := by
  obtain ⟨found, hfound, -⟩ := Option.map_eq_some_iff.mp he
  obtain ⟨t, hreads, rfl⟩ := Pattern.exists_reads_of_matchAt hfound
  exact ⟨t, hreads, hfound⟩

/-- A line whose first word goes on behind a word of the language has no entry, unless that word is
`function`. -/
theorem entryOn?_eq_none {number : Nat} {line : String} (hw : w ∈ leadingWords language)
    (hstarts : w.toList <+: firstWord line) (hlonger : firstWord line ≠ w.toList)
    (hother : ¬ (language.hasExports = true ∧ w = "function")) :
    entryOn? language number line = none := by
  rw [Option.eq_none_iff_forall_ne_some]
  intro e he
  obtain ⟨-, rule, hrule, happly⟩ := exists_rule_of_entryOn? he
  obtain ⟨t, hfinds⟩ := exists_finds_of_applyRule? happly
  obtain ⟨before, after, hat⟩ := hfinds.exists_isNamedAt hrule happly
  have hfirst : firstWord line <+: line.toList := List.takeWhile_prefix isWord
  have hbegins : w.toList <+: before ++ after := hat.parts ▸ hstarts.trans hfirst
  rcases hat.place.firstWord_mem with ⟨v, hv, hword⟩ | ⟨c, hc, hupper⟩ | ⟨hexports, hfunction⟩
  · rw [← hat.parts, ← firstWord] at hword
    obtain rfl := eq_of_prefix_leadingWords hw hv (hword ▸ hstarts)
    exact hlonger hword
  · obtain ⟨d, hd, hlower⟩ := not_isUpper_of_mem_leadingWords hw
    obtain ⟨rest, hrest⟩ := hbegins
    rw [← hrest, List.head?_append, Option.mem_def.mp hd] at hc
    obtain rfl := Option.some_inj.mp hc
    exact Bool.false_ne_true (hlower.symm.trans hupper)
  · have hmem : "function" ∈ leadingWords language := by
      cases language <;> first | decide | cases hexports
    refine hother ⟨hexports, ?_⟩
    rcases List.prefix_or_prefix_of_prefix hbegins hfunction with h | h
    · exact eq_of_prefix_leadingWords hw hmem h
    · exact (eq_of_prefix_leadingWords hmem hw h).symm

/-- The name that an entry has from its line stands behind words of the language that are whole, and only
directly behind `function` it goes on with a word. A first word that is longer than a word of the language
makes no entry, unless it begins with `function` and gives the rest of it for a name. -/
theorem name_goes_on_iff (language : Language) (source : String) :
    (∀ e ∈ outline language source, ∃ line, (line, e.line) ∈ (lines source).zipIdx 1 ∧
      ∃ rule ∈ rulesOf language, applyRule? language e.line line rule = some e ∧
        (∃ t, rule.Finds line t) ∧
        ∀ t, rule.Finds line t → ∃ before after, IsNamedAt language line e t before after) ∧
    ∀ number line, ∀ w ∈ leadingWords language, w.toList <+: firstWord line →
      firstWord line ≠ w.toList → entryOn? language number line =
        if language.hasExports = true ∧ w = "function" then some (functionEntry language number line)
        else none := by
  constructor
  · intro e he
    obtain ⟨⟨line, number⟩, hmem, hentry⟩ := List.mem_filterMap.mp he
    obtain ⟨-, rule, hrule, happly⟩ := exists_rule_of_entryOn? hentry
    obtain rfl := (entryOn?_line hentry).1
    exact ⟨line, hmem, rule, hrule, happly, exists_finds_of_applyRule? happly,
      fun t hfinds ↦ hfinds.exists_isNamedAt hrule happly⟩
  · intro number line w hw hstarts hlonger
    split
    next hfunction =>
      obtain ⟨hexports, rfl⟩ := hfunction
      exact entryOn?_function hexports number hstarts hlonger
    next hother => exact entryOn?_eq_none hw hstarts hlonger hother

theorem name_goes_on_iff_functionality :
    let line := "functionality()"
    "function" ∈ leadingWords .typescript ∧ "function".toList <+: firstWord line ∧
    firstWord line ≠ "function".toList ∧
    (entryOn? .typescript 1 line).map (·.name) = some "ality" ∧
    (outline .typescript "functionality()\n").map (·.name) = ["ality"] := by
  intro line
  have hstarts : "function".toList <+: firstWord line := by decide +kernel
  have hlonger : firstWord line ≠ "function".toList := by decide +kernel
  have hname : (functionEntry .typescript 1 line).name = "ality" := by decide +kernel
  refine ⟨by decide, hstarts, hlonger, ?_, by decide +kernel⟩
  rw [(name_goes_on_iff .typescript "functionality()\n").2 1 line "function" (by decide) hstarts hlonger,
    if_pos ⟨rfl, rfl⟩, Option.map_some, hname]

end Dossier.Outline.LineRules

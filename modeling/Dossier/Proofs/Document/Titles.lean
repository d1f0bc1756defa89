import Dossier.Proofs.Document.Headings
import Dossier.Proofs.Profile.Naming

/-!
# Titles that keep a mark

A title is short, stays on its line, ends no fence and draws no rule. But the mark of a heading is
looked for only once, before fences are left out and blanks are taken from the ends, so a second mark
or a mark behind blanks or fences is kept. Such a title would change if it were made a title once more,
and as the description of a project it is the one line of an overview that reads as a heading.
-/

namespace Dossier.Document

open Text (isBlank mapRunsChars stripChars physicalLines)

/-! ## What every title is -/

/-- Whether a line begins with the mark of a heading. -/
def marked (line : String) : Bool :=
  Text.startsWith line "#"

theorem marked_iff {line : String} : marked line = true ↔ line.toList.head? = some '#' := by
  rw [marked, Text.startsWith, List.isPrefixOf_iff_prefix, List.head?_eq_some_iff]
  exact exists_congr fun _ ↦ eq_comm

/-- What a title is, but for its beginning. -/
structure IsTitle (t : String) : Prop where
  short : t.length ≤ maxTitle
  unbroken : ∀ c ∈ t.toList, c ≠ '\r' ∧ c ≠ '\n'
  fenceFree : FenceFree t.toList
  ruleFree : ¬ ['-', '-', '-'] <:+: t.toList
  stripped : Text.strip t = t

/-- What is put in the place of a run of backticks. -/
def leftOver (run : List Char) : List Char :=
  run.take (run.length % 3)

theorem toList_withoutFences (s : String) :
    (withoutFences s).toList = mapRunsChars (· == '`') leftOver s.toList :=
  String.toList_ofList

/-- What is put in the place of a run of dashes. -/
def ruled (run : List Char) : List Char :=
  if 3 ≤ run.length then "-".toList else run

theorem toList_ruled (s : String) :
    (Text.replaceRuns '-' 3 "-" s).toList = mapRunsChars (· == '-') ruled s.toList :=
  String.toList_ofList

theorem ruleFree_heading (s : String) : ¬ ['-', '-', '-'] <:+: (heading s).toList := by
  intro h
  have hrow : List.replicate 3 '-' <:+: _ := h.trans (heading_isInfix s)
  rw [toList_ruled] at hrow
  refine Text.not_isInfix_mapRunsChars (by decide) (fun run _ ↦ ?_) _ hrow
  rw [ruled]
  split
  · decide
  · omega

theorem isTitle_heading (s : String) : IsTitle (heading s) where
  short := length_heading_le s
  unbroken c hc := by
    simpa using not_isBreak_of_mem_onOneLine s c (heading_subset s hc)
  fenceFree := fenceFree_heading s
  ruleFree := ruleFree_heading s
  stripped := by rw [heading, Text.strip_strip]

/-! ## Titles once more -/

section

variable {t : String}

theorem onOneLine_eq_self (h : ∀ c ∈ t.toList, c ≠ '\r' ∧ c ≠ '\n') : onOneLine t = t := by
  rw [onOneLine, Text.mapRuns, Text.mapRunsChars_eq_self, String.ofList_toList]
  -- There is no line break to begin a run with.
  intro run hne hpart hrun
  obtain ⟨c, run, rfl⟩ := List.exists_cons_of_ne_nil hne
  have hc := h c (hpart.subset List.mem_cons_self)
  simpa [hc.1, hc.2] using hrun c List.mem_cons_self

theorem withoutFences_eq_self (h : FenceFree t.toList) : withoutFences t = t := by
  rw [← String.toList_inj, toList_withoutFences,
    Text.mapRunsChars_eq_self_of_not_isInfix (fenceFree_iff.mp h)]
  intro run hshort
  rw [leftOver, Nat.mod_eq_of_lt hshort, List.take_length]

/-- A title without a mark is a title already. -/
theorem IsTitle.heading_eq_self (h : IsTitle t) (hmark : marked t = false) : heading t = t := by
  have hrules : Text.replaceRuns '-' 3 "-" t = t := by
    have hrows : ¬ List.replicate 3 '-' <:+: t.toList := h.ruleFree
    rw [← String.toList_inj, toList_ruled, Text.mapRunsChars_eq_self_of_not_isInfix hrows]
    exact fun run hshort ↦ if_neg (Nat.not_le_of_lt hshort)
  have hwhole : Text.take maxTitle t = t := by
    rw [Text.take, List.take_of_length_le, String.ofList_toList]
    rw [String.length_toList]
    exact h.short
  have hbegins : withoutMark t = t := by
    rw [withoutMark, if_neg]
    rw [← marked, hmark]
    exact Bool.false_ne_true
  rw [heading, onOneLine_eq_self h.unbroken, hbegins, withoutFences_eq_self h.fenceFree, hrules, hwhole,
    h.stripped]

theorem length_withoutFences_le (s : String) : (withoutFences s).length ≤ s.length := by
  refine Text.length_mapRuns_le (fun run ↦ ?_) s
  exact List.length_take_le' _ run

/-- Nothing that is done for a title makes a text longer. -/
theorem length_heading_le_withoutMark (s : String) :
    (heading s).length ≤ (withoutMark (onOneLine s)).length := by
  have hfences := length_withoutFences_le (withoutMark (onOneLine s))
  have hrules : (Text.replaceRuns '-' 3 "-" (withoutFences (withoutMark (onOneLine s)))).length ≤
      (withoutFences (withoutMark (onOneLine s))).length :=
    Text.length_replaceRuns_le '-' (by decide) _
  have hstrip := Text.length_strip_le (Text.take maxTitle
    (Text.replaceRuns '-' 3 "-" (withoutFences (withoutMark (onOneLine s)))))
  rw [Text.length_take] at hstrip
  rw [heading]
  omega

/-- A title with a mark gets shorter if it is made a title once more. -/
theorem IsTitle.heading_ne_self (h : IsTitle t) (hmark : marked t = true) : heading t ≠ t := by
  have hle := length_heading_le_withoutMark t
  obtain ⟨cs, hcs⟩ := List.head?_eq_some_iff.mp (marked_iff.mp hmark)
  have hshorter : (withoutMark t).length < t.length := by
    rw [withoutMark, ← marked, if_pos hmark, ← String.length_toList, ← String.length_toList, Text.trimStart,
      Text.trimStart, String.toList_ofList, String.toList_ofList, hcs, List.dropWhile_cons_of_pos rfl]
    have hblanks := (List.dropWhile_suffix (l := cs.dropWhile (· == '#')) isBlank).length_le
    have hmarks := (List.dropWhile_suffix (l := cs) (· == '#')).length_le
    rw [List.length_cons]
    omega
  rw [onOneLine_eq_self h.unbroken] at hle
  intro heq
  rw [heq] at hle
  omega

end

/-! ## Marks that are kept -/

/-- Blanks, so many, and fences among them: what is taken away in front of a mark that is kept. -/
inductive Hollow : Nat → List Char → Prop where
  | nil : Hollow 0 []
  | blank {n : Nat} {c : Char} {cs : List Char} (hc : isBlank c = true) (rest : Hollow n cs) :
      Hollow (n + 1) (c :: cs)
  | fence {n : Nat} {cs : List Char} (rest : Hollow n cs) : Hollow n (fence ++ cs)

/-- Behind the mark at its very start, if it has one, a text has another one, and before that only fences
and fewer blanks than a title has room for. -/
def KeepsMark (s : String) : Prop :=
  ∃ n before after, (withoutMark (onOneLine s)).toList = before ++ '#' :: after ∧
    Hollow n before ∧ n < maxTitle

section

variable {n : Nat} {cs before after : List Char}

theorem Hollow.fences (h : Hollow n cs) (k : Nat) : Hollow n (List.replicate (3 * k) '`' ++ cs) := by
  induction k with
  | zero => exact h
  | succ k ih =>
      have hrow : List.replicate (3 * (k + 1)) '`' ++ cs =
          Document.fence ++ (List.replicate (3 * k) '`' ++ cs) := by
        rw [Nat.mul_succ, Nat.add_comm, ← List.replicate_append_replicate, List.append_assoc]
        rfl
      rw [hrow]
      exact .fence ih

theorem exists_row (c : Char) (cs : List Char) :
    ∃ k rest, cs = List.replicate k c ++ rest ∧ ∀ d ∈ rest.head?, (d == c) = false := by
  induction cs with
  | nil => exact ⟨0, [], rfl, by simp⟩
  | cons d cs ih =>
      cases hd : d == c with
      | false => exact ⟨0, d :: cs, rfl, by simpa using hd⟩
      | true =>
          obtain ⟨k, rest, rfl, hrest⟩ := ih
          obtain rfl := eq_of_beq hd
          exact ⟨k + 1, rest, rfl, hrest⟩

theorem mapRunsChars_row {rest : List Char} (hrest : ∀ d ∈ rest.head?, (d == '`') = false) (k : Nat) :
    mapRunsChars (· == '`') leftOver (List.replicate k '`' ++ rest) =
      List.replicate (k % 3) '`' ++ mapRunsChars (· == '`') leftOver rest := by
  cases k with
  | zero => rfl
  | succ k =>
      have hleft : leftOver (List.replicate (k + 1) '`') = List.replicate ((k + 1) % 3) '`' := by
        rw [leftOver, List.length_replicate, List.take_replicate, Nat.min_eq_left (Nat.mod_le _ _)]
      rw [Text.mapRunsChars_append (by simp) (by simp) hrest, hleft]

/-- A fence in front of a text is left out. -/
theorem mapRunsChars_fence (cs : List Char) :
    mapRunsChars (· == '`') leftOver (fence ++ cs) = mapRunsChars (· == '`') leftOver cs := by
  obtain ⟨k, rest, rfl, hrest⟩ := exists_row '`' cs
  have hrow : fence ++ (List.replicate k '`' ++ rest) = List.replicate (3 + k) '`' ++ rest := by
    rw [← List.replicate_append_replicate, List.append_assoc]
    rfl
  rw [hrow, mapRunsChars_row hrest, mapRunsChars_row hrest, Nat.add_mod_left]

/-- What stands before a character that is no backtick, when fences are left out. -/
theorem exists_mapRunsChars_of_hollow (h : Hollow n before) (after : List Char) :
    ∃ blanks, mapRunsChars (· == '`') leftOver (before ++ '#' :: after) =
      blanks ++ '#' :: mapRunsChars (· == '`') leftOver after ∧
        (∀ c ∈ blanks, isBlank c = true) ∧ blanks.length = n := by
  induction h with
  | nil => exact ⟨[], Text.mapRunsChars_cons (by decide), by simp, rfl⟩
  | @blank n c cs hc _ ih =>
      obtain ⟨blanks, hmap, hblanks, hlength⟩ := ih
      have htick : (c == '`') = false := by
        rw [beq_eq_false_iff_ne]
        rintro rfl
        exact absurd hc (by decide)
      refine ⟨c :: blanks, ?_, List.forall_mem_cons.mpr ⟨hc, hblanks⟩, by simpa using hlength⟩
      rw [List.cons_append, Text.mapRunsChars_cons (p := (· == '`')) htick, hmap, List.cons_append]
  | fence _ ih =>
      obtain ⟨blanks, hmap, hblanks, hlength⟩ := ih
      exact ⟨blanks, by rw [List.append_assoc, mapRunsChars_fence, hmap], hblanks, hlength⟩

/-- Where blanks and a mark are left, there were blanks and fences before the mark. -/
theorem exists_hollow_of_mapRunsChars {blanks : List Char} (hblanks : ∀ c ∈ blanks, isBlank c = true)
    (h : mapRunsChars (· == '`') leftOver cs = blanks ++ '#' :: after) :
    ∃ before after, cs = before ++ '#' :: after ∧ Hollow blanks.length before := by
  induction cs using Text.runs_induction (· == '`') generalizing blanks with
  | nil => simp at h
  | cons c cs hc ih =>
      rw [Text.mapRunsChars_cons (p := (· == '`')) hc] at h
      cases blanks with
      | nil =>
          obtain ⟨rfl, -⟩ := List.cons.inj h
          exact ⟨[], cs, rfl, .nil⟩
      | cons b blanks =>
          obtain ⟨rfl, htail⟩ := List.cons.inj h
          obtain ⟨hblank, hblanks⟩ := List.forall_mem_cons.mp hblanks
          obtain ⟨before, after, rfl, hbefore⟩ := ih hblanks htail
          exact ⟨c :: before, after, rfl, .blank hblank hbefore⟩
  | run run rest hne hrun hrest ih =>
      obtain ⟨k, rfl⟩ : ∃ k, run = List.replicate k '`' :=
        ⟨run.length, List.eq_replicate_of_mem fun c hc ↦ eq_of_beq (hrun c hc)⟩
      rw [mapRunsChars_row hrest] at h
      -- A backtick that is left over would come first, and it is neither a blank nor a mark.
      cases hleft : k % 3 with
      | zero =>
          rw [hleft, List.replicate_zero, List.nil_append] at h
          obtain ⟨before, after, rfl, hbefore⟩ := ih hblanks h
          obtain ⟨m, rfl⟩ := Nat.dvd_of_mod_eq_zero hleft
          exact ⟨List.replicate (3 * m) '`' ++ before, after, by rw [List.append_assoc],
            hbefore.fences m⟩
      | succ m =>
          rw [hleft, List.replicate_succ, List.cons_append] at h
          cases blanks with
          | nil => exact absurd (List.cons.inj h).1 (by decide)
          | cons b blanks =>
              have hblank := hblanks b List.mem_cons_self
              rw [← (List.cons.inj h).1] at hblank
              exact absurd hblank (by decide)

/-- A character that is no dash comes first after the dashes have been edited if it did before. -/
theorem mapRunsChars_ruled_eq_cons {c : Char} (hc : c ≠ '-')
    (h : mapRunsChars (· == '-') ruled cs = c :: after) :
    ∃ rest, cs = c :: rest ∧ mapRunsChars (· == '-') ruled rest = after := by
  obtain ⟨k, rest, rfl, hrest⟩ := exists_row '-' cs
  cases k with
  | zero =>
      rw [List.replicate_zero, List.nil_append] at h ⊢
      cases rest with
      | nil => simp at h
      | cons d rest =>
          rw [Text.mapRunsChars_cons (p := (· == '-')) (hrest d rfl)] at h
          obtain ⟨rfl, htail⟩ := List.cons.inj h
          exact ⟨rest, rfl, htail⟩
  | succ k =>
      rw [Text.mapRunsChars_append (by simp) (by simp) hrest] at h
      have hdash : ∃ more, ruled (List.replicate (k + 1) '-') = '-' :: more := by
        rw [ruled]
        split
        · exact ⟨[], rfl⟩
        · exact ⟨List.replicate k '-', rfl⟩
      obtain ⟨more, hmore⟩ := hdash
      rw [hmore, List.cons_append] at h
      exact absurd (List.cons.inj h).1.symm hc

/-- Blanks and a mark come first after the dashes have been edited exactly if they did before. -/
theorem exists_mapRunsChars_ruled_iff {blanks : List Char}
    (hblanks : ∀ c ∈ blanks, isBlank c = true) :
    (∃ after, mapRunsChars (· == '-') ruled cs = blanks ++ '#' :: after) ↔
      ∃ after, cs = blanks ++ '#' :: after := by
  induction blanks generalizing cs with
  | nil =>
      constructor
      · rintro ⟨after, h⟩
        obtain ⟨rest, rfl, -⟩ := mapRunsChars_ruled_eq_cons (by decide) h
        exact ⟨rest, rfl⟩
      · rintro ⟨after, rfl⟩
        exact ⟨_, Text.mapRunsChars_cons (by decide)⟩
  | cons b blanks ih =>
      obtain ⟨hblank, hblanks⟩ := List.forall_mem_cons.mp hblanks
      have hdash : b ≠ '-' := by
        rintro rfl
        exact absurd hblank (by decide)
      constructor
      · rintro ⟨after, h⟩
        obtain ⟨rest, rfl, hrest⟩ := mapRunsChars_ruled_eq_cons hdash h
        obtain ⟨after, rfl⟩ := (ih hblanks).mp ⟨after, hrest⟩
        exact ⟨after, rfl⟩
      · rintro ⟨after, rfl⟩
        obtain ⟨after, h⟩ := (ih hblanks).mpr ⟨after, rfl⟩
        refine ⟨after, ?_⟩
        rw [List.cons_append, Text.mapRunsChars_cons (p := (· == '-')) (beq_false_of_ne hdash), h]
        rfl

/-- The first character that is no blank comes first in a text that is stripped. -/
theorem head?_stripChars (cs : List Char) :
    (stripChars cs).head? = (cs.dropWhile isBlank).head? := by
  have hprefix : stripChars cs <+: cs.dropWhile isBlank := Text.trimEndChars_prefix isBlank _
  obtain ⟨after, hafter⟩ := hprefix
  cases hstrip : stripChars cs with
  | nil =>
      have hblank : cs.dropWhile isBlank = [] :=
        List.dropWhile_eq_nil_iff.mpr (Text.stripChars_eq_nil_iff.mp hstrip)
      rw [hblank]
  | cons c rest =>
      rw [← hafter, hstrip]
      rfl

/-- A text that is cut and stripped begins with a mark exactly if there was one behind few blanks. -/
theorem head?_stripChars_take (k : Nat) :
    (stripChars (cs.take k)).head? = some '#' ↔ ∃ blanks after, cs = blanks ++ '#' :: after ∧
      (∀ c ∈ blanks, isBlank c = true) ∧ blanks.length < k := by
  rw [head?_stripChars, List.head?_eq_some_iff]
  constructor
  · rintro ⟨after, hafter⟩
    refine ⟨(cs.take k).takeWhile isBlank, after ++ cs.drop k, ?_, fun c hc ↦
      List.mem_takeWhile_imp hc, ?_⟩
    · rw [← List.cons_append, ← List.append_assoc, ← hafter, List.takeWhile_append_dropWhile,
        List.take_append_drop]
    · have hlength := congrArg List.length (List.takeWhile_append_dropWhile (p := isBlank)
        (l := cs.take k))
      rw [hafter, List.length_append, List.length_cons, List.length_take] at hlength
      omega
  · rintro ⟨blanks, after, rfl, hblanks, hk⟩
    obtain ⟨room, rfl⟩ := Nat.exists_eq_add_of_lt hk
    refine ⟨after.take room, ?_⟩
    rw [Nat.add_assoc, List.take_length_add_append, List.dropWhile_append_of_pos hblanks]
    rfl

/-- A title begins with a mark exactly if the text keeps one. -/
theorem marked_heading_iff (s : String) : marked (heading s) = true ↔ KeepsMark s := by
  rw [marked_iff, heading, Text.strip, String.toList_ofList, Text.toList_take, toList_ruled,
    toList_withoutFences, head?_stripChars_take, KeepsMark]
  constructor
  · rintro ⟨blanks, after, h, hblanks, hlength⟩
    obtain ⟨after, h⟩ := (exists_mapRunsChars_ruled_iff hblanks).mp ⟨after, h⟩
    obtain ⟨before, after, h, hbefore⟩ := exists_hollow_of_mapRunsChars hblanks h
    exact ⟨blanks.length, before, after, h, hbefore, hlength⟩
  · rintro ⟨n, before, after, h, hbefore, hn⟩
    obtain ⟨blanks, hmap, hblanks, rfl⟩ := exists_mapRunsChars_of_hollow hbefore after
    rw [← h] at hmap
    obtain ⟨after, hruled⟩ := (exists_mapRunsChars_ruled_iff hblanks).mpr ⟨_, hmap⟩
    exact ⟨blanks, after, hruled, hblanks, hn⟩

end

/-! ## Overviews -/

section

variable {profile : Profile} {languages : List (String × Int)}

theorem IsItem.marked_eq {line : String} (h : IsItem line) : marked line = false := by
  refine Bool.eq_false_of_not_eq_true fun hmark ↦ ?_
  rw [marked_iff] at hmark
  rcases h.begins with hdash | hblank <;> simp_all

theorem physicalLines_overview (h : profile.Unbroken)
    (hlanguages : ∀ x ∈ languages, Text.OneLine x.1) :
    physicalLines (overview profile languages) = overviewLines profile languages := by
  obtain ⟨items, hlines, hne, hitems⟩ := overviewLines_eq h hlanguages
  rw [overview, hlines]
  refine Text.split_intercalate_of_not_mem (List.append_ne_nil_of_right_ne_nil _ hne) ?_
  refine List.forall_mem_append.mpr ⟨?_, fun line hline ↦ (hitems line hline).oneLine⟩
  rw [descriptionLines]
  split
  · next description _ =>
    exact List.forall_mem_cons.mpr ⟨oneLine_heading description, by decide⟩
  · simp

/-- Only the description can read as a heading. -/
theorem filter_marked_overview (h : profile.Unbroken)
    (hlanguages : ∀ x ∈ languages, Text.OneLine x.1) :
    (physicalLines (overview profile languages)).filter marked =
      (profile.description.map heading).toList.filter marked := by
  obtain ⟨items, hlines, -, hitems⟩ := overviewLines_eq h hlanguages
  have hnone : items.filter marked = [] :=
    List.filter_eq_nil_iff.mpr fun line hline ↦ by simp [(hitems line hline).marked_eq]
  have hempty : marked "" = false := by decide
  have htitle : marked (heading "") = false := by decide +kernel
  rw [physicalLines_overview h hlanguages, hlines, List.filter_append, hnone, List.append_nil,
    descriptionLines]
  cases profile.description with
  | none => rfl
  | some description =>
      by_cases hdescription : description = ""
      · subst hdescription
        simp [Option.filter_some, htitle]
      · simp [Option.filter_some, hdescription, hempty, List.filter_cons]

example : (physicalLines (overview { name := "demo", description := some "```# Title" } [])).filter
    marked = ["# Title"] := by
  decide +kernel

end

/-- Every title is short, on one line, without fences, rules and blanks at its ends. It begins with the
mark of a heading exactly if its text keeps a mark, and then, and only then, is it not a title of its
own. So in the overview of a project whose members have paths on one line, no line reads as a heading
but the description, and that one does exactly if it keeps a mark. -/
theorem heading_forged_iff_keepsMark (s : String) :
    (IsTitle (heading s) ∧ (marked (heading s) = true ↔ KeepsMark s) ∧
      (heading (heading s) = heading s ↔ ¬ KeepsMark s)) ∧
    ∀ yaml fs dir profile languages, Profile.detect yaml fs dir = .ok profile →
      (∀ monorepo ∈ profile.monorepo, ∀ w ∈ monorepo.workspaces, Text.OneLine w.path) →
      (∀ x ∈ languages, Text.OneLine x.1) →
      (physicalLines (overview profile languages)).filter marked =
        (profile.description.map heading).toList.filter marked := by
  refine ⟨⟨isTitle_heading s, marked_heading_iff s, ?_⟩, ?_⟩
  · rw [← marked_heading_iff]
    constructor
    · exact fun hsame hmark ↦ (isTitle_heading s).heading_ne_self hmark hsame
    · exact fun hmark ↦ (isTitle_heading s).heading_eq_self (Bool.eq_false_of_not_eq_true hmark)
  · intro yaml fs dir profile languages hdetect hpaths hlanguages
    exact filter_marked_overview (Profile.unbroken_of_paths hdetect hpaths) hlanguages

theorem heading_forged_iff_keepsMark_twice :
    marked (heading "# # x") = true ∧ heading (heading "# # x") ≠ heading "# # x" ∧
    ∃ profile, Profile.detect bareServices.yaml Profile.blankProject ⟨"/", ["p"]⟩ = .ok profile ∧
      (physicalLines (overview profile [("go", 1)])).filter marked =
        (profile.description.map heading).toList.filter marked := by
  have hkeeps : KeepsMark "# # x" := ⟨0, [], [' ', 'x'], by decide +kernel, .nil, by decide⟩
  obtain ⟨⟨-, hmark, hsame⟩, hoverview⟩ := heading_forged_iff_keepsMark "# # x"
  obtain ⟨profile, hdetect⟩ := Profile.detect_blankProject bareServices.yaml
  have hunbroken : profile.Unbroken := Profile.unbroken_of_detect
    (projectWith_wellFormed (by decide) _) (projectWith_unbroken (by decide) _) hdetect
  refine ⟨hmark.mpr hkeeps, fun h ↦ hsame.mp h hkeeps, profile, hdetect, ?_⟩
  exact hoverview _ _ _ profile _ hdetect
    (fun monorepo hmonorepo w hw ↦ (hunbroken.workspaces monorepo hmonorepo w hw).path) (by decide)

end Dossier.Document

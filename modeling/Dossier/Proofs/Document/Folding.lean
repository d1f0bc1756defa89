import Dossier.Proofs.Outline.Behaviour
import Dossier.Proofs.Text.Lines
import Dossier.Proofs.Text.Utf8
import Mathlib.Data.List.TakeWhile

/-!
# What folding keeps

A declaration that is folded keeps one line of its text: the first that does not begin with the mark of
a decorator. So its name is kept exactly if it stands in that line. The lines behind the first one of a
decorator do not begin with the mark, and neither do attributes in brackets; in front of a class they
are kept in place of the line with the name.
-/

namespace Dossier.Document

open Outline (ClassForm ClassNode Declaration)
open Text (contains isBlank isLineEnd lines startsWith stripEnd trimStart)

/-- A line that begins with the mark of a decorator. -/
def IsMarked (line : String) : Prop :=
  startsWith (trimStart isBlank line) "@" = true

instance : DecidablePred IsMarked :=
  fun line ↦ inferInstanceAs (Decidable (startsWith (trimStart isBlank line) "@" = true))

/-- The line of a text that is kept: the first that is not marked, or the first if all are marked. -/
inductive IsHead : List String → String → Prop where
  | unmarked {before after : List String} {head : String} (marked : ∀ line ∈ before, IsMarked line)
      (unmarked : ¬ IsMarked head) : IsHead (before ++ head :: after) head
  | marked {after : List String} {head : String} (marked : ∀ line ∈ head :: after, IsMarked line) :
      IsHead (head :: after) head

variable {ls above below : List String} {head : String}

def isUnmarked (line : String) : Bool :=
  !startsWith (trimStart isBlank line) "@"

theorem isUnmarked_iff {line : String} : isUnmarked line = true ↔ ¬ IsMarked line := by
  rw [isUnmarked, IsMarked, Bool.not_eq_true', Bool.not_eq_true]

theorem find?_eq_none_iff : ls.find? isUnmarked = none ↔ ∀ line ∈ ls, IsMarked line := by
  simp [List.find?_eq_none, isUnmarked_iff]

theorem isHead_iff : IsHead ls head ↔ (ls.find? isUnmarked).or ls.head? = some head := by
  constructor
  · intro h
    cases h with
    | unmarked marked unmarked =>
        rw [List.find?_append, find?_eq_none_iff.mpr marked, Option.none_or,
          List.find?_cons_of_pos (isUnmarked_iff.mpr unmarked), Option.some_or]
    | marked marked => rw [find?_eq_none_iff.mpr marked, Option.none_or, List.head?_cons]
  · intro h
    cases hfind : ls.find? isUnmarked with
    | some line =>
        rw [hfind, Option.some_or] at h
        obtain rfl := Option.some_inj.mp h
        obtain ⟨hline, before, after, rfl, hbefore⟩ := List.find?_eq_some_iff_append.mp hfind
        refine .unmarked ?_ (isUnmarked_iff.mp hline)
        intro other hother
        simpa [isUnmarked, IsMarked] using hbefore other hother
    | none =>
        rw [hfind, Option.none_or] at h
        obtain ⟨after, rfl⟩ := List.head?_eq_some_iff.mp h
        exact .marked (find?_eq_none_iff.mp hfind)

theorem IsHead.unique {other : String} (h : IsHead ls head) (hother : IsHead ls other) :
    head = other :=
  Option.some_inj.mp ((isHead_iff.mp h).symm.trans (isHead_iff.mp hother))

theorem exists_isHead (hne : ls ≠ []) : ∃ head, IsHead ls head ∧ headOf ls = stripEnd head := by
  obtain ⟨first, rest, rfl⟩ := List.exists_cons_of_ne_nil hne
  refine ⟨((first :: rest).find? isUnmarked).getD first, ?_, rfl⟩
  rw [isHead_iff]
  cases (first :: rest).find? isUnmarked <;> rfl

/-- An unmarked line among the first lines is kept in place of all that follows. -/
theorem IsHead.of_append (h : IsHead (above ++ below) head) :
    ((∃ line ∈ above, ¬ IsMarked line) → IsHead above head) ∧
      ((∀ line ∈ above, IsMarked line) → (∃ line ∈ below, ¬ IsMarked line) → IsHead below head) := by
  have hsome {ls : List String} (hex : ∃ line ∈ ls, ¬ IsMarked line) :
      ∃ line, ls.find? isUnmarked = some line := by
    rw [← Option.ne_none_iff_exists', ne_eq, find?_eq_none_iff]
    simpa using hex
  rw [isHead_iff, List.find?_append] at h
  constructor
  · intro hex
    obtain ⟨line, hline⟩ := hsome hex
    rw [isHead_iff, hline]
    simpa [hline] using h
  · intro hmarked hex
    obtain ⟨line, hline⟩ := hsome hex
    rw [isHead_iff, hline]
    simpa [hline, find?_eq_none_iff.mpr hmarked] using h

/-! ## Names in texts -/

/-- A name without the characters that a fold adds or takes away. -/
def IsWord (name : String) : Prop :=
  ∀ c ∈ name.toList, isBlank c = false ∧ c ≠ '.' ∧ c ≠ '\x7d'

instance : DecidablePred IsWord := fun name ↦
  decidable_of_iff (name.toList.all (fun c ↦ !isBlank c && c != '.' && c != '\x7d') = true) <| by
    simp [IsWord, and_assoc]

theorem infix_append_iff {word s t : List Char} (h : ∀ c ∈ word, c ∉ t) :
    word <:+: s ++ t ↔ word <:+: s := by
  -- A word that reached into `t` would end with its last character, so `t` is taken off from its end.
  induction t using List.reverseRecOn with
  | nil => rw [List.append_nil]
  | append_singleton t d ih =>
      have hd : d ∉ word := fun hmem ↦ h d hmem (by simp)
      rw [← List.append_assoc, List.infix_concat_iff, ih fun c hc hmem ↦ h c hc (by simp [hmem])]
      constructor
      · rintro (hsuffix | hinfix)
        · rcases List.suffix_concat_iff.mp hsuffix with rfl | ⟨front, rfl, -⟩
          · exact List.nil_infix
          · exact absurd (List.mem_append_right front List.mem_cons_self) hd
        · exact hinfix
      · exact .inr

theorem contains_iff {s word : String} : contains s word = true ↔ word.toList <:+: s.toList := by
  rw [contains, Text.hasRun_iff]

theorem contains_append_iff {s t word : String} (h : ∀ c ∈ word.toList, c ∉ t.toList) :
    contains (s ++ t) word = true ↔ contains s word = true := by
  rw [contains_iff, contains_iff, String.toList_append, infix_append_iff h]

theorem contains_stripEnd_iff {s word : String} (h : ∀ c ∈ word.toList, isBlank c = false) :
    contains (stripEnd s) word = true ↔ contains s word = true := by
  have hsplit : Text.trimEndChars isBlank s.toList ++ (s.toList.reverse.takeWhile isBlank).reverse =
      s.toList := by
    rw [Text.trimEndChars, ← List.reverse_append, List.takeWhile_append_dropWhile,
      List.reverse_reverse]
  have hblanks : ∀ c ∈ word.toList, c ∉ (s.toList.reverse.takeWhile isBlank).reverse := by
    intro c hc hblank
    have htrue := List.mem_takeWhile_imp (List.mem_reverse.mp hblank)
    rw [h c hc] at htrue
    exact absurd htrue Bool.false_ne_true
  have hiff := infix_append_iff (s := Text.trimEndChars isBlank s.toList) hblanks
  rw [hsplit] at hiff
  have hkept : (stripEnd s).toList = Text.trimEndChars isBlank s.toList := String.toList_ofList
  rw [contains_iff, contains_iff, hkept, hiff]

theorem contains_folded_iff {e : Declaration} (hcollapsible : e.collapsible = true)
    (hlong : 1 < (lines e.signature).length) {name : String} (hname : IsWord name) :
    contains (folded e) name = true ↔
      ∃ head, IsHead (lines e.signature) head ∧ contains head name = true := by
  have hne : lines e.signature ≠ [] := List.ne_nil_of_length_pos (Nat.zero_lt_of_lt hlong)
  obtain ⟨head, hhead, hkept⟩ := exists_isHead hne
  -- What stands behind the line that is kept holds no character of the name, in either form of a fold.
  have hmark {mark : String}
      (hin : mark.toList.all (fun c ↦ c == ' ' || c == '.' || c == '\x7d') = true) :
      contains (stripEnd head ++ mark) name = true ↔ contains head name = true := by
    rw [contains_append_iff, contains_stripEnd_iff fun c hc ↦ (hname c hc).1]
    intro c hc hmem
    obtain ⟨hblank, hdot, hbrace⟩ := hname c hc
    have hspace : c ≠ ' ' := by
      rintro rfl
      exact absurd hblank (by decide)
    simpa [hspace, hdot, hbrace] using List.all_eq_true.mp hin c hmem
  have hfolded : contains (folded e) name = true ↔ contains head name = true := by
    have hopen : (!e.collapsible || decide ((lines e.signature).length ≤ 1)) = false := by
      simp [hcollapsible, hlong]
    rw [folded]
    dsimp only
    rw [hopen, if_neg Bool.false_ne_true, hkept]
    split
    · exact hmark (by decide)
    · exact hmark (by decide)
  rw [hfolded]
  constructor
  · intro h
    exact ⟨head, hhead, h⟩
  · rintro ⟨other, hother, h⟩
    rwa [hhead.unique hother]

/-! ## Classes -/

variable {form : ClassForm} {source : Bytes} {root : Node} {c : ClassNode}

theorem getLast?_of_endsWith {s mark : String} {d : Char} (h : Text.endsWith s mark = true)
    (hmark : mark.toList = [d]) : s.toList.getLast? = some d := by
  rw [Text.endsWith, hmark, List.isSuffixOf_iff_suffix] at h
  obtain ⟨front, hfront⟩ := h
  rw [← hfront, List.getLast?_concat]

theorem getLast?_opened (s : String) : (Outline.opened s).toList.getLast? = some '\x7b' := by
  rw [Outline.opened]
  split
  next hends => exact getLast?_of_endsWith hends rfl
  next => simp

/-- The header of a class that may be folded ends no line. -/
theorem exists_getLast?_header (hruby : form ≠ .ruby) (source : Bytes) (c : ClassNode) :
    ∃ d, (form.header source c).toList.getLast? = some d ∧ isLineEnd d = false := by
  cases form with
  | script =>
      dsimp only [ClassForm.header]
      exact ⟨_, getLast?_opened _, by decide⟩
  | python =>
      refine ⟨':', ?_, by decide⟩
      dsimp only [ClassForm.header, Outline.Python.definitionText]
      simp
  | braced rules =>
      dsimp only [ClassForm.header, Outline.openHeader]
      exact ⟨_, getLast?_opened _, by decide⟩
  | ruby => exact absurd rfl hruby

/-- A class that shows members shows them behind its header. -/
theorem exists_text_eq (hne : form.members source c.inner ≠ []) :
    ∃ rest, form.text source c = form.header source c ++ "\n" ++ rest := by
  have hcontainer (close : String) : ∃ rest,
      Outline.container (form.header source c) ((form.members source c.inner).map (·.text)) close =
        form.header source c ++ "\n" ++ rest := by
    rw [Outline.container, if_neg (by simpa using hne), String.append_assoc, String.append_assoc]
    exact ⟨_, rfl⟩
  cases form with
  | script | braced rules => exact hcontainer _
  | python =>
      dsimp only [ClassForm.text]
      rw [if_neg (by simpa using hne)]
      exact ⟨_, rfl⟩
  | ruby => exact hcontainer _

/-- Folding keeps the name of a declaration exactly if it stands in the first line that is not marked. In
a class this is a line of the header, unless all lines of the header are marked. -/
theorem fold_keeps_name_iff {language : Language} {e : Declaration}
    (he : e ∈ Outline.ofTree language source root) (hcollapsible : e.collapsible = true)
    (hname : IsWord e.name) :
    ((lines e.signature).length ≤ 1 → folded e = e.signature) ∧
    (1 < (lines e.signature).length → (contains (folded e) e.name = true ↔
      ∃ head, IsHead (lines e.signature) head ∧ contains head e.name = true)) ∧
    ∀ form, ClassForm.of? language = some form → e.kind = .cls →
      ∃ c ∈ form.classes root, ∃ rest, e.signature = form.header source c ++ "\n" ++ rest ∧
        ∀ head, IsHead (lines e.signature) head →
          ((∃ line ∈ lines (form.header source c), ¬ IsMarked line) →
            IsHead (lines (form.header source c)) head) ∧
          ((∀ line ∈ lines (form.header source c), IsMarked line) →
            (∃ line ∈ lines rest, ¬ IsMarked line) → IsHead (lines rest) head) := by
  refine ⟨?short, fun hlong ↦ contains_folded_iff hcollapsible hlong hname, ?classes⟩
  case short =>
    intro hshort
    simp [folded, hshort]
  case classes =>
    intro form hform hclass
    rw [ClassForm.ofTree_eq hform] at he
    obtain ⟨c, hc, htext, hfields⟩ := ClassForm.exists_class_of_mem he hclass
    have htrue : Outline.fieldsOnly (form.members source c.inner) = true := by
      rw [Declaration.collapsible, hclass] at hcollapsible
      rw [← hfields]
      exact hcollapsible
    -- The header of a Ruby class may be empty, but it shows methods alone and is never folded.
    have hruby : form ≠ .ruby := by
      rintro rfl
      rw [Outline.Ruby.fieldsOnly_members] at htrue
      exact Bool.false_ne_true htrue
    obtain ⟨hne, -⟩ := Outline.fieldsOnly_iff.mp htrue
    obtain ⟨rest, hrest⟩ := exists_text_eq hne
    refine ⟨c, hc, rest, htext.trans hrest, ?_⟩
    obtain ⟨d, hlast, hd⟩ := exists_getLast?_header hruby source c
    rw [htext, hrest, Text.lines_append rest hlast hd]
    intro head hhead
    exact hhead.of_append

/-- A class whose decorator takes three lines. -/
def decoratedClass : Node :=
  ⟨"decorated_definition", true, none, 0, 56,
    [⟨"decorator", true, none, 0, 30, []⟩,
      ⟨"class_definition", true, some "definition", 31, 56,
        [⟨"class", false, none, 31, 36, []⟩, ⟨"identifier", true, some "name", 37, 41, []⟩,
          ⟨":", false, none, 41, 42, []⟩,
          ⟨"block", true, some "body", 47, 56,
            [⟨"expression_statement", true, none, 47, 56,
              [⟨"assignment", true, none, 47, 56,
                [⟨"identifier", true, some "left", 47, 51, []⟩, ⟨":", false, none, 51, 52, []⟩,
                  ⟨"type", true, some "type", 53, 56, []⟩]⟩]⟩]⟩]⟩]⟩

/-- The source of a class whose decorator takes three lines. -/
def decoratedSource : Bytes :=
  Bytes.ofText "@dataclass(\n    frozen=True,\n)\nclass User:\n    name: str\n"

/-- The class with its decorator, as it is shown. -/
def decoratedEntry : Declaration where
  kind := .cls
  name := "User"
  signature := "@dataclass(\n    frozen=True,\n)\nclass User:\n  name: str"
  fieldsOnly := true

theorem decoratedEntry_mem :
    decoratedEntry ∈ Outline.ofTree .python decoratedSource
      ⟨"module", true, none, 0, 57, [decoratedClass]⟩ := by
  have hascii : ∀ b ∈ decoratedSource, b < 0x80 := by decide +kernel
  -- Decoding does not evaluate in the kernel; a text in ASCII is decoded byte by byte.
  have hslice (start stop : Nat) : decoratedSource.slice start stop =
      String.ofList ((decoratedSource.between start stop).map (Text.Utf8.assemble · [])) :=
    Text.Utf8.decodeLossy_of_forall_lt fun b hb ↦
      hascii b (List.mem_of_mem_take (List.mem_of_mem_drop hb))
  have hentry : Outline.Python.entryAt? decoratedSource decoratedClass = some decoratedEntry := by
    simp only [Outline.Python.entryAt?, Outline.guessName, Outline.Python.classText,
      Outline.Python.definitionText, Outline.Python.membersOf, Outline.Python.member?,
      Outline.Python.assignmentText, Node.text, hslice]
    decide +kernel
  exact List.mem_filterMap.mpr ⟨decoratedClass, List.mem_singleton_self _, hentry⟩

/-- The second line of a decorator is kept in place of the line with the name. -/
theorem fold_keeps_name_iff_decorated :
    contains decoratedEntry.signature "class User:" = true ∧
      IsHead (lines decoratedEntry.signature) "    frozen=True," ∧
      contains (folded decoratedEntry) "User" = false := by
  have hlines : lines decoratedEntry.signature =
      ["@dataclass("] ++ "    frozen=True," :: [")", "class User:", "  name: str"] := by
    decide +kernel
  have hhead : IsHead (lines decoratedEntry.signature) "    frozen=True," := by
    rw [hlines]
    exact .unmarked (by decide +kernel) (by decide +kernel)
  have hlong : 1 < (lines decoratedEntry.signature).length := by
    rw [hlines]
    decide
  obtain ⟨-, hiff, -⟩ := fold_keeps_name_iff decoratedEntry_mem rfl (by decide)
  refine ⟨by decide +kernel, hhead, ?_⟩
  rw [← Bool.not_eq_true]
  intro hkept
  obtain ⟨head, hother, hname⟩ := (hiff hlong).mp hkept
  rw [← hhead.unique hother] at hname
  exact absurd hname (by decide)

end Dossier.Document

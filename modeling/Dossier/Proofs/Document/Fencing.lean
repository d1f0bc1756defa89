import Dossier.Proofs.Document.Balance
import Dossier.Proofs.Document.Filling

/-!
# Code that stays between its fences

In code that is put between fences a long run of backticks is shortened, and nothing else is changed.
So a text may be cut before or after, and neither a fenced text nor an entry of the code map nor an
excerpt of a key file has three backticks in a row anywhere but in the fence that it opens and in its
last line, which closes it.
-/

namespace Dossier.Document

open Text (OneLine mapRunsChars physicalLines)

/-! ## Long runs of backticks -/

/-- Two backticks stand in the place of every run of three or more, and all else is as it was. -/
inductive Defused : List Char → List Char → Prop where
  | nil : Defused [] []
  | other {c : Char} {cs ds : List Char} (hc : c ≠ '`') (rest : Defused cs ds) :
      Defused (c :: cs) (c :: ds)
  | short {n : Nat} {cs ds : List Char} (hn : n < 3) (hended : ∀ c ∈ cs.head?, c ≠ '`')
      (rest : Defused cs ds) : Defused (List.replicate n '`' ++ cs) (List.replicate n '`' ++ ds)
  | long {n : Nat} {cs ds : List Char} (hn : 3 ≤ n) (hended : ∀ c ∈ cs.head?, c ≠ '`')
      (rest : Defused cs ds) : Defused (List.replicate n '`' ++ cs) ('`' :: '`' :: ds)

/-- What is put in the place of a run of backticks. -/
def shortened (run : List Char) : List Char :=
  if 3 ≤ run.length then ['`', '`'] else run

theorem toList_codeText (s : String) :
    (codeText s).toList = mapRunsChars (· == '`') shortened s.toList := by
  rw [codeText, Text.replaceRuns, Text.mapRuns, String.toList_ofList]
  rfl

theorem defused_codeText (s : String) : Defused s.toList (codeText s).toList := by
  rw [toList_codeText]
  induction s.toList using Text.runs_induction (· == '`') with
  | nil => exact .nil
  | cons c cs hc ih =>
      rw [Text.mapRunsChars_cons (p := (· == '`')) hc]
      exact .other (ne_of_beq_false hc) ih
  | run run rest hne hrun hrest ih =>
      have hended : ∀ c ∈ rest.head?, c ≠ '`' := fun c hc ↦ ne_of_beq_false (hrest c hc)
      obtain ⟨n, rfl⟩ : ∃ n, run = List.replicate n '`' :=
        ⟨run.length, List.eq_replicate_of_mem fun c hc ↦ eq_of_beq (hrun c hc)⟩
      rw [Text.mapRunsChars_append hne hrun hrest, shortened, List.length_replicate]
      split
      · next hlong => exact .long hlong hended ih
      · next hshort => exact .short (Nat.lt_of_not_le hshort) hended ih

/-- A text without three backticks in a row is shown as it is. -/
theorem codeText_eq_self {s : String} (h : FenceFree s.toList) : codeText s = s := by
  rw [← String.toList_inj, toList_codeText]
  exact Text.mapRunsChars_eq_self_of_not_isInfix (fenceFree_iff.mp h) fun run hshort ↦
    if_neg (Nat.not_le_of_lt hshort)

theorem codeText_codeText (s : String) : codeText (codeText s) = codeText s :=
  codeText_eq_self (fenceFree_codeText s)

/-- The beginning of a text is shown as the beginning of what the text is shown as. -/
theorem codeText_prefix {s t : String} (h : s.toList <+: t.toList) :
    (codeText s).toList <+: (codeText t).toList := by
  rw [toList_codeText, toList_codeText]
  refine Text.mapRunsChars_prefix (fun begun run hne hrun hbegun ↦ ?_) h
  have hlength := hbegun.length_le
  obtain ⟨k, rfl⟩ : ∃ k, begun = List.replicate k '`' :=
    ⟨_, List.eq_replicate_of_mem fun c hc ↦ eq_of_beq (hrun c (hbegun.subset hc))⟩
  rw [List.length_replicate] at hlength
  rw [shortened, shortened, List.length_replicate]
  split
  · rw [if_pos (by omega)]
  · split
    · have htwo : List.replicate k '`' <+: List.replicate 2 '`' :=
        List.prefix_replicate_iff.mpr ⟨by rw [List.length_replicate]; omega, by simp⟩
      exact htwo
    · exact hbegun

/-! ## Fenced texts -/

/-- A text without line feeds and backticks. -/
structure IsPlain (s : String) : Prop where
  oneLine : OneLine s
  no_tick : '`' ∉ s.toList

theorem IsPlain.fenceFree {s : String} (h : IsPlain s) : FenceFree s.toList :=
  fun hfence ↦ h.no_tick (hfence.subset List.mem_cons_self)

/-- A text that consists of some lines, an opening fence, the lines inside, and a closing fence as its
last line. No other line has three backticks in a row. -/
structure IsFenced (above : List String) (info : String) (inside : List String) (s : String) :
    Prop where
  lines : physicalLines s = above ++ ("```" ++ info) :: (inside ++ ["```"])
  above_free : ∀ line ∈ above, FenceFree line.toList
  inside_free : ∀ line ∈ inside, FenceFree line.toList

theorem isFenced_between {info s : String} (hinfo : OneLine info)
    (hs : ∀ line ∈ physicalLines s, FenceFree line.toList) :
    IsFenced [] info (physicalLines s) ("```" ++ info ++ "\n" ++ s ++ "\n```") where
  lines := by
    have hopening : physicalLines ("```" ++ info) = ["```" ++ info] :=
      Text.split_singleton (OneLine.append (by decide) hinfo)
    rw [between_eq, Text.physicalLines_append, Text.physicalLines_append, hopening]
    rfl
  above_free := by simp
  inside_free := hs

namespace IsFenced

variable {above inside : List String} {info s : String}

theorem below (h : IsFenced above info inside s) {line : String} (hline : OneLine line)
    (hfree : FenceFree line.toList) :
    IsFenced (line :: above) info inside (line ++ "\n" ++ s) where
  lines := by
    have hfirst : physicalLines line = [line] := Text.split_singleton hline
    rw [Text.physicalLines_append, hfirst, h.lines]
    rfl
  above_free := List.forall_mem_cons.mpr ⟨hfree, h.above_free⟩
  inside_free := h.inside_free

theorem below_title (h : IsFenced above info inside s) {title : String} (htitle : IsPlain title) :
    IsFenced (("### " ++ title) :: above) info inside ("### " ++ title ++ "\n" ++ s) := by
  refine h.below (OneLine.append (by decide) htitle.oneLine) ?_
  rw [String.toList_append]
  exact htitle.fenceFree.append_of_forall_ne (by simp)

end IsFenced

theorem isFenced_fenced {info : String} (h : OneLine info) (s : String) :
    IsFenced [] info (physicalLines (codeText s)) (fenced info s) :=
  isFenced_between h fun _ hline ↦ (fenceFree_codeText s).line hline

theorem isFenced_mapEntry {x : Listed} (hpath : IsPlain x.file.path)
    (hlanguage : OneLine x.file.language) (format : MapFormat) (fold : Bool) :
    IsFenced ["### " ++ x.file.path] x.file.language
      (physicalLines (codeText (block format fold x.entries))) (mapEntry format fold x) :=
  (isFenced_fenced hlanguage _).below_title hpath

theorem isFenced_excerptHead {path s : String} (hpath : IsPlain path)
    (hs : ∀ line ∈ physicalLines s, FenceFree line.toList) :
    IsFenced ["### " ++ path, ""] (infoOf path) (physicalLines s)
      (excerptHead path ++ s ++ "\n```") := by
  have hfenced := isFenced_between (oneLine_infoOf hpath.oneLine) hs
  have hempty : FenceFree "".toList := .nil
  rw [excerptHead_between]
  exact (hfenced.below (by decide) hempty).below_title hpath

/-- An excerpt is fenced whether the text of its file is cut or not. -/
theorem IsExcerpt.isFenced {measure : Measure} {path piece : String}
    (h : IsExcerpt measure path piece) (hpath : IsPlain path) : ∃ text,
      IsFenced ["### " ++ path, ""] (infoOf path) (physicalLines (codeText text)) piece ∨
      IsFenced ["### " ++ path, ""] (infoOf path) (physicalLines (codeText text) ++ [cutMark])
        piece := by
  have hcode (text : String) : ∀ line ∈ physicalLines (codeText text), FenceFree line.toList :=
    fun _ hline ↦ (fenceFree_codeText text).line hline
  cases h with
  | whole text => exact ⟨text, .inl (isFenced_excerptHead hpath (hcode text))⟩
  | cut remaining text =>
      rw [cutExcerpt]
      generalize Text.take _ text = shown
      have hparts : excerptHead path ++ codeText shown ++ ("\n" ++ cutMark ++ "\n```") =
          excerptHead path ++ (codeText shown ++ "\n" ++ cutMark) ++ "\n```" := by
        simp only [String.append_assoc]
      have hmark : physicalLines cutMark = [cutMark] := Text.split_singleton (by decide)
      have hlines : physicalLines (codeText shown ++ "\n" ++ cutMark) =
          physicalLines (codeText shown) ++ [cutMark] := by
        rw [Text.physicalLines_append, hmark]
      refine ⟨shown, .inr ?_⟩
      rw [hparts, ← hlines]
      refine isFenced_excerptHead hpath ?_
      rw [hlines]
      refine List.forall_mem_append.mpr ⟨hcode shown, List.forall_mem_singleton.mpr ?_⟩
      rw [FenceFree]
      decide

/-- No text ends the fence that it is put into. -/
theorem code_stays_fenced (measure : Measure) :
    (∀ s, FenceFree (codeText s).toList ∧ codeText (codeText s) = codeText s ∧
      Defused s.toList (codeText s).toList) ∧
    (∀ s t, s.toList <+: t.toList → (codeText s).toList <+: (codeText t).toList) ∧
    (∀ info text, IsPlain info →
      IsFenced [] info (physicalLines (codeText text)) (fenced info text)) ∧
    (∀ format fold x, IsPlain x.file.path → IsPlain x.file.language →
      IsFenced ["### " ++ x.file.path] x.file.language
        (physicalLines (codeText (block format fold x.entries))) (mapEntry format fold x)) ∧
    ∀ fs root files patterns budget x, (∀ path ∈ files, IsPlain path) →
      keyFiles fs measure root files patterns budget = .ok x →
      ∀ piece ∈ x.pieces, ∃ path ∈ files, ∃ inside,
        IsFenced ["### " ++ path, ""] (infoOf path) inside piece := by
  refine ⟨fun s ↦ ⟨fenceFree_codeText s, codeText_codeText s, defused_codeText s⟩,
    fun s t ↦ codeText_prefix, fun info text hinfo ↦ isFenced_fenced hinfo.oneLine text,
    fun format fold x hpath hlanguage ↦ isFenced_mapEntry hpath hlanguage.oneLine format fold, ?_⟩
  intro fs root files patterns budget x hfiles h piece hpiece
  obtain ⟨path, hpath, hexcerpt⟩ := exists_isExcerpt_of_keyFiles h piece hpiece
  obtain ⟨text, hwhole | hcut⟩ := hexcerpt.isFenced (hfiles path hpath)
  · exact ⟨path, hpath, _, hwhole⟩
  · exact ⟨path, hpath, _, hcut⟩

/-- A file with a declaration that is a fence itself. -/
def fenceListed : Listed where
  file := { path := "a.go", language := "go" }
  entries := [{ kind := .function, name := "f", signature := "```" }]

/-- A run of four backticks, a declaration that is a fence itself, and two files. -/
theorem code_stays_fenced_ticks :
    IsFenced [] "md" ["a``b", "``"] (fenced "md" "a````b\n```") ∧
    IsFenced ["### a.go"] "go" ["``"] (mapEntry .signatures false fenceListed) ∧
    ∃ x, keyFiles twoNotes Budget.estimate ⟨"/", ["p"]⟩ ["a.md", "b.md"] ["*.md"] 12 = .ok x ∧
      x.pieces ≠ [] ∧ ∀ piece ∈ x.pieces, ∃ path ∈ ["a.md", "b.md"], ∃ inside,
        IsFenced ["### " ++ path, ""] (infoOf path) inside piece := by
  obtain ⟨-, -, hfenced, hentry, hfiles⟩ := code_stays_fenced Budget.estimate
  refine ⟨?fenced, ?entry, _, keyFiles_twoNotes, by decide, ?files⟩
  case fenced =>
    have hlines : physicalLines (codeText "a````b\n```") = ["a``b", "``"] := by decide +kernel
    rw [← hlines]
    exact hfenced "md" _ ⟨by decide, by decide⟩
  case entry =>
    have hlines : physicalLines (codeText (block .signatures false fenceListed.entries)) =
        ["``"] := by
      decide +kernel
    rw [← hlines]
    exact hentry .signatures false fenceListed ⟨by decide, by decide⟩ ⟨by decide, by decide⟩
  case files =>
    have hplain : ∀ path ∈ ["a.md", "b.md"], IsPlain path := by
      intro path hpath
      simp only [List.mem_cons, List.not_mem_nil, or_false] at hpath
      rcases hpath with rfl | rfl <;> exact ⟨by decide, by decide⟩
    exact hfiles _ _ _ _ _ _ hplain keyFiles_twoNotes

end Dossier.Document

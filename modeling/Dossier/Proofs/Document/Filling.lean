import Dossier.Document.Notes
import Dossier.Proofs.Document.CodeMap
import Dossier.Proofs.Document.Excerpts
import Dossier.Proofs.Document.Layout
import Dossier.Proofs.FileSystem.Probe
import Dossier.Proofs.FileSystem.Straight
import Dossier.Proofs.Text.Length

/-!
# How sections fill their shares

The sections of the key files and of the notes are filled piece by piece, and what the pieces take is
kept within the share. The empty lines between the pieces are not counted, so the section as a whole
can exceed the share, by at most one token for every two pieces. The code map counts its separators
and never does.
-/

namespace Dossier.Document

open Budget (estimate charsPerToken)

/-! ## Pieces and the empty lines between them -/

theorem sum_length_separated_le (pieces : List String) :
    (pieces.map fun s ↦ s.length + "\n\n".length).sum ≤
      charsPerToken * (pieces.map estimate).sum + 2 * pieces.length := by
  induction pieces with
  | nil => exact Nat.zero_le _
  | cons piece rest ih =>
      have hpiece := Budget.length_le_estimate piece
      have hfeeds : "\n\n".length = 2 := rfl
      rw [List.map_cons, List.sum_cons, List.map_cons, List.sum_cons, List.length_cons]
      simp only [charsPerToken] at ih hpiece ⊢
      omega

/-- The empty lines between pieces take half a token for each piece but the first. -/
theorem estimate_separated_le (pieces : List String) :
    estimate (String.intercalate "\n\n" pieces) ≤
      (pieces.map estimate).sum + pieces.length / 2 := by
  cases pieces with
  | nil => exact Nat.zero_le _
  | cons piece rest =>
      have hpiece := Budget.length_le_estimate piece
      have hrest := sum_length_separated_le rest
      rw [Budget.estimate_le_iff, Text.length_intercalate_cons, List.map_cons, List.sum_cons,
        List.length_cons]
      simp only [charsPerToken] at hpiece hrest ⊢
      omega

/-! ## Key files -/

/-- A cut file of which nothing is shown but its head and the mark that it is cut. -/
def bareExcerpt (path : String) : String :=
  excerptHead path ++ ("\n" ++ cutMark ++ "\n```")

/-- A cut file keeps to what is left, unless its head and its mark alone take more. -/
theorem estimate_cutExcerpt_le (remaining : Int) (path text : String) :
    (estimate (cutExcerpt estimate remaining path text) : Int) ≤ remaining ∨
      cutExcerpt estimate remaining path text = bareExcerpt path ∧
        remaining < estimate (bareExcerpt path) := by
  obtain ⟨room, hroom⟩ : ∃ room, room =
    Budget.charsFor (remaining - estimate (bareExcerpt path)) := ⟨_, rfl⟩
  have hcut : cutExcerpt estimate remaining path text =
      excerptHead path ++ codeText (Text.take room text) ++ ("\n" ++ cutMark ++ "\n```") := by
    rw [hroom]
    rfl
  rw [hcut]
  by_cases hbare : (estimate (bareExcerpt path) : Int) ≤ remaining
  · left
    have hshown : (codeText (Text.take room text)).length ≤ room :=
      (length_codeText_le _).trans (by rw [Text.length_take]; exact Nat.min_le_left _ _)
    have hlength : (excerptHead path).length + ("\n" ++ cutMark ++ "\n```").length ≤
        charsPerToken * estimate (bareExcerpt path) := by
      rw [← String.length_append]
      exact Budget.length_le_estimate _
    have hle : estimate (excerptHead path ++ codeText (Text.take room text) ++
        ("\n" ++ cutMark ++ "\n```")) ≤ remaining.toNat := by
      rw [Budget.estimate_le_iff, String.length_append, String.length_append]
      rw [Budget.charsFor] at hroom
      simp only [charsPerToken] at hlength hroom ⊢
      omega
    omega
  · right
    have hnone : room = 0 := by
      rw [hroom, Budget.charsFor, Int.toNat_of_nonpos (by omega), Nat.mul_zero]
    refine ⟨?_, Int.not_le.mp hbare⟩
    have hempty : codeText (Text.take 0 text) = "" := rfl
    rw [hnone, hempty, String.append_empty, bareExcerpt]

/-- The last excerpt shows nothing of its file, since its head and its mark alone take more than the
others leave. -/
def Excerpts.EndsBare (x : Excerpts) (budget : Int) : Prop :=
  ∃ front path, x.pieces = front ++ [bareExcerpt path] ∧
    minCutTokens < budget - (front.map estimate).sum ∧
    budget - (front.map estimate).sum < estimate (bareExcerpt path)

/-- What excerpts take is counted excerpt by excerpt and kept within the share, but for the head of a
file that is cut. -/
theorem tokens_keyFiles {fs : FileSystem} {root : Path} {files patterns : List String}
    {budget : Int} (hbudget : 0 ≤ budget) {x : Excerpts}
    (h : keyFiles fs estimate root files patterns budget = .ok x) :
    x.tokens = (x.pieces.map estimate).sum ∧ ((x.tokens : Int) ≤ budget ∨ x.EndsBare budget) := by
  refine addExcerpts_induction
    (fun x ↦ x.tokens = (x.pieces.map estimate).sum ∧ (x.tokens : Int) ≤ budget)
    (fun x ↦ x.tokens = (x.pieces.map estimate).sum ∧
      ((x.tokens : Int) ≤ budget ∨ x.EndsBare budget))
    ⟨rfl, hbudget⟩ (fun x hx ↦ ⟨hx.1, .inl hx.2⟩) ?step ?last h
  case step =>
    rintro done path next - ⟨htokens, hwithin⟩ hoffered
    cases hoffered with
    | nothing pieces tokens => exact ⟨by rw [tokens, pieces, htokens], by rwa [tokens]⟩
    | whole text pieces tokens within =>
        exact ⟨by simp [tokens, pieces, htokens], within⟩
  case last =>
    rintro done path next - ⟨htokens, hwithin⟩ hoffered
    cases hoffered with
    | nothing pieces tokens => exact ⟨by rw [tokens, pieces, htokens], .inl (by rwa [tokens])⟩
    | whole text pieces tokens within =>
        exact ⟨by simp [tokens, pieces, htokens], .inl within⟩
    | cut text pieces tokens enough =>
        refine ⟨by simp [tokens, pieces, htokens], ?_⟩
        rcases estimate_cutExcerpt_le (budget - done.tokens) path text with hle | ⟨hbare, hover⟩
        · left
          rw [tokens]
          omega
        · right
          refine ⟨done.pieces, path, by rw [pieces, hbare], ?_, ?_⟩
          · rwa [← htokens]
          · rwa [← htokens]

/-! ## Notes -/

section Notes

variable (measure : Measure) {remaining : Int}

theorem foldr_cast_measure (notes : List Note) :
    ((notes.map fun note ↦ (measure note.text : Int)).foldr (· + ·) 0 : Int) =
      ((notes.map fun note ↦ measure note.text).sum : Nat) := by
  induction notes with
  | nil => rfl
  | cons note rest ih =>
      rw [List.map_cons, List.foldr_cons, ih, List.map_cons, List.sum_cons, Int.natCast_add]

theorem sum_untilFull_le (hremaining : 0 ≤ remaining) (notes : List Note) :
    (((untilFull measure remaining notes).map fun note ↦ measure note.text).sum : Nat) ≤
      remaining := by
  induction notes generalizing remaining with
  | nil => simpa [untilFull] using hremaining
  | cons note rest ih =>
      rw [untilFull]
      split
      · have hrest := @ih (remaining - measure note.text) (by omega)
        rw [List.map_cons, List.sum_cons, Int.natCast_add]
        omega
      · simpa using hremaining

theorem sum_thatFit_le (hremaining : 0 ≤ remaining) (notes : List Note) :
    (((thatFit measure remaining notes).map fun note ↦ measure note.text).sum : Nat) ≤
      remaining := by
  induction notes generalizing remaining with
  | nil => simpa [thatFit] using hremaining
  | cons note rest ih =>
      rw [thatFit]
      split
      · have hrest := @ih (remaining - measure note.text) (by omega)
        rw [List.map_cons, List.sum_cons, Int.natCast_add]
        omega
      · exact ih hremaining

theorem sum_generatedNotes_le (hremaining : 0 ≤ remaining) (profile : Profile)
    (outlines : List Outline.File) (files : List String) :
    (((generatedNotes measure profile outlines files remaining).map fun note ↦
      measure note.text).sum : Nat) ≤ remaining := by
  rw [generatedNotes]
  split
  · simpa using hremaining
  · exact sum_thatFit_le measure hremaining _

end Notes

/-- The notes of a section are shown with empty lines between them, and without these they keep within
the share. -/
theorem exists_notes_of_knowledge {fs : FileSystem} {measure : Measure} {root : Path} {dir : String}
    {budget : Int} (hbudget : 0 ≤ budget) {generate? : Option Sources} {content : String}
    {warnings : List String}
    (h : knowledge fs measure root dir budget generate? = .ok (content, warnings)) :
    ∃ notes : List Note, content = String.intercalate "\n\n" (notes.map Note.text) ∧
      ((notes.map fun note ↦ measure note.text).sum : Nat) ≤ budget := by
  rw [knowledge] at h
  obtain ⟨⟨notes, noteWarnings⟩, -, h⟩ := Steps.bind_eq_ok.mp h
  obtain ⟨rfl, -⟩ := Prod.mk.inj (Steps.pure_eq_ok.mp h)
  refine ⟨_, rfl, ?_⟩
  have hwritten := sum_untilFull_le measure hbudget notes
  rw [foldr_cast_measure, List.map_append, List.sum_append, Int.natCast_add]
  cases generate? with
  | none => simpa using hwritten
  | some s =>
      have hgenerated := sum_generatedNotes_le measure (Int.sub_nonneg.mpr hwritten)
        s.profile s.outlines s.files
      dsimp only
      omega

/-- A file whose text is not blank is a note. -/
theorem readNote_of_readText {fs : FileSystem} {dir : Path} {name text : String}
    (hread : fs.readText (dir.child name) = .ok text) (hblank : Text.allBlank text = false) :
    readNote fs dir name = (some ⟨Path.stemOf name, Text.strip text⟩, []) := by
  simp only [readNote, hread, hblank]
  rfl

/-! ## Sections -/

/-- The sections of the key files and of the notes exceed their shares by at most one token for every
two pieces, apart from the head of a file that is cut; the code map never exceeds its share. -/
theorem sections_nearly_fit {budget : Int} (hbudget : 0 ≤ budget) (fs : FileSystem) (root : Path) :
    (∀ files patterns x, keyFiles fs estimate root files patterns budget = .ok x →
      x.tokens = (x.pieces.map estimate).sum ∧
      ((x.tokens : Int) ≤ budget ∨ x.EndsBare budget) ∧
      estimate x.content ≤ x.tokens + x.pieces.length / 2) ∧
    (∀ dir generate? content warnings,
      knowledge fs estimate root dir budget generate? = .ok (content, warnings) →
      ∃ notes : List Note, content = String.intercalate "\n\n" (notes.map Note.text) ∧
        ((notes.map fun note ↦ estimate note.text).sum : Nat) ≤ budget ∧
        (estimate content : Int) ≤ budget + (notes.length / 2 : Nat)) ∧
    ∀ depth format files,
      (estimate (packCodeMap estimate depth format budget files).content : Int) ≤ budget := by
  refine ⟨fun files patterns x hfiles ↦ ?_, fun dir generate? content warnings hnotes ↦ ?_,
    fun depth format files ↦ ?_⟩
  · obtain ⟨htokens, hwithin⟩ := tokens_keyFiles hbudget hfiles
    refine ⟨htokens, hwithin, ?_⟩
    rw [htokens]
    exact estimate_separated_le x.pieces
  · obtain ⟨notes, hcontent, hwithin⟩ := exists_notes_of_knowledge hbudget hnotes
    refine ⟨notes, hcontent, hwithin, ?_⟩
    have hseparated := estimate_separated_le (notes.map Note.text)
    rw [← hcontent, List.map_map, List.length_map] at hseparated
    have hsum : (notes.map (estimate ∘ Note.text)).sum =
        (notes.map fun note ↦ estimate note.text).sum := rfl
    omega
  · have hmap : estimate (packCodeMap estimate depth format budget files).content ≤ budget.toNat :=
      tokens_packCodeMap_le depth format budget files
    omega

/-! ## A project with two notes -/

/-- Two files with the same text. -/
def noteEntries : List (String × Entry) :=
  [("a.md", .file "x\n\n\n".toUTF8), ("b.md", .file "x\n\n\n".toUTF8)]

/-- A file system with one project. -/
def twoNotes : FileSystem where
  entries := [("p", .directory noteEntries)]

theorem twoNotes_isStraight : twoNotes.IsStraight ⟨"/", ["p"]⟩ :=
  FileSystem.isStraight_of_at? (by decide) (by decide) rfl

theorem twoNotes_stat : twoNotes.stat ⟨"/", ["p"]⟩ = .ok (.directory noteEntries) :=
  twoNotes_isStraight.stat_eq (by decide) (by decide) rfl

section

variable {name : String} (hname : name ∈ ["a.md", "b.md"])
include hname

theorem twoNotes_stat_file :
    twoNotes.stat ⟨"/", ["p", name]⟩ = .ok (.file "x\n\n\n".toUTF8) := by
  obtain ⟨hclean, hdots, hlong, hshort, hat⟩ :
      (Path.mk "/" ["p", name]).IsClean ∧ (∀ part ∈ ["p", name], part ≠ "." ∧ part ≠ "..") ∧
      FileSystem.isOverlong ⟨"/", ["p", name]⟩ = false ∧
      (∀ part ∈ ["p", name], part.utf8ByteSize ≤ FileSystem.maxNameBytes) ∧
      twoNotes.at? ["p", name] = some (.file "x\n\n\n".toUTF8) := by
    simp only [List.mem_cons, List.not_mem_nil, or_false] at hname
    rcases hname with rfl | rfl <;> exact ⟨by decide, by decide, by decide, by decide, rfl⟩
  exact FileSystem.IsStraight.stat_eq ⟨hclean, .of_at? hdots hat rfl⟩ hlong hshort hat

theorem twoNotes_readText : twoNotes.readText ⟨"/", ["p", name]⟩ = .ok "x\n\n\n" := by
  rw [FileSystem.readText_of_stat rfl (twoNotes_stat_file hname)]
  exact congrArg _ (by decide +kernel)

theorem twoNotes_seek_file :
    twoNotes.seek (Path.child ⟨"/", ["p"]⟩ name) = .ok (some (.file "x\n\n\n".toUTF8)) := by
  refine FileSystem.seek_of_stat ?_ (twoNotes_stat_file hname)
  simp only [List.mem_cons, List.not_mem_nil, or_false] at hname
  rcases hname with rfl | rfl <;> decide

theorem readNote_twoNotes :
    readNote twoNotes ⟨"/", ["p"]⟩ name = (some ⟨Path.stemOf name, "x"⟩, []) := by
  have hread : twoNotes.readText (Path.child ⟨"/", ["p"]⟩ name) = .ok "x\n\n\n" :=
    twoNotes_readText hname
  have hstrip : Text.strip "x\n\n\n" = "x" := by decide +kernel
  rw [readNote_of_readText hread (by decide +kernel), hstrip]

end

theorem keyFiles_twoNotes :
    keyFiles twoNotes estimate ⟨"/", ["p"]⟩ ["a.md", "b.md"] ["*.md"] 12 = .ok
      { pieces := ["### a.md\n\n```md\nx\n\n\n\n```", "### b.md\n\n```md\nx\n\n\n\n```"]
        tokens := 12 } := by
  have hselect : Glob.select (some ["*.md"]) [] ["a.md", "b.md"] = ["a.md", "b.md"] := by
    decide +kernel
  have hjoin : (Path.mk "/" ["p"]).join (Path.ofText "a.md") = ⟨"/", ["p", "a.md"]⟩ ∧
      (Path.mk "/" ["p"]).join (Path.ofText "b.md") = ⟨"/", ["p", "b.md"]⟩ := by
    decide +kernel
  have hfirst : offer twoNotes estimate ⟨"/", ["p"]⟩ 12 {} "a.md" =
      .ok ({ pieces := ["### a.md\n\n```md\nx\n\n\n\n```"], tokens := 6 }, true) := by
    have hread := twoNotes_readText (List.mem_cons_self : "a.md" ∈ ["a.md", "b.md"])
    rw [← hjoin.1] at hread
    rw [offer_of_readText (by rw [hjoin.1]; decide) hread (by decide +kernel)]
    decide +kernel
  have hsecond : offer twoNotes estimate ⟨"/", ["p"]⟩ 12
      { pieces := ["### a.md\n\n```md\nx\n\n\n\n```"], tokens := 6 } "b.md" =
      .ok ({ pieces := ["### a.md\n\n```md\nx\n\n\n\n```", "### b.md\n\n```md\nx\n\n\n\n```"]
             tokens := 12 }, true) := by
    have hread := twoNotes_readText (by decide : "b.md" ∈ ["a.md", "b.md"])
    rw [← hjoin.2] at hread
    rw [offer_of_readText (by rw [hjoin.2]; decide) hread (by decide +kernel)]
    decide +kernel
  rw [keyFiles, hselect, addExcerpts, hfirst]
  dsimp only [bind, Except.bind]
  rw [if_pos rfl, addExcerpts, hsecond]
  rfl

theorem noteNames_twoNotes : noteNames twoNotes ⟨"/", ["p"]⟩ = .ok ["a.md", "b.md"] := by
  have ha := twoNotes_seek_file (List.mem_cons_self : "a.md" ∈ ["a.md", "b.md"])
  have hb := twoNotes_seek_file (by decide : "b.md" ∈ ["a.md", "b.md"])
  have hmarkdown : ["a.md", "b.md"].filter (Path.suffixOf · == ".md") = ["a.md", "b.md"] := by
    decide +kernel
  have hsorted : Text.sorted (["a.md", "b.md"].filter (Path.suffixOf · == ".md")) =
      ["a.md", "b.md"] := by
    rw [hmarkdown]
    exact List.mergeSort_of_pairwise (by decide)
  have hnames : twoNotes.namesIn ⟨"/", ["p"]⟩ = .ok ["a.md", "b.md"] := by
    rw [FileSystem.namesIn, FileSystem.entriesOf, twoNotes_stat]
    rfl
  rw [noteNames, hnames]
  simp only [bind, Except.bind, List.filterM, List.filterAuxM, ha, hb]
  exact congrArg Except.ok hsorted

theorem knowledge_twoNotes : knowledge twoNotes estimate ⟨"/", ["p"]⟩ "." 4 none =
    .ok ("### a\n\nx\n\n### b\n\nx", []) := by
  have hdir : (Path.mk "/" ["p"]).join (Path.ofText ".") = ⟨"/", ["p"]⟩ := by decide
  have hleads : leadsWithin twoNotes ⟨"/", ["p"]⟩ ⟨"/", ["p"]⟩ = .ok true := by
    rw [leadsWithin, twoNotes_isStraight.resolve_eq]
    rfl
  have hprobe : twoNotes.probe ⟨"/", ["p"]⟩ = .ok (some (.directory noteEntries)) :=
    FileSystem.probe_of_stat rfl (by decide) twoNotes_stat
  have hwritten :
      writtenNotes twoNotes ⟨"/", ["p"]⟩ "." = .ok ([⟨"a", "x"⟩, ⟨"b", "x"⟩], []) := by
    rw [writtenNotes]
    dsimp only
    rw [hdir, hleads]
    dsimp only [bind, Except.bind]
    rw [hprobe, noteNames_twoNotes]
    dsimp only [List.map]
    rw [readNote_twoNotes (by decide), readNote_twoNotes (by decide)]
    decide +kernel
  rw [knowledge, hwritten]
  decide +kernel

/-- Two pieces that fill a share exactly exceed it together with the empty line between them. -/
theorem sections_nearly_fit_two :
    (∃ x, keyFiles twoNotes estimate ⟨"/", ["p"]⟩ ["a.md", "b.md"] ["*.md"] 12 = .ok x ∧
      x.tokens = 12 ∧ estimate x.content = 13 ∧
      estimate x.content ≤ x.tokens + x.pieces.length / 2) ∧
    ∃ content, knowledge twoNotes estimate ⟨"/", ["p"]⟩ "." 4 none = .ok (content, []) ∧
      estimate content = 5 ∧
      ∃ notes : List Note, content = String.intercalate "\n\n" (notes.map Note.text) ∧
        (estimate content : Int) ≤ 4 + (notes.length / 2 : Nat) := by
  obtain ⟨hfiles, -, -⟩ := sections_nearly_fit (by decide : (0 : Int) ≤ 12) twoNotes ⟨"/", ["p"]⟩
  obtain ⟨-, hnotes, -⟩ := sections_nearly_fit (by decide : (0 : Int) ≤ 4) twoNotes ⟨"/", ["p"]⟩
  obtain ⟨-, -, hexcerpts⟩ := hfiles _ _ _ keyFiles_twoNotes
  obtain ⟨notes, hcontent, -, hsection⟩ := hnotes _ _ _ _ knowledge_twoNotes
  exact ⟨⟨_, keyFiles_twoNotes, rfl, by decide +kernel, hexcerpts⟩,
    _, knowledge_twoNotes, by decide +kernel, notes, hcontent, hsection⟩

end Dossier.Document

import Dossier.Document.Overview
import Dossier.Proofs.Document.CodeMap
import Dossier.Proofs.Document.Excerpts
import Dossier.Proofs.Document.Fences
import Dossier.Proofs.Profile.Unbroken
import Dossier.Proofs.Text.Length
import Mathlib.Algebra.Ring.Parity

/-!
# Contents that close their fences

As long as paths stay on their lines, the overview has no fences, and every excerpt and every entry of
the code map opens one fence and closes it. A content that is made of such parts opens as many fences
as it closes, until it is cut; a cut inside an excerpt leaves the fence of the excerpt open.
-/

namespace Dossier

/-! ## Parts of a path -/

namespace Path

theorem nameOf_subset (path : String) : (nameOf path).toList ⊆ path.toList := by
  rw [nameOf, name, List.getLastD_eq_getLast?]
  cases hlast : (ofText path).parts.getLast? with
  | none => simp
  | some last =>
      have hpart : last ∈ Text.split '/' path := List.mem_of_mem_filter (List.mem_of_getLast? hlast)
      obtain ⟨piece, hpiece, rfl⟩ := List.mem_map.mp hpart
      rw [Option.getD_some, String.toList_ofList]
      exact (Text.isInfix_of_mem_splitChars hpiece).subset

theorem suffixOf_subset (name : String) : (suffixOf name).toList ⊆ name.toList := by
  rw [suffixOf, Text.drop, String.toList_ofList]
  exact List.drop_subset ..

end Path

theorem Text.trimStart_subset (p : Char → Bool) (s : String) :
    (trimStart p s).toList ⊆ s.toList := by
  rw [Text.trimStart, String.toList_ofList]
  exact (List.dropWhile_suffix p).subset

namespace Document

open Outline (File)

variable {measure : Measure}

/-! ## Key files -/

/-- What stands behind the opening fence of an excerpt. -/
def infoOf (path : String) : String :=
  Text.trimStart (· == '.') (Path.suffixOf (Path.nameOf path))

theorem infoOf_subset (path : String) : (infoOf path).toList ⊆ path.toList :=
  List.Subset.trans (Text.trimStart_subset ..)
    (List.Subset.trans (Path.suffixOf_subset _) (Path.nameOf_subset path))

theorem oneLine_infoOf {path : String} (h : Text.OneLine path) : Text.OneLine (infoOf path) :=
  fun hfeed ↦ h (infoOf_subset path hfeed)

/-- A title below a section, an empty line and a text. -/
theorem fenceLines_below {title : String} (h : Text.OneLine title) (s : String) :
    fenceLines ("### " ++ title ++ "\n" ++ s) = fenceLines s := by
  have hhead : fenceLines ("### " ++ title) = 0 := by
    refine fenceLines_of_head (.append (by decide) h) ?_
    simp
  rw [fenceLines_append, hhead, Nat.zero_add]

/-- A head stands on three lines, and the text begins on the fourth. -/
theorem excerptHead_append (path s : String) : excerptHead path ++ s =
    "### " ++ path ++ "\n" ++ ("" ++ "\n" ++ ("```" ++ infoOf path ++ "\n" ++ s)) :=
  String.toList_inj.mp (by simp [excerptHead, infoOf])

theorem excerptHead_between (path s : String) : excerptHead path ++ s ++ "\n```" =
    "### " ++ path ++ "\n" ++ ("" ++ "\n" ++ ("```" ++ infoOf path ++ "\n" ++ s ++ "\n```")) := by
  rw [String.append_assoc, excerptHead_append]
  simp only [String.append_assoc]

theorem fenceLines_excerptHead {path s : String} (hpath : Text.OneLine path)
    (hs : fenceLines s = 0) : fenceLines (excerptHead path ++ s ++ "\n```") = 2 := by
  rw [excerptHead_between, fenceLines_below hpath, fenceLines_append,
    fenceLines_between (oneLine_infoOf hpath) hs]
  rfl

theorem fenceLines_excerpt {path : String} (h : Text.OneLine path) (text : String) :
    fenceLines (excerpt path text) = 2 :=
  fenceLines_excerptHead h (fenceLines_codeText text)

theorem fenceLines_cutExcerpt {path : String} (h : Text.OneLine path) (remaining : Int)
    (text : String) : fenceLines (cutExcerpt measure remaining path text) = 2 := by
  have hcut (room : Nat) :
      fenceLines (codeText (Text.take room text) ++ "\n" ++ cutMark) = 0 := by
    rw [fenceLines_append, fenceLines_codeText]
    rfl
  rw [cutExcerpt]
  simpa [String.append_assoc] using fenceLines_excerptHead h (hcut _)

theorem IsExcerpt.fenceLines_eq {path piece : String} (h : IsExcerpt measure path piece)
    (hpath : Text.OneLine path) : fenceLines piece = 2 := by
  cases h with
  | whole text => exact fenceLines_excerpt hpath text
  | cut remaining text => exact fenceLines_cutExcerpt hpath remaining text

/-- Parts that close their fences, with empty lines between them. -/
theorem even_fenceLines_intercalate {pieces : List String}
    (h : ∀ piece ∈ pieces, Even (fenceLines piece)) :
    Even (fenceLines (String.intercalate "\n\n" pieces)) := by
  induction pieces with
  | nil => decide
  | cons piece rest ih =>
      obtain ⟨hpiece, hrest⟩ := List.forall_mem_cons.mp h
      cases rest with
      | nil => simpa using hpiece
      | cons next rest =>
          have hfeeds : piece ++ "\n\n" ++ String.intercalate "\n\n" (next :: rest) =
              piece ++ "\n" ++ ("" ++ "\n" ++ String.intercalate "\n\n" (next :: rest)) :=
            String.toList_inj.mp (by simp)
          rw [String.intercalate_cons_cons, hfeeds, fenceLines_append, fenceLines_append]
          exact hpiece.add ((Even.zero).add (ih hrest))

/-- The key files close their fences. -/
theorem even_fenceLines_keyFiles {fs : FileSystem} {root : Path} {budget : Int}
    {files patterns : List String} {excerpts : Excerpts}
    (hfiles : ∀ path ∈ files, Text.OneLine path)
    (h : keyFiles fs measure root files patterns budget = .ok excerpts) :
    Even (fenceLines excerpts.content) := by
  refine even_fenceLines_intercalate fun piece hpiece ↦ ?_
  obtain ⟨path, hpath, hexcerpt⟩ := exists_isExcerpt_of_keyFiles h piece hpiece
  rw [hexcerpt.fenceLines_eq (hfiles path hpath)]
  exact even_two

/-- A cut inside the text of an excerpt leaves its fence open. -/
theorem fenceLines_cutToFit_inside {above path text : String} (hpath : Text.OneLine path)
    {budget : Int} (hover : budget < measure (above ++ "\n\n" ++ excerpt path text)) {k : Nat}
    (hk : k ≤ (codeText text).length)
    (hroom : Budget.charsFor budget - ("\n" ++ cutMark).length =
      (above ++ "\n\n" ++ excerptHead path).length + k) :
    fenceLines (cutToFit measure budget (above ++ "\n\n" ++ excerpt path text)) =
      fenceLines above + 1 := by
  have hne : Budget.charsFor budget - ("\n" ++ cutMark).length ≠ 0 := by
    rw [hroom]
    simp [excerptHead]
  have htake : Text.take (Budget.charsFor budget - ("\n" ++ cutMark).length)
      (above ++ "\n\n" ++ excerpt path text) =
        above ++ "\n\n" ++ excerptHead path ++ Text.take k (codeText text) := by
    have hparts : above ++ "\n\n" ++ excerpt path text =
        above ++ "\n\n" ++ excerptHead path ++ (codeText text ++ "\n```") := by
      simp [excerpt, String.append_assoc]
    rw [hroom, hparts, Text.take_length_add_append _ _ _ hk]
  have hcut : fenceLines (Text.take k (codeText text)) = 0 :=
    Nat.le_zero.mp ((fenceLines_take_le k _).trans_eq (fenceLines_codeText text))
  have hlines : above ++ "\n\n" ++ excerptHead path ++ Text.take k (codeText text) ++
      ("\n" ++ cutMark) = above ++ "\n" ++ ("" ++ "\n" ++
        (excerptHead path ++ (Text.take k (codeText text) ++ "\n" ++ cutMark))) :=
    String.toList_inj.mp (by simp)
  rw [cutToFit, if_neg (Int.not_le.mpr hover)]
  dsimp only
  rw [if_neg hne, htake, hlines, fenceLines_append, fenceLines_append, excerptHead_append,
    fenceLines_below hpath, fenceLines_append, fenceLines_append,
    fenceLines_opening (oneLine_infoOf hpath), fenceLines_append, hcut]
  rfl

example : fenceLines (cutToFit Budget.estimate 11
    (excerpt "a" "x" ++ "\n\n" ++ excerpt "b" "0123456789abc")) = 3 := by
  decide +kernel

/-! ## The code map -/

theorem fenceLines_mapEntry {x : Listed} (hpath : Text.OneLine x.file.path)
    (hlanguage : Text.OneLine x.file.language) (format : MapFormat) (fold : Bool) :
    fenceLines (mapEntry format fold x) = 2 := by
  rw [mapEntry, fenceLines_below hpath, fenceLines_fenced hlanguage]

/-- The code map closes its fences. -/
theorem even_fenceLines_packCodeMap {files : List File}
    (hfiles : ∀ file ∈ files, Text.OneLine file.path ∧ Text.OneLine file.language) (depth : Depth)
    (format : MapFormat) (budget : Int) :
    Even (fenceLines (packCodeMap measure depth format budget files).content) := by
  obtain ⟨placed, haccounts⟩ := packCodeMap_accounts measure depth format budget files
  rw [haccounts.content]
  refine even_fenceLines_intercalate fun piece hpiece ↦ ?_
  obtain ⟨p, hp, rfl⟩ := List.mem_map.mp hpiece
  have hlisted : p.listed ∈ prioritize depth files := by
    rw [← haccounts.listed]
    exact List.mem_map_of_mem (List.mem_of_mem_filter hp)
  obtain ⟨hpath, hlanguage⟩ := hfiles _ (mem_prioritize_iff.mp hlisted).1
  rw [Placed.entry, fenceLines_mapEntry hpath hlanguage]
  exact even_two

/-! ## The overview -/

/-- A line about something: it does not end early, and it begins like an item of a list. -/
structure IsItem (line : String) : Prop where
  oneLine : Text.OneLine line
  begins : line.toList.head? = some '-' ∨ line.toList.head? = some ' '

theorem IsItem.fenceLines_eq {line : String} (h : IsItem line) : fenceLines line = 0 := by
  refine fenceLines_of_head h.oneLine fun htick ↦ ?_
  rcases h.begins with hdash | hblank <;> simp_all

theorem isItem_workspaceLine {w : Workspace} (h : w.Unbroken) : IsItem (workspaceLine w) := by
  have hpath : Text.OneLine ("  - `" ++ w.path ++ "`") :=
    .append (.append (by decide) h.path) (by decide)
  have hline : Text.OneLine (workspaceLine w) := by
    refine .append (.append (.append hpath ?name) ?runtime) ?description
    case name =>
      split
      · decide
      · exact .append (.append (by decide) (oneLine_heading _)) (by decide)
    case runtime =>
      split
      · next runtime hsome =>
        have hruntime := h.runtime runtime (Option.filter_eq_some_iff.mp hsome).1
        exact .append (.append (by decide) hruntime) (by decide)
      · decide
    case description =>
      split
      · exact .append (by decide) (oneLine_heading _)
      · decide
  exact ⟨hline, .inr (by simp [workspaceLine])⟩

theorem oneLine_languagesText {languages : List (String × Int)}
    (h : ∀ x ∈ languages, Text.OneLine x.1) : Text.OneLine (languagesText languages) := by
  refine .intercalate (by decide) fun s hs ↦ ?_
  obtain ⟨⟨name, n⟩, hx, rfl⟩ := List.mem_map.mp hs
  have hname := h _ (List.mem_mergeSort.mp hx)
  exact .append (.append (hname.append (by decide)) (Text.oneLine_ofInt n)) (by decide)

/-- A label and what stands behind it on the line. -/
theorem isItem_labelled {s : String} (label : String)
    (hlabel : Text.OneLine label ∧ label.toList.head? = some '-') (hs : Text.OneLine s) :
    IsItem (label ++ s) := by
  refine ⟨hlabel.1.append hs, .inl ?_⟩
  rw [String.toList_append, List.head?_append, hlabel.2]
  rfl

theorem isItem_of_mem_itemsLine {label : String} (hlabel : Text.OneLine label)
    {items : List String} (h : ∀ s ∈ items, Text.OneLine s) :
    ∀ line ∈ itemsLine label items, IsItem line := by
  rw [itemsLine]
  split
  · simp
  · refine List.forall_mem_singleton.mpr ⟨?_, .inl (by simp)⟩
    exact .append (.append (.append (by decide) hlabel) (by decide)) (.intercalate (by decide) h)

/-- The lines above the list: the description as a title, and an empty line. -/
def descriptionLines (profile : Profile) : List String :=
  match profile.description.filter (· != "") with
  | some description => [heading description, ""]
  | none => []

/-- An overview is a description above a list. -/
theorem overviewLines_eq {profile : Profile} (h : profile.Unbroken)
    {languages : List (String × Int)} (hlanguages : ∀ x ∈ languages, Text.OneLine x.1) :
    ∃ items, overviewLines profile languages = descriptionLines profile ++ items ∧
      items ≠ [] ∧ ∀ line ∈ items, IsItem line := by
  simp only [overviewLines, List.append_assoc]
  refine ⟨_, rfl, by simp, ?_⟩
  simp only [List.forall_mem_append]
  refine ⟨?runtime, ?languages, ?frameworks, ?tooling, ?monorepo⟩
  case runtime => exact List.forall_mem_singleton.mpr (isItem_labelled _ (by decide) h.runtime)
  case languages =>
    split
    · simp
    · exact List.forall_mem_singleton.mpr
        (isItem_labelled _ (by decide) (oneLine_languagesText hlanguages))
  case frameworks => exact isItem_of_mem_itemsLine (by decide) h.frameworks
  case tooling => exact isItem_of_mem_itemsLine (by decide) h.tooling
  case monorepo =>
    split
    · next monorepo hmonorepo =>
      have htool := h.tool monorepo hmonorepo
      have hworkspaces := h.workspaces monorepo hmonorepo
      refine List.forall_mem_cons.mpr ⟨isItem_labelled _ (by decide) htool, ?_⟩
      refine List.forall_mem_cons.mpr ⟨⟨by decide, .inl rfl⟩, List.forall_mem_map.mpr fun w hw ↦ ?_⟩
      exact isItem_workspaceLine (hworkspaces w hw)
    · simp

/-- The overview has no fences. -/
theorem fenceLines_overview {profile : Profile} (h : profile.Unbroken)
    {languages : List (String × Int)} (hlanguages : ∀ x ∈ languages, Text.OneLine x.1) :
    fenceLines (overview profile languages) = 0 := by
  obtain ⟨items, hlines, -, hitems⟩ := overviewLines_eq h hlanguages
  have hall : ∀ line ∈ descriptionLines profile ++ items, fenceLines line = 0 := by
    refine List.forall_mem_append.mpr ⟨?_, fun line hline ↦ (hitems line hline).fenceLines_eq⟩
    rw [descriptionLines]
    split
    · next description _ =>
      exact List.forall_mem_cons.mpr ⟨fenceLines_eq_zero (fenceFree_heading description), by decide⟩
    · simp
  rw [overview, hlines, fenceLines_joinLines]
  refine List.sum_eq_zero fun n hn ↦ ?_
  obtain ⟨line, hline, rfl⟩ := List.mem_map.mp hn
  exact hall line hline

end Document

end Dossier

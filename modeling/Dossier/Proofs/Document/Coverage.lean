import Dossier.Proofs.Document.Sections
import Dossier.Proofs.Inventory
import Mathlib.Data.List.Nodup

/-!
# Which files a document accounts for

The code map of a document is the one that was built last. Every file that was outlined and has
something to show stands there with its entry, or the document names it among the files left out.
-/

namespace Dossier.Document

open Budget (Shares Tokenizer estimate)
open Outline (File)

/-! ## The content on a topic -/

/-- The content of the section on a topic, or nothing if there is no such section. -/
def Compiled.contentOn (compiled : Compiled) (topic : Topic) : String :=
  ((compiled.sections.find? (·.1.id == topic.id)).map (·.1.content)).getD ""

theorem Topic.id_inj {a b : Topic} (h : a.id = b.id) : a = b := by
  cases a <;> cases b <;> first
    | rfl
    | exact absurd h (by decide)

theorem find?_shown (content : Topic → String) (topic : Topic) :
    (Topic.all.filter fun t ↦ content t ≠ "").find? (·.id == topic.id) =
      if content topic = "" then none else some topic := by
  have hkeep : (fun t : Topic ↦ decide (decide (content t ≠ "") = true ∧ (t.id == topic.id) = true))
      = fun t ↦ decide (t = topic) && decide (content topic ≠ "") := by
    funext t
    by_cases ht : t = topic
    · subst ht
      simp
    · have hid : t.id ≠ topic.id := fun h ↦ ht (Topic.id_inj h)
      simp [ht, hid]
  rw [List.find?_filter, hkeep]
  by_cases hempty : content topic = ""
  · simp [hempty]
  · simp only [hempty, ne_eq, not_false_eq_true, decide_true, Bool.and_true, if_false]
    cases topic <;> decide

theorem contentOn_of_sections_eq {compiled : Compiled} {measure : Measure} {shares : Shares Topic}
    {contents : Contents} {codeMap : String}
    (h : compiled.sections = sectionsOf measure shares contents codeMap) (topic : Topic) :
    compiled.contentOn topic = settled measure shares contents codeMap topic := by
  have hfind := find?_shown (settled measure shares contents codeMap) topic
  rw [Compiled.contentOn, h, sectionsOf_eq, List.find?_map]
  have hid : ((fun s : Section × Nat ↦ s.1.id == topic.id) ∘ fun t ↦
      (Section.about t (settled measure shares contents codeMap t),
        measure (settled measure shares contents codeMap t))) = fun t ↦ t.id == topic.id := rfl
  rw [hid, hfind]
  split
  · next hempty => exact hempty.symm
  · rfl

/-! ## Runs -/

/-- A document shows or names all files that have something to show. -/
structure Covers (compiled : Compiled) (settings : Settings) (files : List File)
    (placed : List Placed) : Prop where
  listed : placed.map (·.listed) = prioritize settings.depth files
  content : compiled.contentOn .codeMap = String.intercalate mapSeparator
    ((placed.filter (·.isIncluded)).map (·.entry settings.format))
  truncated : compiled.truncated = (placed.filter (!·.isIncluded)).map (·.listed.file.path)
  /-- A file is on the map, or it is named as left out, and not both. -/
  once : ∀ file ∈ files, selectEntries settings.depth file ≠ [] →
    Xor (∃ p ∈ placed, p.isIncluded ∧ p.listed = ⟨file, selectEntries settings.depth file⟩)
      (file.path ∈ compiled.truncated)

theorem Covers.withRemarks {compiled : Compiled} {settings : Settings} {files : List File}
    {placed : List Placed} (h : Covers compiled settings files placed) (r : Remarks) :
    Covers (compiled.withRemarks r) settings files placed :=
  ⟨h.listed, h.content, h.truncated, h.once⟩

/-- The map that is shown is packed within its first share or within its revised one, whichever is
larger. -/
theorem lastMap_eq (measure : Measure) (budget : Int) (settings : Settings) (found : Findings)
    (contents : Contents) :
    lastMap measure budget settings found contents = codeMapOf measure settings found
      (max ((split measure found.profile.name budget).get .codeMap)
        ((revisedShares measure budget settings found contents).get .codeMap)) := by
  rw [lastMap, repacked]
  split
  · rename_i hgrown
    rw [max_eq_right hgrown.le]
  · rename_i hsame
    rw [max_eq_left (Int.le_of_not_gt hsame), firstMap]

theorem exists_share_lastMap (measure : Measure) (budget : Int) (settings : Settings)
    (found : Findings) (contents : Contents) :
    ∃ share, lastMap measure budget settings found contents =
      codeMapOf measure settings found share :=
  ⟨_, lastMap_eq measure budget settings found contents⟩

/-- No file is lost: of all decisions about the files exactly the ones that leave a file out are
named. -/
theorem xor_included_truncated {files : List File} {depth : Depth} {placed : List Placed}
    (hlisted : placed.map (·.listed) = prioritize depth files)
    (hnodup : (files.map (·.path)).Nodup) {file : File} (hfile : file ∈ files)
    (hshown : selectEntries depth file ≠ []) :
    Xor (∃ p ∈ placed, p.isIncluded ∧ p.listed = ⟨file, selectEntries depth file⟩)
      (file.path ∈ (placed.filter (!·.isIncluded)).map (·.listed.file.path)) := by
  have hpaths : (placed.map (·.listed.file.path)).Nodup := by
    have hshown : ((prioritize depth files).map (·.file.path)).Nodup :=
      nodup_paths_prioritize hnodup
    rwa [← hlisted, List.map_map] at hshown
  obtain ⟨p, hp, hpfile⟩ : ∃ p ∈ placed, p.listed = ⟨file, selectEntries depth file⟩ := by
    have hmem : (⟨file, selectEntries depth file⟩ : Listed) ∈ placed.map (·.listed) := by
      rw [hlisted]
      exact mem_prioritize_iff.mpr ⟨hfile, rfl, hshown⟩
    exact List.mem_map.mp hmem
  cases hin : p.isIncluded with
  | true =>
      refine .inl ⟨⟨p, hp, hin, hpfile⟩, fun hout ↦ ?_⟩
      obtain ⟨q, hq, hpath⟩ := List.mem_map.mp hout
      obtain ⟨hq, hqout⟩ := List.mem_filter.mp hq
      have heq : q = p := List.inj_on_of_nodup_map hpaths hq hp (by rw [hpath, hpfile])
      simp [heq, hin] at hqout
  | false =>
      refine .inr ⟨?_, ?_⟩
      · exact List.mem_map.mpr ⟨p, List.mem_filter.mpr ⟨hp, by simp [hin]⟩, by rw [hpfile]⟩
      · rintro ⟨q, hq, hqin, hqfile⟩
        have heq : q = p := List.inj_on_of_nodup_map hpaths hq hp (by rw [hqfile, hpfile])
        simp [heq, hin] at hqin

theorem finish_covers (measure : Measure) (budget : Int) (settings : Settings) (found : Findings)
    (contents : Contents) (hnodup : (found.outlines.map (·.path)).Nodup) :
    ∃ placed, Covers (finish measure settings budget found contents) settings found.outlines
      placed := by
  obtain ⟨share, hshare⟩ := exists_share_lastMap measure budget settings found contents
  obtain ⟨placed, haccounts⟩ := packCodeMap_accounts measure settings.depth settings.format share
    found.outlines
  rw [← codeMapOf, ← hshare] at haccounts
  refine ⟨placed, haccounts.listed, ?_, haccounts.truncated, fun file hfile hshown ↦ ?_⟩
  · rw [← haccounts.content]
    exact contentOn_of_sections_eq (by rw [finish_eq]) .codeMap
  · rw [finish_eq]
    dsimp only
    rw [haccounts.truncated]
    exact xor_included_truncated haccounts.listed hnodup hfile hshown

/-- The outlines of a project have different paths. -/
theorem nodup_outlines {fs : FileSystem} {services : Services} {request : Request} {root : Path}
    {settings : Settings} {notices : List String} {found : Findings} {known : Option Profile}
    (hfs : fs.WellFormed) (hprepare : prepare services.yaml fs request.root = .ok (root, settings, notices))
    (hsurvey : survey fs services root settings known = .ok found) :
    (found.outlines.map (·.path)).Nodup := by
  obtain ⟨hroot, -, -⟩ := prepare_ok hprepare
  obtain ⟨-, inventory, warnings, progress, htake, -, hsources, hcollect⟩ := survey_ok hsurvey
  have hsublist : found.sources.Sublist inventory.files := by
    rw [hsources, Inventory.sources]
    exact List.filter_sublist
  exact Outline.nodup_paths_of_collect (isAbsolute_of_resolve hroot)
    ((Inventory.nodup_files htake).sublist hsublist)
    (fun path hpath ↦ Inventory.isNamed_of_mem_files hfs htake path (hsublist.subset hpath))
    hcollect

/-- No file is lost from the code map without a word: packing decides about every file with
something to show, in the order of rank, and tells which ones are left out; and in a run this holds
of the map that the document shows. -/
theorem files_accounted_for :
    (∀ (measure : Measure) (depth : Depth) (format : MapFormat) (budget : Int) (files : List File),
      let m := packCodeMap measure depth format budget files
      let paths := (prioritize depth files).map (·.file.path)
      (∃ placed, m.Accounts format (prioritize depth files) placed) ∧
        (m.included ++ m.truncated).Perm paths ∧ m.included.Sublist paths ∧
        m.truncated.Sublist paths ∧ m.collapsed.Sublist m.included) ∧
      (∀ (depth : Depth) (format : MapFormat) (budget : Int) (files : List File),
        ((packCodeMap estimate depth format budget files).tokens : Int) ≤ max 0 budget) ∧
      ∀ {fs fs' : FileSystem} {services : Services} {t t' : Tokenizer} {request : Request}
        {compiled : Compiled}, fs.WellFormed →
        compile fs services t request = (.ok (compiled, fs'), t') →
        ∃ root settings notices found placed,
          prepare services.yaml fs request.root = .ok (root, settings, notices) ∧
            survey fs services root settings request.profile = .ok found ∧
            Covers compiled settings found.outlines placed := by
  refine ⟨fun measure depth format budget files ↦ ?accounts, fun depth format budget files ↦ ?tokens,
    fun hfs hrun ↦ ?run⟩
  case accounts =>
    obtain ⟨placed, haccounts⟩ := packCodeMap_accounts measure depth format budget files
    exact ⟨⟨placed, haccounts⟩, haccounts.perm, haccounts.included_sublist,
      haccounts.truncated_sublist, haccounts.collapsed_sublist⟩
  case tokens =>
    have hle := tokens_packCodeMap_le depth format budget files
    omega
  case run =>
    obtain ⟨-, root, settings, notices, found, contents, remarks, hprepare, hsurvey, -, rfl⟩ :=
      compile_ok hrun
    obtain ⟨placed, hcovers⟩ := finish_covers _ _ settings found contents
      (nodup_outlines hfs hprepare hsurvey)
    exact ⟨root, settings, notices, found, placed, hprepare, hsurvey, hcovers.withRemarks remarks⟩

theorem files_accounted_for_source : ∃ compiled t' settings files placed,
    compile (projectWith "run.go" goSource) bareServices {} (dryRequest (some { name := "p" })) =
      (.ok (compiled, projectWith "run.go" goSource), t') ∧
    Covers compiled settings files placed := by
  obtain ⟨compiled, t', hrun⟩ := source_returns { name := "p" }
  obtain ⟨root, settings, notices, found, placed, -, -, h⟩ := files_accounted_for.2.2
    source_wellFormed hrun
  exact ⟨compiled, t', settings, found.outlines, placed, hrun, h⟩

end Dossier.Document

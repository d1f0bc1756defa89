import Dossier.Proofs.Document.CodeMap
import Dossier.Proofs.Document.Returns
import Dossier.Proofs.Outline.Collected
import Mathlib.Data.List.Nodup

/-!
# The rank of a file

Files are ranked by their tier and then by their path. With different paths no two files have the
same rank, so the code map does not depend on the order in which the files are given. Neither does
what is outlined, so that the order of extraction shows nowhere but in the order of warnings.
-/

namespace Dossier.Document

open Outline (File SameButOrder SourceHazard collect)
open Steps

theorem Listed.notAfter_iff {x y : Listed} : x.notAfter y = true ↔
    x.tier.rank < y.tier.rank ∨ x.tier.rank = y.tier.rank ∧ x.file.path ≤ y.file.path := by
  rw [Listed.notAfter, Bool.or_eq_true, Bool.and_eq_true, decide_eq_true_eq, beq_iff_eq,
    Text.notAfter_iff]

theorem Listed.notAfter_trans (x y z : Listed) (hxy : x.notAfter y = true)
    (hyz : y.notAfter z = true) : x.notAfter z = true := by
  rw [Listed.notAfter_iff] at hxy hyz ⊢
  rcases hxy with hxy | ⟨hxy, hpath⟩
  · left
    rcases hyz with hyz | ⟨hyz, -⟩ <;> omega
  · rcases hyz with hyz | ⟨hyz, hpath'⟩
    · left
      omega
    · exact .inr ⟨hxy.trans hyz, hpath.trans hpath'⟩

theorem Listed.notAfter_total (x y : Listed) : (x.notAfter y || y.notAfter x) = true := by
  rw [Bool.or_eq_true, Listed.notAfter_iff, Listed.notAfter_iff]
  rcases lt_trichotomy x.tier.rank y.tier.rank with h | h | h
  · exact .inl (.inl h)
  · rcases le_total x.file.path y.file.path with hpath | hpath
    · exact .inl (.inr ⟨h, hpath⟩)
    · exact .inr (.inr ⟨h.symm, hpath⟩)
  · exact .inr (.inl h)

/-- Two files with one rank have one path. -/
theorem Listed.path_eq_of_notAfter {x y : Listed} (hxy : x.notAfter y = true)
    (hyx : y.notAfter x = true) : x.file.path = y.file.path := by
  rw [Listed.notAfter_iff] at hxy hyx
  rcases hxy with hxy | ⟨hxy, hle⟩
  · rcases hyx with hyx | ⟨hyx, -⟩ <;> omega
  · rcases hyx with hyx | ⟨-, hge⟩
    · omega
    · exact le_antisymm hle hge

theorem prioritize_perm {depth : Depth} {files files' : List File}
    (hnodup : (files.map (·.path)).Nodup) (h : files.Perm files') :
    prioritize depth files = prioritize depth files' := by
  rw [prioritize, prioritize]
  apply mergeSort_eq_of_perm Listed.notAfter_trans Listed.notAfter_total
    ((h.map _).filter _)
  intro x hx y hy hxy hyx
  obtain ⟨file, hfile, rfl⟩ := List.mem_map.mp (List.mem_of_mem_filter hx)
  obtain ⟨other, hother, rfl⟩ := List.mem_map.mp (List.mem_of_mem_filter hy)
  have hsame : file = other :=
    List.inj_on_of_nodup_map hnodup hfile hother (Listed.path_eq_of_notAfter hxy hyx)
  rw [hsame]

/-- Files that stand in the order of their rank already, all with something to show. -/
theorem prioritize_of_pairwise {depth : Depth} {files : List File}
    (hrank : (files.map fun file ↦ (⟨file, selectEntries depth file⟩ : Listed)).Pairwise
      fun x y ↦ x.notAfter y = true)
    (hshown : ∀ file ∈ files, selectEntries depth file ≠ []) :
    prioritize depth files = files.map fun file ↦ ⟨file, selectEntries depth file⟩ := by
  have hfilter : (files.map fun file ↦ (⟨file, selectEntries depth file⟩ : Listed)).filter
      (fun x ↦ !x.entries.isEmpty) =
        files.map fun file ↦ ⟨file, selectEntries depth file⟩ := by
    apply List.filter_eq_self.mpr
    intro x hx
    obtain ⟨file, hfile, rfl⟩ := List.mem_map.mp hx
    simpa using hshown file hfile
  rw [prioritize, hfilter]
  exact List.mergeSort_of_pairwise hrank

theorem packCodeMap_perm (measure : Measure) (depth : Depth) (format : MapFormat) (budget : Int)
    {files files' : List File} (hnodup : (files.map (·.path)).Nodup) (h : files.Perm files') :
    packCodeMap measure depth format budget files =
      packCodeMap measure depth format budget files' := by
  rw [packCodeMap, packCodeMap, prioritize_perm hnodup h]

/-- The order of extraction does not matter. Files with paths in normal form are outlined exactly if none
of them ends the run, and in whatever order they are given the outlines are the same, and so are the
warnings but for their order, with what is said about all files at the end. Outlines under different
paths make the same map in whatever order they are given. -/
theorem extraction_order_immaterial (fs : FileSystem) (parse : Parser) {root : Path}
    (hroot : root.isAbsolute = true) (hclean : root.IsClean) :
    (∀ paths paths' : List String, (∀ path ∈ paths, IsNormal path) → paths.Perm paths' →
      (Fails (collect fs parse root paths) ↔
        ∃ path ∈ paths, SourceHazard fs parse (root.join (Path.ofText path))) ∧
      Together SameButOrder (collect fs parse root paths) (collect fs parse root paths')) ∧
    ∀ (measure : Measure) (depth : Depth) (format : MapFormat) (budget : Int)
      (files files' : List File), (files.map (·.path)).Nodup → files.Perm files' →
        packCodeMap measure depth format budget files =
          packCodeMap measure depth format budget files' := by
  constructor
  · intro paths paths' hpaths hperm
    exact ⟨Outline.fails_collect hroot hclean hpaths, Outline.collect_perm hroot hperm⟩
  · intro measure depth format budget files files'
    exact packCodeMap_perm measure depth format budget

/-- A file with one function. -/
def fileWith (path signature : String) : File :=
  { path, language := "go", entries := [{ kind := .function, name := "f", signature }] }

/-- A source and a file that is not there, given in both orders, and the map of two files. -/
theorem extraction_order_immaterial_two :
    (∃ result result',
      collect (projectWith "run.go" goSource) bareServices.parse ⟨"/", ["p"]⟩
          ["run.go", "gone.go"] = .ok result ∧
        collect (projectWith "run.go" goSource) bareServices.parse ⟨"/", ["p"]⟩
          ["gone.go", "run.go"] = .ok result' ∧ SameButOrder result result') ∧
    packCodeMap Budget.estimate .all .compact 100
        [fileWith "b.go" "func f()", fileWith "a.go" "func f(n int)"] =
      packCodeMap Budget.estimate .all .compact 100
        [fileWith "a.go" "func f(n int)", fileWith "b.go" "func f()"] := by
  have hnormal : ∀ path ∈ ["run.go", "gone.go"], IsNormal path := by
    intro path hpath
    refine ⟨[path], ?_, ?_⟩ <;> revert path <;> decide
  have hroot : (Path.mk "/" ["p"]).isAbsolute = true := by decide
  obtain ⟨houtlines, hmap⟩ := extraction_order_immaterial (projectWith "run.go" goSource)
    bareServices.parse hroot (by decide)
  obtain ⟨hfails, htogether⟩ := houtlines _ _ hnormal (List.Perm.swap "gone.go" "run.go" [])
  have hreturns : ¬ Fails (collect (projectWith "run.go" goSource) bareServices.parse ⟨"/", ["p"]⟩
      ["run.go", "gone.go"]) := fun h ↦ by
    obtain ⟨path, -, hhazard⟩ := hfails.mp h
    exact not_sourceHazard (projectWith_isPlain _ _) (fun _ _ ↦ rfl) _ hhazard
  constructor
  · obtain ⟨result, hresult⟩ := not_fails_iff.mp hreturns
    obtain ⟨result', hresult', hsame⟩ := htogether.exists_ok hresult
    exact ⟨result, result', hresult, hresult', hsame⟩
  · apply hmap
    · decide
    · exact List.Perm.swap _ _ []

end Dossier.Document

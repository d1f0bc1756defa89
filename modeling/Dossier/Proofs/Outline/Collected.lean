import Dossier.Proofs.Inventory
import Dossier.Proofs.Together

/-!
# Outlines in the order of their paths

Outlines are sorted by the paths under which they are reported, and two outlines under one path are
one outline. So the order in which files are outlined does not show, except in the order of the
warnings about single files.
-/

namespace Dossier.Outline

open Steps

variable {fs : FileSystem} {parse : Parser} {root : Path}

/-! ## One file -/

/-- A path that can be reported goes on from the root with plain names. -/
theorem join_of_reportedPath (hroot : root.isAbsolute = true) {path shown : String}
    (h : reportedPath root (root.join (Path.ofText path)) = .ok shown) :
    ∃ parts, (∀ name ∈ parts, PlainName name) ∧ shown = Path.relativeText parts ∧
      root.join (Path.ofText path) = ⟨root.root, root.parts ++ parts⟩ := by
  have habsolute : (root.join (Path.ofText path)).isAbsolute = true := by
    rw [Path.join]
    split
    next hpath => exact hpath
    next => exact hroot
  rw [reportedPath, if_pos habsolute, Path.below?] at h
  split at h
  next parts hbelow =>
    obtain rfl := Except.ok.inj h
    split at hbelow
    next hbegins =>
      obtain ⟨hstart, hprefix⟩ := hbegins
      obtain ⟨rest, hrest⟩ := List.isPrefixOf_iff_prefix.mp hprefix
      have hparts : rest = parts := by
        simpa [← hrest] using hbelow
      subst hparts
      refine ⟨rest, ?_, rfl, ?_⟩
      · intro name hname
        rw [Path.join] at hrest
        split at hrest
        next =>
          apply Path.plainName_of_mem_ofText (s := path)
          exact hrest ▸ List.mem_append_right _ hname
        next =>
          apply Path.plainName_of_mem_ofText (s := path)
          exact List.append_cancel_left hrest ▸ hname
      · rw [hrest, ← hstart]
    next => simp at hbelow
  next => simp at h

/-- Outlines that are reported under one path are one outline. -/
theorem eq_of_path_eq (hroot : root.isAbsolute = true) {path path' : String} {file file' : File}
    {said said' : List String}
    (h : outlineAt fs parse root (root.join (Path.ofText path)) = .ok (some file, said))
    (h' : outlineAt fs parse root (root.join (Path.ofText path')) = .ok (some file', said'))
    (heq : file.path = file'.path) : file = file' := by
  obtain ⟨shown, _, hshown, hof⟩ := isOf_of_outlineAt h
  obtain ⟨shown', _, hshown', hof'⟩ := isOf_of_outlineAt h'
  obtain ⟨parts, hparts, htext, hjoin⟩ := join_of_reportedPath hroot hshown
  obtain ⟨parts', hparts', htext', hjoin'⟩ := join_of_reportedPath hroot hshown'
  have hsame : parts = parts' := by
    apply Path.relativeText_inj hparts hparts'
    rw [← htext, ← htext', ← hof.path, ← hof'.path, heq]
  rw [hjoin, hsame, ← hjoin', h'] at h
  have hresults := congrArg Prod.fst (Except.ok.inj h)
  exact (Option.some_inj.mp hresults).symm

/-! ## All files -/

theorem byPath_eq_of_perm {files files' : List File} (h : files.Perm files')
    (hpaths : ∀ file ∈ files, ∀ other ∈ files, file.path = other.path → file = other) :
    byPath files = byPath files' := by
  apply mergeSort_eq_of_perm _ _ h
  · intro file hfile other hother hle hge
    apply hpaths file hfile other hother
    exact le_antisymm (Text.notAfter_iff.mp hle) (Text.notAfter_iff.mp hge)
  · exact fun a b c ↦ Text.notAfter_trans a.path b.path c.path
  · exact fun a b ↦ Text.notAfter_total a.path b.path

/-- Two results of outlining files are the same but for the order of the warnings about single files;
what is said about all files comes last. -/
structure SameButOrder (x y : List File × List String × List Progress) : Prop where
  files : x.1 = y.1
  warnings : ∃ said said', said.Perm said' ∧ x.2.1 = said ++ heuristicWarning x.1 ∧
    y.2.1 = said' ++ heuristicWarning y.1
  progress : x.2.2 = y.2.2

/-- Files that are outlined in another order have the same outlines in the same order. -/
theorem collect_perm (hroot : root.isAbsolute = true) {paths paths' : List String}
    (h : paths.Perm paths') :
    Together SameButOrder (collect fs parse root paths) (collect fs parse root paths') := by
  rw [collect, collect]
  apply (Together.mapM_perm h _).bind_of_ok
  intro outcomes outcomes' houtcomes _ hperm
  have hfiles : byPath (outcomes.filterMap (·.1)) = byPath (outcomes'.filterMap (·.1)) := by
    apply byPath_eq_of_perm (hperm.filterMap _)
    intro file hfile other hother heq
    obtain ⟨⟨_, said⟩, hmem, rfl⟩ := List.mem_filterMap.mp hfile
    obtain ⟨⟨_, said'⟩, hmem', rfl⟩ := List.mem_filterMap.mp hother
    obtain ⟨path, -, hpath⟩ := exists_of_mem_right (mapM_eq_ok.mp houtcomes) hmem
    obtain ⟨path', -, hpath'⟩ := exists_of_mem_right (mapM_eq_ok.mp houtcomes) hmem'
    exact eq_of_path_eq hroot hpath hpath' heq
  apply Agree.pure
  refine ⟨hfiles, ⟨_, _, hperm.flatMap_right _, rfl, rfl⟩, ?_⟩
  dsimp only
  rw [hfiles, h.length_eq]

end Dossier.Outline

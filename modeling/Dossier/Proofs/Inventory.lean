import Dossier.FileSystem.Resolve
import Dossier.Inventory
import Dossier.Outline.Extract
import Dossier.Proofs.FileSystem.Probe
import Dossier.Proofs.FileSystem.Walk
import Dossier.Proofs.Keyed

/-!
# The files of a project

In a well-formed file system every file that a walk finds is made of proper names. It is found
once, and its outline carries the path under which it was found.
-/

namespace Dossier

open Steps

/-! ## The root -/

namespace FileSystem

variable {fs : FileSystem} {root : Path}

/-- A path leads to a directory that can be listed. -/
def IsListable (fs : FileSystem) (root : Path) : Prop :=
  (∃ entries, fs.probe root = .ok (some (.directory entries))) ∧
    ∃ entries, fs.scan root = .ok entries

/-- A path can be looked up and leads nowhere, or to something that cannot be listed. -/
def IsUnreadable (fs : FileSystem) (root : Path) : Prop :=
  ¬ fs.Refuses root ∧ ¬ fs.IsListable root

theorem ensureReadable_eq_ok : fs.ensureReadable root = .ok () ↔ fs.IsListable root := by
  rw [ensureReadable, IsListable]
  cases fs.probe root with
  | error e => simp
  | ok found =>
      cases found with
      | none => simp
      | some e =>
          cases e with
          | directory entries => cases fs.scan root <;> simp
          | _ => simp

/-- The check of the root blames the root exactly if the root can be looked up and not be listed. -/
theorem blamesRoot_ensureReadable : BlamesRoot (fs.ensureReadable root) ↔ fs.IsUnreadable root := by
  rw [BlamesRoot, IsUnreadable, ← ensureReadable_eq_ok, ← fails_probe, ensureReadable]
  cases fs.probe root with
  | error e => simp [Failure.isAboutRoot]
  | ok found =>
      cases found with
      | none => simp [Failure.isAboutRoot]
      | some e =>
          cases e with
          | directory entries => cases fs.scan root <;> simp [Failure.isAboutRoot]
          | _ => simp [Failure.isAboutRoot]

theorem IsListable.isClean (h : fs.IsListable root) : root.IsClean := by
  obtain ⟨⟨entries, hprobe⟩, -⟩ := h
  rw [probe, seek] at hprobe
  split at hprobe
  · simp at hprobe
  split at hprobe
  · simp at hprobe
  · next hnul => simpa using hnul

end FileSystem

/-- A relative path that is made of proper names. -/
def IsNamed (path : String) : Prop :=
  ∃ parts, parts ≠ [] ∧ (∀ name ∈ parts, ProperName name) ∧ path = Path.relativeText parts

/-- A relative path that is made of plain names and can be looked up. -/
def IsNormal (path : String) : Prop :=
  ∃ parts, (∀ name ∈ parts, PlainName name ∧ '\x00' ∉ name.toList) ∧ path = Path.relativeText parts

theorem IsNamed.isNormal {path : String} (h : IsNamed path) : IsNormal path := by
  obtain ⟨parts, -, hparts, rfl⟩ := h
  exact ⟨parts, fun name hname ↦ ⟨(hparts name hname).toPlainName, (hparts name hname).no_nul⟩, rfl⟩

/-- A file below a root without the character that ends paths does not have it either. -/
theorem IsNormal.join_root {path : String} (h : IsNormal path) {root : Path} (hroot : root.IsClean) :
    ∃ parts, root.join (Path.ofText path) = ⟨root.root, root.parts ++ parts⟩ ∧
      (Path.mk root.root (root.parts ++ parts)).IsClean := by
  obtain ⟨parts, hparts, rfl⟩ := h
  refine ⟨parts, ?_, ?_⟩
  · rw [Path.ofText_relativeText fun name hname ↦ (hparts name hname).1, Path.join_relative]
  · rw [Path.IsClean, List.any_append, hroot, Bool.false_or, List.any_eq_false]
    intro name hname
    simpa using (hparts name hname).2

namespace Inventory

/-- What is found below a place is made of the names that lead to the place and of names as they are
found below it. -/
theorem exists_names_of_mem_filesBelow {good : String → Prop} {scope : Scope} {levels : Nat}
    {here : List String} {entries : List (String × Entry)}
    (h : (Entry.directory entries).Named fun names ↦ ∀ name ∈ names, good name) {path : String}
    (hpath : path ∈ filesBelow scope levels here entries) :
    ∃ parts, parts ≠ [] ∧ (∀ name ∈ parts, good name) ∧
      path = Path.relativeText (here ++ parts) := by
  have hname {name : String} {entries : List (String × Entry)} {e : Entry}
      (h : (Entry.directory entries).Named fun names ↦ ∀ name ∈ names, good name)
      (hmem : (name, e) ∈ entries) : good name :=
    h.names name (List.mem_map.mpr ⟨_, hmem, rfl⟩)
  induction levels generalizing here entries with
  | zero =>
      rw [filesBelow, List.append_nil] at hpath
      obtain ⟨⟨name, e⟩, hmem, rfl⟩ := List.mem_map.mp (List.mem_of_mem_filter hpath)
      exact ⟨[name], by simp, by simpa using hname h (List.mem_of_mem_filter hmem), rfl⟩
  | succ levels ih =>
      rw [filesBelow, List.mem_append] at hpath
      rcases hpath with hpath | hpath
      · obtain ⟨⟨name, e⟩, hmem, rfl⟩ := List.mem_map.mp (List.mem_of_mem_filter hpath)
        exact ⟨[name], by simp, by simpa using hname h (List.mem_of_mem_filter hmem), rfl⟩
      · obtain ⟨⟨name, inner⟩, hmem, hpath⟩ := List.mem_flatMap.mp hpath
        have hdirectory := (Entry.mem_subdirectories.mp hmem).2
        dsimp only at hpath
        split at hpath
        · simp at hpath
        · obtain ⟨parts, -, hparts, rfl⟩ := ih (h.inner _ hdirectory) hpath
          refine ⟨name :: parts, by simp, ?_, by rw [List.append_assoc, List.singleton_append]⟩
          exact List.forall_mem_cons.mpr ⟨hname h hdirectory, hparts⟩

theorem take_ok {fs : FileSystem} {ignored : List String} {root : Path} {inventory : Inventory}
    (h : take fs ignored root = .ok inventory) : inventory.files = Text.sorted
      (filesBelow (Scope.below fs ignored root) maxDepth []
        ((fs.scan root).toOption.getD [])).eraseDups := by
  obtain ⟨-, -, h⟩ := bind_eq_ok.mp h
  obtain ⟨-, -, h⟩ := bind_eq_ok.mp h
  obtain rfl := pure_eq_ok.mp h
  rfl

variable {fs : FileSystem} {ignored : List String} {root : Path} {inventory : Inventory}

theorem nodup_files (h : take fs ignored root = .ok inventory) : inventory.files.Nodup := by
  rw [take_ok h, Text.sorted, (List.mergeSort_perm _ _).nodup_iff]
  exact nodup_eraseDups _

theorem exists_names_of_mem_files {good : String → Prop}
    (hfs : fs.top.Named fun names ↦ ∀ name ∈ names, good name)
    (h : take fs ignored root = .ok inventory) : ∀ path ∈ inventory.files,
      ∃ parts, parts ≠ [] ∧ (∀ name ∈ parts, good name) ∧ path = Path.relativeText parts := by
  intro path hpath
  have hentries : (Entry.directory ((fs.scan root).toOption.getD [])).Named
      fun names ↦ ∀ name ∈ names, good name := by
    cases hscan : fs.scan root with
    | error e => exact .directory (by simp [Except.toOption]) (by simp [Except.toOption])
    | ok entries => exact FileSystem.named_of_scan hfs hscan
  rw [take_ok h, Text.sorted, List.mem_mergeSort, List.mem_eraseDups] at hpath
  exact exists_names_of_mem_filesBelow hentries hpath

theorem isNamed_of_mem_files (hfs : fs.WellFormed) (h : take fs ignored root = .ok inventory) :
    ∀ path ∈ inventory.files, IsNamed path :=
  exists_names_of_mem_files (Entry.wellFormed_iff_named.mp hfs) h

end Inventory

/-! ## Outlines -/

namespace Outline

/-- A path below a root is reported as it is seen from the root. -/
theorem reportedPath_below {root : Path} (hroot : root.isAbsolute = true) (parts : List String) :
    reportedPath root ⟨root.root, root.parts ++ parts⟩ = .ok (Path.relativeText parts) := by
  have habsolute : (Path.mk root.root (root.parts ++ parts)).isAbsolute = true := hroot
  rw [reportedPath, if_pos habsolute, Path.below?, if_pos ⟨rfl, by simp⟩]
  simp

/-- What an outline says about the file that it is of. -/
structure IsOf (file : File) (path : String) (language : Language) : Prop where
  path : file.path = path
  language : file.language = language.name

theorem isOf_of_fileOf? {parse : Parser} {language : Language} {path source : String} {file : File}
    (h : fileOf? parse language path source = some file) : IsOf file path language := by
  rw [fileOf?] at h
  split at h
  split at h
  · simp at h
  · obtain rfl := Option.some_inj.mp h
    exact ⟨rfl, rfl⟩

theorem isOf_of_outlineOf {fs : FileSystem} {parse : Parser} {language : Language}
    {shown : String} {target : Path} {file : File} {warnings : List String}
    (h : outlineOf fs parse language shown target = .ok (some file, warnings)) :
    IsOf file shown language := by
  rw [outlineOf] at h
  split at h
  · simp at h
  split at h
  · simp at h
  split at h
  case h_4 =>
    split at h
    · simp at h
    · exact isOf_of_fileOf? (congrArg Prod.fst (Except.ok.inj h))
  all_goals simp at h

theorem isOf_of_outlineAt {fs : FileSystem} {parse : Parser} {root path : Path} {file : File}
    {warnings : List String} (h : outlineAt fs parse root path = .ok (some file, warnings)) :
    ∃ shown language, reportedPath root path = .ok shown ∧ IsOf file shown language := by
  unfold outlineAt at h
  split at h
  · simp at h
  · next language _ =>
    split at h
    · simp at h
    · next shown hshown =>
      split at h
      · simp at h
      · exact ⟨shown, language, hshown, isOf_of_outlineOf h⟩

variable {fs : FileSystem} {parse : Parser} {root : Path} {paths : List String}
  {files : List File} {warnings : List String} {progress : List Progress}

theorem byPath_perm (files : List File) : (byPath files).Perm files := by
  rw [byPath]
  exact List.mergeSort_perm _ _

/-- Every outline is of one of the sources, and no source has two. -/
theorem exists_perm_of_collect (hroot : root.isAbsolute = true)
    (hnamed : ∀ path ∈ paths, IsNamed path)
    (h : collect fs parse root paths = .ok (files, warnings, progress)) :
    ∃ found : List File, files.Perm found ∧ (found.map (·.path)).Sublist paths ∧
      ∀ file ∈ found, ∃ language : Language, file.language = language.name := by
  simp only [collect, bind_eq_ok, pure_eq_ok] at h
  obtain ⟨outcomes, houtcomes, h⟩ := h
  obtain ⟨rfl, -⟩ := Prod.mk.inj h
  rw [mapM_eq_ok] at houtcomes
  refine ⟨outcomes.filterMap (·.1), byPath_perm _, ?_⟩
  clear h
  induction houtcomes with
  | nil => simp
  | @cons path outcome paths outcomes houtcome _ ih =>
      obtain ⟨found, said⟩ := outcome
      obtain ⟨hrest, hlanguages⟩ := ih fun p hp ↦ hnamed p (List.mem_cons_of_mem path hp)
      cases found with
      | none => exact ⟨hrest.cons path, hlanguages⟩
      | some file =>
          obtain ⟨parts, -, hparts, rfl⟩ := hnamed path List.mem_cons_self
          obtain ⟨shown, language, hreported, hfile⟩ := isOf_of_outlineAt houtcome
          rw [Path.ofText_relativeText fun name hname ↦ (hparts name hname).toPlainName,
            Path.join_relative, reportedPath_below hroot] at hreported
          have hpath : file.path = Path.relativeText parts :=
            hfile.path.trans (Except.ok.inj hreported).symm
          simp only [List.filterMap_cons, List.map_cons, hpath]
          exact ⟨hrest.cons_cons _,
            List.forall_mem_cons.mpr ⟨⟨language, hfile.language⟩, hlanguages⟩⟩

/-- Outlines carry the paths of the sources, and no path more than once. -/
theorem nodup_paths_of_collect (hroot : root.isAbsolute = true) (hnodup : paths.Nodup)
    (hnamed : ∀ path ∈ paths, IsNamed path)
    (h : collect fs parse root paths = .ok (files, warnings, progress)) :
    (files.map (·.path)).Nodup := by
  obtain ⟨found, hperm, hsublist, -⟩ := exists_perm_of_collect hroot hnamed h
  rw [(hperm.map _).nodup_iff]
  exact hnodup.sublist hsublist

/-- A source that is small enough to be read ends the run: reading it never ends, or its syntax tree is
nested too deeply. -/
def ReadingHazard (fs : FileSystem) (parse : Parser) (language : Language) (p : Path) : Prop :=
  ∃ e, fs.look p = .ok e ∧ e.size ≤ maxSourceBytes ∧
    (fs.readText p = .error .endless ∨
      ∃ source, fs.readText p = .ok source ∧ defeats parse language source = true)

/-- A file is a source that ends the run. -/
def SourceHazard (fs : FileSystem) (parse : Parser) (p : Path) : Prop :=
  ∃ language, Language.ofPath? p.name = some language ∧ ReadingHazard fs parse language p

theorem fails_outlineOf {language : Language} {shown : String} {p : Path} :
    Fails (outlineOf fs parse language shown p) ↔ ReadingHazard fs parse language p := by
  rw [outlineOf, ReadingHazard]
  cases fs.look p with
  | error e => simp
  | ok e =>
      by_cases hlarge : maxSourceBytes < e.size
      · simp [hlarge, not_le.mpr hlarge]
      · simp only [if_neg hlarge, Except.ok.injEq, exists_eq_left', not_lt.mp hlarge, true_and]
        cases fs.readText p with
        | error e => cases e <;> simp
        | ok source => cases hdefeats : defeats parse language source <;> simp [hdefeats]

theorem fails_outlineAt (habsolute : root.isAbsolute = true) {parts : List String}
    (hclean : (Path.mk root.root (root.parts ++ parts)).IsClean) :
    Fails (outlineAt fs parse root ⟨root.root, root.parts ++ parts⟩) ↔
      SourceHazard fs parse ⟨root.root, root.parts ++ parts⟩ := by
  have hself : root.join ⟨root.root, root.parts ++ parts⟩ = ⟨root.root, root.parts ++ parts⟩ :=
    if_pos habsolute
  unfold outlineAt
  rw [SourceHazard]
  cases Language.ofPath? (Path.mk root.root (root.parts ++ parts)).name with
  | none => simp
  | some language =>
      rw [reportedPath_below habsolute, hself]
      dsimp only
      rw [if_neg (ne_true_of_eq_false hclean), fails_outlineOf]
      simp only [Option.some.injEq, exists_eq_left']

theorem sparesRoot_outlineAt {path : Path} : SparesRoot (outlineAt fs parse root path) := by
  unfold outlineAt
  split
  · simp
  · split
    next f hreported =>
      rw [reportedPath] at hreported
      split at hreported
      · split at hreported
        · simp at hreported
        · obtain rfl := Except.error.inj hreported
          simp [Failure.isAboutRoot]
      · simp at hreported
    next =>
      refine .ite (by simp [Failure.isAboutRoot]) ?_
      rw [outlineOf]
      split
      · simp
      · refine .ite (sparesRoot_ok _) ?_
        split
        · simp [Failure.isAboutRoot]
        · simp
        · simp
        · exact .ite (by simp [Failure.isAboutRoot]) (sparesRoot_ok _)

theorem sparesRoot_collect : SparesRoot (collect fs parse root paths) :=
  (SparesRoot.mapM (fun _ ↦ sparesRoot_outlineAt) paths).bind fun _ ↦ sparesRoot_pure _

/-- The extraction of outlines fails exactly if one of the sources is not read to its end. -/
theorem fails_collect (habsolute : root.isAbsolute = true) (hroot : root.IsClean)
    {paths : List String} (hpaths : ∀ path ∈ paths, IsNormal path) :
    Fails (collect fs parse root paths) ↔
      ∃ path ∈ paths, SourceHazard fs parse (root.join (Path.ofText path)) := by
  rw [collect, fails_bind_left fun _ _ ↦ not_fails_pure _, fails_mapM]
  refine exists_congr fun path ↦ and_congr_right fun hpath ↦ ?_
  obtain ⟨parts, hjoin, hclean⟩ := (hpaths path hpath).join_root hroot
  rw [hjoin, fails_outlineAt habsolute hclean]

end Outline

end Dossier

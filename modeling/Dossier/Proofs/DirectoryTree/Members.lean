import Dossier.Proofs.DirectoryTree.Nodes
import Dossier.Proofs.DirectoryTree.Significant
import Dossier.Proofs.FileSystem.Straight
import Mathlib.Data.List.Nodup

/-!
# Exactly the files of a tree

A tree shows a file exactly if the file is not too deep, no name on the way to it is ignored, it is no
noise, every directory above it can be listed, and none of these directories is crowded unless
something significant lies in it.
-/

namespace Dossier.DirectoryTree

open TreeNode (forest)
open Walk (Enters entered)

/-! ## Names -/

theorem name_of_mem_directoryNode {scope : Scope} {levels : Nat} {there : Location} {name : String}
    {inner : List (String × Entry)} {node : TreeNode}
    (h : node ∈ forest (directoryNode scope levels there name inner).toList) :
    node.name = name ∨ node ∈ forest (nodes scope levels there inner) := by
  rw [directoryNode] at h
  split at h
  · simp [forest] at h
  · split at h
    · obtain rfl : node = _ := by simpa [forest, TreeNode.all] using h
      exact .inl rfl
    · cases hnodes : nodes scope levels there inner with
      | nil => simp [hnodes, branch, forest] at h
      | cons child rest =>
          have hmem : node ∈ TreeNode.directory name (Path.relativeText there) (child :: rest) ::
              forest (child :: rest) := by
            simpa [hnodes, branch, forest, TreeNode.all] using h
          rcases List.mem_cons.mp hmem with rfl | hmem
          · exact .inl rfl
          · exact .inr hmem

/-- Nothing in a tree has a hidden name. -/
theorem hidden_of_mem_forest {scope : Scope} {levels : Nat} {here : Location}
    {entries : List (String × Entry)} {node : TreeNode}
    (h : node ∈ forest (nodes scope levels here entries)) : scope.hidden node.name = false := by
  induction levels generalizing here entries with
  | zero => simp [nodes, forest] at h
  | succ levels ih =>
      rw [nodes_succ, TreeNode.forest_append, forest_leaves, TreeNode.forest_filterMap] at h
      rcases List.mem_append.mp h with h | h
      · obtain ⟨⟨name, inner⟩, hmem, h⟩ := List.mem_flatMap.mp h
        rcases name_of_mem_directoryNode h with hname | h
        · rw [hname]
          exact (Entry.mem_subdirectories.mp hmem).1
        · exact ih h
      · obtain ⟨name, hname, rfl⟩ := List.mem_map.mp h
        obtain ⟨e, -, -, hshown, -⟩ := mem_leaves.mp hname
        exact hshown

/-! ## Places -/

section

variable (fs : FileSystem) (style : Style) (marks : List Location) (root : Path)
  (entries : List (String × Entry)) (levels : Nat)

/-- Whether an entry of a directory counts when the directory may be too crowded to be shown. -/
def isVisible (x : String × Entry) : Bool :=
  !Text.isIgnored style.ignored x.1 && (x.2.isDirectory || !Text.isIgnored style.noise x.1)

/-- A file, or a link, at a place that a tree gets to: not too deep, under names that are not ignored, in
directories that can be listed. -/
structure IsReached (dir : Location) (name : String) : Prop where
  entry : ∃ e, (Entry.directory entries).find? (dir ++ [name]) = some e ∧ e.isDirectory = false
  depth : (dir ++ [name]).length ≤ levels
  shown : ∀ part ∈ dir ++ [name], Text.isIgnored style.ignored part = false
  not_noise : Text.isIgnored style.noise name = false
  readable : ∀ above, above <+: dir → above ≠ [] → root.join ⟨"", above⟩ ∉ fs.denied

/-- Every directory on the way to a place that has too many entries is a significant path or has one
below it. -/
def IsSpread (dir : Location) : Prop :=
  ∀ above, above <+: dir → above ≠ [] → ∀ held,
    (Entry.directory entries).find? above = some (.directory held) →
      style.threshold < (held.countP (isVisible style) : Nat) → ∃ mark ∈ marks, above <+: mark

/-- Every directory on the way to a place that has too many entries is significant for some paths. -/
def IsSpreadBy (paths : List String) (dir : Location) : Prop :=
  ∀ above, above <+: dir → above ≠ [] → ∀ held,
    (Entry.directory entries).find? above = some (.directory held) →
      style.threshold < (held.countP (isVisible style) : Nat) →
        Path.relativeText above ∈ significant paths

end

variable {fs : FileSystem} {style : Style} {marks : List Location} {root : Path}
  {entries held : List (String × Entry)} {levels : Nat} {dir : Location} {name : String}

/-- The scope of the tree at a root with some significant places. -/
abbrev scopeOf (fs : FileSystem) (style : Style) (marks : List Location) (root : Path) : Scope :=
  Scope.below fs style (significant (marks.map Path.relativeText)) root

theorem isCollapsed_below_eq_false_iff {paths : List String}
    (hvisible : held.countP (isVisible style) ≠ 0) :
    isCollapsed (Scope.below fs style (significant paths) root) dir held = false ↔
      (style.threshold < (held.countP (isVisible style) : Nat) →
        Path.relativeText dir ∈ significant paths) := by
  have hcount : shownCount (Scope.below fs style (significant paths) root) held =
      held.countP (isVisible style) :=
    shownCount_eq _ held
  have hshown : (held.countP (isVisible style) != 0) = true := bne_iff_ne.mpr hvisible
  rw [isCollapsed, hcount, ← List.contains_iff_mem, hshown, Bool.true_and,
    Bool.and_eq_false_imp, decide_eq_true_iff, Bool.not_eq_false']
  rfl

theorem isCollapsed_eq_false_iff (hmarks : ∀ mark ∈ marks, ∀ name ∈ mark, PlainName name)
    (hne : dir ≠ []) (hplain : ∀ name ∈ dir, PlainName name)
    (hvisible : held.countP (isVisible style) ≠ 0) :
    isCollapsed (scopeOf fs style marks root) dir held = false ↔
      (style.threshold < (held.countP (isVisible style) : Nat) → ∃ mark ∈ marks, dir <+: mark) := by
  rw [isCollapsed_below_eq_false_iff hvisible, relativeText_mem_significant hmarks hne hplain]

/-- A directory with something shown below it has something to show. -/
theorem countP_isVisible_ne_zero {above rest : Location} {e : Entry}
    (hheld : (Entry.directory entries).find? above = some (.directory held))
    (hfound : (Entry.directory entries).find? (above ++ name :: rest) = some e)
    (hshown : Text.isIgnored style.ignored name = false)
    (hnoise : rest = [] → e.isDirectory = true ∨ Text.isIgnored style.noise name = false) :
    held.countP (isVisible style) ≠ 0 := by
  rw [Entry.find?_append, hheld, Option.bind_some, Entry.find?_directory_cons] at hfound
  obtain ⟨below, hlookup, hbelow⟩ := Option.bind_eq_some_iff.mp hfound
  have hvisible : isVisible style (name, below) = true := by
    rw [isVisible, hshown, Bool.not_false, Bool.true_and, Bool.or_eq_true]
    cases rest with
    | nil =>
        obtain rfl : below = e := by simpa using hbelow
        exact (hnoise rfl).imp_right fun h ↦ by rw [h, Bool.not_false]
    | cons next rest =>
        cases below with
        | directory => exact .inl rfl
        | file | link | special => simp [Entry.find?] at hbelow
  rw [← Nat.pos_iff_ne_zero, List.countP_pos_iff]
  exact ⟨_, mem_of_lookup_eq_some hlookup, hvisible⟩

theorem IsReached.isCollapsed_iff (h : IsReached fs style root entries levels dir name)
    (hentries : (Entry.directory entries).WellFormed)
    (hmarks : ∀ mark ∈ marks, ∀ name ∈ mark, PlainName name) {above : Location}
    (habove : above <+: dir) (hne : above ≠ [])
    (hheld : (Entry.directory entries).find? above = some (.directory held)) :
    isCollapsed (scopeOf fs style marks root) above held = false ↔
      (style.threshold < (held.countP (isVisible style) : Nat) → ∃ mark ∈ marks, above <+: mark) := by
  obtain ⟨e, hentry, -⟩ := h.entry
  obtain ⟨mid, rfl⟩ := habove
  have hplain : ∀ name ∈ above, PlainName name := hentries.plainName_of_find? hheld
  refine isCollapsed_eq_false_iff hmarks hne hplain ?_
  -- What comes right below `above` is the next directory on the way, or the file itself.
  cases mid with
  | nil =>
      rw [List.append_nil] at hentry
      exact countP_isVisible_ne_zero hheld hentry (h.shown name (by simp)) fun _ ↦ .inr h.not_noise
  | cons next rest =>
      rw [List.append_assoc, List.cons_append] at hentry
      exact countP_isVisible_ne_zero hheld hentry (h.shown next (by simp)) (by simp)

theorem mem_files_nodes (hentries : (Entry.directory entries).WellFormed)
    (hdistinct : (Entry.directory entries).Named List.Nodup)
    (hmarks : ∀ mark ∈ marks, ∀ name ∈ mark, PlainName name) {node : TreeNode} :
    node ∈ (forest (nodes (scopeOf fs style marks root) (levels + 1) [] entries)).filter
        TreeNode.isFile ↔
      ∃ dir name, IsReached fs style root entries (levels + 1) dir name ∧
        IsSpread style marks entries dir ∧ node = leaf (scopeOf fs style marks root) dir name := by
  rw [(filter_forest_nodes _ levels [] entries).mem_iff, List.mem_flatMap]
  constructor
  · rintro ⟨⟨dir, held⟩, hentered, hnode⟩
    obtain ⟨dir', hdir, hdepth, hfound, hshown, hopened⟩ :=
      (Walk.mem_entered_iff hdistinct).mp hentered
    obtain rfl : dir = dir' := by simpa using hdir
    obtain ⟨name, hname, rfl⟩ := List.mem_map.mp hnode
    obtain ⟨e, hmem, hfile, hvisible, hnoise⟩ := mem_leaves.mp hname
    have hopen {above : Location} (habove : above <+: dir) (hne : above ≠ [])
        {inner : List (String × Entry)}
        (hinner : (Entry.directory entries).find? above = some (.directory inner)) :
        fs.denied.contains (root.join ⟨"", above⟩) = false ∧
          isCollapsed (scopeOf fs style marks root) above inner = false := by
      have hclosed := hopened above habove hne inner hinner
      rwa [List.nil_append, isClosed, Bool.or_eq_false_iff] at hclosed
    have hreached : IsReached fs style root entries (levels + 1) dir name := by
      refine ⟨⟨e, Entry.find?_concat_iff.mpr ⟨held, hfound, ?_⟩, hfile⟩, ?_, ?_, hnoise, ?_⟩
      · exact lookup_eq_some_of_mem (hdistinct.of_find? hfound).names hmem
      · simpa using hdepth
      · intro part hpart
        rcases List.mem_append.mp hpart with hpart | hpart
        · exact hshown part hpart
        · rwa [List.mem_singleton.mp hpart]
      · intro above habove hne
        obtain ⟨inner, hinner⟩ := Entry.exists_directory_of_prefix hfound habove
        simpa using (hopen habove hne hinner).1
    refine ⟨dir, name, hreached, fun above habove hne inner hinner ↦ ?_, rfl⟩
    exact (hreached.isCollapsed_iff hentries hmarks habove hne hinner).mp
      (hopen habove hne hinner).2
  · rintro ⟨dir, name, hreached, hspread, rfl⟩
    obtain ⟨e, hentry, hfile⟩ := hreached.entry
    obtain ⟨held, hfound, hlookup⟩ := Entry.find?_concat_iff.mp hentry
    refine ⟨(dir, held), (Walk.mem_entered_iff hdistinct).mpr ⟨dir, rfl, ?_, hfound, ?_, ?_⟩, ?_⟩
    · simpa using hreached.depth
    · exact fun part hpart ↦ hreached.shown part (List.mem_append_left _ hpart)
    · intro above habove hne inner hinner
      rw [List.nil_append, isClosed, Bool.or_eq_false_iff]
      constructor
      · simpa [Scope.below] using hreached.readable above habove hne
      · exact (hreached.isCollapsed_iff hentries hmarks habove hne hinner).mpr
          (hspread above habove hne inner hinner)
    · refine List.mem_map.mpr ⟨name, mem_leaves.mpr ⟨e, mem_of_lookup_eq_some hlookup, hfile, ?_⟩, rfl⟩
      exact ⟨hreached.shown name (by simp), hreached.not_noise⟩

/-- A tree shows no file twice. -/
theorem nodup_paths_nodes {scope : Scope} (hentries : (Entry.directory entries).WellFormed)
    (hdistinct : (Entry.directory entries).Named List.Nodup) :
    (((forest (nodes scope (levels + 1) [] entries)).filter TreeNode.isFile).map
      TreeNode.path).Nodup := by
  let walked := entered scope.hidden (isClosed scope) levels [] entries
  let places := walked.flatMap fun x ↦ (leaves scope x.2).map fun name ↦ x.1 ++ [name]
  have hfound {dir : Location} {held : List (String × Entry)} (h : (dir, held) ∈ walked) :
      (Entry.directory entries).find? dir = some (.directory held) := by
    obtain ⟨dir', hdir, -, hfound, -, -⟩ := (Walk.mem_entered_iff hdistinct).mp h
    obtain rfl : dir = dir' := by simpa using hdir
    exact hfound
  have hpaths : (walked.flatMap fun x ↦ (leaves scope x.2).map (leaf scope x.1)).map TreeNode.path =
      places.map Path.relativeText := by
    rw [List.map_flatMap, List.map_flatMap]
    refine congrArg (fun f ↦ walked.flatMap f) (funext fun x ↦ ?_)
    rw [List.map_map, List.map_map]
    rfl
  -- Different places are written differently, so it is enough that no place comes twice.
  rw [((filter_forest_nodes scope levels [] entries).map _).nodup_iff, hpaths]
  have hplain : ∀ place ∈ places, ∀ name ∈ place, PlainName name := by
    intro place hplace
    obtain ⟨⟨dir, held⟩, hwalked, hplace⟩ := List.mem_flatMap.mp hplace
    obtain ⟨name, hname, rfl⟩ := List.mem_map.mp hplace
    obtain ⟨e, hmem, -⟩ := mem_leaves.mp hname
    have hlookup := lookup_eq_some_of_mem (hdistinct.of_find? (hfound hwalked)).names hmem
    exact hentries.plainName_of_find? (Entry.find?_concat_iff.mpr ⟨held, hfound hwalked, hlookup⟩)
  refine List.Nodup.map_on (fun a ha b hb ↦ Path.relativeText_inj (hplain a ha) (hplain b hb)) ?_
  rw [List.nodup_flatMap]
  constructor
  · rintro ⟨dir, held⟩ hwalked
    refine (nodup_leaves (hdistinct.of_find? (hfound hwalked)).names).map ?_
    intro a b heq
    simpa using heq
  · refine (List.pairwise_map.mp (Walk.nodup_entered hdistinct)).imp fun {x y} hne ↦ ?_
    intro place hx hy
    obtain ⟨name, -, rfl⟩ := List.mem_map.mp hx
    obtain ⟨name', -, heq⟩ := List.mem_map.mp hy
    exact hne (List.append_inj_left' heq rfl).symm

/-! ## The whole tree -/

/-- The nodes of a tree show exactly the files that are reached in directories that are spread out, and
each of them once. -/
structure IsExact (fs : FileSystem) (style : Style) (marks : List Location) (root : Path)
    (levels : Nat) (tree : List TreeNode) : Prop where
  mem_iff : ∀ name path remark, .file name path remark ∈ tree ↔
    ∃ entries dir, fs.scan root = .ok entries ∧ IsReached fs style root entries levels dir name ∧
      IsSpread style marks entries dir ∧ path = Path.relativeText (dir ++ [name]) ∧
        remark = annotationFor style.annotations name path
  once : ((tree.filter TreeNode.isFile).map TreeNode.path).Nodup
  not_ignored : ∀ node ∈ tree, Text.isIgnored style.ignored node.name = false
  /-- What is significant itself is shown wherever it is reached. -/
  significant : ∀ entries dir name, fs.scan root = .ok entries →
    IsReached fs style root entries levels dir name → dir ++ [name] ∈ marks →
      ∃ remark, .file name (Path.relativeText (dir ++ [name])) remark ∈ tree
  /-- No link leads to what is reached if none leads to the root. -/
  real : fs.IsStraight root → ∀ entries dir name, fs.scan root = .ok entries →
    IsReached fs style root entries levels dir name →
      ∃ e, fs.at? (root.parts ++ dir ++ [name]) = some e ∧ e.isDirectory = false

theorem build_of_scan_error {paths : List String} {e : FileError} (hscan : fs.scan root = .error e) :
    (build fs style paths root levels).1 = [] := by
  rw [build, hscan]
  split <;> rfl

theorem build_of_scan {paths : List String} (hscan : fs.scan root = .ok entries) :
    (build fs style paths root levels).1 =
      nodes (Scope.below fs style (significant paths) root) levels [] entries := by
  rw [build, hscan]
  split
  next hzero => rw [hzero, nodes]
  next => rfl

theorem file_mem_build_iff (hfs : fs.WellFormed) (hdistinct : fs.Distinct)
    (hmarks : ∀ mark ∈ marks, ∀ name ∈ mark, PlainName name) {path : String}
    {remark : Option String} :
    .file name path remark ∈
        forest (build fs style (marks.map Path.relativeText) root levels).1 ↔
      ∃ entries dir, fs.scan root = .ok entries ∧
        IsReached fs style root entries levels dir name ∧ IsSpread style marks entries dir ∧
          path = Path.relativeText (dir ++ [name]) ∧
            remark = annotationFor style.annotations name path := by
  cases hscan : fs.scan root with
  | error e =>
      rw [build_of_scan_error hscan]
      simp [forest]
  | ok entries =>
      rw [build_of_scan hscan]
      cases levels with
      | zero =>
          constructor
          · simp [nodes, forest]
          · rintro ⟨entries', dir, -, hreached, -⟩
            exact absurd hreached.depth (by simp)
      | succ levels =>
          have hfile : .file name path remark ∈
                forest (nodes (scopeOf fs style marks root) (levels + 1) [] entries) ↔
              .file name path remark ∈ (forest (nodes (scopeOf fs style marks root) (levels + 1) []
                entries)).filter TreeNode.isFile := by
            simp [TreeNode.isFile]
          rw [hfile, mem_files_nodes (hfs.of_scan hscan) (FileSystem.named_of_scan hdistinct hscan)
            hmarks]
          constructor
          · rintro ⟨dir, name', hreached, hspread, heq⟩
            obtain ⟨rfl, rfl, rfl⟩ := TreeNode.file.inj heq
            exact ⟨entries, dir, rfl, hreached, hspread, rfl, rfl⟩
          · rintro ⟨entries', dir, heq, hreached, hspread, rfl, rfl⟩
            obtain rfl := Except.ok.inj heq
            exact ⟨dir, name, hreached, hspread, rfl⟩

/-- A tree shows exactly the files that are reached in directories that are spread out. -/
theorem build_exact (style : Style) (root : Path) (levels : Nat) (hfs : fs.WellFormed)
    (hdistinct : fs.Distinct) (hmarks : ∀ mark ∈ marks, ∀ name ∈ mark, PlainName name) :
    IsExact fs style marks root levels
      (forest (build fs style (marks.map Path.relativeText) root levels).1) := by
  refine ⟨fun name path remark ↦ file_mem_build_iff hfs hdistinct hmarks, ?once, ?not_ignored,
    ?significant, ?real⟩
  case once =>
    cases hscan : fs.scan root with
    | error e => simp [build_of_scan_error hscan, forest]
    | ok entries =>
        rw [build_of_scan hscan]
        cases levels with
        | zero => simp [nodes, forest]
        | succ levels =>
            exact nodup_paths_nodes (hfs.of_scan hscan) (FileSystem.named_of_scan hdistinct hscan)
  case not_ignored =>
    intro node hnode
    cases hscan : fs.scan root with
    | error e => simp [build_of_scan_error hscan, forest] at hnode
    | ok entries =>
        rw [build_of_scan hscan] at hnode
        exact hidden_of_mem_forest hnode
  case significant =>
    intro entries dir name hscan hreached hmark
    refine ⟨_, (file_mem_build_iff hfs hdistinct hmarks).mpr
      ⟨entries, dir, hscan, hreached, ?_, rfl, rfl⟩⟩
    intro above habove _ _ _ _
    exact ⟨_, hmark, habove.trans (List.prefix_append ..)⟩
  case real =>
    intro hstraight entries dir name hscan hreached
    obtain ⟨e, hentry, hfile⟩ := hreached.entry
    refine ⟨e, ?_, hfile⟩
    rw [List.append_assoc, FileSystem.at?_append,
      hstraight.at?_of_scan hscan]
    exact hentry

/-- Every directory is crowded. -/
def crowdedStyle : Style where
  ignored := []
  noise := []
  threshold := 0

/-- A significant file is shown though its directory is crowded. -/
theorem build_exact_nested : ∃ remark,
    .file "x" "a/x" remark ∈
      forest (build FileSystem.nested crowdedStyle ["a/x"] ⟨"/", ["p"]⟩ 2).1 := by
  have hexact : IsExact FileSystem.nested crowdedStyle [["a", "x"]] ⟨"/", ["p"]⟩ 2
      (forest (build FileSystem.nested crowdedStyle ["a/x"] ⟨"/", ["p"]⟩ 2).1) :=
    build_exact crowdedStyle ⟨"/", ["p"]⟩ 2 FileSystem.nested_wellFormed
      FileSystem.nested_distinct (by decide)
  have hreached : IsReached FileSystem.nested crowdedStyle ⟨"/", ["p"]⟩
      FileSystem.nestedEntries 2 ["a"] "x" :=
    ⟨⟨_, rfl, rfl⟩, by decide, fun _ _ ↦ rfl, rfl, fun _ _ _ ↦ List.not_mem_nil⟩
  exact hexact.significant _ _ _ FileSystem.nested_scan hreached (by simp)

end Dossier.DirectoryTree

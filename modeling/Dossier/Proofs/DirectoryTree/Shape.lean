import Dossier.Proofs.DirectoryTree.Members

/-!
# The shape of a tree

A directory of a tree has something in it, its own nodes are in order and are named by its path, and
nothing lies deeper than the tree has levels. A directory that a tree gets to is shown by numbers
alone exactly if it has something to show, has too much to show, and nothing significant lies in it.
-/

namespace Dossier

namespace TreeNode

/-- Siblings in order: the directories by their names, and then the files by theirs. -/
def AreOrdered (nodes : List TreeNode) : Prop :=
  ∃ dirs files, nodes = dirs ++ files ∧ (∀ node ∈ dirs, node.isFile = false) ∧
    (∀ node ∈ files, node.isFile = true) ∧
    dirs.Pairwise (fun a b ↦ a.name < b.name) ∧ files.Pairwise fun a b ↦ a.name < b.name

mutual

/-- How many levels a node takes, its own one included. -/
def height : TreeNode → Nat
  | .directory _ _ children => forestHeight children + 1
  | .file .. => 1
  | .collapsed .. => 1

/-- How many levels some nodes take. -/
def forestHeight : List TreeNode → Nat
  | [] => 0
  | node :: rest => max (height node) (forestHeight rest)

end

theorem forestHeight_le_iff {nodes : List TreeNode} {levels : Nat} :
    forestHeight nodes ≤ levels ↔ ∀ node ∈ nodes, node.height ≤ levels := by
  induction nodes with
  | nil => simp [forestHeight]
  | cons node rest ih => rw [forestHeight, Nat.max_le, ih, List.forall_mem_cons]

theorem mem_forest_of_mem {nodes : List TreeNode} {node : TreeNode} (h : node ∈ nodes) :
    node ∈ forest nodes := by
  induction nodes with
  | nil => simp at h
  | cons first rest ih =>
      rw [forest, List.mem_append]
      rcases List.mem_cons.mp h with rfl | h
      · left
        cases node <;> simp [all]
      · exact .inr (ih h)

end TreeNode

namespace DirectoryTree

open Entry (subdirectories)
open TreeNode (AreOrdered forest forestHeight)
open Walk (Enters met)

variable {scope : Scope} {levels : Nat} {here there : Location} {entries inner : List (String × Entry)}
  {name : String} {node : TreeNode}

/-! ## One directory -/

/-- The node of a directory stands for it: by numbers, or by the nodes of what it holds. -/
theorem directoryNode_cases
    (h : directoryNode scope levels there name inner = some node) :
    levels ≠ 0 ∧ scope.denied there = false ∧
      ((isCollapsed scope there inner = true ∧ node = .collapsed name (Path.relativeText there)
          (leaves scope inner).length (subdirectories scope.hidden inner).length) ∨
        isCollapsed scope there inner = false ∧ nodes scope levels there inner ≠ [] ∧
          node = .directory name (Path.relativeText there) (nodes scope levels there inner)) := by
  rw [directoryNode] at h
  split at h
  · simp at h
  next hopen =>
    obtain ⟨hlevels, hdenied⟩ : levels ≠ 0 ∧ scope.denied there = false := by simpa using hopen
    refine ⟨hlevels, hdenied, ?_⟩
    split at h
    next hcollapsed => exact .inl ⟨hcollapsed, (Option.some_inj.mp h).symm⟩
    next hcollapsed =>
      cases hnodes : nodes scope levels there inner with
      | nil => simp [hnodes, branch] at h
      | cons child rest =>
          rw [hnodes] at h
          exact .inr ⟨by simpa using hcollapsed, List.cons_ne_nil child rest, (Option.some_inj.mp h).symm⟩

theorem mem_nodes_succ : node ∈ nodes scope (levels + 1) here entries ↔
    (∃ name inner, (name, inner) ∈ subdirectories scope.hidden entries ∧
      directoryNode scope levels (here ++ [name]) name inner = some node) ∨
    ∃ name ∈ leaves scope entries, node = leaf scope here name := by
  rw [nodes_succ, List.mem_append, List.mem_filterMap, List.mem_map]
  refine or_congr ?_ (exists_congr fun name ↦ and_congr_right fun _ ↦ eq_comm)
  constructor
  · rintro ⟨⟨name, inner⟩, hmem, hnode⟩
    exact ⟨name, inner, hmem, hnode⟩
  · rintro ⟨name, inner, hmem, hnode⟩
    exact ⟨(name, inner), hmem, hnode⟩

theorem name_of_directoryNode (h : directoryNode scope levels there name inner = some node) :
    node.name = name ∧ node.path = Path.relativeText there ∧ node.isFile = false := by
  obtain ⟨-, -, ⟨-, rfl⟩ | ⟨-, -, rfl⟩⟩ := directoryNode_cases h
  · exact ⟨rfl, rfl, rfl⟩
  · exact ⟨rfl, rfl, rfl⟩

theorem path_of_mem_nodes (h : node ∈ nodes scope levels here entries) :
    node.path = Path.relativeText (here ++ [node.name]) := by
  cases levels with
  | zero => simp [nodes] at h
  | succ levels =>
      rcases mem_nodes_succ.mp h with ⟨name, inner, -, hnode⟩ | ⟨name, -, rfl⟩
      · obtain ⟨hname, hpath, -⟩ := name_of_directoryNode hnode
        rw [hname, hpath]
      · rfl

theorem areOrdered_nodes (hnodup : (entries.map (·.1)).Nodup) :
    AreOrdered (nodes scope levels here entries) := by
  cases levels with
  | zero => exact ⟨[], [], rfl, by simp, by simp, .nil, .nil⟩
  | succ levels =>
      refine ⟨_, _, nodes_succ .., ?_, ?_, ?_, ?_⟩
      · intro node hnode
        obtain ⟨⟨name, inner⟩, -, hnode⟩ := List.mem_filterMap.mp hnode
        exact (name_of_directoryNode hnode).2.2
      · intro node hnode
        obtain ⟨name, -, rfl⟩ := List.mem_map.mp hnode
        rfl
      · rw [List.pairwise_filterMap]
        refine (Entry.pairwise_lt_subdirectories hnodup scope.hidden).imp ?_
        intro x y hlt node hnode node' hnode'
        rw [(name_of_directoryNode hnode).1, (name_of_directoryNode hnode').1]
        exact hlt
      · rw [List.pairwise_map]
        exact Text.pairwise_lt_sorted (hnodup.sublist (List.filter_sublist.map _))

theorem forestHeight_nodes_le : forestHeight (nodes scope levels here entries) ≤ levels := by
  induction levels generalizing here entries with
  | zero => exact Nat.le_refl 0
  | succ levels ih =>
      rw [TreeNode.forestHeight_le_iff]
      intro node hnode
      rcases mem_nodes_succ.mp hnode with ⟨name, inner, -, hnode⟩ | ⟨name, -, rfl⟩
      · obtain ⟨-, -, ⟨-, rfl⟩ | ⟨-, -, rfl⟩⟩ := directoryNode_cases hnode
        · exact Nat.succ_le_succ (Nat.zero_le levels)
        · exact Nat.succ_le_succ ih
      · exact Nat.succ_le_succ (Nat.zero_le levels)

/-! ## All directories -/

/-- The nodes of a directory are its own one and, if it is spread out, those of what it holds. -/
theorem mem_forest_directoryNode :
    node ∈ forest (directoryNode scope levels there name inner).toList ↔
      directoryNode scope levels there name inner = some node ∨
        levels ≠ 0 ∧ isClosed scope there inner = false ∧
          node ∈ forest (nodes scope levels there inner) := by
  constructor
  · intro h
    cases hnode : directoryNode scope levels there name inner with
    | none => simp [hnode, forest] at h
    | some top =>
        obtain ⟨hlevels, hdenied, ⟨-, rfl⟩ | ⟨hcollapsed, -, rfl⟩⟩ := directoryNode_cases hnode
        · simp only [hnode, Option.toList_some, forest, TreeNode.all, List.append_nil,
            List.mem_singleton] at h
          exact .inl (congrArg some h.symm)
        · simp only [hnode, Option.toList_some, forest, TreeNode.all, List.append_nil,
            List.mem_cons] at h
          refine h.imp (fun h ↦ congrArg some h.symm) fun h ↦ ⟨hlevels, ?_, h⟩
          rw [isClosed, hdenied, hcollapsed]
          rfl
  · rintro (hnode | ⟨hlevels, hopen, h⟩)
    · rw [hnode]
      exact TreeNode.mem_forest_of_mem List.mem_cons_self
    · obtain ⟨hdenied, hcollapsed⟩ := Bool.or_eq_false_iff.mp hopen
      rw [directoryNode, hdenied, hcollapsed]
      cases hnodes : nodes scope levels there inner with
      | nil => simp [hnodes, forest] at h
      | cons child rest =>
          rw [hnodes, forest, List.mem_append] at h
          simp [hlevels, branch, forest, TreeNode.all, h]

/-- A node of a tree is a node of one of the directories at the top, or is found below one of them. -/
theorem mem_forest_nodes_succ : node ∈ forest (nodes scope (levels + 1) here entries) ↔
    node ∈ nodes scope (levels + 1) here entries ∨
      ∃ name inner, (name, inner) ∈ subdirectories scope.hidden entries ∧ levels ≠ 0 ∧
        isClosed scope (here ++ [name]) inner = false ∧
          node ∈ forest (nodes scope levels (here ++ [name]) inner) := by
  rw [mem_nodes_succ, nodes_succ, TreeNode.forest_append, List.mem_append, forest_leaves,
    TreeNode.forest_filterMap, List.mem_flatMap, Prod.exists]
  simp only [mem_forest_directoryNode]
  constructor
  · rintro (⟨name, inner, hmem, hnode | hbelow⟩ | hleaf)
    · exact .inl (.inl ⟨name, inner, hmem, hnode⟩)
    · exact .inr ⟨name, inner, hmem, hbelow⟩
    · exact .inl (.inr (by simpa [eq_comm] using hleaf))
  · rintro ((⟨name, inner, hmem, hnode⟩ | ⟨name, hmem, rfl⟩) | ⟨name, inner, hmem, hbelow⟩)
    · exact .inl ⟨name, inner, hmem, .inl hnode⟩
    · exact .inr (List.mem_map_of_mem hmem)
    · exact .inl ⟨name, inner, hmem, .inr hbelow⟩

/-- A directory of a tree is one that the walk finds, with the nodes of what it holds. -/
theorem exists_nodes_of_mem_forest {path : String} {children : List TreeNode}
    (hdistinct : (Entry.directory entries).Named List.Nodup)
    (h : .directory name path children ∈ forest (nodes scope levels here entries)) :
    ∃ place rest inner, place ≠ [] ∧ path = Path.relativeText place ∧ children ≠ [] ∧
      children = nodes scope rest place inner ∧ (inner.map (·.1)).Nodup := by
  induction levels generalizing here entries with
  | zero => simp [nodes, forest] at h
  | succ levels ih =>
      have hbelow {name : String} {inner : List (String × Entry)}
          (hmem : (name, inner) ∈ subdirectories scope.hidden entries) :
          (Entry.directory inner).Named List.Nodup :=
        hdistinct.inner _ (Entry.mem_subdirectories.mp hmem).2
      rcases mem_forest_nodes_succ.mp h with h | ⟨name', inner, hmem, -, -, h⟩
      · rcases mem_nodes_succ.mp h with ⟨name', inner, hmem, hnode⟩ | ⟨name', -, heq⟩
        · obtain ⟨-, -, ⟨-, heq⟩ | ⟨-, hne, heq⟩⟩ := directoryNode_cases hnode
          · simp at heq
          · obtain ⟨-, rfl, rfl⟩ := TreeNode.directory.inj heq
            exact ⟨_, _, inner, by simp, rfl, hne, rfl, (hbelow hmem).names⟩
        · simp [leaf] at heq
      · exact ih (hbelow hmem) h

/-- The directories that are shown by numbers are those that a walk meets, finds readable and finds
crowded. -/
theorem collapsed_mem_forest_iff {path : String} {files dirs : Int} :
    .collapsed name path files dirs ∈ forest (nodes scope (levels + 1) here entries) ↔
      ∃ place inner, (place ++ [name], inner) ∈ met scope.hidden (isClosed scope) levels here entries ∧
        scope.denied (place ++ [name]) = false ∧ isCollapsed scope (place ++ [name]) inner = true ∧
        path = Path.relativeText (place ++ [name]) ∧ files = (leaves scope inner).length ∧
        dirs = (subdirectories scope.hidden inner).length := by
  induction levels generalizing here entries with
  | zero =>
      simp [mem_forest_nodes_succ, mem_nodes_succ, met, directoryNode, leaf]
  | succ levels ih =>
      rw [mem_forest_nodes_succ, mem_nodes_succ]
      simp only [Walk.mem_met_succ]
      constructor
      · rintro ((⟨name', inner, hmem, hnode⟩ | ⟨name', -, heq⟩) | ⟨name', inner, hmem, -, hopen, h⟩)
        · obtain ⟨-, hdenied, ⟨hcollapsed, heq⟩ | ⟨-, -, heq⟩⟩ := directoryNode_cases hnode
          · obtain ⟨rfl, rfl, rfl, rfl⟩ := TreeNode.collapsed.inj heq
            exact ⟨here, inner, ⟨name, inner, hmem, .inl rfl⟩, hdenied, hcollapsed, rfl, rfl, rfl⟩
          · simp at heq
        · simp [leaf] at heq
        · obtain ⟨place, held, hmet, hshown⟩ := ih.mp h
          exact ⟨place, held, ⟨name', inner, hmem, .inr ⟨hopen, hmet⟩⟩, hshown⟩
      · rintro ⟨place, held, ⟨name', inner, hmem, heq | ⟨hopen, hmet⟩⟩, hdenied, hcollapsed, hshown⟩
        · obtain ⟨hplace, rfl⟩ := Prod.mk.inj heq
          obtain ⟨rfl, hname⟩ := List.append_inj' hplace rfl
          obtain rfl := List.singleton_inj.mp hname
          obtain ⟨rfl, rfl, rfl⟩ := hshown
          refine .inl (.inl ⟨name, held, hmem, ?_⟩)
          rw [directoryNode, hdenied, hcollapsed]
          simp
        · exact .inr ⟨name', inner, hmem, Nat.succ_ne_zero levels, hopen,
            ih.mpr ⟨place, held, hmet, hdenied, hcollapsed, hshown⟩⟩

/-! ## The whole tree -/

section

variable (fs : FileSystem) (style : Style) (marks : List Location) (root : Path)
  (entries : List (String × Entry)) (levels : Nat)

/-- A directory that a tree gets to: less deep than the tree, under names that are not ignored. It and
the directories above it can be listed, and those above it are spread out. -/
structure IsMet (dir : Location) (name : String) (held : List (String × Entry)) : Prop where
  entry : (Entry.directory entries).find? (dir ++ [name]) = some (.directory held)
  depth : (dir ++ [name]).length < levels
  shown : ∀ part ∈ dir ++ [name], Text.isIgnored style.ignored part = false
  readable : ∀ above, above <+: dir ++ [name] → above ≠ [] → root.join ⟨"", above⟩ ∉ fs.denied
  spread : IsSpread style marks entries dir

/-- A directory that has something to show, too much to show, and nothing significant in it. -/
structure IsSummed (place : Location) (held : List (String × Entry)) : Prop where
  shows : held.countP (isVisible style) ≠ 0
  crowded : style.threshold < (held.countP (isVisible style) : Nat)
  insignificant : ∀ mark ∈ marks, ¬ place <+: mark

/-- How many of some entries are directories that are shown. -/
def directoriesIn (held : List (String × Entry)) : Nat :=
  held.countP fun x ↦ !Text.isIgnored style.ignored x.1 && x.2.isDirectory

/-- How many of some entries are shown and are no directories. -/
def filesIn (held : List (String × Entry)) : Nat :=
  held.countP fun x ↦ !x.2.isDirectory && !Text.isIgnored style.ignored x.1 &&
    !Text.isIgnored style.noise x.1

/-- Directories have something in them, siblings are in order, what lies in a directory has its path,
and there are no more levels than asked for. -/
structure IsRegular (tree : List TreeNode) : Prop where
  children_ne_nil : ∀ name path children, .directory name path children ∈ forest tree →
    children ≠ []
  ordered : AreOrdered tree ∧ ∀ name path children, .directory name path children ∈ forest tree →
    AreOrdered children
  paths : (∀ node ∈ tree, node.path = node.name) ∧
    ∀ name path children, .directory name path children ∈ forest tree →
      ∀ child ∈ children, child.path = path ++ "/" ++ child.name
  height_le : forestHeight tree ≤ levels

/-- The shape of a tree: it is regular, and of the directories that it gets to it shows those by numbers
that are to be summed up, and no others. -/
structure IsShaped (tree : List TreeNode) : Prop extends IsRegular levels tree where
  collapsed_iff : ∀ name path files dirs, .collapsed name path files dirs ∈ forest tree ↔
    ∃ entries dir held, fs.scan root = .ok entries ∧
      IsMet fs style marks root entries levels dir name held ∧
      IsSummed style marks (dir ++ [name]) held ∧ path = Path.relativeText (dir ++ [name]) ∧
      files = filesIn style held ∧ dirs = directoriesIn style held
  summed_iff : ∀ entries dir name held, fs.scan root = .ok entries →
    IsMet fs style marks root entries levels dir name held →
      ((∃ files dirs, .collapsed name (Path.relativeText (dir ++ [name])) files dirs ∈ forest tree) ↔
        IsSummed style marks (dir ++ [name]) held)

end

variable {fs : FileSystem} {style : Style} {marks : List Location} {root : Path}
  {held : List (String × Entry)} {dir : Location}

theorem length_leaves (scope : Scope) (entries : List (String × Entry)) :
    (leaves scope entries).length = entries.countP fun x ↦
      !x.2.isDirectory && !scope.hidden x.1 && !scope.noise x.1 := by
  rw [leaves, Text.sorted, List.length_mergeSort, List.length_map, List.countP_eq_length_filter]

theorem isCollapsed_iff (hmarks : ∀ mark ∈ marks, ∀ name ∈ mark, PlainName name)
    (hne : there ≠ []) (hplain : ∀ name ∈ there, PlainName name) :
    isCollapsed (scopeOf fs style marks root) there held = true ↔ IsSummed style marks there held := by
  by_cases hshows : held.countP (isVisible style) = 0
  · have hcount : shownCount (scopeOf fs style marks root) held = 0 :=
      (shownCount_eq _ held).trans hshows
    constructor
    · intro h
      simp [isCollapsed, hcount] at h
    · intro h
      exact absurd hshows h.shows
  · rw [← Bool.not_eq_false, isCollapsed_eq_false_iff hmarks hne hplain hshows]
    constructor
    · intro h
      obtain ⟨hcrowded, hnone⟩ := Classical.not_imp.mp h
      exact ⟨hshows, hcrowded, fun mark hmark hbegins ↦ hnone ⟨mark, hmark, hbegins⟩⟩
    · rintro ⟨-, hcrowded, hnone⟩ h
      obtain ⟨mark, hmark, hbegins⟩ := h hcrowded
      exact hnone mark hmark hbegins

/-- What lies above a shown directory has something to show. -/
theorem countP_isVisible_above_ne_zero
    (hentry : (Entry.directory entries).find? (dir ++ [name]) = some (.directory held))
    (hshown : ∀ part ∈ dir ++ [name], Text.isIgnored style.ignored part = false)
    {above : Location} (habove : above <+: dir)
    (hinner : (Entry.directory entries).find? above = some (.directory inner)) :
    inner.countP (isVisible style) ≠ 0 := by
  obtain ⟨next, rest, hdir⟩ : ∃ next rest, dir ++ [name] = above ++ next :: rest := by
    obtain ⟨mid, rfl⟩ := habove
    cases mid with
    | nil => exact ⟨name, [], by simp⟩
    | cons next rest => exact ⟨next, rest ++ [name], by simp⟩
  rw [hdir] at hentry hshown
  exact countP_isVisible_ne_zero hinner hentry (hshown next (by simp)) fun _ ↦ .inl rfl

theorem denied_below_eq_false_iff {paths : List String} :
    (Scope.below fs style (significant paths) root).denied there = false ↔
      root.join ⟨"", there⟩ ∉ fs.denied := by
  simp [Scope.below]

/-- A walk finds all above a directory open if it can be listed and is spread out. -/
theorem opened_below_iff {paths : List String}
    (hentry : (Entry.directory entries).find? (dir ++ [name]) = some (.directory held))
    (hshown : ∀ part ∈ dir ++ [name], Text.isIgnored style.ignored part = false) :
    (∀ above, above <+: dir → above ≠ [] → ∀ found,
      (Entry.directory entries).find? above = some (.directory found) →
        isClosed (Scope.below fs style (significant paths) root) ([] ++ above) found = false) ↔
      (∀ above, above <+: dir → above ≠ [] → root.join ⟨"", above⟩ ∉ fs.denied) ∧
        IsSpreadBy style entries paths dir := by
  have hopen {above : Location} (habove : above <+: dir) {found : List (String × Entry)}
      (hfound : (Entry.directory entries).find? above = some (.directory found)) :
      isClosed (Scope.below fs style (significant paths) root) ([] ++ above) found = false ↔
        root.join ⟨"", above⟩ ∉ fs.denied ∧
          (style.threshold < (found.countP (isVisible style) : Nat) →
            Path.relativeText above ∈ significant paths) := by
    rw [List.nil_append, isClosed, Bool.or_eq_false_iff, denied_below_eq_false_iff,
      isCollapsed_below_eq_false_iff (countP_isVisible_above_ne_zero hentry hshown habove hfound)]
  constructor
  · intro h
    refine ⟨?_, fun above habove hne found hfound ↦
      ((hopen habove hfound).mp (h above habove hne found hfound)).2⟩
    intro above habove hne
    obtain ⟨inner, hinner, -⟩ := Entry.find?_concat_iff.mp hentry
    obtain ⟨found, hfound⟩ := Entry.exists_directory_of_prefix hinner habove
    exact ((hopen habove hfound).mp (h above habove hne found hfound)).1
  · rintro ⟨hreadable, hspread⟩ above habove hne found hfound
    exact (hopen habove hfound).mpr
      ⟨hreadable above habove hne, hspread above habove hne found hfound⟩

/-- Places that have something significant below them are the significant ones for their paths. -/
theorem isSpreadBy_iff (hentries : (Entry.directory entries).WellFormed)
    (hmarks : ∀ mark ∈ marks, ∀ name ∈ mark, PlainName name) :
    IsSpreadBy style entries (marks.map Path.relativeText) dir ↔ IsSpread style marks entries dir := by
  refine forall_congr' fun above ↦ forall_congr' fun _ ↦ forall_congr' fun hne ↦
    forall_congr' fun found ↦ forall_congr' fun hfound ↦ forall_congr' fun _ ↦ ?_
  exact relativeText_mem_significant hmarks hne (hentries.plainName_of_find? hfound)

theorem mem_met_iff_isMet (hentries : (Entry.directory entries).WellFormed)
    (hdistinct : (Entry.directory entries).Named List.Nodup)
    (hmarks : ∀ mark ∈ marks, ∀ name ∈ mark, PlainName name) :
    ((dir ++ [name], held) ∈ met (scopeOf fs style marks root).hidden
        (isClosed (scopeOf fs style marks root)) levels [] entries ∧
      (scopeOf fs style marks root).denied (dir ++ [name]) = false) ↔
      IsMet fs style marks root entries (levels + 1) dir name held := by
  rw [Walk.mem_met_iff hdistinct, denied_below_eq_false_iff]
  constructor
  · rintro ⟨⟨dir', name', inner, hplace, hlength, henters, hname, hlookup⟩, hdenied⟩
    obtain ⟨rfl, hlast⟩ := List.append_inj' hplace rfl
    obtain rfl := List.singleton_inj.mp hlast
    have hentry : (Entry.directory entries).find? (dir ++ [name]) = some (.directory held) :=
      Entry.find?_concat_iff.mpr ⟨inner, henters.found, hlookup⟩
    have hshown : ∀ part ∈ dir ++ [name], Text.isIgnored style.ignored part = false :=
      List.forall_mem_append.mpr ⟨henters.shown, List.forall_mem_singleton.mpr hname⟩
    obtain ⟨hreadable, hspread⟩ := (opened_below_iff hentry hshown).mp henters.opened
    refine ⟨hentry, by simpa using hlength, hshown, ?_, (isSpreadBy_iff hentries hmarks).mp hspread⟩
    intro above habove hne
    rcases List.prefix_concat_iff.mp habove with rfl | habove
    · exact hdenied
    · exact hreadable above habove hne
  · rintro ⟨hentry, hdepth, hshown, hreadable, hspread⟩
    obtain ⟨inner, hfound, hlookup⟩ := Entry.find?_concat_iff.mp hentry
    obtain ⟨habove, hname⟩ := List.forall_mem_append.mp hshown
    refine ⟨⟨dir, name, inner, rfl, by simpa using hdepth, ⟨hfound, habove, ?_⟩,
      hname name List.mem_cons_self, hlookup⟩, hreadable _ List.prefix_rfl (by simp)⟩
    refine (opened_below_iff hentry hshown).mpr ⟨?_, (isSpreadBy_iff hentries hmarks).mpr hspread⟩
    intro above habove hne
    exact hreadable above (habove.trans (List.prefix_append ..)) hne

theorem collapsed_mem_nodes_iff (hentries : (Entry.directory entries).WellFormed)
    (hdistinct : (Entry.directory entries).Named List.Nodup)
    (hmarks : ∀ mark ∈ marks, ∀ name ∈ mark, PlainName name) {path : String} {files dirs : Int} :
    .collapsed name path files dirs ∈
        forest (nodes (scopeOf fs style marks root) levels [] entries) ↔
      ∃ dir held, IsMet fs style marks root entries levels dir name held ∧
        IsSummed style marks (dir ++ [name]) held ∧ path = Path.relativeText (dir ++ [name]) ∧
        files = filesIn style held ∧ dirs = directoriesIn style held := by
  cases levels with
  | zero =>
      constructor
      · simp [nodes, forest]
      · rintro ⟨dir, held, hmet, -⟩
        exact absurd hmet.depth (Nat.not_lt_zero _)
  | succ levels =>
      rw [collapsed_mem_forest_iff]
      refine exists_congr fun dir ↦ exists_congr fun held ↦ ?_
      rw [← and_assoc, mem_met_iff_isMet hentries hdistinct hmarks, length_leaves,
        length_subdirectories]
      refine and_congr_right fun hmet ↦ and_congr_left fun _ ↦ ?_
      exact isCollapsed_iff hmarks (by simp) (hentries.plainName_of_find? hmet.entry)

theorem isRegular_nil (levels : Nat) : IsRegular levels [] :=
  ⟨by simp [forest], ⟨⟨[], [], by simp⟩, by simp [forest]⟩, by simp [forest], Nat.zero_le levels⟩

theorem isRegular_nodes (scope : Scope) (levels : Nat)
    (hdistinct : (Entry.directory entries).Named List.Nodup) :
    IsRegular levels (nodes scope levels [] entries) := by
  refine ⟨?_, ⟨areOrdered_nodes hdistinct.names, ?_⟩, ⟨?_, ?_⟩, forestHeight_nodes_le⟩
  · intro name path children hmem
    obtain ⟨place, rest, inner, -, -, hne, -⟩ := exists_nodes_of_mem_forest hdistinct hmem
    exact hne
  · intro name path children hmem
    obtain ⟨place, rest, inner, -, -, -, rfl, hnodup⟩ := exists_nodes_of_mem_forest hdistinct hmem
    exact areOrdered_nodes hnodup
  · intro node hnode
    rw [path_of_mem_nodes hnode, List.nil_append, Path.relativeText_of_ne_nil (by simp),
      String.intercalate_singleton]
  · intro name path children hmem child hchild
    obtain ⟨place, rest, inner, hplace, rfl, -, rfl, -⟩ := exists_nodes_of_mem_forest hdistinct hmem
    rw [path_of_mem_nodes hchild, Path.relativeText_concat hplace]

theorem collapsed_mem_build_iff (hfs : fs.WellFormed) (hdistinct : fs.Distinct)
    (hmarks : ∀ mark ∈ marks, ∀ name ∈ mark, PlainName name) {path : String} {files dirs : Int} :
    .collapsed name path files dirs ∈
        forest (build fs style (marks.map Path.relativeText) root levels).1 ↔
      ∃ entries dir held, fs.scan root = .ok entries ∧
        IsMet fs style marks root entries levels dir name held ∧
        IsSummed style marks (dir ++ [name]) held ∧ path = Path.relativeText (dir ++ [name]) ∧
        files = filesIn style held ∧ dirs = directoriesIn style held := by
  cases hscan : fs.scan root with
  | error e =>
      rw [build_of_scan_error hscan]
      simp [forest]
  | ok entries =>
      rw [build_of_scan hscan, collapsed_mem_nodes_iff (hfs.of_scan hscan)
        (FileSystem.named_of_scan hdistinct hscan) hmarks]
      simp

/-- The tree of every project has the shape of a tree. -/
theorem build_shaped (style : Style) (root : Path) (levels : Nat) (hfs : fs.WellFormed)
    (hdistinct : fs.Distinct) (hmarks : ∀ mark ∈ marks, ∀ name ∈ mark, PlainName name) :
    IsShaped fs style marks root levels
      (build fs style (marks.map Path.relativeText) root levels).1 := by
  refine ⟨?regular, fun _ _ _ _ ↦ collapsed_mem_build_iff hfs hdistinct hmarks, ?summed⟩
  case regular =>
    cases hscan : fs.scan root with
    | error e =>
        rw [build_of_scan_error hscan]
        exact isRegular_nil levels
    | ok entries =>
        rw [build_of_scan hscan]
        exact isRegular_nodes _ levels (FileSystem.named_of_scan hdistinct hscan)
  case summed =>
    intro entries dir name held hscan hmet
    have hplain := (hfs.of_scan hscan).plainName_of_find? hmet.entry
    constructor
    · rintro ⟨files, dirs, hnode⟩
      obtain ⟨entries', dir', held', hscan', hmet', hsummed, hpath, -⟩ :=
        (collapsed_mem_build_iff hfs hdistinct hmarks).mp hnode
      obtain rfl := Except.ok.inj (hscan.symm.trans hscan')
      have hplain' := (hfs.of_scan hscan).plainName_of_find? hmet'.entry
      -- The path of the node leads to one place only, and so to one directory.
      have hplace := Path.relativeText_inj hplain hplain' hpath
      have hentry := hmet.entry
      rw [hplace, hmet'.entry] at hentry
      obtain rfl := Entry.directory.inj (Option.some_inj.mp hentry)
      rwa [hplace]
    · intro hsummed
      exact ⟨_, _, (collapsed_mem_build_iff hfs hdistinct hmarks).mpr
        ⟨entries, dir, held, hscan, hmet, hsummed, rfl, rfl, rfl⟩⟩

/-- A style under which even an empty directory has more to show than the threshold. -/
def emptyCrowdedStyle : Style where
  threshold := -1
  ignored := []
  noise := []

/-- A project that holds an empty directory. -/
def emptied : FileSystem where
  entries := [("p", .directory [("d", .directory [])])]

theorem emptied_scan : emptied.scan ⟨"/", ["p"]⟩ = .ok [("d", .directory [])] := by
  have hstraight : emptied.IsStraight ⟨"/", ["p"]⟩ :=
    FileSystem.isStraight_of_at? (by decide) (by decide) rfl
  have hstat : emptied.stat ⟨"/", ["p"]⟩ = .ok (.directory [("d", .directory [])]) :=
    hstraight.stat_eq (by decide) (by decide) rfl
  rw [FileSystem.scan, FileSystem.entriesOf, hstat]
  rfl

/-- A directory with more to show than the threshold, nothing significant in it and no entry is left
out. -/
theorem empty_directory_left_out :
    emptied.scan ⟨"/", ["p"]⟩ = .ok [("d", .directory [])] ∧
      IsMet emptied emptyCrowdedStyle [] ⟨"/", ["p"]⟩ [("d", .directory [])] 2 [] "d" [] ∧
      emptyCrowdedStyle.threshold < (([] : List (String × Entry)).countP
        (isVisible emptyCrowdedStyle) : Nat) ∧
      (∀ mark ∈ ([] : List Location), ¬ ["d"] <+: mark) ∧
      (build emptied emptyCrowdedStyle [] ⟨"/", ["p"]⟩ 2).1 = [] := by
  refine ⟨emptied_scan, ⟨rfl, by decide, ?_, ?_, ?_⟩, by decide, by simp, ?_⟩
  · exact fun _ _ ↦ rfl
  · exact fun _ _ _ ↦ List.not_mem_nil
  · intro above habove hne
    exact absurd (List.prefix_nil.mp habove) hne
  · rw [build_of_scan emptied_scan]
    decide +kernel

/-- In the small project a directory with one entry is summed up when no entry may be shown. -/
theorem build_shaped_nested :
    .collapsed "a" "a" 1 0 ∈
        forest (build FileSystem.nested crowdedStyle [] ⟨"/", ["p"]⟩ 2).1 := by
  have hshaped : IsShaped FileSystem.nested crowdedStyle [] ⟨"/", ["p"]⟩ 2
      (build FileSystem.nested crowdedStyle [] ⟨"/", ["p"]⟩ 2).1 :=
    build_shaped crowdedStyle ⟨"/", ["p"]⟩ 2 FileSystem.nested_wellFormed
      FileSystem.nested_distinct (by simp)
  refine (hshaped.collapsed_iff _ _ _ _).mpr
    ⟨FileSystem.nestedEntries, [], _, FileSystem.nested_scan, ⟨rfl, by decide, ?_, ?_, ?_⟩,
      ⟨by decide, by decide, by simp⟩, by decide, by decide, by decide⟩
  · exact fun _ _ ↦ rfl
  · exact fun _ _ _ ↦ List.not_mem_nil
  · intro above habove hne
    exact absurd (List.prefix_nil.mp habove) hne

end DirectoryTree

end Dossier

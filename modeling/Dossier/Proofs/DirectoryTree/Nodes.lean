import Dossier.DirectoryTree.Basic
import Dossier.Proofs.FileSystem.Walk
import Mathlib.Data.List.Perm.Basic

/-!
# The nodes of a tree

The files of a tree are the shown files of the directories that a walk enters. The walk does not
enter a directory that cannot be listed or that is shown by numbers alone.
-/

namespace Dossier

namespace TreeNode

/-- The name of what a node stands for. -/
def name : TreeNode → String
  | .file name _ _ => name
  | .directory name _ _ => name
  | .collapsed name _ _ _ => name

/-- The path of what a node stands for. -/
def path : TreeNode → String
  | .file _ path _ => path
  | .directory _ path _ => path
  | .collapsed _ path _ _ => path

/-- Whether a node stands for a file. -/
def isFile : TreeNode → Bool
  | .file .. => true
  | _ => false

mutual

/-- A node and all nodes below it. -/
def all : TreeNode → List TreeNode
  | .directory name path children => .directory name path children :: forest children
  | .file name path remark => [.file name path remark]
  | .collapsed name path files dirs => [.collapsed name path files dirs]

/-- Some nodes and all nodes below them. -/
def forest : List TreeNode → List TreeNode
  | [] => []
  | node :: rest => all node ++ forest rest

end

theorem forest_append (nodes nodes' : List TreeNode) :
    forest (nodes ++ nodes') = forest nodes ++ forest nodes' := by
  induction nodes with
  | nil => rfl
  | cons node rest ih => rw [List.cons_append, forest, forest, ih, List.append_assoc]

theorem forest_filterMap {α : Type} (f : α → Option TreeNode) (xs : List α) :
    forest (xs.filterMap f) = xs.flatMap fun x ↦ forest (f x).toList := by
  induction xs with
  | nil => rfl
  | cons x rest ih =>
      rw [List.filterMap_cons, List.flatMap_cons, ← ih]
      cases f x with
      | none => rfl
      | some node => simp [forest]

end TreeNode

namespace DirectoryTree

open Entry (subdirectories)
open TreeNode (forest)
open Walk (entered)

variable {scope : Scope} {levels : Nat} {here there : Location} {entries inner : List (String × Entry)}
  {name : String}

/-! ## The nodes of a directory -/

/-- The node of a directory with `levels` levels of entries, if it has one. -/
def directoryNode (scope : Scope) (levels : Nat) (there : Location) (name : String)
    (inner : List (String × Entry)) : Option TreeNode :=
  if levels = 0 || scope.denied there then none
  else if isCollapsed scope there inner then
    some (.collapsed name (Path.relativeText there) (leaves scope inner).length
      (subdirectories scope.hidden inner).length)
  else branch name there (nodes scope levels there inner)

theorem nodes_succ (scope : Scope) (levels : Nat) (here : Location)
    (entries : List (String × Entry)) :
    nodes scope (levels + 1) here entries =
      ((subdirectories scope.hidden entries).filterMap fun (name, inner) ↦
        directoryNode scope levels (here ++ [name]) name inner) ++
      (leaves scope entries).map (leaf scope here) :=
  rfl

theorem mem_leaves : name ∈ leaves scope entries ↔ ∃ e, (name, e) ∈ entries ∧
    e.isDirectory = false ∧ scope.hidden name = false ∧ scope.noise name = false := by
  rw [leaves, Text.mem_sorted, List.mem_map]
  constructor
  · rintro ⟨⟨name, e⟩, hmem, rfl⟩
    obtain ⟨hmem, hshown⟩ := List.mem_filter.mp hmem
    exact ⟨e, hmem, by simpa [and_assoc] using hshown⟩
  · rintro ⟨e, hmem, hshown⟩
    exact ⟨(name, e), List.mem_filter.mpr ⟨hmem, by simpa [and_assoc] using hshown⟩, rfl⟩

theorem nodup_leaves (hnodup : (entries.map (·.1)).Nodup) : (leaves scope entries).Nodup := by
  rw [leaves, Text.sorted, (List.mergeSort_perm _ _).nodup_iff]
  exact hnodup.sublist (List.filter_sublist.map _)

theorem length_subdirectories (hidden : String → Bool) (entries : List (String × Entry)) :
    (subdirectories hidden entries).length =
      entries.countP fun x ↦ !hidden x.1 && x.2.isDirectory := by
  rw [subdirectories, Entry.sortedByName, List.length_mergeSort]
  induction entries with
  | nil => rfl
  | cons x rest ih =>
      obtain ⟨name, e⟩ := x
      cases e with
      | file | link | special => simp [ih, Entry.isDirectory]
      | directory inner => cases hhidden : hidden name <;> simp [hhidden, ih, Entry.isDirectory]

/-- The directories and files of a directory that are shown are those entries that are not hidden, less
the noise among the files. -/
theorem shownCount_eq (scope : Scope) (entries : List (String × Entry)) :
    shownCount scope entries =
      entries.countP fun x ↦ !scope.hidden x.1 && (x.2.isDirectory || !scope.noise x.1) := by
  rw [shownCount, length_subdirectories, leaves, Text.sorted, List.length_mergeSort,
    List.length_map, ← List.countP_eq_length_filter]
  induction entries with
  | nil => rfl
  | cons x rest ih =>
      simp only [List.countP_cons, ← ih]
      cases x.2.isDirectory <;> cases scope.hidden x.1 <;> simp <;> omega

/-! ## The files of a tree -/

/-- Whether a tree shows nothing of what a directory holds. -/
def isClosed (scope : Scope) (there : Location) (inner : List (String × Entry)) : Bool :=
  scope.denied there || isCollapsed scope there inner

theorem forest_leaves (names : List String) :
    forest (names.map (leaf scope here)) = names.map (leaf scope here) := by
  induction names with
  | nil => rfl
  | cons name rest ih => simp [forest, TreeNode.all, leaf, ih]

theorem filter_forest_branch (children : List TreeNode) :
    (forest (branch name there children).toList).filter TreeNode.isFile =
      (forest children).filter TreeNode.isFile := by
  cases children with
  | nil => rfl
  | cons child rest => simp [branch, forest, TreeNode.all, TreeNode.isFile]

/-- The files of a tree are those of the directories that a walk enters. -/
theorem filter_forest_nodes (scope : Scope) (levels : Nat) (here : Location)
    (entries : List (String × Entry)) :
    ((forest (nodes scope (levels + 1) here entries)).filter TreeNode.isFile).Perm
      ((entered scope.hidden (isClosed scope) levels here entries).flatMap fun x ↦
        (leaves scope x.2).map (leaf scope x.1)) := by
  have hown (here : Location) (entries : List (String × Entry)) :
      (forest ((leaves scope entries).map (leaf scope here))).filter TreeNode.isFile =
        (leaves scope entries).map (leaf scope here) := by
    rw [forest_leaves, List.filter_eq_self]
    rintro node hnode
    obtain ⟨name, -, rfl⟩ := List.mem_map.mp hnode
    rfl
  induction levels generalizing here entries with
  | zero =>
      have hnone : (subdirectories scope.hidden entries).filterMap (fun (name, inner) ↦
          directoryNode scope 0 (here ++ [name]) name inner) = [] :=
        List.filterMap_eq_nil_iff.mpr fun x _ ↦ by simp [directoryNode]
      rw [nodes_succ, hnone, List.nil_append, hown]
      simp [entered, Walk.met]
  | succ levels ih =>
      rw [nodes_succ, TreeNode.forest_append, List.filter_append, hown, TreeNode.forest_filterMap,
        List.filter_flatMap, Walk.entered_succ, List.flatMap_cons, List.flatMap_assoc]
      refine List.perm_append_comm.trans (List.Perm.append_left _ ?_)
      refine List.Perm.flatMap_left _ ?_
      rintro ⟨name, inner⟩ -
      dsimp only
      rw [directoryNode, isClosed]
      cases hdenied : scope.denied (here ++ [name]) with
      | true => simp [forest]
      | false =>
          cases hcollapsed : isCollapsed scope (here ++ [name]) inner with
          | true => simp [forest, TreeNode.all, TreeNode.isFile]
          | false =>
              simp only [Bool.or_self, Nat.add_one_ne_zero, decide_false,
                if_neg Bool.false_ne_true, filter_forest_branch]
              exact ih (here ++ [name]) inner

end DirectoryTree

end Dossier

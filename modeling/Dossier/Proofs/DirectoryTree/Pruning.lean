import Dossier.DirectoryTree.Render
import Dossier.Proofs.DirectoryTree.Nodes
import Dossier.Proofs.Text.Length

/-!
# Trees of different depths

A tree with fewer levels is a deeper tree without the directories that are too deep and without those that
nothing is left in. So it never takes more room when it is shown, whichever rules change.
-/

namespace Dossier

namespace TreeNode

mutual

/-- What is left of a node if there is room for a number of levels of directories, and no directory
stays without anything in it. -/
def prune : TreeNode → (room : Nat) → Option TreeNode
  | .file name path remark, _ => some (.file name path remark)
  | .collapsed .., 0 => none
  | .collapsed name path files dirs, _ + 1 => some (.collapsed name path files dirs)
  | .directory .., 0 => none
  | .directory name path children, room + 1 => match pruneAll children room with
    | [] => none
    | child :: rest => some (.directory name path (child :: rest))

/-- What is left of some nodes. -/
def pruneAll : List TreeNode → (room : Nat) → List TreeNode
  | [], _ => []
  | node :: rest, room => (prune node room).toList ++ pruneAll rest room

end

theorem pruneAll_append (nodes nodes' : List TreeNode) (room : Nat) :
    pruneAll (nodes ++ nodes') room = pruneAll nodes room ++ pruneAll nodes' room := by
  induction nodes with
  | nil => rfl
  | cons node rest ih => rw [List.cons_append, pruneAll, pruneAll, ih, List.append_assoc]

theorem pruneAll_filterMap {α : Type} (f : α → Option TreeNode) (xs : List α) (room : Nat) :
    pruneAll (xs.filterMap f) room = xs.filterMap fun x ↦ (f x).bind (prune · room) := by
  induction xs with
  | nil => rfl
  | cons x rest ih =>
      rw [List.filterMap_cons, List.filterMap_cons]
      cases f x with
      | none => exact ih
      | some node =>
          dsimp only
          rw [pruneAll, ih, Option.bind_some]
          cases prune node room <;> rfl

/-! ## How much room a tree takes -/

mutual

/-- How many characters the lines of a node take behind an indent, with an end for each line. -/
def extent (indent : Nat) : TreeNode → Nat
  | .directory name path children =>
    indent + 4 + (label (.directory name path [])).length + 1 + forestExtent (indent + 4) children
  | .file name path remark => indent + 4 + (label (.file name path remark)).length + 1
  | .collapsed name path files dirs =>
    indent + 4 + (label (.collapsed name path files dirs)).length + 1

/-- How many characters the lines of siblings take. -/
def forestExtent (indent : Nat) : List TreeNode → Nat
  | [] => 0
  | node :: rest => extent indent node + forestExtent indent rest

end

theorem length_connector (last : Bool) : (connector last).length = 4 := by
  cases last <;> rfl

theorem length_continuation (last : Bool) : (continuation last).length = 4 := by
  cases last <;> rfl

mutual

theorem sum_lines (pad : String) (last : Bool) (node : TreeNode) :
    ((lines pad last node).map fun s ↦ s.length + 1).sum = extent pad.length node := by
  cases node with
  | directory name path children =>
      have hchildren := sum_forestLines (pad ++ continuation last) children
      rw [String.length_append, length_continuation] at hchildren
      simp only [lines, extent, List.map_cons, List.sum_cons, String.length_append,
        length_connector, hchildren]
  | file name path remark =>
      simp only [lines, extent, List.map_cons, List.map_nil, List.sum_singleton,
        String.length_append, length_connector]
  | collapsed name path files dirs =>
      simp only [lines, extent, List.map_cons, List.map_nil, List.sum_singleton,
        String.length_append, length_connector]

theorem sum_forestLines (pad : String) (nodes : List TreeNode) :
    ((forestLines pad nodes).map fun s ↦ s.length + 1).sum = forestExtent pad.length nodes := by
  cases nodes with
  | nil => rfl
  | cons node rest =>
      rw [forestLines, List.map_append, List.sum_append, sum_lines pad rest.isEmpty node,
        sum_forestLines pad rest, forestExtent]

end

theorem length_render (pad : String) (nodes : List TreeNode) :
    (render pad nodes).length = forestExtent pad.length nodes - 1 := by
  rw [render, ← sum_forestLines]
  cases forestLines pad nodes with
  | nil => rfl
  | cons line rest =>
      rw [Text.length_joinLines_cons, List.map_cons, List.sum_cons]
      omega

mutual

theorem forestExtent_prune_le (indent : Nat) (node : TreeNode) (room : Nat) :
    forestExtent indent (prune node room).toList ≤ extent indent node := by
  cases node with
  | file name path remark => simp [prune, forestExtent]
  | collapsed name path files dirs =>
      cases room <;> simp [prune, forestExtent]
  | directory name path children =>
      cases room with
      | zero => simp [prune, forestExtent]
      | succ room =>
          have hchildren := forestExtent_pruneAll_le (indent + 4) children room
          rw [prune]
          split
          next => simp [forestExtent]
          next child rest hleft =>
            rw [hleft] at hchildren
            simp only [Option.toList_some, forestExtent, extent] at hchildren ⊢
            omega

/-- Pruning saves room, at every indent. -/
theorem forestExtent_pruneAll_le (indent : Nat) (nodes : List TreeNode) (room : Nat) :
    forestExtent indent (pruneAll nodes room) ≤ forestExtent indent nodes := by
  cases nodes with
  | nil => exact Nat.le_refl _
  | cons node rest =>
      have hnode := forestExtent_prune_le indent node room
      have hrest := forestExtent_pruneAll_le indent rest room
      have happend (xs ys : List TreeNode) :
          forestExtent indent (xs ++ ys) = forestExtent indent xs + forestExtent indent ys := by
        induction xs with
        | nil => simp [forestExtent]
        | cons x xs ih => simp only [List.cons_append, forestExtent, ih, Nat.add_assoc]
      rw [pruneAll, happend, forestExtent]
      exact Nat.add_le_add hnode hrest

end

theorem length_render_pruneAll_le (pad : String) (nodes : List TreeNode) (room : Nat) :
    (render pad (pruneAll nodes room)).length ≤ (render pad nodes).length := by
  rw [length_render, length_render]
  exact Nat.sub_le_sub_right (forestExtent_pruneAll_le _ nodes room) 1

end TreeNode

namespace DirectoryTree

open Entry (subdirectories)
open TreeNode (prune pruneAll render)

theorem length_renderBelow_pruneAll_le (title : String) (nodes : List TreeNode) (room : Nat) :
    (renderBelow title (pruneAll nodes room)).length ≤ (renderBelow title nodes).length := by
  have hbody := TreeNode.length_render_pruneAll_le "" nodes room
  simp only [renderBelow]
  by_cases hpruned : render "" (pruneAll nodes room) = ""
  · have hslash : "/".length ≤ "/\n".length := by decide
    rw [if_pos hpruned]
    split
    · exact Nat.le_refl _
    · simp only [String.length_append]
      omega
  · have hnodes : render "" nodes ≠ "" := by
      intro hempty
      rw [hempty, String.length_empty, Nat.le_zero] at hbody
      exact hpruned (String.length_eq_zero_iff.mp hbody)
    rw [if_neg hpruned, if_neg hnodes]
    simp only [String.length_append]
    omega

/-! ## Cutting a tree off -/

variable {scope : Scope}

theorem pruneAll_leaves (here : Location) (names : List String) (room : Nat) :
    pruneAll (names.map (leaf scope here)) room = names.map (leaf scope here) := by
  induction names with
  | nil => rfl
  | cons name rest ih => rw [List.map_cons, pruneAll, ih, leaf, prune]; rfl

theorem branch_pruneAll (name : String) (there : Location) (children : List TreeNode) (room : Nat) :
    branch name there (pruneAll children room) =
      (branch name there children).bind (prune · (room + 1)) := by
  cases children with
  | nil => rfl
  | cons child rest =>
      have hprune : (branch name there (child :: rest)).bind (prune · (room + 1)) =
          prune (.directory name (Path.relativeText there) (child :: rest)) (room + 1) := rfl
      rw [hprune, prune]
      cases pruneAll (child :: rest) room <;> rfl

/-- The node of a directory with fewer levels of entries is what pruning leaves of it. -/
theorem directoryNode_eq_prune {levels more : Nat} {there : Location} {name : String}
    {inner : List (String × Entry)}
    (h : ∀ room, levels = room + 1 → nodes scope levels there inner =
      pruneAll (nodes scope (levels + more) there inner) room) :
    directoryNode scope levels there name inner =
      (directoryNode scope (levels + more) there name inner).bind (prune · levels) := by
  cases levels with
  | zero =>
      have hnone : ((directoryNode scope (0 + more) there name inner).bind (prune · 0)) = none := by
        rw [directoryNode]
        split
        · rfl
        · split
          · rfl
          · cases nodes scope (0 + more) there inner <;> rfl
      rw [hnone]
      rfl
  | succ room =>
      rw [directoryNode, directoryNode, h room rfl, Nat.succ_add]
      cases scope.denied there with
      | true => simp
      | false =>
          simp only [Nat.add_one_ne_zero, decide_false, Bool.or_self, if_neg Bool.false_ne_true]
          split
          · rfl
          · exact branch_pruneAll name there _ room

/-- A tree with fewer levels is what pruning leaves of a deeper one. -/
theorem nodes_eq_pruneAll (scope : Scope) (levels more : Nat) (here : Location)
    (entries : List (String × Entry)) :
    nodes scope (levels + 1) here entries =
      pruneAll (nodes scope (levels + more + 1) here entries) levels := by
  -- By induction on the levels that both trees have; `more` stays the same on the way down.
  induction levels generalizing here entries with
  | zero =>
      rw [nodes_succ, nodes_succ, TreeNode.pruneAll_append, pruneAll_leaves,
        TreeNode.pruneAll_filterMap]
      simp only [← directoryNode_eq_prune fun room h ↦ absurd h (Nat.succ_ne_zero room).symm]
  | succ levels ih =>
      have hbelow {there : Location} {name : String} {inner : List (String × Entry)} :
          directoryNode scope (levels + 1) there name inner =
            (directoryNode scope (levels + 1 + more) there name inner).bind
              (prune · (levels + 1)) := by
        refine directoryNode_eq_prune fun room h ↦ ?_
        obtain rfl := Nat.succ.inj h
        rw [Nat.succ_add]
        exact ih there inner
      rw [nodes_succ, nodes_succ, TreeNode.pruneAll_append, pruneAll_leaves,
        TreeNode.pruneAll_filterMap]
      simp only [← hbelow]

end DirectoryTree

end Dossier

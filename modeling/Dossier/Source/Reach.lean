import Dossier.Source.Node

/-!
# Reachable declarations

Declarations may be nested in wrappers: namespaces, modules, ambient blocks. `reach` lists a node and
the nodes reached from it in source order; how a walk goes on from each node is given by a function.
-/

namespace Dossier.Node

/-- How a walk goes on from a node. -/
inductive Way where
  /-- It ends here. -/
  | stop
  /-- It enters the named children. -/
  | members
  /-- It enters the named children of one child. -/
  | membersOf (i : Nat)
  /-- It goes on with one child. -/
  | child (i : Nat)
deriving DecidableEq, Repr

mutual

/-- A node, and the nodes reached from it. -/
def reach (way : Node → Way) : Node → List Node
  | ⟨kind, named, field, start, stop, children⟩ =>
    let node : Node := ⟨kind, named, field, start, stop, children⟩
    node :: match way node with
      | .stop => []
      | .members => reachMembers way children
      | .membersOf i => reachMembersOf way i children
      | .child i => reachChild way i children

/-- The nodes reached from the named nodes of a list. -/
def reachMembers (way : Node → Way) : List Node → List Node
  | [] => []
  | node :: rest => (if node.named then reach way node else []) ++ reachMembers way rest

/-- The nodes reached from the named children of one node of a list. -/
def reachMembersOf (way : Node → Way) : Nat → List Node → List Node
  | _, [] => []
  | 0, ⟨_, _, _, _, _, children⟩ :: _ => reachMembers way children
  | i + 1, _ :: rest => reachMembersOf way i rest

/-- The nodes reached from one node of a list. -/
def reachChild (way : Node → Way) : Nat → List Node → List Node
  | _, [] => []
  | 0, node :: _ => reach way node
  | i + 1, _ :: rest => reachChild way i rest

end

mutual

/-- How many wrappers are entered one inside another on the walk from a node. -/
def depth (way : Node → Way) : Node → Nat
  | ⟨kind, named, field, start, stop, children⟩ =>
    match way ⟨kind, named, field, start, stop, children⟩ with
    | .stop => 0
    | .members => depthAmong way children + 1
    | .membersOf i => depthInside way i children + 1
    | .child i => depthAt way i children + 1

/-- How many wrappers are entered one inside another from the named nodes of a list. -/
def depthAmong (way : Node → Way) : List Node → Nat
  | [] => 0
  | node :: rest => max (if node.named then depth way node else 0) (depthAmong way rest)

/-- How many wrappers are entered one inside another from the named children of one node of a list. -/
def depthInside (way : Node → Way) : Nat → List Node → Nat
  | _, [] => 0
  | 0, ⟨_, _, _, _, _, children⟩ :: _ => depthAmong way children
  | i + 1, _ :: rest => depthInside way i rest

/-- How many wrappers are entered one inside another from one node of a list. -/
def depthAt (way : Node → Way) : Nat → List Node → Nat
  | _, [] => 0
  | 0, node :: _ => depth way node
  | i + 1, _ :: rest => depthAt way i rest

end

theorem reach_eq (way : Node → Way) (node : Node) :
    reach way node = node :: match way node with
      | .stop => []
      | .members => reachMembers way node.children
      | .membersOf i => reachMembersOf way i node.children
      | .child i => reachChild way i node.children := by
  cases node
  rw [reach]

theorem reachMembersOf_of_getElem? (way : Node → Way) {i : Nat} {nodes : List Node} {node : Node}
    (h : nodes[i]? = some node) :
    reachMembersOf way i nodes = reachMembers way node.children := by
  induction nodes generalizing i with
  | nil => simp at h
  | cons head rest ih =>
      cases i with
      | zero =>
          obtain rfl : head = node := by simpa using h
          cases head
          rw [reachMembersOf]
      | succ i =>
          rw [reachMembersOf]
          exact ih (by simpa using h)

theorem reachChild_of_getElem? (way : Node → Way) {i : Nat} {nodes : List Node} {node : Node}
    (h : nodes[i]? = some node) : reachChild way i nodes = reach way node := by
  induction nodes generalizing i with
  | nil => simp at h
  | cons head rest ih =>
      cases i with
      | zero =>
          obtain rfl : head = node := by simpa using h
          rw [reachChild]
      | succ i =>
          rw [reachChild]
          exact ih (by simpa using h)

/-- The position of the first child that fills a field. -/
def fieldIndex? (node : Node) (name : String) : Option Nat :=
  node.children.findIdx? (·.field == some name)

/-- The position of the first named child of one of the kinds. -/
def kindIndex? (node : Node) (kinds : List String) : Option Nat :=
  node.children.findIdx? fun child => child.named && kinds.contains child.kind

end Dossier.Node

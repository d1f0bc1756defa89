import Dossier.Proofs.Source.Nested
import Mathlib.Logic.Relation

/-!
# The nodes of a tree

A tree holds its root, the children of the root and whatever these hold. What a node of a
well-nested tree holds lies inside it, and a walk reaches nothing else.
-/

namespace Dossier

theorem Bytes.lineAt_mono (source : Bytes) {i j : Nat} (h : i ≤ j) :
    source.lineAt i ≤ source.lineAt j :=
  Nat.add_le_add_right ((List.take_sublist_take_left h).count_le 10) 1

namespace Node

/-- A node is the root of a tree, or it is held by a child of the root. -/
def Holds : Node → Node → Prop :=
  Relation.ReflTransGen fun n m ↦ m ∈ n.children

variable {n m k : Node} {way : Node → Way}

theorem Holds.refl (n : Node) : n.Holds n :=
  Relation.ReflTransGen.refl

theorem Holds.trans (hnm : n.Holds m) (hmk : m.Holds k) : n.Holds k :=
  Relation.ReflTransGen.trans hnm hmk

theorem holds_of_mem (h : m ∈ n.children) : n.Holds m :=
  Relation.ReflTransGen.single h

theorem holds_of_mem_members (h : m ∈ n.members) : n.Holds m :=
  holds_of_mem (mem_children_of_mem_members h)

theorem holds_of_field? {name : String} (h : n.field? name = some m) : n.Holds m :=
  holds_of_mem (mem_children_of_field? h)

theorem holds_of_firstOf? {kinds : List String} (h : n.firstOf? kinds = some m) : n.Holds m :=
  holds_of_mem_members (mem_members_of_firstOf? h)

theorem holds_of_mem_entered (h : m ∈ n.entered way) : n.Holds m := by
  rcases mem_entered h with hm | ⟨child, hchild, hm⟩
  · exact holds_of_mem hm
  · exact (holds_of_mem hchild).trans (holds_of_mem hm)

/-- A walk reaches only what the tree holds. -/
theorem holds_of_mem_reach {n m : Node} (h : m ∈ n.reach way) : n.Holds m := by
  rcases mem_reach.mp h with rfl | ⟨k, hk, hm⟩
  · exact .refl m
  · exact (holds_of_mem_entered hk).trans (holds_of_mem_reach hm)
termination_by sizeOf n
decreasing_by exact sizeOf_lt_of_mem_entered hk

/-- What a well-nested tree holds is well nested and lies inside the tree. -/
theorem Nested.of_holds (h : n.Nested) (hm : n.Holds m) : m.Nested ∧ m.Within n := by
  induction hm with
  | refl => exact ⟨h, .refl n⟩
  | tail _ hchild ih =>
      obtain ⟨hnested, hwithin⟩ := ih
      exact ⟨hnested.of_mem hchild, (hnested.within_of_mem hchild).trans hwithin⟩

end Node

end Dossier

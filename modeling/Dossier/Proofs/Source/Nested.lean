import Dossier.Source.Reach
import Mathlib.Data.List.Pairwise

/-!
# Well-nested syntax trees

In a tree as parsers give it the children of a node lie in order, without overlap, inside the node.
The nodes that a walk reaches are then either one inside the other or apart from each other.
-/

namespace Dossier.Node

/-- The children of each node lie in order, without overlap, inside the node. -/
inductive Nested : Node → Prop where
  | node {kind : String} {named : Bool} {field : Option String} {start stop : Nat}
      {children : List Node} (ordered : start ≤ stop)
      (inside : ∀ child ∈ children, start ≤ child.start ∧ child.stop ≤ stop)
      (apart : children.Pairwise fun a b ↦ a.stop ≤ b.start)
      (nested : ∀ child ∈ children, Nested child) :
      Nested ⟨kind, named, field, start, stop, children⟩

/-- One node lies inside another. -/
def Within (inner outer : Node) : Prop :=
  outer.start ≤ inner.start ∧ inner.stop ≤ outer.stop

/-- One node ends before the other begins. -/
def Apart (a b : Node) : Prop :=
  a.stop ≤ b.start ∨ b.stop ≤ a.start

variable {n m k : Node} {nodes : List Node}

theorem Within.refl (n : Node) : n.Within n :=
  ⟨Nat.le_refl _, Nat.le_refl _⟩

theorem Within.trans (hnm : n.Within m) (hmk : m.Within k) : n.Within k :=
  ⟨Nat.le_trans hmk.1 hnm.1, Nat.le_trans hnm.2 hmk.2⟩

theorem Apart.symm (h : n.Apart m) : m.Apart n :=
  Or.symm h

instance : Std.Symm Apart :=
  ⟨fun _ _ h ↦ h.symm⟩

theorem Apart.mono {n' m' : Node} (h : n.Apart m) (hn : n'.Within n) (hm : m'.Within m) :
    n'.Apart m' := by
  rcases h with h | h
  · exact .inl (Nat.le_trans hn.2 (Nat.le_trans h hm.1))
  · exact .inr (Nat.le_trans hm.2 (Nat.le_trans h hn.1))

namespace Nested

theorem start_le_stop (h : n.Nested) : n.start ≤ n.stop := by
  cases h with
  | node ordered => exact ordered

theorem within_of_mem (h : n.Nested) (hm : m ∈ n.children) : m.Within n := by
  cases h with
  | node _ inside => exact inside m hm

theorem of_mem (h : n.Nested) (hm : m ∈ n.children) : m.Nested := by
  cases h with
  | node _ _ _ nested => exact nested m hm

theorem pairwise_children (h : n.Nested) : n.children.Pairwise fun a b ↦ a.stop ≤ b.start := by
  cases h with
  | node _ _ apart => exact apart

theorem pairwise_members (h : n.Nested) : n.members.Pairwise fun a b ↦ a.stop ≤ b.start :=
  h.pairwise_children.filter _

theorem of_field? (h : n.Nested) {name : String} (hm : n.field? name = some m) : m.Nested :=
  h.of_mem (mem_children_of_field? hm)

theorem within_of_field? (h : n.Nested) {name : String} (hm : n.field? name = some m) :
    m.Within n :=
  h.within_of_mem (mem_children_of_field? hm)

end Nested

theorem mem_children_of_orElse {name : String} {kinds : List String}
    (h : (n.field? name <|> n.firstOf? kinds) = some m) : m ∈ n.children := by
  rw [Option.orElse_eq_orElse, Option.orElse_eq_or, Option.or_eq_some_iff] at h
  rcases h with hfield | ⟨-, hfirst⟩
  · exact mem_children_of_field? hfield
  · exact mem_children_of_mem_members (mem_members_of_firstOf? hfirst)

/-- Nodes that are ready to be told apart: each is well nested, and they lie in order. -/
structure Siblings (nodes : List Node) : Prop where
  nested : ∀ n ∈ nodes, n.Nested
  ordered : nodes.Pairwise fun a b ↦ a.stop ≤ b.start

theorem Nested.siblings (h : n.Nested) : Siblings n.children :=
  ⟨fun _ hm ↦ h.of_mem hm, h.pairwise_children⟩

theorem Siblings.sublist {l : List Node} (h : Siblings nodes) (hl : l.Sublist nodes) :
    Siblings l :=
  ⟨fun n hn ↦ h.nested n (hl.subset hn), h.ordered.sublist hl⟩

theorem Nested.siblings_members (h : n.Nested) : Siblings n.members :=
  h.siblings.sublist List.filter_sublist

theorem Siblings.eq_or_apart (h : Siblings nodes) (hn : n ∈ nodes) (hm : m ∈ nodes) :
    n = m ∨ n.Apart m := by
  by_cases heq : n = m
  · exact .inl heq
  · have hpairwise : nodes.Pairwise Apart := h.ordered.imp fun hab ↦ .inl hab
    exact .inr (hpairwise.forall hn hm heq)

/-! ## Checking trees -/

mutual

/-- Whether a tree is well nested. -/
def isNested : Node → Bool
  | ⟨_, _, _, start, stop, children⟩ => decide (start ≤ stop) && areNested start stop children

/-- Whether well-nested trees lie in order between two offsets. -/
def areNested (start stop : Nat) : List Node → Bool
  | [] => true
  | node :: rest =>
    decide (start ≤ node.start) && decide (node.stop ≤ stop) && isNested node &&
      areNested node.stop stop rest

end

theorem Nested.intro {kind : String} {named : Bool} {field : Option String} {start stop : Nat}
    {children : List Node} (ordered : start ≤ stop)
    (inside : ∀ child ∈ children, start ≤ child.start ∧ child.stop ≤ stop)
    (siblings : Siblings children) : (⟨kind, named, field, start, stop, children⟩ : Node).Nested :=
  .node ordered inside siblings.ordered siblings.nested

mutual

theorem nested_of_isNested : (n : Node) → isNested n = true → n.Nested
  | ⟨_, _, _, start, stop, children⟩, h => by
      rw [isNested, Bool.and_eq_true, decide_eq_true_iff] at h
      obtain ⟨hinside, hsiblings⟩ := siblings_of_areNested start stop children h.2
      exact .intro h.1 hinside hsiblings

theorem siblings_of_areNested (start stop : Nat) :
    (nodes : List Node) → areNested start stop nodes = true →
      (∀ n ∈ nodes, start ≤ n.start ∧ n.stop ≤ stop) ∧ Siblings nodes
  | [], _ => ⟨by simp, by simp, .nil⟩
  | node :: rest, h => by
      rw [areNested] at h
      simp only [Bool.and_eq_true, decide_eq_true_iff] at h
      obtain ⟨⟨⟨hstart, hstop⟩, hnode⟩, hrest⟩ := h
      have hnested := nested_of_isNested node hnode
      obtain ⟨hinside, hsiblings⟩ := siblings_of_areNested node.stop stop rest hrest
      have hordered := hnested.start_le_stop
      refine ⟨fun n hn ↦ ?_, fun n hn ↦ ?_, ?_⟩
      · rcases List.mem_cons.mp hn with rfl | hn
        · exact ⟨hstart, hstop⟩
        · have := hinside n hn
          omega
      · rcases List.mem_cons.mp hn with rfl | hn
        · exact hnested
        · exact hsiblings.nested n hn
      · exact List.pairwise_cons.mpr ⟨fun n hn ↦ (hinside n hn).1, hsiblings.ordered⟩

end

/-! ## Walks -/

/-- The nodes that a walk goes on with from a node. -/
def entered (way : Node → Way) (n : Node) : List Node :=
  match way n with
  | .stop => []
  | .members => n.members
  | .membersOf i => (n.children[i]?.map members).getD []
  | .child i => n.children[i]?.toList

variable {way : Node → Way}

theorem field?_eq_bind (n : Node) (name : String) :
    n.field? name = (n.fieldIndex? name).bind (n.children[·]?) :=
  List.find?_eq_bind_findIdx?_getElem?

theorem firstOf?_eq_bind (n : Node) (kinds : List String) :
    n.firstOf? kinds = (n.kindIndex? kinds).bind (n.children[·]?) := by
  rw [firstOf?, members, List.find?_filter, kindIndex?]
  simp only [Bool.decide_and, Bool.decide_eq_true]
  exact List.find?_eq_bind_findIdx?_getElem?

theorem reachMembers_eq_flatMap (way : Node → Way) (nodes : List Node) :
    reachMembers way nodes = (nodes.filter (·.named)).flatMap (reach way) := by
  induction nodes with
  | nil => rfl
  | cons node rest ih =>
      rw [reachMembers, ih]
      cases hnamed : node.named <;> simp [hnamed]

theorem reachMembersOf_eq_nil {i : Nat} (h : nodes.length ≤ i) :
    reachMembersOf way i nodes = [] := by
  induction nodes generalizing i with
  | nil => rw [reachMembersOf]
  | cons node rest ih =>
      cases i with
      | zero => simp at h
      | succ i =>
          rw [reachMembersOf]
          exact ih (by simpa using h)

theorem reachChild_eq_nil {i : Nat} (h : nodes.length ≤ i) : reachChild way i nodes = [] := by
  induction nodes generalizing i with
  | nil => rw [reachChild]
  | cons node rest ih =>
      cases i with
      | zero => simp at h
      | succ i =>
          rw [reachChild]
          exact ih (by simpa using h)

/-- What is reached from a node is the node, and what is reached from the nodes entered from it. -/
theorem reach_eq_entered (way : Node → Way) (n : Node) :
    reach way n = n :: (entered way n).flatMap (reach way) := by
  rw [reach_eq, entered]
  congr 1
  cases way n with
  | stop => rfl
  | members => exact reachMembers_eq_flatMap way n.children
  | membersOf i =>
      cases hchild : n.children[i]? with
      | none =>
          simpa [hchild] using reachMembersOf_eq_nil (List.getElem?_eq_none_iff.mp hchild)
      | some child =>
          simpa [hchild, members] using
            (reachMembersOf_of_getElem? way hchild).trans (reachMembers_eq_flatMap way _)
  | child i =>
      cases hchild : n.children[i]? with
      | none => simpa [hchild] using reachChild_eq_nil (List.getElem?_eq_none_iff.mp hchild)
      | some child => simpa [hchild] using reachChild_of_getElem? way hchild

/-- A node that is entered is a child, or a child of a child. -/
theorem mem_entered (hm : m ∈ entered way n) :
    m ∈ n.children ∨ ∃ child ∈ n.children, m ∈ child.children := by
  rw [entered] at hm
  cases hway : way n with
  | stop => simp [hway] at hm
  | members =>
      rw [hway] at hm
      exact .inl (mem_children_of_mem_members hm)
  | membersOf i =>
      cases hchild : n.children[i]? with
      | none => simp [hway, hchild] at hm
      | some child =>
          simp only [hway, hchild, Option.map_some, Option.getD_some] at hm
          exact .inr ⟨child, List.mem_of_getElem? hchild, mem_children_of_mem_members hm⟩
  | child i =>
      cases hchild : n.children[i]? with
      | none => simp [hway, hchild] at hm
      | some child =>
          obtain rfl : m = child := by simpa [hway, hchild] using hm
          exact .inl (List.mem_of_getElem? hchild)

theorem Nested.of_mem_entered (h : n.Nested) (hm : m ∈ entered way n) :
    m.Nested ∧ m.Within n := by
  rcases mem_entered hm with hm | ⟨child, hchild, hm⟩
  · exact ⟨h.of_mem hm, h.within_of_mem hm⟩
  · have hnested := h.of_mem hchild
    exact ⟨hnested.of_mem hm, (hnested.within_of_mem hm).trans (h.within_of_mem hchild)⟩

theorem Nested.siblings_entered (h : n.Nested) : Siblings (entered way n) := by
  refine ⟨fun m hm ↦ (h.of_mem_entered hm).1, ?_⟩
  rw [entered]
  cases way n with
  | stop => exact List.Pairwise.nil
  | members => exact h.pairwise_members
  | membersOf i =>
      cases hchild : n.children[i]? with
      | none => simp [hchild]
      | some child =>
          simpa [hchild] using (h.of_mem (List.mem_of_getElem? hchild)).pairwise_members
  | child i => cases hchild : n.children[i]? <;> simp

theorem sizeOf_lt_of_mem_children (hm : m ∈ n.children) : sizeOf m < sizeOf n := by
  cases n with
  | mk kind named field start stop children =>
      have hlt := List.sizeOf_lt_of_mem hm
      simp only [mk.sizeOf_spec]
      simp only at hlt
      omega

theorem sizeOf_lt_of_mem_entered (hm : m ∈ entered way n) : sizeOf m < sizeOf n := by
  rcases mem_entered hm with hm | ⟨child, hchild, hm⟩
  · exact sizeOf_lt_of_mem_children hm
  · exact Nat.lt_trans (sizeOf_lt_of_mem_children hm) (sizeOf_lt_of_mem_children hchild)

theorem mem_reach : m ∈ reach way n ↔ m = n ∨ ∃ k ∈ entered way n, m ∈ reach way k := by
  rw [reach_eq_entered, List.mem_cons, List.mem_flatMap]

theorem mem_reach_self : n ∈ reach way n :=
  mem_reach.mpr (.inl rfl)

/-- What is reached in a well-nested tree is well nested and lies inside the tree. -/
theorem Nested.of_mem_reach {n m : Node} (h : n.Nested) (hm : m ∈ reach way n) :
    m.Nested ∧ m.Within n := by
  rcases mem_reach.mp hm with rfl | ⟨k, hk, hm⟩
  · exact ⟨h, .refl m⟩
  · obtain ⟨hknested, hkwithin⟩ := h.of_mem_entered hk
    have hm := hknested.of_mem_reach hm
    exact ⟨hm.1, hm.2.trans hkwithin⟩
termination_by sizeOf n
decreasing_by exact sizeOf_lt_of_mem_entered hk

/-- Of two nodes that are reached, one is reached from the other, or they lie apart. -/
theorem Nested.reach_trichotomy {n m k : Node} (h : n.Nested) (hm : m ∈ reach way n)
    (hk : k ∈ reach way n) :
    k ∈ reach way m ∨ m ∈ reach way k ∨ m.Apart k := by
  rcases mem_reach.mp hm with rfl | ⟨l, hl, hml⟩
  · exact .inl hk
  rcases mem_reach.mp hk with rfl | ⟨l', hl', hkl'⟩
  · exact .inr (.inl hm)
  obtain ⟨hnested, -⟩ := h.of_mem_entered hl
  obtain ⟨hnested', -⟩ := h.of_mem_entered hl'
  rcases h.siblings_entered.eq_or_apart hl hl' with rfl | hapart
  · exact hnested.reach_trichotomy hml hkl'
  · exact .inr (.inr (hapart.mono (hnested.of_mem_reach hml).2 (hnested'.of_mem_reach hkl').2))
termination_by sizeOf n
decreasing_by exact sizeOf_lt_of_mem_entered hl

theorem Siblings.reach_trichotomy (h : Siblings nodes) (hm : m ∈ nodes.flatMap (reach way))
    (hk : k ∈ nodes.flatMap (reach way)) : k ∈ reach way m ∨ m ∈ reach way k ∨ m.Apart k := by
  obtain ⟨l, hl, hml⟩ := List.mem_flatMap.mp hm
  obtain ⟨l', hl', hkl'⟩ := List.mem_flatMap.mp hk
  rcases h.eq_or_apart hl hl' with rfl | hapart
  · exact (h.nested l hl).reach_trichotomy hml hkl'
  · exact .inr (.inr (hapart.mono ((h.nested l hl).of_mem_reach hml).2
      ((h.nested l' hl').of_mem_reach hkl').2))

theorem Siblings.nested_of_mem_reach (h : Siblings nodes) (hm : m ∈ nodes.flatMap (reach way)) :
    m.Nested := by
  obtain ⟨l, hl, hml⟩ := List.mem_flatMap.mp hm
  exact ((h.nested l hl).of_mem_reach hml).1

end Dossier.Node

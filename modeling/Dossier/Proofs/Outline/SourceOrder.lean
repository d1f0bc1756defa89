import Dossier.Outline.Extract
import Dossier.Proofs.Outline.BracedClasses
import Dossier.Proofs.Outline.Ruby
import Dossier.Proofs.Outline.Rust
import Dossier.Proofs.Outline.ScriptEntries

/-!
# Outlines in source order

Every declaration of an outline stands on the line of a node of the tree. In a well-nested tree
these nodes begin in the order of the declarations, however deep they lie, so the line numbers never
decrease.
-/

namespace Dossier.Outline

open Node (Siblings Way)

/-- Declarations on the lines of nodes that a tree holds, in the order in which these begin. -/
def InOrder (source : Bytes) (n : Node) (es : List Declaration) : Prop :=
  ∃ nodes : List Node, es.map (·.line) = nodes.map (·.line source) ∧
    (nodes.Pairwise fun a b ↦ a.start ≤ b.start) ∧ ∀ m ∈ nodes, n.Holds m

variable {source : Bytes} {n m : Node} {nodes : List Node} {es own : List Declaration}
  {f : Node → List Declaration}

namespace InOrder

theorem nil : InOrder source n [] :=
  ⟨[], rfl, .nil, by simp⟩

theorem mono (h : InOrder source m es) (hm : n.Holds m) : InOrder source n es := by
  obtain ⟨places, hlines, hordered, hheld⟩ := h
  exact ⟨places, hlines, hordered, fun k hk ↦ hm.trans (hheld k hk)⟩

/-- The line on which a node begins comes before all lines inside the node. -/
theorem append_own (h : InOrder source n es) (hn : n.Nested)
    (hown : ∀ e ∈ own, e.line = n.line source) : InOrder source n (own ++ es) := by
  obtain ⟨places, hlines, hordered, hheld⟩ := h
  refine ⟨List.replicate own.length n ++ places, ?_, ?_, ?_⟩
  · rw [List.map_append, List.map_append, hlines, List.map_replicate]
    congr 1
    exact List.eq_replicate_iff.mpr ⟨by simp, by simpa using hown⟩
  · refine List.pairwise_append.mpr ⟨?_, hordered, fun a ha b hb ↦ ?_⟩
    · exact List.pairwise_replicate.mpr (.inr (Nat.le_refl n.start))
    · obtain rfl := List.eq_of_mem_replicate ha
      exact (hn.of_holds (hheld b hb)).2.1
  · refine List.forall_mem_append.mpr ⟨fun k hk ↦ ?_, hheld⟩
    obtain rfl := List.eq_of_mem_replicate hk
    exact .refl k

theorem of_line (hn : n.Nested) (h : ∀ e ∈ es, e.line = n.line source) : InOrder source n es := by
  simpa using nil.append_own hn h

/-- Nodes that lie apart in order have their declarations in order one node after the other. -/
theorem flatMap (hnodes : Siblings nodes) (hheld : ∀ m ∈ nodes, n.Holds m)
    (hf : ∀ m ∈ nodes, InOrder source m (f m)) : InOrder source n (nodes.flatMap f) := by
  choose! places hlines hordered hplaces using hf
  refine ⟨nodes.flatMap places, ?_, ?_, ?_⟩
  · rw [List.map_flatMap, List.map_flatMap]
    exact List.flatMap_congr hlines
  · refine List.pairwise_flatMap.mpr ⟨hordered, hnodes.ordered.imp_of_mem ?_⟩
    intro a b ha hb hab p hp q hq
    obtain ⟨hnested, hwithin⟩ := (hnodes.nested a ha).of_holds (hplaces a ha p hp)
    obtain ⟨-, hwithin'⟩ := (hnodes.nested b hb).of_holds (hplaces b hb q hq)
    calc p.start ≤ p.stop := hnested.start_le_stop
      _ ≤ a.stop := hwithin.2
      _ ≤ b.start := hab
      _ ≤ q.start := hwithin'.1
  · intro k hk
    obtain ⟨m, hm, hk⟩ := List.mem_flatMap.mp hk
    exact (hheld m hm).trans (hplaces m hm k hk)

theorem members (hn : n.Nested) (hf : ∀ m, m.Nested → InOrder source m (f m)) :
    InOrder source n (n.members.flatMap f) :=
  flatMap hn.siblings_members (fun _ ↦ Node.holds_of_mem_members)
    fun m hm ↦ hf m (hn.siblings_members.nested m hm)

theorem filter_members (hn : n.Nested) (p : Node → Bool)
    (hf : ∀ m, m.Nested → InOrder source m (f m)) :
    InOrder source n ((n.members.filter p).flatMap f) := by
  have hchosen := hn.siblings_members.sublist (List.filter_sublist (p := p))
  exact flatMap hchosen (fun _ hm ↦ Node.holds_of_mem_members (List.mem_of_mem_filter hm))
    fun m hm ↦ hf m (hchosen.nested m hm)

/-- A walk that enters a node only if the node stands before all that it holds. -/
theorem reach {way : Node → Way} (hf : ∀ m, m.Nested → InOrder source m (f m))
    (hown : ∀ m, way m ≠ .stop → ∀ e ∈ f m, e.line = m.line source) {n : Node} (hn : n.Nested) :
    InOrder source n ((n.reach way).flatMap f) := by
  rw [Node.reach_eq_entered, List.flatMap_cons, List.flatMap_assoc]
  by_cases hway : way n = .stop
  · simpa [Node.entered, hway] using hf n hn
  · refine append_own ?_ hn (hown n hway)
    refine flatMap hn.siblings_entered (fun _ ↦ Node.holds_of_mem_entered) fun m hm ↦ ?_
    exact reach hf hown (hn.of_mem_entered hm).1
termination_by sizeOf n
decreasing_by exact Node.sizeOf_lt_of_mem_entered hm

theorem reachMembers {way : Node → Way} (hn : n.Nested)
    (hf : ∀ m, m.Nested → InOrder source m (f m))
    (hown : ∀ m, way m ≠ .stop → ∀ e ∈ f m, e.line = m.line source) :
    InOrder source n ((Node.reachMembers way n.children).flatMap f) := by
  rw [Node.reachMembers_eq_flatMap, List.flatMap_assoc]
  exact members hn fun m hm ↦ reach hf hown hm

theorem pairwise_line (h : InOrder source n es) : es.Pairwise fun a b ↦ a.line ≤ b.line := by
  obtain ⟨places, hlines, hordered, -⟩ := h
  rw [← List.pairwise_map (R := (· ≤ ·)), hlines, List.pairwise_map]
  exact hordered.imp source.lineAt_mono

end InOrder

/-! ## One language after the other -/

namespace Script

theorem inOrder_declarationEntries {exported : Bool} {start : Nat} (hn : n.Nested) :
    InOrder source n (declarationEntries source exported start n) := by
  have hline (e) (he : e ∈ declarationEntries source exported start n) :=
    (declaredAt_of_mem_declarationEntries e he).line
  exact (InOrder.of_line (innermost_nested hn).1 hline).mono (holds_innermost n)

theorem inOrder_entriesAt (hn : n.Nested) : InOrder source n (entriesAt source n) := by
  rw [entriesAt]
  split
  · rcases exportEntries_cases source n with
      ⟨declaration, hdeclaration, heq⟩ | ⟨value, -, -, heq⟩ | ⟨-, -, heq⟩
    · have hmem := Node.mem_children_of_orElse hdeclaration
      rw [heq]
      exact (inOrder_declarationEntries (hn.of_mem hmem)).mono (Node.holds_of_mem hmem)
    · rw [heq]
      exact .of_line hn (List.forall_mem_singleton.mpr (of_defaultEntry source n value).2.1)
    · rw [heq]
      exact .of_line hn (List.forall_mem_singleton.mpr rfl)
  · exact inOrder_declarationEntries hn

end Script

namespace Python

theorem line_of_entryAt? {e : Declaration} (h : entryAt? source n = some e) :
    e.line = n.line source := by
  simp only [entryAt?] at h
  split at h
  · obtain rfl := Option.some_inj.mp h
    rfl
  split at h
  · obtain rfl := Option.some_inj.mp h
    rfl
  split at h
  · split at h
    · cases h
    · obtain rfl := Option.some_inj.mp h
      rfl
  · cases h

theorem inOrder_outline (hn : n.Nested) : InOrder source n (outline source n) := by
  rw [outline, List.filterMap_eq_flatMap_toList]
  exact .members hn fun m hm ↦ .of_line hm fun e he ↦ line_of_entryAt? (Option.mem_toList.mp he)

end Python

namespace Go

theorem line_of_typeOf? {spec : Node} {e : Declaration} (h : typeOf? source n spec = some e) :
    e.line = spec.line source := by
  rw [typeOf?] at h
  split at h
  · obtain rfl := Option.some_inj.mp h
    rfl
  · obtain ⟨type, -, rfl⟩ := Option.map_eq_some_iff.mp h
    rfl

theorem inOrder_entriesAt (hn : n.Nested) : InOrder source n (entriesAt source n) := by
  have hvalues (keyword : String) : InOrder source n (valueEntries source keyword n) := by
    refine .filter_members hn _ fun spec hspec ↦ .of_line hspec fun e he ↦ ?_
    obtain ⟨name, -, rfl⟩ := List.mem_map.mp he
    rfl
  rw [entriesAt]
  split
  · exact .of_line hn (by simp [functionEntry])
  split
  · rw [typeEntries, List.filterMap_eq_flatMap_toList]
    exact .filter_members hn _ fun spec hspec ↦ .of_line hspec fun e he ↦
      line_of_typeOf? (Option.mem_toList.mp he)
  split
  · exact hvalues "const"
  split
  · exact hvalues "var"
  · exact .nil

end Go

namespace Rust

theorem inOrder_entriesAt (hn : n.Nested) : InOrder source n (entriesAt source n) := by
  rw [entriesAt]
  split
  · exact .of_line hn (by simp)
  split
  · exact .of_line hn (by simp [functionEntry])
  split
  · exact .of_line hn (by simp)
  split
  · split
    next body hbody =>
      rw [List.map_eq_flatMap]
      refine InOrder.mono ?_ (Node.holds_of_field? hbody)
      exact .filter_members (hn.of_field? hbody) _ fun m hm ↦ .of_line hm (by simp [functionEntry])
    next => exact .nil
  split
  · exact .of_line hn (by simp)
  · exact .nil

theorem inOrder_outline (hn : n.Nested) : InOrder source n (outline source n) :=
  .reachMembers hn (fun _ ↦ inOrder_entriesAt) fun m hway ↦ by simp [(wrapper_of_way hway).2 source]

end Rust

namespace ClassRules

variable {rules : ClassRules}

theorem inOrder_entryAt (hn : n.Nested) : InOrder source n (rules.entryAt source n) := by
  refine .of_line hn fun e he ↦ ?_
  rw [entryAt] at he
  split at he
  · obtain rfl := List.mem_singleton.mp he
    rw [typeEntry]
    split <;> rfl
  · split at he
    · obtain rfl := List.mem_singleton.mp he
      rfl
    · cases he

theorem Separate.inOrder_outline (h : rules.Separate) (hn : n.Nested) :
    InOrder source n (rules.outline source n) :=
  .reachMembers hn (fun _ ↦ inOrder_entryAt) fun m hway ↦ by
    simp [(h.wrapper_of_way hway).2 source]

end ClassRules

namespace Ruby

/-- The declaration of a class or module without those inside it. -/
def containerEntries (source : Bytes) (n : Node) : List Declaration :=
  if isContainer n then [containerEntry source n] else []

theorem line_of_mem_containerEntries : ∀ e ∈ containerEntries source n, e.line = n.line source := by
  rw [containerEntries]
  split <;> simp [containerEntry]

theorem filter_map_containerEntry (source : Bytes) (nodes : List Node) :
    (nodes.filter isContainer).map (containerEntry source) =
      nodes.flatMap (containerEntries source) := by
  induction nodes with
  | nil => rfl
  | cons n nodes ih =>
      rw [List.flatMap_cons, ← ih, containerEntries, List.filter_cons]
      split <;> rfl

theorem inOrder_entriesAt (hn : n.Nested) : InOrder source n (entriesAt source n) := by
  rw [entriesAt]
  split
  · exact .of_line hn (by simp [methodEntry])
  · rw [filter_map_containerEntry]
    exact .reach (fun _ hm ↦ .of_line hm line_of_mem_containerEntries)
      (fun _ _ ↦ line_of_mem_containerEntries) hn

end Ruby

/-! ## All languages -/

/-- The declarations of a well-nested tree come in source order: each stands on the line of a node
of the tree, none of these nodes begins before the one in front of it, and so the line numbers never
decrease. -/
theorem ofTree_in_source_order (language : Language) (source : Bytes) {root : Node}
    (hroot : root.Nested) :
    ((ofTree language source root).Pairwise fun a b ↦ a.line ≤ b.line) ∧
      InOrder source root (ofTree language source root) := by
  have horder : InOrder source root (ofTree language source root) := by
    cases language with
    | typescript | tsx | javascript => exact .members hroot fun _ ↦ Script.inOrder_entriesAt
    | python => exact Python.inOrder_outline hroot
    | go => exact .members hroot fun _ ↦ Go.inOrder_entriesAt
    | rust => exact Rust.inOrder_outline hroot
    | java => exact ClassRules.separate_javaRules.inOrder_outline hroot
    | csharp => exact ClassRules.separate_csharpRules.inOrder_outline hroot
    | ruby => exact .members hroot fun _ ↦ Ruby.inOrder_entriesAt
    | php => exact ClassRules.separate_phpRules.inOrder_outline hroot
  exact ⟨horder.pairwise_line, horder⟩

/-- The tree of a class in a module, on lines of their own. -/
def moduleTree : Node :=
  ⟨"program", true, none, 0, 25,
    [⟨"module", true, none, 0, 24,
      [⟨"constant", true, some "name", 7, 8, []⟩,
        ⟨"body_statement", true, some "body", 9, 20,
          [⟨"class", true, none, 9, 20, [⟨"constant", true, some "name", 15, 16, []⟩]⟩]⟩]⟩]⟩

theorem ofTree_in_source_order_module :
    let entries := ofTree .ruby (Bytes.ofText "module A\nclass B\nend\nend\n") moduleTree
    entries.map (·.line) = [1, 2] ∧ (entries.Pairwise fun a b ↦ a.line ≤ b.line) ∧
      InOrder (Bytes.ofText "module A\nclass B\nend\nend\n") moduleTree entries := by
  intro entries
  exact ⟨by decide +kernel, ofTree_in_source_order .ruby _ (Node.nested_of_isNested moduleTree (by decide))⟩

end Dossier.Outline

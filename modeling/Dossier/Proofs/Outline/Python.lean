import Dossier.Outline.Python
import Dossier.Proofs.Outline.Declaration

/-!
# Python without bodies

Functions and the methods of classes are cut, with or without decorators. Assignments are shown from
their own text.
-/

namespace Dossier.Outline.Python

variable {cuts own : List Node} {a b : Bytes} {n : Node}

/-- The body of a function, decorated or not. -/
def functionCuts (n : Node) : List Node :=
  if (definition n).kind = "function_definition" then ((definition n).field? "body").toList else []

/-- What is cut at a statement: the body of a function, or those of the methods of a class. -/
def cutsOf (n : Node) : List Node :=
  if (definition n).kind = "class_definition" then
    cutMembers functionCuts ((definition n).field? "body")
  else functionCuts n

theorem definition_nested (hn : n.Nested) : (definition n).Nested ∧ (definition n).Within n := by
  rw [definition]
  split
  · cases hinner : n.field? "definition" <|>
        n.firstOf? ["function_definition", "class_definition"] with
    | none => exact ⟨hn, .refl n⟩
    | some inner =>
        have hmem := Node.mem_children_of_orElse hinner
        exact ⟨hn.of_mem hmem, hn.within_of_mem hmem⟩
  · exact ⟨hn, .refl n⟩

theorem within_of_mem_functionCuts (hn : n.Nested) : ∀ c ∈ functionCuts n, c.Within n := by
  intro c hc
  obtain ⟨hnested, hwithin⟩ := definition_nested hn
  rw [functionCuts] at hc
  split at hc
  · exact (hnested.within_of_field? (Option.mem_toList.mp hc)).trans hwithin
  · simp at hc

theorem inBody_cutsOf (hn : n.Nested) : InBody ((definition n).field? "body") (cutsOf n) := by
  obtain ⟨hnested, -⟩ := definition_nested hn
  rw [cutsOf]
  split
  · exact .cutMembers (fun _ ↦ hnested.of_field?) fun _ ↦ within_of_mem_functionCuts
  · rw [functionCuts]
    split
    · exact .toList _
    · simp [InBody]

theorem within_of_mem_cutsOf (hn : n.Nested) : ∀ c ∈ cutsOf n, c.Within n := by
  intro c hc
  obtain ⟨hnested, hwithin⟩ := definition_nested hn
  exact ((inBody_cutsOf hn).within (fun _ ↦ hnested.within_of_field?) hc).trans hwithin

theorem definitionText_eq (hagree : AgreeOutside cuts a b) (hn : n.Nested)
    (hconfined : Confined cuts own n) (hown : InBody ((definition n).field? "body") own) :
    definitionText a n (definition n) = definitionText b n (definition n) := by
  obtain ⟨hnested, hwithin⟩ := definition_nested hn
  have hstop : headerEnd (definition n) ((definition n).field? "body") ≤ (definition n).stop :=
    headerEnd_le_stop hnested fun _ ↦ Node.mem_children_of_field?
  have htext := slice_headerEnd_eq hagree hconfined hown (Nat.le_refl _)
    (Nat.le_trans hstop hwithin.2) (Nat.le_refl _)
  have hcolumn := hagree.column_eq n
  rw [definitionText, definitionText]
  cases hbody : (definition n).field? "body" with
  | none =>
      rw [hbody, headerEnd] at htext
      simp only [htext, hcolumn]
  | some body =>
      rw [hbody, headerEnd] at htext
      simp only [htext, hcolumn]

theorem mem_of_assignment? {assignment left : Node} (h : assignment? n = some (assignment, left)) :
    assignment ∈ n.children ∧ left ∈ assignment.children := by
  rw [assignment?] at h
  split at h
  · obtain ⟨found, hfound, h⟩ := Option.bind_eq_some_iff.mp h
    obtain ⟨target, htarget, h⟩ := Option.bind_eq_some_iff.mp h
    split at h
    · obtain ⟨rfl, rfl⟩ := by simpa using h
      exact ⟨Node.mem_children_of_mem_members (Node.mem_members_of_firstOf? hfound),
        Node.mem_children_of_field? htarget⟩
    · simp at h
  · simp at h

theorem assignmentText_eq (hagree : AgreeOutside cuts a b) (hn : n.Nested)
    (hconfined : Confined cuts [] n) {assignment left : Node}
    (h : assignment? n = some (assignment, left)) :
    left.text a = left.text b ∧
      assignmentText a assignment left = assignmentText b assignment left := by
  obtain ⟨hassignment, hleft⟩ := mem_of_assignment? h
  have htext {m : Node} (hm : m ∈ assignment.children) : m.text a = m.text b :=
    hconfined.text_eq hagree
      (((hn.of_mem hassignment).within_of_mem hm).trans (hn.within_of_mem hassignment))
  refine ⟨htext hleft, ?_⟩
  rw [assignmentText, assignmentText, htext hleft]
  cases htype : assignment.field? "type" with
  | none => rfl
  | some type => simp only [htext (Node.mem_children_of_field? htype)]

theorem member?_eq (hagree : AgreeOutside cuts a b) (hn : n.Nested)
    (hconfined : Confined cuts (functionCuts n) n) : member? a n = member? b n := by
  rw [member?, member?]
  by_cases hfunction : (definition n).kind = "function_definition"
  · rw [functionCuts, if_pos hfunction] at hconfined
    rw [if_pos hfunction, if_pos hfunction, definitionText_eq hagree hn hconfined (.toList _)]
  · rw [functionCuts, if_neg hfunction] at hconfined
    simp only [if_neg hfunction]
    cases hassignment : assignment? n with
    | none => rfl
    | some found =>
        obtain ⟨assignment, left⟩ := found
        obtain ⟨-, htext⟩ := assignmentText_eq hagree hn hconfined hassignment
        simp only [htext]

theorem membersOf_eq (hagree : AgreeOutside cuts a b) {body? : Option Node} (hn : n.Nested)
    (hinner : (definition n).field? "body" = body?)
    (hconfined : Confined cuts (cutMembers functionCuts body?) n) :
    membersOf a (definition n) = membersOf b (definition n) := by
  obtain ⟨hnested, hwithin⟩ := definition_nested hn
  rw [membersOf, membersOf, hinner]
  cases hbody : body? with
  | none => rfl
  | some body =>
      have hbody' := hnested.of_field? (hinner.trans hbody)
      have hin := (hnested.within_of_field? (hinner.trans hbody)).trans hwithin
      refine List.filterMap_congr fun m hm ↦ ?_
      exact member?_eq hagree (hbody'.siblings_members.nested m hm)
        (confined_member hconfined hbody hbody' hin (fun _ ↦ within_of_mem_functionCuts) hm)

theorem entryAt?_eq (hagree : AgreeOutside cuts a b) (hn : n.Nested)
    (hconfined : Confined cuts (cutsOf n) n) :
    (entryAt? a n).map Declaration.unnamed = (entryAt? b n).map Declaration.unnamed := by
  have hline := hagree.line_eq n
  have htext := definitionText_eq hagree hn hconfined (inBody_cutsOf hn)
  rw [entryAt?, entryAt?]
  by_cases hfunction : (definition n).kind = "function_definition"
  · simp only [if_pos hfunction, Option.map_some, Declaration.unnamed, htext, hline]
  simp only [if_neg hfunction]
  by_cases hclass : (definition n).kind = "class_definition"
  · rw [cutsOf, if_pos hclass] at hconfined
    have hmembers := membersOf_eq hagree hn rfl hconfined
    simp only [if_pos hclass, Option.map_some, Declaration.unnamed, classText, htext, hline,
      hmembers]
  · rw [cutsOf, if_neg hclass, functionCuts, if_neg hfunction] at hconfined
    simp only [if_neg hclass]
    cases hassignment : assignment? n with
    | none => rfl
    | some found =>
        obtain ⟨assignment, left⟩ := found
        obtain ⟨hname, htext⟩ := assignmentText_eq hagree hn hconfined hassignment
        simp only [hname, htext, hline]

theorem outline_eq {root : Node} (hroot : root.Nested)
    (hagree : AgreeOutside (root.members.flatMap cutsOf) a b) :
    (outline a root).map Declaration.unnamed = (outline b root).map Declaration.unnamed := by
  have hsiblings := hroot.siblings_members
  rw [outline, outline, List.map_filterMap, List.map_filterMap]
  refine List.filterMap_congr fun n hn ↦ entryAt?_eq hagree (hsiblings.nested n hn) ?_
  exact .of_siblings hsiblings (fun m hm ↦ within_of_mem_cutsOf (hsiblings.nested m hm)) hn

end Dossier.Outline.Python

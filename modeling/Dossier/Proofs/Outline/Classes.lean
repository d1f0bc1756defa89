import Dossier.Outline.Extract
import Dossier.Proofs.Outline.Declaration
import Dossier.Proofs.Text.Split

/-!
# Classes in outlines

Most languages show a class by its header and the members in its body. This module says which nodes of
a tree such languages show as classes and what they show of each. The classes of an outline are these,
in the same order.
-/

namespace Dossier.Outline

open Text (indentLines joinLines physicalLines strip)

/-- A class that is shown, and the node at which its text begins. -/
structure ClassNode where
  outer : Node
  inner : Node

/-- What an outline has of a class: its text, and whether it is said to have fields only. -/
def classView? (e : Declaration) : Option (String × Bool) :=
  if e.kind = .cls then some (e.signature, e.fieldsOnly) else none

theorem fieldsOnly_iff {members : List Member} :
    fieldsOnly members = true ↔ members ≠ [] ∧ ∀ m ∈ members, m.isMethod = false := by
  simp [fieldsOnly]

/-- The lines of a text that stands in a class. -/
def paddedLines (s : String) : List String :=
  (physicalLines s).map ("  " ++ ·)

theorem physicalLines_indented {texts : List String} (hne : texts ≠ []) :
    physicalLines (joinLines (texts.map (indentLines "  "))) =
      texts.flatMap paddedLines := by
  rw [Text.physicalLines_joinLines (by simpa using hne), List.flatMap_map]
  exact List.flatMap_congr fun s _ ↦ Text.physicalLines_indentLines (by decide) s

theorem physicalLines_container {header close : String} {texts : List String} (hne : texts ≠ []) :
    physicalLines (container header texts close) = physicalLines header ++
      texts.flatMap paddedLines ++ physicalLines close := by
  rw [container, if_neg (by simpa using hne), Text.physicalLines_append, Text.physicalLines_append,
    physicalLines_indented hne]

/-! ## Which nodes are classes -/

namespace Script

/-- A declaration that is a class. -/
def classAt (outer node : Node) : List ClassNode :=
  if ["class_declaration", "abstract_class_declaration"].contains node.kind then [⟨outer, node⟩]
  else []

/-- The class at a node of the top level. -/
def classesAt (node : Node) : List ClassNode :=
  if node.kind = "export_statement" then
    match node.field? "declaration" <|> node.firstOf? declarationKinds with
    | some declaration => classAt node (innermost declaration)
    | none => match node.field? "value" with
      | some value => if value.kind = "class" then [⟨node, value⟩] else []
      | none => []
  else classAt node (innermost node)

end Script

/-- The class at a node of the top level. -/
def Python.classAt? (node : Node) : Option ClassNode :=
  if (Python.definition node).kind = "class_definition" then some ⟨node, Python.definition node⟩
  else none

/-- The class at a node that is reached. -/
def ClassRules.classesAt (rules : ClassRules) (node : Node) : List ClassNode :=
  if rules.types.lookup node.kind = some .cls then [⟨node, node⟩] else []

/-- The classes and modules at a node of the top level. -/
def Ruby.classesAt (node : Node) : List ClassNode :=
  if Ruby.isMethod node then []
  else ((Node.reach Ruby.way node).filter Ruby.isContainer).map fun n ↦ ⟨n, n⟩

/-- The ways in which classes are shown with their members. -/
inductive ClassForm where
  | script
  | python
  | braced (rules : ClassRules)
  | ruby

/-- How a language shows its classes, if it does not show them whole. -/
def ClassForm.of? : Language → Option ClassForm
  | .typescript | .tsx | .javascript => some .script
  | .python => some .python
  | .java => some (.braced javaRules)
  | .csharp => some (.braced csharpRules)
  | .php => some (.braced phpRules)
  | .ruby => some .ruby
  | .go | .rust => none

namespace ClassForm

variable (form : ClassForm) (source : Bytes) (root node : Node)

/-- The outline of a source. -/
def outline : List Declaration :=
  match form with
  | .script => Script.outline source root
  | .python => Python.outline source root
  | .braced rules => rules.outline source root
  | .ruby => Ruby.outline source root

/-- The classes that an outline shows. -/
def classes : List ClassNode :=
  match form with
  | .script => root.members.flatMap Script.classesAt
  | .python => root.members.filterMap Python.classAt?
  | .braced rules => (Node.reachMembers rules.way root.children).flatMap rules.classesAt
  | .ruby => root.members.flatMap Ruby.classesAt

/-! ## What is shown of a class -/

/-- The nodes in the body of a class. -/
def body : List Node :=
  match form with
  | .script | .python => match node.field? "body" with
    | some body => body.members
    | none => []
  | .braced rules => match rules.body? node with
    | some body => body.members
    | none => []
  | .ruby => Ruby.members node

/-- How a node in the body of a class is shown, if it is. -/
def member? : Option Member :=
  match form with
  | .script => Script.member? source node
  | .python => Python.member? source node
  | .braced rules => rules.member? source node
  | .ruby => if Ruby.isMethod node then some (.method (Ruby.headerText source node)) else none

/-- The members of a class that are shown. -/
def members : List Member :=
  (form.body node).filterMap (form.member? source)

/-- The text of a class before its members. -/
def header (c : ClassNode) : String :=
  match form with
  | .script => opened (strip (source.slice c.outer.start
      (headerEnd c.inner (c.inner.field? "body"))))
  | .python => Python.definitionText source c.outer c.inner
  | .braced rules => openHeader source c.inner (rules.body? c.inner)
  | .ruby => Ruby.headerText source c.inner

/-- The text of a class. -/
def text (c : ClassNode) : String :=
  let texts := (form.members source c.inner).map (·.text)
  match form with
  | .script | .braced _ => container (form.header source c) texts
  | .python =>
    if texts.isEmpty then form.header source c
    else form.header source c ++ "\n" ++ joinLines (texts.map (indentLines "  "))
  | .ruby => container (form.header source c) texts "end"

/-- The lines of a class behind its members. -/
def closing : List String :=
  match form with
  | .script | .braced _ => ["\x7d"]
  | .python => []
  | .ruby => ["end"]

variable {form source root node} {c : ClassNode}

theorem physicalLines_text (hne : form.members source c.inner ≠ []) :
    physicalLines (form.text source c) = physicalLines (form.header source c) ++
      (form.members source c.inner).flatMap (fun m ↦ paddedLines m.text) ++ form.closing := by
  have htexts : (form.members source c.inner).map (·.text) ≠ [] := by simpa using hne
  have hbrace : physicalLines "\x7d" = ["\x7d"] := Text.split_singleton (by decide)
  have hend : physicalLines "end" = ["end"] := Text.split_singleton (by decide)
  cases form with
  | script | braced rules =>
      rw [text, physicalLines_container htexts, List.flatMap_map, hbrace]
      rfl
  | python =>
      dsimp only [text, closing]
      rw [if_neg (by simpa using hne), Text.physicalLines_append, physicalLines_indented htexts,
        List.flatMap_map, List.append_nil]
  | ruby =>
      rw [text, physicalLines_container htexts, List.flatMap_map, hend]
      rfl

end ClassForm

/-! ## The classes of an outline -/

/-- What an outline has of a class that is shown. -/
def ClassForm.view (form : ClassForm) (source : Bytes) (c : ClassNode) : String × Bool :=
  (form.text source c, fieldsOnly (form.members source c.inner))

namespace Script

variable {source : Bytes} {node outer : Node}

theorem view_script : ClassForm.script.view source ⟨outer, node⟩ =
    (classText source outer.start node, fieldsOnly (membersOf source node)) := by
  have hmembers : ClassForm.script.members source node = membersOf source node := by
    rw [ClassForm.members, membersOf]
    dsimp only [ClassForm.body]
    cases node.field? "body" <;> rfl
  rw [ClassForm.view, ClassForm.text, hmembers, classText]
  dsimp only [ClassForm.header]
  cases node.field? "body" <;> rfl

theorem classView?_of_mem_variableEntries {exported : Bool} {start : Nat} {e : Declaration}
    (he : e ∈ variableEntries source exported start node) : classView? e = none := by
  rw [variableEntries] at he
  split at he
  · simp at he
  obtain ⟨declarator, -, hentry⟩ := List.mem_filterMap.mp he
  rw [declared?] at hentry
  split at hentry
  · obtain rfl := Option.some_inj.mp hentry
    rfl
  split at hentry
  · obtain rfl := Option.some_inj.mp hentry
    rfl
  · simp at hentry

theorem filterMap_plainEntries {exported : Bool} :
    (plainEntries source exported outer.start node).filterMap classView? =
      (classAt outer node).map (ClassForm.script.view source) := by
  rw [plainEntries, classAt]
  generalize hkind : node.kind = kind
  -- The fourth and fifth kind are the classes, and the ninth and tenth declare variables.
  split
  case h_1 | h_2 | h_3 | h_6 | h_7 | h_8 => rfl
  case h_4 | h_5 => simp [classView?, view_script]
  case h_9 | h_10 =>
    exact List.filterMap_eq_nil_iff.mpr fun _ ↦ classView?_of_mem_variableEntries
  case h_11 hclass habstract _ _ _ _ _ =>
    have hother : ["class_declaration", "abstract_class_declaration"].contains kind = false := by
      simpa using ⟨hclass, habstract⟩
    rw [hother]
    rfl

theorem filterMap_declarationEntries {exported : Bool} :
    (declarationEntries source exported outer.start node).filterMap classView? =
      (classAt outer (innermost node)).map (ClassForm.script.view source) :=
  filterMap_plainEntries

theorem filterMap_defaultEntry {value : Node} :
    [defaultEntry source outer value].filterMap classView? =
      (if value.kind = "class" then [⟨outer, value⟩] else []).map
        (ClassForm.script.view source) := by
  rw [defaultEntry]
  by_cases hfunction : isFunctionValue value = true
  · have hother : value.kind ≠ "class" := by
      rintro hkind
      rw [isFunctionValue, hkind] at hfunction
      exact absurd hfunction (by decide)
    simp only [if_pos hfunction, if_neg hother]
    split <;> rfl
  simp only [if_neg hfunction]
  by_cases hclass : value.kind = "class"
  · simp [if_pos hclass, classView?, view_script]
  · simp only [if_neg hclass]
    rfl

theorem filterMap_entriesAt :
    (entriesAt source node).filterMap classView? =
      (classesAt node).map (ClassForm.script.view source) := by
  rw [entriesAt, classesAt]
  split
  · rw [exportEntries]
    cases hdeclaration : node.field? "declaration" <|> node.firstOf? declarationKinds with
    | some declaration => exact filterMap_declarationEntries
    | none =>
        cases hvalue : node.field? "value" with
        | some value => exact filterMap_defaultEntry
        | none => rfl
  · exact filterMap_declarationEntries

end Script

namespace Python

variable {source : Bytes} {node outer : Node}

theorem view_python : ClassForm.python.view source ⟨outer, node⟩ =
    (classText source outer node, fieldsOnly (membersOf source node)) := by
  have hmembers : ClassForm.python.members source node = membersOf source node := by
    rw [ClassForm.members, membersOf]
    dsimp only [ClassForm.body]
    cases node.field? "body" <;> rfl
  rw [ClassForm.view, ClassForm.text, hmembers, classText]
  dsimp only [ClassForm.header]
  rw [List.isEmpty_map, List.map_map]
  rfl

theorem classView?_entryAt? : (entryAt? source node).bind classView? =
    (classAt? node).map (ClassForm.python.view source) := by
  rw [entryAt?, classAt?]
  by_cases hfunction : (definition node).kind = "function_definition"
  · have hother : (definition node).kind ≠ "class_definition" := by
      rw [hfunction]
      decide
    simp only [if_pos hfunction, if_neg hother]
    rfl
  simp only [if_neg hfunction]
  by_cases hclass : (definition node).kind = "class_definition"
  · simp [if_pos hclass, classView?, view_python]
  · simp only [if_neg hclass]
    split
    · split <;> rfl
    · rfl

end Python

namespace ClassRules

variable {rules : ClassRules} {source : Bytes} {node : Node}

theorem view_braced : ClassForm.view (.braced rules) source ⟨node, node⟩ =
    (container (openHeader source node (rules.body? node))
      ((rules.membersOf source node).map (·.text)), fieldsOnly (rules.membersOf source node)) := by
  have hmembers : (ClassForm.braced rules).members source node = rules.membersOf source node := by
    rw [ClassForm.members, membersOf]
    dsimp only [ClassForm.body]
    cases rules.body? node <;> rfl
  rw [ClassForm.view, ClassForm.text, hmembers]
  rfl

theorem filterMap_entryAt : (rules.entryAt source node).filterMap classView? =
    (rules.classesAt node).map (ClassForm.view (.braced rules) source) := by
  rw [entryAt, classesAt]
  cases hkind : rules.types.lookup node.kind with
  | none =>
      dsimp only
      split <;> rfl
  | some kind =>
      by_cases hclass : kind = .cls
      · subst hclass
        simp [typeEntry, classView?, view_braced]
      · by_cases henum : kind = .enum <;> simp [typeEntry, classView?, hclass, henum]

end ClassRules

namespace Ruby

variable {source : Bytes} {node : Node}

theorem members_ruby : ClassForm.ruby.members source node =
    ((members node).filter isMethod).map fun m ↦ .method (headerText source m) := by
  rw [ClassForm.members, ← List.filterMap_eq_map, List.filterMap_filter]
  rfl

/-- A class that shows methods alone is never said to have fields only. -/
theorem fieldsOnly_members : fieldsOnly (ClassForm.ruby.members source node) = false := by
  rw [members_ruby, ← Bool.not_eq_true, fieldsOnly_iff]
  rintro ⟨hne, hall⟩
  obtain ⟨m, hm⟩ := List.exists_mem_of_ne_nil _ hne
  obtain ⟨method, -, rfl⟩ := List.mem_map.mp hm
  exact absurd (hall _ hm) (by simp [Member.isMethod])

theorem classView?_containerEntry : classView? (containerEntry source node) =
    some (ClassForm.ruby.view source ⟨node, node⟩) := by
  rw [ClassForm.view, fieldsOnly_members, ClassForm.text, members_ruby]
  simp only [List.map_map]
  rfl

theorem filterMap_entriesAt : (entriesAt source node).filterMap classView? =
    (classesAt node).map (ClassForm.ruby.view source) := by
  rw [entriesAt, classesAt]
  split
  · rfl
  · rw [List.filterMap_map, List.map_map, ← List.filterMap_eq_map]
    exact List.filterMap_congr fun _ _ ↦ classView?_containerEntry

end Ruby

namespace ClassForm

variable {form : ClassForm} {source : Bytes} {root : Node}

/-- The classes of an outline are those that it shows. -/
theorem filterMap_outline : (form.outline source root).filterMap classView? =
    (form.classes root).map (form.view source) := by
  cases form with
  | script =>
      dsimp only [outline, classes, Script.outline]
      rw [List.filterMap_flatMap, List.map_flatMap]
      exact List.flatMap_congr fun _ _ ↦ Script.filterMap_entriesAt
  | python =>
      dsimp only [outline, classes, Python.outline]
      rw [List.filterMap_filterMap, List.map_filterMap]
      exact List.filterMap_congr fun _ _ ↦ Python.classView?_entryAt?
  | braced rules =>
      dsimp only [outline, classes, ClassRules.outline]
      rw [List.filterMap_flatMap, List.map_flatMap]
      exact List.flatMap_congr fun _ _ ↦ ClassRules.filterMap_entryAt
  | ruby =>
      dsimp only [outline, classes, Ruby.outline]
      rw [List.filterMap_flatMap, List.map_flatMap]
      exact List.flatMap_congr fun _ _ ↦ Ruby.filterMap_entriesAt

theorem ofTree_eq {language : Language} (h : of? language = some form) :
    ofTree language source root = form.outline source root := by
  cases language <;> simp only [of?, Option.some.injEq, reduceCtorEq] at h <;> subst h <;> rfl

theorem exists_class_of_mem {e : Declaration} (he : e ∈ form.outline source root)
    (hkind : e.kind = .cls) : ∃ c ∈ form.classes root, e.signature = form.text source c ∧
      e.fieldsOnly = fieldsOnly (form.members source c.inner) := by
  have hview : (e.signature, e.fieldsOnly) ∈ (form.classes root).map (form.view source) := by
    rw [← filterMap_outline]
    exact List.mem_filterMap.mpr ⟨e, he, by rw [classView?, if_pos hkind]⟩
  obtain ⟨c, hc, heq⟩ := List.mem_map.mp hview
  obtain ⟨htext, hfields⟩ := Prod.mk.inj heq
  exact ⟨c, hc, htext.symm, hfields.symm⟩

theorem exists_mem_of_class (source : Bytes) {c : ClassNode} (hc : c ∈ form.classes root) :
    ∃ e ∈ form.outline source root, e.kind = .cls ∧ e.signature = form.text source c ∧
      e.fieldsOnly = fieldsOnly (form.members source c.inner) := by
  have hview : form.view source c ∈ (form.outline source root).filterMap classView? := by
    rw [filterMap_outline]
    exact List.mem_map.mpr ⟨c, hc, rfl⟩
  obtain ⟨e, he, heq⟩ := List.mem_filterMap.mp hview
  rw [classView?] at heq
  split at heq
  next hkind =>
    obtain ⟨htext, hfields⟩ := Prod.mk.inj (Option.some_inj.mp heq)
    exact ⟨e, he, hkind, htext, hfields⟩
  next => simp at heq

end ClassForm

end Dossier.Outline

import Dossier.Document.CodeMap
import Dossier.Proofs.Outline.Classes
import Dossier.Proofs.Source.Nested

/-!
# Classes with behaviour

A class that shows a method, a constructor or an operator is not said to have fields only, and so its
text is not folded. Methods that are announced without a body are the exception: TypeScript shows them
as it shows fields, and a class of nothing but these and fields is folded.
-/

namespace Dossier.Outline

open Text (physicalLines)

/-- Whether a node in the body of a class declares a method, a constructor or an operator, with a body
or without one. -/
def declaresBehaviour (language : Language) (node : Node) : Bool :=
  match language with
  | .typescript | .tsx | .javascript =>
    ["method_definition", "method_signature", "abstract_method_signature"].contains node.kind
  | .python => (Python.definition node).kind == "function_definition"
  | .java => ["method_declaration", "constructor_declaration",
      "compact_constructor_declaration"].contains node.kind
  | .csharp => ["method_declaration", "constructor_declaration", "destructor_declaration",
      "operator_declaration", "conversion_operator_declaration"].contains node.kind
  | .php => ["method_declaration"].contains node.kind
  | .ruby => ["method", "singleton_method"].contains node.kind
  | .go | .rust => false

/-- Whether a node announces a method whose body stands elsewhere. -/
def isAnnouncement (language : Language) (node : Node) : Bool :=
  match language with
  | .typescript | .tsx | .javascript =>
    ["method_signature", "abstract_method_signature"].contains node.kind
  | _ => false

namespace ClassForm

variable {language : Language} {form : ClassForm} {source : Bytes} {root node : Node} {m : Member}

/-- The nodes in the body of a class that are shown. -/
def shown (form : ClassForm) (source : Bytes) (node : Node) : List Node :=
  (form.body node).filter fun n ↦ (form.member? source n).isSome

theorem mem_shown_iff {n : Node} : n ∈ form.shown source node ↔
    n ∈ form.body node ∧ ∃ m, form.member? source n = some m := by
  rw [shown, List.mem_filter, Option.isSome_iff_exists]

theorem mem_members_iff : m ∈ form.members source node ↔
    ∃ n ∈ form.shown source node, form.member? source n = some m := by
  rw [members, List.mem_filterMap]
  constructor
  · rintro ⟨n, hn, hm⟩
    exact ⟨n, mem_shown_iff.mpr ⟨hn, m, hm⟩, hm⟩
  · rintro ⟨n, hn, hm⟩
    exact ⟨n, (mem_shown_iff.mp hn).1, hm⟩

theorem members_eq_nil_iff : form.members source node = [] ↔ form.shown source node = [] := by
  simp [members, shown]

theorem isMethod_of_member?_script (h : Script.member? source node = some m) :
    m.isMethod = Script.methodKinds.contains node.kind := by
  rw [Script.member?] at h
  split at h
  next hmethod =>
    obtain rfl := Option.some_inj.mp h
    exact hmethod.symm
  next hother =>
    split at h
    · obtain rfl := Option.some_inj.mp h
      exact (Bool.not_eq_true _ ▸ hother).symm
    · simp at h

theorem isMethod_of_member?_python (h : Python.member? source node = some m) :
    m.isMethod = ((Python.definition node).kind == "function_definition") := by
  rw [Python.member?] at h
  split at h
  next hfunction =>
    obtain rfl := Option.some_inj.mp h
    exact (beq_iff_eq.mpr hfunction).symm
  next hother =>
    have hfalse : ((Python.definition node).kind == "function_definition") = false :=
      beq_eq_false_iff_ne.mpr hother
    split at h
    · split at h
      · obtain rfl := Option.some_inj.mp h
        exact hfalse.symm
      · simp at h
    · simp at h

theorem isMethod_of_member?_braced {rules : ClassRules} (h : rules.member? source node = some m) :
    m.isMethod = rules.methods.contains node.kind ∧
      (m.isMethod = true ∨ rules.fields.contains node.kind = true) := by
  rw [ClassRules.member?] at h
  split at h
  next hmethod =>
    obtain rfl := Option.some_inj.mp h
    exact ⟨hmethod.symm, .inl rfl⟩
  next hother =>
    split at h
    next hfield =>
      obtain rfl := Option.some_inj.mp h
      exact ⟨(Bool.not_eq_true _ ▸ hother).symm, .inr hfield⟩
    next => simp at h

/-- A node is shown as a method if it declares behaviour and does not merely announce it. -/
theorem isMethod_of_member? (hform : of? language = some form)
    (h : form.member? source node = some m) :
    m.isMethod = (declaresBehaviour language node && !isAnnouncement language node) := by
  cases language
  case go | rust => simp [of?] at hform
  all_goals obtain rfl := Option.some_inj.mp hform
  case typescript | tsx | javascript =>
    rw [isMethod_of_member?_script h, declaresBehaviour, isAnnouncement]
    by_cases hmethod : node.kind = "method_definition" <;> simp [Script.methodKinds, hmethod]
    grind
  case python => simpa [declaresBehaviour, isAnnouncement] using isMethod_of_member?_python h
  case java =>
    simpa [declaresBehaviour, isAnnouncement, javaRules] using (isMethod_of_member?_braced h).1
  case php =>
    simpa [declaresBehaviour, isAnnouncement, phpRules] using (isMethod_of_member?_braced h).1
  case csharp =>
    obtain ⟨hmethod, hkind⟩ := isMethod_of_member?_braced h
    -- Conversions are no members that are shown.
    have hshown : node.kind ≠ "conversion_operator_declaration" := by
      rintro heq
      rw [hmethod, heq] at hkind
      exact absurd hkind (by decide)
    simpa [declaresBehaviour, isAnnouncement, csharpRules, hshown] using hmethod
  case ruby =>
    dsimp only [member?] at h
    split at h
    next hmethod =>
      obtain rfl := Option.some_inj.mp h
      simpa [declaresBehaviour, isAnnouncement, Ruby.isMethod, Member.isMethod] using hmethod
    next => simp at h

/-- A class is said to have fields only if it shows something, and nothing with behaviour but what is
merely announced. -/
theorem fieldsOnly_members_iff (hform : of? language = some form) :
    fieldsOnly (form.members source node) = true ↔ form.shown source node ≠ [] ∧
      ∀ n ∈ form.shown source node,
        declaresBehaviour language n = true → isAnnouncement language n = true := by
  rw [fieldsOnly_iff, ne_eq, members_eq_nil_iff]
  refine and_congr_right fun _ ↦ ⟨?_, ?_⟩
  · intro hall n hn hbehaviour
    obtain ⟨-, m, hm⟩ := mem_shown_iff.mp hn
    have hmethod := hall m (mem_members_iff.mpr ⟨n, hn, hm⟩)
    rw [isMethod_of_member? hform hm, hbehaviour, Bool.true_and] at hmethod
    simpa using hmethod
  · intro hall m hm
    obtain ⟨n, hn, hm⟩ := mem_members_iff.mp hm
    rw [isMethod_of_member? hform hm]
    cases hbehaviour : declaresBehaviour language n with
    | false => rfl
    | true => simp [hall n hn hbehaviour]

/-- A member stands in the text of its class. -/
theorem infix_text {c : ClassNode} (hm : m ∈ form.members source c.inner) :
    paddedLines m.text <:+: physicalLines (form.text source c) := by
  have hmember : paddedLines m.text <:+:
      (form.members source c.inner).flatMap fun m ↦ paddedLines m.text :=
    List.infix_of_mem_flatten (List.mem_map_of_mem hm)
  rw [physicalLines_text (List.ne_nil_of_mem hm)]
  exact hmember.trans (List.infix_append ..)

end ClassForm

/-- The text of a class that shows a method, a constructor or an operator is not folded, unless all that
it shows of this kind is merely announced. -/
theorem behaviour_is_not_folded {language : Language} {form : ClassForm} {source : Bytes}
    {root : Node} {e : Declaration} (hform : ClassForm.of? language = some form)
    (he : e ∈ ofTree language source root) (hclass : e.kind = .cls) :
    ∃ c ∈ form.classes root, e.signature = form.text source c ∧
      (∀ n ∈ form.shown source c.inner, ∃ m, form.member? source n = some m ∧
        paddedLines m.text <:+: physicalLines e.signature) ∧
      (e.fieldsOnly = true ↔ form.shown source c.inner ≠ [] ∧
        ∀ n ∈ form.shown source c.inner,
          declaresBehaviour language n = true → isAnnouncement language n = true) ∧
      ∀ n ∈ form.shown source c.inner, declaresBehaviour language n = true →
        isAnnouncement language n = false → e.collapsible = false ∧ Document.folded e = e.signature := by
  rw [ClassForm.ofTree_eq hform] at he
  obtain ⟨c, hc, htext, hfields⟩ := ClassForm.exists_class_of_mem he hclass
  have hiff := hfields ▸ ClassForm.fieldsOnly_members_iff hform
  refine ⟨c, hc, htext, ?shown, hiff, ?kept⟩
  case shown =>
    intro n hn
    obtain ⟨-, m, hm⟩ := ClassForm.mem_shown_iff.mp hn
    refine ⟨m, hm, ?_⟩
    rw [htext]
    exact ClassForm.infix_text (ClassForm.mem_members_iff.mpr ⟨n, hn, hm⟩)
  case kept =>
    intro n hn hbehaviour hbody
    have hfalse : e.collapsible = false := by
      have hfields : e.fieldsOnly = false := by
        rw [← Bool.not_eq_true, hiff]
        rintro ⟨-, hall⟩
        exact absurd (hall n hn hbehaviour) (by simp [hbody])
      rw [Declaration.collapsible, hclass, hfields]
      rfl
    exact ⟨hfalse, by simp [Document.folded, hfalse]⟩

/-- A method without a body, `abstract area(): number`. -/
def announcedMethod : Node :=
  ⟨"abstract_method_signature", true, none, 25, 48,
    [⟨"abstract", false, none, 25, 33, []⟩, ⟨"property_identifier", true, some "name", 34, 38, []⟩,
      ⟨"formal_parameters", true, some "parameters", 38, 40, []⟩,
      ⟨"type_annotation", true, some "return_type", 40, 48, []⟩]⟩

/-- A class with nothing but a method without a body. -/
def announcingClass : Node :=
  ⟨"abstract_class_declaration", true, none, 0, 51,
    [⟨"abstract", false, none, 0, 8, []⟩, ⟨"class", false, none, 9, 14, []⟩,
      ⟨"type_identifier", true, some "name", 15, 20, []⟩,
      ⟨"class_body", true, some "body", 21, 51, [⟨"\x7b", false, none, 21, 22, []⟩, announcedMethod,
        ⟨";", false, none, 48, 49, []⟩, ⟨"\x7d", false, none, 50, 51, []⟩]⟩]⟩

/-- A class of methods without bodies is folded as if it had fields only. -/
theorem behaviour_is_not_folded_announced :
    let source := Bytes.ofText "abstract class Shape \x7b\n  abstract area(): number;\n\x7d\n"
    let root : Node := ⟨"program", true, none, 0, 52, [announcingClass]⟩
    ClassForm.script.shown source announcingClass = [announcedMethod] ∧
      declaresBehaviour .typescript announcedMethod = true ∧
      ∃ e ∈ ofTree .typescript source root, e.kind = .cls ∧ e.fieldsOnly = true := by
  intro source root
  have hclasses : ClassForm.script.classes root = [⟨announcingClass, announcingClass⟩] := rfl
  have hshown : ClassForm.script.shown source announcingClass = [announcedMethod] := rfl
  obtain ⟨e, he, hclass, -⟩ := ClassForm.exists_mem_of_class source
    (hclasses ▸ List.mem_singleton_self _)
  have hmem : e ∈ ofTree .typescript source root := he
  obtain ⟨c, hc, -, -, hiff, -⟩ := behaviour_is_not_folded rfl hmem hclass
  obtain rfl : c = ⟨announcingClass, announcingClass⟩ := by simpa [hclasses] using hc
  refine ⟨hshown, rfl, e, he, hclass, hiff.mpr ?_⟩
  rw [hshown]
  refine ⟨List.cons_ne_nil _ _, ?_⟩
  intro n hn _
  obtain rfl := List.mem_singleton.mp hn
  rfl

end Dossier.Outline

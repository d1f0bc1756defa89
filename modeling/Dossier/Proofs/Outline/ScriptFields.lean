import Dossier.Proofs.Outline.Behaviour
import Dossier.Proofs.Outline.Script
import Dossier.Proofs.Text.Utf8

/-!
# Functions as fields of classes

A function that is the value of a variable is shown up to its body, but a function that is the value of
a field is shown whole. So the text of a class tells two sources apart that differ inside the body of
such a function alone, exactly if the text of the field does.
-/

namespace Dossier.Outline

open Text (physicalLines)

theorem paddedLines_injective : Function.Injective paddedLines := by
  intro s t h
  have hpad : Function.Injective fun line : String ↦ "  " ++ line :=
    fun _ _ ↦ (String.append_right_inj "  ").mp
  have hlines : physicalLines s = physicalLines t := List.map_injective_iff.mpr hpad h
  rw [← Text.joinLines_physicalLines s, hlines, Text.joinLines_physicalLines]

/-- In the text of a class one member can be told from what stands around it. -/
theorem container_eq_container_iff {header close s t : String} {before after : List String} :
    container header (before ++ s :: after) close = container header (before ++ t :: after) close ↔
      s = t := by
  constructor
  · intro h
    have hlines := congrArg physicalLines h
    rw [physicalLines_container (by simp), physicalLines_container (by simp)] at hlines
    simp only [List.flatMap_append, List.flatMap_cons, List.append_assoc,
      List.append_cancel_left_eq] at hlines
    exact paddedLines_injective (List.append_cancel_right hlines)
  · rintro rfl
    rfl

/-- A field does not tell whether there are fields only. -/
theorem fieldsOnly_around {front back : List Member} {s : String} :
    fieldsOnly (front ++ .field s :: back) = (front ++ back).all fun m ↦ !m.isMethod := by
  have hsome : (front ++ .field s :: back).isEmpty = false := by simp
  rw [fieldsOnly, hsome, List.all_append, List.all_cons, List.all_append]
  rfl

namespace Script

variable {cuts : List Node} {a b : Bytes} {root m n body : Node} {c : ClassNode}

/-- A field whose value is a function with a body. -/
structure IsFunctionField (m body : Node) : Prop where
  isField : fieldKinds.contains m.kind = true
  isBody : ∃ value, m.field? "value" = some value ∧ isFunctionValue value = true ∧
    value.field? "body" = some body

/-- What can be executed of a member of a class: the body of a method, and the body of a function that
is the value of a field. -/
def executable (m : Node) : List Node :=
  if fieldKinds.contains m.kind then valueCuts m else methodCuts m

theorem not_isMethod_of_isField (h : fieldKinds.contains m.kind = true) :
    methodKinds.contains m.kind = false := by
  rw [← Bool.not_eq_true]
  intro hmethod
  obtain hkind : m.kind = "method_definition" := by simpa [methodKinds] using hmethod
  rw [hkind] at h
  exact absurd h (by decide)

theorem executable_eq_methodCuts (h : ∀ body, ¬ IsFunctionField m body) :
    executable m = methodCuts m := by
  rw [executable]
  split
  next hfield =>
    rw [methodCuts, not_isMethod_of_isField hfield, valueCuts]
    cases hvalue : (m.field? "value").filter isFunctionValue with
    | none => rfl
    | some value =>
        obtain ⟨hvalue, hfunction⟩ := Option.filter_eq_some_iff.mp hvalue
        cases hbody : value.field? "body" with
        | none => simp [hbody]
        | some body => exact absurd ⟨hfield, value, hvalue, hfunction, hbody⟩ (h body)
  next => rfl

theorem within_of_mem_executable (hn : n.Nested) : ∀ c ∈ executable n, c.Within n := by
  rw [executable]
  split
  · exact within_of_mem_valueCuts hn
  · exact within_of_mem_methodCuts hn

theorem member?_functionField (source : Bytes) (h : IsFunctionField m body) :
    member? source m = some (.field (withoutTerminator (m.text source))) := by
  rw [member?, not_isMethod_of_isField h.isField, if_neg Bool.false_ne_true, if_pos h.isField]

theorem of_mem_classAt {outer node : Node} (hc : c ∈ classAt outer node) :
    c = ⟨outer, node⟩ := by
  rw [classAt] at hc
  split at hc
  · exact List.mem_singleton.mp hc
  · simp at hc

/-- A class lies in the node at which its text begins. -/
theorem nested_of_mem_classes (hroot : root.Nested) (hc : c ∈ ClassForm.script.classes root) :
    c.inner.Nested ∧ c.inner.Within c.outer := by
  obtain ⟨top, htop, hc⟩ := List.mem_flatMap.mp hc
  have hnested := hroot.siblings_members.nested top htop
  rw [classesAt] at hc
  split at hc
  · split at hc
    next declaration hdeclaration =>
      obtain rfl := of_mem_classAt hc
      have hmem := Node.mem_children_of_orElse hdeclaration
      obtain ⟨hinner, hwithin⟩ := innermost_nested (hnested.of_mem hmem)
      exact ⟨hinner, hwithin.trans (hnested.within_of_mem hmem)⟩
    next =>
      split at hc
      next value hvalue =>
        split at hc
        · obtain rfl := List.mem_singleton.mp hc
          exact ⟨hnested.of_field? hvalue, hnested.within_of_field? hvalue⟩
        · simp at hc
      next => simp at hc
  · obtain rfl := of_mem_classAt hc
    exact innermost_nested hnested

/-- All that can be executed of the members of a class. -/
def bodies (node : Node) : List Node :=
  cutMembers executable (node.field? "body")

theorem header_script_eq (hroot : root.Nested) (hc : c ∈ ClassForm.script.classes root)
    (hagree : AgreeOutside (bodies c.inner) a b) :
    ClassForm.script.header a c = ClassForm.script.header b c := by
  obtain ⟨hinner, hwithin⟩ := nested_of_mem_classes hroot hc
  have hown : InBody (c.inner.field? "body") (bodies c.inner) :=
    .cutMembers (fun _ ↦ hinner.of_field?) fun _ ↦ within_of_mem_executable
  dsimp only [ClassForm.header]
  rw [slice_outer_eq hagree hinner hwithin (fun _ ↦ .inl) hown]

/-- Members other than functions that are fields are shown without what can be executed of them. -/
theorem member?_eq_of_not_functionField (hinner : n.Nested)
    (hagree : AgreeOutside (bodies n) a b) (hm : m ∈ ClassForm.script.body n)
    (hother : ∀ body, ¬ IsFunctionField m body) : member? a m = member? b m := by
  cases hbody : n.field? "body" with
  | none => simp [ClassForm.body, hbody] at hm
  | some inner =>
      have hmember : m ∈ inner.members := by simpa [ClassForm.body, hbody] using hm
      have hnested := hinner.of_field? hbody
      have hconfined : Confined (bodies n) (executable m) m :=
        confined_member (n := n) (fun _ ↦ .inl) hbody hnested (hinner.within_of_field? hbody)
          (fun _ ↦ within_of_mem_executable) hmember
      -- Nothing but the body of a method can change here, and this is what its text leaves out.
      rw [executable_eq_methodCuts hother] at hconfined
      exact member?_eq hagree (hnested.siblings_members.nested m hmember) hconfined

/-- Two sources that show all fields but one alike have the same members around that field. -/
theorem exists_members_eq {before after : List Node} (hinner : n.Nested)
    (hmembers : ClassForm.script.body n = before ++ m :: after)
    (hm : IsFunctionField m body) (hagree : AgreeOutside (bodies n) a b)
    (hothers : ∀ k ∈ before ++ after, ∀ body, IsFunctionField k body →
      withoutTerminator (k.text a) = withoutTerminator (k.text b)) :
    ∃ front back, ClassForm.script.members a n =
        front ++ .field (withoutTerminator (m.text a)) :: back ∧
      ClassForm.script.members b n =
        front ++ .field (withoutTerminator (m.text b)) :: back := by
  -- Other fields with functions are shown alike by hypothesis, all else because no body is shown.
  have hsame : ∀ k ∈ before ++ after, member? a k = member? b k := by
    intro k hk
    by_cases hfunction : ∃ body, IsFunctionField k body
    · obtain ⟨other, hother⟩ := hfunction
      rw [member?_functionField a hother, member?_functionField b hother,
        hothers k hk other hother]
    · refine member?_eq_of_not_functionField hinner hagree ?_ (not_exists.mp hfunction)
      rw [hmembers]
      exact List.mem_append.mpr ((List.mem_append.mp hk).imp_right (List.mem_cons_of_mem m))
  obtain ⟨hbefore, hafter⟩ := List.forall_mem_append.mp hsame
  have hsplit (source : Bytes) : ClassForm.script.members source n =
      before.filterMap (member? source) ++
        .field (withoutTerminator (m.text source)) :: after.filterMap (member? source) := by
    rw [ClassForm.members, hmembers, List.filterMap_append]
    exact congrArg _ (List.filterMap_cons_some (member?_functionField source hm))
  refine ⟨_, _, hsplit a, ?_⟩
  rw [hsplit b, List.filterMap_congr hbefore, List.filterMap_congr hafter]

/-- A class shows the functions that are its fields whole. Of two sources that differ only inside bodies
in the class, and show all such fields but one alike, the texts of the class are the same exactly if
the texts of that field are. -/
theorem class_shows_function_field (language : Language) {before after : List Node}
    (hform : ClassForm.of? language = some .script) (hroot : root.Nested)
    (hc : c ∈ ClassForm.script.classes root)
    (hmembers : ClassForm.script.body c.inner = before ++ m :: after)
    (hm : IsFunctionField m body) (hagree : AgreeOutside (bodies c.inner) a b)
    (hothers : ∀ n ∈ before ++ after, ∀ body, IsFunctionField n body →
      withoutTerminator (n.text a) = withoutTerminator (n.text b)) :
    ∃ e ∈ ofTree language a root, ∃ e' ∈ ofTree language b root, e.kind = .cls ∧ e'.kind = .cls ∧
      e.signature = ClassForm.script.text a c ∧ e'.signature = ClassForm.script.text b c ∧
      ClassForm.script.header a c = ClassForm.script.header b c ∧ e.fieldsOnly = e'.fieldsOnly ∧
      paddedLines (withoutTerminator (m.text a)) <:+: physicalLines e.signature ∧
      (e.signature = e'.signature ↔
        withoutTerminator (m.text a) = withoutTerminator (m.text b)) := by
  have hinner := (nested_of_mem_classes hroot hc).1
  have hheader := header_script_eq hroot hc hagree
  obtain ⟨front, back, hfirst, hsecond⟩ := exists_members_eq hinner hmembers hm hagree hothers
  rw [ClassForm.ofTree_eq hform, ClassForm.ofTree_eq hform]
  obtain ⟨e, he, hkind, htext, hfields⟩ := ClassForm.exists_mem_of_class a hc
  obtain ⟨e', he', hkind', htext', hfields'⟩ := ClassForm.exists_mem_of_class b hc
  refine ⟨e, he, e', he', hkind, hkind', htext, htext', hheader, ?fields, ?shown, ?same⟩
  case fields =>
    rw [hfields, hfields', hfirst, hsecond, fieldsOnly_around, fieldsOnly_around]
  case shown =>
    have hmem : .field (withoutTerminator (m.text a)) ∈ ClassForm.script.members a c.inner := by
      rw [hfirst]
      exact List.mem_append_right _ List.mem_cons_self
    have hinfix := ClassForm.infix_text hmem
    rw [← htext] at hinfix
    dsimp only [Member.text] at hinfix
    exact hinfix
  case same =>
    have hcontainer (source : Bytes) : ClassForm.script.text source c =
        container (ClassForm.script.header source c)
          ((ClassForm.script.members source c.inner).map (·.text)) := rfl
    rw [htext, htext', hcontainer, hcontainer, hheader, hfirst, hsecond, List.map_append,
      List.map_append, List.map_cons, List.map_cons]
    dsimp only [Member.text]
    exact container_eq_container_iff

/-- A function that is a field, `run = () => \x7b secret(); \x7d`. -/
def runField : Node :=
  ⟨"public_field_definition", true, none, 12, 37,
    [⟨"property_identifier", true, some "name", 12, 15, []⟩, ⟨"=", false, none, 16, 17, []⟩,
      ⟨"arrow_function", true, some "value", 18, 37,
        [⟨"formal_parameters", true, some "parameters", 18, 20, []⟩, ⟨"=>", false, none, 21, 23, []⟩,
          ⟨"statement_block", true, some "body", 24, 37, []⟩]⟩]⟩

/-- A class with nothing but a function that is a field. -/
def runClass : Node :=
  ⟨"class_declaration", true, none, 0, 40,
    [⟨"class", false, none, 0, 5, []⟩, ⟨"type_identifier", true, some "name", 6, 7, []⟩,
      ⟨"class_body", true, some "body", 8, 40, [⟨"\x7b", false, none, 8, 9, []⟩, runField,
        ⟨";", false, none, 37, 38, []⟩, ⟨"\x7d", false, none, 39, 40, []⟩]⟩]⟩

/-- The source of a class with nothing but a function that is a field. -/
def runSource : Bytes :=
  Bytes.ofText "class A \x7b\n  run = () => \x7b secret(); \x7d;\n\x7d\n"

/-- The body of a function that is a field is shown, and changes with the text of its class. -/
theorem class_shows_function_field_run :
    let root : Node := ⟨"program", true, none, 0, 41, [runClass]⟩
    ∃ e ∈ ofTree .typescript runSource root, ∃ e' ∈ ofTree .typescript (runSource.set 26 83) root,
      "  run = () => \x7b secret(); \x7d" ∈ physicalLines e.signature ∧
        e.signature ≠ e'.signature := by
  intro root
  have hroot : root.Nested := Node.nested_of_isNested root (by decide)
  have hclass : ⟨runClass, runClass⟩ ∈ ClassForm.script.classes root := List.mem_singleton_self _
  have hmembers : ClassForm.script.body runClass = [] ++ runField :: [] := rfl
  have hfield : IsFunctionField runField ⟨"statement_block", true, some "body", 24, 37, []⟩ :=
    ⟨by decide, _, rfl, by decide, rfl⟩
  have hagree : AgreeOutside (bodies runClass) runSource (runSource.set 26 83) :=
    .of_set List.mem_cons_self (by decide) (by decide) (by decide) (by decide)
  have htext : withoutTerminator (runField.text runSource) = "run = () => \x7b secret(); \x7d" := by
    rw [Node.text, Bytes.slice, Text.Utf8.decodeLossy_of_forall_lt (by decide +kernel)]
    decide +kernel
  have hother : withoutTerminator (runField.text (runSource.set 26 83)) =
      "run = () => \x7b Secret(); \x7d" := by
    rw [Node.text, Bytes.slice, Text.Utf8.decodeLossy_of_forall_lt (by decide +kernel)]
    decide +kernel
  obtain ⟨e, he, e', he', -, -, -, -, -, -, hshown, hiff⟩ :=
    class_shows_function_field .typescript rfl hroot hclass hmembers hfield hagree (by simp)
  rw [htext] at hshown hiff
  rw [hother] at hiff
  refine ⟨e, he, e', he', hshown.subset (by decide), ?_⟩
  rw [ne_eq, hiff]
  decide

end Script

end Dossier.Outline

import Dossier.Outline.BracedClasses
import Dossier.Proofs.Outline.Declaration

/-!
# Braced classes without bodies

Functions and the methods of types other than enumerations are cut. Enumerations are shown whole,
with all that they hold.
-/

namespace Dossier.Outline.ClassRules

variable {rules : ClassRules} {cuts : List Node} {a b : Bytes} {n : Node}

/-- The body of a method. -/
def methodBody? (rules : ClassRules) (n : Node) : Option Node :=
  n.field? "body" <|> n.firstOf? rules.methodBodies

/-- What is cut at a member of a type. -/
def methodCuts (rules : ClassRules) (n : Node) : List Node :=
  if rules.methods.contains n.kind then (rules.methodBody? n).toList else []

/-- What is cut at a declaration: the bodies of the methods of a type, or the body of a function. -/
def cutsOf (rules : ClassRules) (n : Node) : List Node :=
  match rules.types.lookup n.kind with
  | some kind => if kind = .enum then [] else cutMembers rules.methodCuts (rules.body? n)
  | none => if rules.functions.contains n.kind then (n.field? "body").toList else []

theorem within_of_mem_methodCuts (hn : n.Nested) : ∀ c ∈ rules.methodCuts n, c.Within n := by
  intro c hc
  rw [methodCuts] at hc
  split at hc
  · exact hn.within_of_mem (Node.mem_children_of_orElse (Option.mem_toList.mp hc))
  · simp at hc

theorem within_of_mem_cutsOf (hn : n.Nested) : ∀ c ∈ rules.cutsOf n, c.Within n := by
  intro c hc
  rw [cutsOf] at hc
  split at hc
  · split at hc
    · simp at hc
    · have hbody : InBody (rules.body? n) (cutMembers rules.methodCuts (rules.body? n)) :=
        .cutMembers (fun _ hb ↦ hn.of_mem (Node.mem_children_of_orElse hb))
          fun _ ↦ within_of_mem_methodCuts
      exact hbody.within (fun _ hb ↦ hn.within_of_mem (Node.mem_children_of_orElse hb)) hc
  · split at hc
    · exact hn.within_of_field? (Option.mem_toList.mp hc)
    · simp at hc

theorem methodText_eq (hagree : AgreeOutside cuts a b) (hn : n.Nested)
    (hconfined : Confined cuts (rules.methodBody? n).toList n) :
    rules.methodText a n = rules.methodText b n := by
  have hheader : header a n (rules.methodBody? n) = header b n (rules.methodBody? n) :=
    header_eq hagree hn (fun _ ↦ Node.mem_children_of_orElse) hconfined (.toList _)
  rw [methodText, methodText, ← methodBody?]
  cases hbody : rules.methodBody? n with
  | some body =>
      rw [hbody] at hheader
      exact hheader
  | none =>
      rw [hbody] at hconfined
      have htext := hconfined.text_eq hagree (.refl n)
      simp only [htext]

theorem member?_eq (hagree : AgreeOutside cuts a b) (hn : n.Nested)
    (hconfined : Confined cuts (rules.methodCuts n) n) :
    rules.member? a n = rules.member? b n := by
  rw [member?, member?]
  by_cases hmethod : rules.methods.contains n.kind = true
  · rw [methodCuts, if_pos hmethod] at hconfined
    rw [if_pos hmethod, if_pos hmethod, methodText_eq hagree hn hconfined]
  · rw [methodCuts, if_neg hmethod] at hconfined
    rw [if_neg hmethod, if_neg hmethod, hconfined.text_eq hagree (.refl n)]

theorem membersOf_eq (hagree : AgreeOutside cuts a b) (hn : n.Nested)
    (hconfined : Confined cuts (cutMembers rules.methodCuts (rules.body? n)) n) :
    rules.membersOf a n = rules.membersOf b n := by
  rw [membersOf, membersOf]
  cases hbody : rules.body? n with
  | none => rfl
  | some body =>
      have hmem := Node.mem_children_of_orElse hbody
      have hnested := hn.of_mem hmem
      refine List.filterMap_congr fun m hm ↦ ?_
      exact member?_eq hagree (hnested.siblings_members.nested m hm)
        (confined_member hconfined hbody hnested (hn.within_of_mem hmem)
          (fun _ ↦ within_of_mem_methodCuts) hm)

theorem typeEntry_eq (hagree : AgreeOutside cuts a b) (hn : n.Nested) {kind : Kind}
    (hconfined : Confined cuts
      (if kind = .enum then [] else cutMembers rules.methodCuts (rules.body? n)) n) :
    (rules.typeEntry a kind n).unnamed = (rules.typeEntry b kind n).unnamed := by
  have hline := hagree.line_eq n
  rw [typeEntry, typeEntry]
  by_cases henum : kind = .enum
  · rw [if_pos henum] at hconfined
    have htext := hconfined.text_eq hagree (.refl n)
    simp only [if_pos henum, Declaration.unnamed, htext, hline]
  · rw [if_neg henum] at hconfined
    have hheader : header a n (rules.body? n) = header b n (rules.body? n) :=
      header_eq hagree hn (fun _ ↦ Node.mem_children_of_orElse) hconfined
        (.cutMembers (fun _ hb ↦ hn.of_mem (Node.mem_children_of_orElse hb))
          fun _ ↦ within_of_mem_methodCuts)
    have hmembers := membersOf_eq hagree hn hconfined
    simp only [if_neg henum, Declaration.unnamed, openHeader, hheader, hmembers, hline]

theorem entryAt_eq (hagree : AgreeOutside cuts a b) (hn : n.Nested)
    (hconfined : Confined cuts (rules.cutsOf n) n) :
    (rules.entryAt a n).map Declaration.unnamed = (rules.entryAt b n).map Declaration.unnamed := by
  have hline := hagree.line_eq n
  rw [entryAt, entryAt]
  rw [cutsOf] at hconfined
  cases htype : rules.types.lookup n.kind with
  | some kind =>
      rw [htype] at hconfined
      simp only [List.map_cons, List.map_nil, typeEntry_eq hagree hn hconfined]
  | none =>
      rw [htype] at hconfined
      dsimp only at hconfined ⊢
      by_cases hfunction : rules.functions.contains n.kind = true
      · rw [if_pos hfunction] at hconfined
        have hheader := header_eq hagree hn (fun _ ↦ Node.mem_children_of_field?) hconfined
          (.toList _)
        simp only [if_pos hfunction, List.map_cons, List.map_nil, Declaration.unnamed, hheader,
          hline]
      · rw [if_neg hfunction, if_neg hfunction]

/-- Wrappers declare nothing themselves. -/
def Separate (rules : ClassRules) : Prop :=
  ∀ kind ∈ rules.wrappers,
    rules.types.lookup kind = none ∧ rules.functions.contains kind = false

theorem separate_javaRules : javaRules.Separate := by
  simp [Separate, javaRules]

theorem separate_csharpRules : csharpRules.Separate := by
  intro kind hkind
  simp only [csharpRules, List.mem_cons, List.not_mem_nil, or_false] at hkind
  rcases hkind with rfl | rfl | rfl <;> decide

theorem separate_phpRules : phpRules.Separate := by
  intro kind hkind
  simp only [phpRules, List.mem_cons, List.not_mem_nil, or_false] at hkind
  rcases hkind with rfl | rfl | rfl <;> decide

theorem Separate.wrapper_of_way (h : rules.Separate) (hway : rules.way n ≠ .stop) :
    rules.cutsOf n = [] ∧ ∀ source, rules.entryAt source n = [] := by
  have hkind : n.kind ∈ rules.wrappers := by
    by_contra hkind
    exact hway (if_neg (by simpa using hkind))
  obtain ⟨htype, hfunction⟩ := h n.kind hkind
  refine ⟨?_, fun source ↦ ?_⟩
  · simp only [cutsOf, htype, hfunction]
    rfl
  · simp only [entryAt, htype, hfunction]
    rfl

theorem Separate.outline_eq (h : rules.Separate) {root : Node} (hroot : root.Nested)
    (hagree : AgreeOutside ((Node.reachMembers rules.way root.children).flatMap rules.cutsOf) a b) :
    (rules.outline a root).map Declaration.unnamed =
      (rules.outline b root).map Declaration.unnamed :=
  flatMap_reachMembers_eq hroot (fun _ ↦ within_of_mem_cutsOf) (fun _ ↦ h.wrapper_of_way)
    fun _ ↦ entryAt_eq hagree

end Dossier.Outline.ClassRules

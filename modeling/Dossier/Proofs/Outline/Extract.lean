import Dossier.Outline.Extract
import Dossier.Proofs.Outline.BracedClasses
import Dossier.Proofs.Outline.Go
import Dossier.Proofs.Outline.Python
import Dossier.Proofs.Outline.Ruby
import Dossier.Proofs.Outline.Rust
import Dossier.Proofs.Outline.Script

/-!
# Outlines without bodies

What stands in the body of a function or method that an outline cuts can be changed without any
effect on the outline, as long as the lines stay where they are: no such text reaches an outline.
Only the name that is guessed for a declaration without one may depend on it.
-/

namespace Dossier.Outline

/-- The bodies of the functions and methods that the outline of a source cuts. -/
def cutBodies (language : Language) (root : Node) : List Node :=
  match language with
  | .typescript | .tsx | .javascript => root.members.flatMap Script.cutsOf
  | .python => root.members.flatMap Python.cutsOf
  | .go => root.members.flatMap Go.cutsOf
  | .rust => (Node.reachMembers Rust.way root.children).flatMap Rust.cutsOf
  | .java => (Node.reachMembers javaRules.way root.children).flatMap javaRules.cutsOf
  | .csharp => (Node.reachMembers csharpRules.way root.children).flatMap csharpRules.cutsOf
  | .ruby => (Node.reachMembers Ruby.way root.children).flatMap Ruby.cutsOf
  | .php => (Node.reachMembers phpRules.way root.children).flatMap phpRules.cutsOf

/-- Two sources that differ only in bodies that are cut have the same outline but for names. -/
theorem ofTree_sameButName {language : Language} {root : Node} {a b : Bytes}
    (hroot : root.Nested)
    (hbodies : language = .ruby →
      ∀ n ∈ Node.reachMembers Ruby.way root.children, Ruby.HasBody n)
    (hagree : AgreeOutside (cutBodies language root) a b) :
    List.Forall₂ SameButName (ofTree language a root) (ofTree language b root) := by
  refine forall₂_of_map_unnamed ?_
  cases language with
  | typescript | tsx | javascript => exact Script.outline_eq hroot hagree
  | python => exact Python.outline_eq hroot hagree
  | go => exact Go.outline_eq hroot hagree
  | rust => exact Rust.outline_eq hroot hagree
  | java => exact ClassRules.separate_javaRules.outline_eq hroot hagree
  | csharp => exact ClassRules.separate_csharpRules.outline_eq hroot hagree
  | ruby => exact Ruby.outline_eq hroot (hbodies rfl) hagree
  | php => exact ClassRules.separate_phpRules.outline_eq hroot hagree

/-- The tree of a class with one method, `class A;def f;1;end;end`. -/
def classTree : Node :=
  ⟨"program", true, none, 0, 23,
    [⟨"class", true, none, 0, 23,
      [⟨"constant", true, some "name", 6, 7, []⟩,
        ⟨"body_statement", true, some "body", 8, 19,
          [⟨"method", true, none, 8, 19,
            [⟨"identifier", true, some "name", 12, 13, []⟩,
              ⟨"body_statement", true, some "body", 14, 15, []⟩]⟩]⟩]⟩]⟩

theorem ofTree_sameButName_class :
    List.Forall₂ SameButName
      (ofTree .ruby (Bytes.ofText "class A;def f;1;end;end") classTree)
      (ofTree .ruby (Bytes.ofText "class A;def f;2;end;end") classTree) := by
  have hclasses : Node.reachMembers Ruby.way classTree.children = classTree.children := by cbv
  have hcuts : ⟨"body_statement", true, some "body", 14, 15, []⟩ ∈ cutBodies .ruby classTree := by
    rw [cutBodies, hclasses]
    exact List.mem_singleton.mpr rfl
  have hsource : Bytes.ofText "class A;def f;2;end;end" =
      (Bytes.ofText "class A;def f;1;end;end").set 14 50 := by decide
  refine ofTree_sameButName (Node.nested_of_isNested classTree (by decide)) (fun _ n hn ↦ ?_) ?_
  · rw [hclasses] at hn
    obtain rfl := List.mem_singleton.mp hn
    intro _ hbody
    simp [Ruby.body?, Node.field?] at hbody
  · rw [hsource]
    exact .of_set hcuts (Nat.le_refl _) (by decide) (by decide) (by decide)

end Dossier.Outline

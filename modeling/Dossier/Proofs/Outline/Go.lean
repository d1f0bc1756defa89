import Dossier.Outline.Go
import Dossier.Proofs.Outline.Declaration

/-!
# Go without bodies

Only functions and methods have a part that is cut; types, constants and variables are shown from
their own text.
-/

namespace Dossier.Outline.Go

variable {cuts : List Node} {a b : Bytes} {n : Node}

/-- The body of a function or method. -/
def cutsOf (n : Node) : List Node :=
  if n.kind = "function_declaration" ∨ n.kind = "method_declaration" then (n.field? "body").toList
  else []

theorem within_of_mem_cutsOf (hn : n.Nested) : ∀ c ∈ cutsOf n, c.Within n := by
  intro c hc
  rw [cutsOf] at hc
  split at hc
  · exact hn.within_of_field? (Option.mem_toList.mp hc)
  · simp at hc

theorem typeOf?_eq (hagree : AgreeOutside cuts a b) (hn : n.Nested) (hconfined : Confined cuts [] n)
    {spec : Node} (hspec : spec ∈ n.members) :
    (typeOf? a n spec).map Declaration.unnamed = (typeOf? b n spec).map Declaration.unnamed := by
  have hmem := Node.mem_children_of_mem_members hspec
  have hwithin := hn.within_of_mem hmem
  have hline := hagree.line_eq spec
  rw [typeOf?, typeOf?]
  split
  · have htext := hconfined.text_eq hagree hwithin
    simp only [Option.map_some, Declaration.unnamed, htext, hline]
  · cases htype : spec.field? "type" with
    | none => simp only [Option.map_none]
    | some type =>
        have htype := ((hn.of_mem hmem).within_of_field? htype).trans hwithin
        have hgroup : a.slice spec.start type.stop = b.slice spec.start type.stop :=
          hconfined.slice_eq hagree hwithin.1 htype.2 (by simp)
        have hsingle : a.slice n.start type.stop = b.slice n.start type.stop :=
          hconfined.slice_eq hagree (Nat.le_refl _) htype.2 (by simp)
        simp only [Option.map_some, Declaration.unnamed, hgroup, hsingle, hline]

theorem specEntries_eq (hagree : AgreeOutside cuts a b) (hn : n.Nested)
    (hconfined : Confined cuts [] n) (keyword : String) {spec : Node} (hspec : spec ∈ n.members) :
    specEntries a keyword spec = specEntries b keyword spec := by
  have hmem := Node.mem_children_of_mem_members hspec
  have htext {m : Node} (hm : m ∈ spec.children) : m.text a = m.text b :=
    hconfined.text_eq hagree
      (((hn.of_mem hmem).within_of_mem hm).trans (hn.within_of_mem hmem))
  have hnames : (spec.members.filter (·.kind == "identifier")).map (·.text a) =
      (spec.members.filter (·.kind == "identifier")).map (·.text b) :=
    List.map_congr_left fun m hm ↦
      htext (Node.mem_children_of_mem_members (List.mem_of_mem_filter hm))
  rw [specEntries, specEntries, hnames, hagree.line_eq]
  cases htype : spec.field? "type" with
  | none => rfl
  | some type => simp only [htext (Node.mem_children_of_field? htype)]

theorem entriesAt_eq (hagree : AgreeOutside cuts a b) (hn : n.Nested)
    (hconfined : Confined cuts (cutsOf n) n) :
    (entriesAt a n).map Declaration.unnamed = (entriesAt b n).map Declaration.unnamed := by
  rw [entriesAt, entriesAt]
  by_cases hfunction : n.kind = "function_declaration" ∨ n.kind = "method_declaration"
  · rw [cutsOf, if_pos hfunction] at hconfined
    have hheader := header_eq hagree hn (fun _ ↦ Node.mem_children_of_field?) hconfined
      (.toList (n.field? "body"))
    have hline := hagree.line_eq n
    rw [if_pos hfunction, if_pos hfunction]
    simp only [functionEntry, List.map_cons, List.map_nil, Declaration.unnamed, hheader, hline]
  rw [cutsOf, if_neg hfunction] at hconfined
  have hvalues (keyword : String) : valueEntries a keyword n = valueEntries b keyword n :=
    List.flatMap_congr fun spec hspec ↦
      specEntries_eq hagree hn hconfined keyword (List.mem_of_mem_filter hspec)
  rw [if_neg hfunction, if_neg hfunction, hvalues, hvalues]
  split
  · rw [typeEntries, typeEntries, List.map_filterMap, List.map_filterMap]
    exact List.filterMap_congr fun spec hspec ↦
      typeOf?_eq hagree hn hconfined (List.mem_of_mem_filter hspec)
  · rfl

theorem outline_eq {root : Node} (hroot : root.Nested)
    (hagree : AgreeOutside (root.members.flatMap cutsOf) a b) :
    (outline a root).map Declaration.unnamed = (outline b root).map Declaration.unnamed :=
  flatMap_members_eq hroot (fun _ ↦ within_of_mem_cutsOf) fun _ ↦ entriesAt_eq hagree

end Dossier.Outline.Go

import Dossier.Proofs.Outline.Identifiers
import Dossier.Proofs.Outline.ScriptEntries

/-!
# Export clauses

An export statement that names neither a declaration nor a value has one entry, and the name of that
entry begins with a label. As long as no identifier of the tree begins like that, no other entry
does.
-/

namespace Dossier.Outline.Script

open Text (startsWith)

variable {source : Bytes} {n m : Node}

/-- An export statement that names neither a declaration nor a value. -/
structure IsClause (n : Node) : Prop where
  isExport : n.kind = "export_statement"
  noDeclaration : exportedDeclaration? n = none
  noValue : n.field? "value" = none

theorem entriesAt_of_clause (h : IsClause n) : entriesAt source n = [clauseEntry source n] := by
  obtain ⟨hkind, hdeclaration, hvalue⟩ := h
  rw [exportedDeclaration?] at hdeclaration
  rw [entriesAt, if_pos hkind, exportEntries, hdeclaration, hvalue]
  rfl

/-- No identifier of a tree begins like the label of a re-export, which has a hyphen in it. -/
def Unlabelled (source : Bytes) (root : Node) : Prop :=
  ∀ m, root.Holds m → m.kind ∈ identifierKinds →
    startsWith (m.text source) reexportLabel = false

theorem Unlabelled.of_holds (h : Unlabelled source n) (hm : n.Holds m) : Unlabelled source m :=
  fun k hk ↦ h k (hm.trans hk)

theorem unlabelled_iff {kind : String} {named : Bool} {field : Option String} {start stop : Nat}
    {children : List Node} : Unlabelled source ⟨kind, named, field, start, stop, children⟩ ↔
      (kind ∈ identifierKinds → startsWith (source.slice start stop) reexportLabel = false) ∧
        ∀ child ∈ children, Unlabelled source child := by
  constructor
  · intro h
    exact ⟨h _ (.refl _), fun child hchild ↦ h.of_holds (Node.holds_of_mem hchild)⟩
  · rintro ⟨hroot, hchildren⟩ m hm hkind
    rcases Relation.ReflTransGen.cases_head hm with rfl | ⟨child, hchild, hheld⟩
    · exact hroot hkind
    · exact hchildren child hchild m hheld hkind

/-! ## Names with the label -/

theorem startsWith_append (s t u : String) : startsWith (s ++ t ++ u) s = true := by
  rw [startsWith, String.append_assoc, String.toList_append]
  exact List.isPrefixOf_iff_prefix.mpr (List.prefix_append ..)

theorem startsWith_reexportName (source : Bytes) (n : Node) :
    startsWith (reexportName source n) reexportLabel = true := by
  rw [reexportName]
  split_ifs
  · exact startsWith_append reexportLabel " from " _
  · split
    next name _ => exact startsWith_append reexportLabel " from " (String.ofList name)
    next => decide

theorem startsWith_nameInText (s : String) : startsWith (nameInText s) reexportLabel = false := by
  rcases nameInText_isIdentifier s with h | h
  · rw [h]
    decide
  · by_contra hlabel
    rw [Bool.not_eq_false, startsWith, List.isPrefixOf_iff_prefix] at hlabel
    have hhyphen := h.goesOn '-' (hlabel.subset (by decide))
    exact absurd hhyphen (by decide)

theorem startsWith_guessName (h : Unlabelled source n) :
    startsWith (guessName source n) reexportLabel = false := by
  rw [guessName]
  split
  next child hchild =>
    have hkind : child.kind ∈ identifierKinds := by simpa using List.find?_some hchild
    exact h child (Node.holds_of_firstOf? hchild) hkind
  next => exact startsWith_nameInText _

theorem startsWith_declaratorName (h : Unlabelled source n) :
    startsWith (declaratorName source n) reexportLabel = false := by
  rw [declaratorName]
  split
  next name hname =>
    split
    next hkind =>
      refine h name (Node.holds_of_field? hname) ?_
      rw [hkind]
      decide
    next => exact startsWith_guessName h
  next => exact startsWith_guessName h

theorem DeclaredAt.startsWith_name {exported : Bool} {e : Declaration}
    (h : DeclaredAt source exported n e) (hn : Unlabelled source n) :
    startsWith e.name reexportLabel = false := by
  rcases h.name with hname | ⟨m, hm, hname⟩
  · rw [hname]
    exact startsWith_guessName hn
  · rw [hname]
    exact startsWith_declaratorName (hn.of_holds (Node.holds_of_mem_members hm))

/-- The entries with the label are those of export clauses. -/
theorem startsWith_name_iff (h : Unlabelled source n) :
    ∀ e ∈ entriesAt source n, (startsWith e.name reexportLabel = true ↔ IsClause n) := by
  have hdeclared {m : Node} {exported : Bool} {start : Nat} (hm : n.Holds m) :
      ∀ e ∈ declarationEntries source exported start m,
        startsWith e.name reexportLabel = false := fun e he ↦
    (declaredAt_of_mem_declarationEntries e he).startsWith_name
      (h.of_holds (hm.trans (holds_innermost m)))
  intro e he
  rw [entriesAt] at he
  split at he
  next hkind =>
    rcases exportEntries_cases source n with
      ⟨declaration, hsome, heq⟩ | ⟨value, -, hsome, heq⟩ | ⟨hdeclaration, hvalue, heq⟩
    · rw [heq] at he
      have hheld := Node.holds_of_mem (Node.mem_children_of_orElse hsome)
      refine iff_of_false (by simp [hdeclared hheld e he]) fun hclause ↦ ?_
      exact Option.some_ne_none _ (hsome.symm.trans hclause.noDeclaration)
    · obtain rfl := List.mem_singleton.mp (heq ▸ he)
      refine iff_of_false ?_ fun hclause ↦ ?_
      · rw [(of_defaultEntry source n value).2.2]
        decide
      · exact Option.some_ne_none _ (hsome.symm.trans hclause.noValue)
    · obtain rfl := List.mem_singleton.mp (heq ▸ he)
      exact iff_of_true (startsWith_reexportName source n) ⟨hkind, hdeclaration, hvalue⟩
  next hkind =>
    refine iff_of_false (by simp [hdeclared (.refl n) e he]) fun hclause ↦ ?_
    exact hkind hclause.isExport

end Dossier.Outline.Script

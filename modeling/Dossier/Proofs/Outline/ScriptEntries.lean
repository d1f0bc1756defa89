import Dossier.Proofs.Outline.Script
import Dossier.Proofs.Source.Held

/-!
# What entries have from their nodes

Wherever the text of a declaration begins, its entries say on which line the declaration stands,
whether it is exported, and name it after the declaration or after one of its declarators.
-/

namespace Dossier.Outline.Script

variable {source : Bytes} {n : Node} {e : Declaration} {exported : Bool}

/-- What an entry has from the node that declares it. -/
structure DeclaredAt (source : Bytes) (exported : Bool) (n : Node) (e : Declaration) : Prop where
  exported : e.exported = exported
  line : e.line = n.line source
  name : e.name = guessName source n ∨ ∃ m ∈ n.members, e.name = declaratorName source m

theorem of_declared? {lead : String} {line : Nat}
    (h : declared? source exported lead line n = some e) :
    e.exported = exported ∧ e.line = line ∧ e.name = declaratorName source n := by
  rw [declared?] at h
  split at h
  · obtain rfl := Option.some_inj.mp h
    exact ⟨rfl, rfl, rfl⟩
  · split at h
    · obtain rfl := Option.some_inj.mp h
      exact ⟨rfl, rfl, rfl⟩
    · cases h

theorem declaredAt_of_mem_plainEntries {start : Nat} :
    ∀ e ∈ plainEntries source exported start n, DeclaredAt source exported n e := by
  rw [plainEntries]
  split
  case h_9 | h_10 =>
    intro e he
    rw [variableEntries] at he
    split at he
    · cases he
    next first rest hdeclarators =>
      obtain ⟨m, hm, he⟩ := List.mem_filterMap.mp he
      obtain ⟨hexported, hline, hname⟩ := of_declared? he
      rw [← hdeclarators] at hm
      exact ⟨hexported, hline, .inr ⟨m, (List.mem_filter.mp hm).1, hname⟩⟩
  case h_11 => simp
  all_goals
    rw [List.forall_mem_singleton]
    exact ⟨rfl, rfl, .inl rfl⟩

theorem declaredAt_of_mem_declarationEntries {start : Nat} :
    ∀ e ∈ declarationEntries source exported start n, DeclaredAt source exported (innermost n) e :=
  declaredAt_of_mem_plainEntries

/-- A default export stands on its own line under a name of its own. -/
theorem of_defaultEntry (source : Bytes) (n value : Node) :
    (defaultEntry source n value).exported = true ∧
      (defaultEntry source n value).line = n.line source ∧
      (defaultEntry source n value).name = "default" := by
  rw [defaultEntry]
  split
  · split <;> exact ⟨rfl, rfl, rfl⟩
  · split <;> exact ⟨rfl, rfl, rfl⟩

theorem holds_innermost (n : Node) : n.Holds (innermost n) :=
  Node.holds_of_mem_reach (innermost_mem_reach n)

/-! ## Export statements -/

/-- The declaration that an export statement names. -/
def exportedDeclaration? (n : Node) : Option Node :=
  n.field? "declaration" <|> n.firstOf? declarationKinds

/-- The entry of an export statement that names neither a declaration nor a value. -/
def clauseEntry (source : Bytes) (n : Node) : Declaration :=
  { kind := .const, name := reexportName source n
    signature := withoutTerminator (n.text source), line := n.line source }

/-- An export statement shows the declaration that it names, or else its value, or else itself. -/
theorem exportEntries_cases (source : Bytes) (n : Node) :
    (∃ declaration, exportedDeclaration? n = some declaration ∧
      exportEntries source n = declarationEntries source true n.start declaration) ∨
    (∃ value, exportedDeclaration? n = none ∧ n.field? "value" = some value ∧
      exportEntries source n = [defaultEntry source n value]) ∨
    exportedDeclaration? n = none ∧ n.field? "value" = none ∧
      exportEntries source n = [clauseEntry source n] := by
  rw [exportEntries, exportedDeclaration?]
  cases n.field? "declaration" <|> n.firstOf? declarationKinds with
  | some declaration => exact .inl ⟨declaration, rfl, rfl⟩
  | none =>
      right
      cases n.field? "value" with
      | some value => exact .inl ⟨value, rfl, rfl, rfl⟩
      | none => exact .inr ⟨rfl, rfl, rfl⟩

/-- Exactly the entries of export statements are exported. -/
theorem exported_of_mem_entriesAt :
    ∀ e ∈ entriesAt source n, e.exported = decide (n.kind = "export_statement") := by
  intro e he
  rw [entriesAt] at he
  split at he
  next hkind =>
    rw [decide_eq_true hkind]
    rcases exportEntries_cases source n with ⟨declaration, -, heq⟩ | ⟨value, -, -, heq⟩ | ⟨-, -, heq⟩
    · rw [heq] at he
      exact (declaredAt_of_mem_declarationEntries e he).exported
    · obtain rfl := List.mem_singleton.mp (heq ▸ he)
      exact (of_defaultEntry source n value).1
    · obtain rfl := List.mem_singleton.mp (heq ▸ he)
      rfl
  next hkind =>
    rw [decide_eq_false hkind]
    exact (declaredAt_of_mem_declarationEntries e he).exported

end Dossier.Outline.Script

import Dossier.Proofs.Outline.ScriptEntries

/-!
# What exports show

Every entry of an export statement is exported. A statement that names no declaration always has an
entry; one that names a declaration has entries exactly if the declaration is of a kind that is
shown.
-/

namespace Dossier.Outline.Script

variable {source : Bytes} {root n inner declarator : Node}

/-! ## Ambient declarations -/

theorem entered_way_of_ambient (h : n.kind = "ambient_declaration") :
    n.entered way = (n.firstOf? declarationKinds).toList := by
  rw [Node.entered, way, if_pos h, Node.firstOf?_eq_bind]
  cases n.kindIndex? declarationKinds <;> rfl

theorem innermost_of_not_ambient (h : n.kind ≠ "ambient_declaration") : innermost n = n := by
  rw [innermost, Node.reach_eq_entered, Node.entered, way, if_neg h]
  rfl

theorem innermost_of_ambient (h : n.kind = "ambient_declaration") :
    innermost n = (n.firstOf? declarationKinds).elim n innermost := by
  rw [innermost, Node.reach_eq_entered, entered_way_of_ambient h]
  cases n.firstOf? declarationKinds with
  | none => rfl
  | some inner =>
      rw [Option.elim_some, innermost, Option.toList_some, List.flatMap_singleton,
        Node.reach_eq_entered]
      rfl

/-! ## Declarations that are shown -/

/-- Declarations that have one entry. -/
def singleKinds : List String :=
  ["function_declaration", "generator_function_declaration", "function_signature",
    "class_declaration", "abstract_class_declaration", "interface_declaration",
    "type_alias_declaration", "enum_declaration"]

/-- Declarations that have an entry for every declarator. -/
def variableKinds : List String :=
  ["lexical_declaration", "variable_declaration"]

/-- What a declaration has to be for its export to show anything. -/
inductive Shows : Node → Prop where
  | single {n : Node} (kind : n.kind ∈ singleKinds) : Shows n
  | variables {n declarator : Node} (kind : n.kind ∈ variableKinds) (mem : declarator ∈ n.members)
      (declares : declarator.kind = "variable_declarator") : Shows n
  | ambient {n inner : Node} (kind : n.kind = "ambient_declaration")
      (first : n.firstOf? declarationKinds = some inner) (shows : Shows inner) : Shows n

theorem shows_iff_of_not_ambient (h : n.kind ≠ "ambient_declaration") :
    Shows n ↔ n.kind ∈ singleKinds ∨
      n.kind ∈ variableKinds ∧ ∃ m ∈ n.members, m.kind = "variable_declarator" := by
  constructor
  · rintro (kind | ⟨kind, mem, declares⟩ | ⟨kind, -, -⟩)
    · exact .inl kind
    · exact .inr ⟨kind, _, mem, declares⟩
    · exact absurd kind h
  · rintro (kind | ⟨kind, m, mem, declares⟩)
    · exact .single kind
    · exact .variables kind mem declares

theorem shows_iff_of_ambient (h : n.kind = "ambient_declaration") :
    Shows n ↔ ∃ inner, n.firstOf? declarationKinds = some inner ∧ Shows inner := by
  constructor
  · rintro (kind | ⟨kind, -, -⟩ | ⟨-, first, shows⟩)
    · rw [h] at kind
      exact absurd kind (by decide)
    · rw [h] at kind
      exact absurd kind (by decide)
    · exact ⟨_, first, shows⟩
  · rintro ⟨inner, first, shows⟩
    exact .ambient h first shows

theorem variableEntries_eq_nil_iff {start : Nat} : variableEntries source true start n = [] ↔
    ∀ m ∈ n.members, m.kind ≠ "variable_declarator" := by
  have hall : (∀ m ∈ n.members, m.kind ≠ "variable_declarator") ↔
      n.members.filter (·.kind == "variable_declarator") = [] := by
    simp [List.filter_eq_nil_iff]
  rw [hall, variableEntries]
  cases n.members.filter (·.kind == "variable_declarator") with
  | nil => simp
  | cons first rest =>
      have hsome (lead : String) (line : Nat) :
          (declared? source true lead line first).isSome = true := by
        rw [declared?]
        split <;> rfl
      obtain ⟨e, he⟩ := Option.isSome_iff_exists.mp
        (hsome (source.slice start first.start) (n.line source))
      simp [he]

theorem plainEntries_eq_nil_iff {start : Nat} : plainEntries source true start n = [] ↔
    n.kind ∉ singleKinds ∧
      (n.kind ∈ variableKinds → ∀ m ∈ n.members, m.kind ≠ "variable_declarator") := by
  rw [plainEntries]
  split
  case h_9 | h_10 =>
    rw [variableEntries_eq_nil_iff]
    simp_all [singleKinds, variableKinds]
  all_goals simp_all [singleKinds, variableKinds]

theorem declarationEntries_eq_nil_iff {start : Nat} {n : Node} :
    declarationEntries source true start n = [] ↔ ¬ Shows n := by
  by_cases hambient : n.kind = "ambient_declaration"
  · rw [declarationEntries, innermost_of_ambient hambient, shows_iff_of_ambient hambient]
    cases hfirst : n.firstOf? declarationKinds with
    | none => simp [plainEntries, hambient]
    | some inner =>
        have ih : declarationEntries source true start inner = [] ↔ ¬ Shows inner :=
          declarationEntries_eq_nil_iff
        simpa [declarationEntries] using ih
  · rw [declarationEntries, innermost_of_not_ambient hambient, plainEntries_eq_nil_iff,
      shows_iff_of_not_ambient hambient]
    simp
termination_by sizeOf n
decreasing_by
  exact Node.sizeOf_lt_of_mem_children
    (Node.mem_children_of_mem_members (Node.mem_members_of_firstOf? hfirst))

/-! ## Export statements -/

/-- What an export statement contributes to an outline. All of it is exported. It is nothing exactly
if the statement names a declaration that is not shown. -/
theorem export_hidden_iff (source : Bytes) {before after : List Node}
    (hroot : root.members = before ++ n :: after) (hkind : n.kind = "export_statement") :
    outline source root = before.flatMap (entriesAt source) ++ exportEntries source n ++
        after.flatMap (entriesAt source) ∧
      (∀ e ∈ exportEntries source n, e.exported = true) ∧
      (exportEntries source n = [] ↔ ∃ d, exportedDeclaration? n = some d ∧ ¬ Shows d) := by
  have hentries : entriesAt source n = exportEntries source n := by rw [entriesAt, if_pos hkind]
  refine ⟨?contribution, ?exported, ?hidden⟩
  case contribution =>
    rw [outline, hroot, List.flatMap_append, List.flatMap_cons, hentries, List.append_assoc]
  case exported =>
    intro e he
    rw [← hentries] at he
    rw [exported_of_mem_entriesAt e he, decide_eq_true hkind]
  case hidden =>
    rcases exportEntries_cases source n with
      ⟨declaration, hdeclaration, heq⟩ | ⟨value, hdeclaration, -, heq⟩ | ⟨hdeclaration, -, heq⟩
    · rw [heq, hdeclaration, declarationEntries_eq_nil_iff]
      simp
    · simp [heq, hdeclaration]
    · simp [heq, hdeclaration]

/-- The source of a namespace that is exported. -/
def namespaceSource : Bytes :=
  Bytes.ofText "export namespace Geo \x7b\n  export const pi = 3;\n\x7d\n"

/-- The export of a namespace. -/
def namespaceExport : Node :=
  ⟨"export_statement", true, none, 0, 47,
    [⟨"export", false, none, 0, 6, []⟩,
      ⟨"internal_module", true, some "declaration", 7, 47,
        [⟨"namespace", false, none, 7, 16, []⟩, ⟨"identifier", true, some "name", 17, 20, []⟩,
          ⟨"statement_block", true, some "body", 21, 47,
            [⟨"\x7b", false, none, 21, 22, []⟩,
              ⟨"export_statement", true, none, 25, 45,
                [⟨"export", false, none, 25, 31, []⟩,
                  ⟨"lexical_declaration", true, some "declaration", 32, 45,
                    [⟨"const", false, some "kind", 32, 37, []⟩,
                      ⟨"variable_declarator", true, none, 38, 44,
                        [⟨"identifier", true, some "name", 38, 40, []⟩,
                          ⟨"=", false, none, 41, 42, []⟩,
                          ⟨"number", true, some "value", 43, 44, []⟩]⟩,
                      ⟨";", false, none, 44, 45, []⟩]⟩]⟩,
              ⟨"\x7d", false, none, 46, 47, []⟩]⟩]⟩]⟩

/-- A namespace that is exported leaves no trace. -/
theorem export_hidden_iff_namespace :
    let root : Node := ⟨"program", true, none, 0, 48, [namespaceExport]⟩
    namespaceExport ∈ root.members ∧ namespaceExport.kind = "export_statement" ∧
      outline namespaceSource root = [] := by
  intro root
  have hroot : root.members = [] ++ namespaceExport :: [] := rfl
  obtain ⟨houtline, -, hhidden⟩ := export_hidden_iff namespaceSource hroot rfl
  have hshows : ¬ Shows ((exportedDeclaration? namespaceExport).getD root) := by
    rw [shows_iff_of_not_ambient (by decide)]
    decide
  have hnone : exportEntries namespaceSource namespaceExport = [] := hhidden.mpr ⟨_, rfl, hshows⟩
  refine ⟨List.mem_singleton_self _, rfl, ?_⟩
  simpa [hnone] using houtline

end Dossier.Outline.Script

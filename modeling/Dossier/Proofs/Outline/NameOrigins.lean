import Dossier.Outline.Extract
import Dossier.Proofs.Outline.Clauses
import Dossier.Proofs.Outline.Python
import Dossier.Proofs.Text.Utf8

/-!
# Where names come from

A declaration has its name from an identifier, from the text of its node, or from a label. Only an
identifier can leave it without one: a node that takes up no bytes of the source, as it stands for
what is missing there.
-/

namespace Dossier

variable {source : Bytes} {n m : Node} {name : String}

theorem Text.Utf8.decodeLossy_eq_empty_iff {bytes : List UInt8} :
    decodeLossy bytes = "" ↔ bytes = [] := by
  cases bytes with
  | nil => simp [decodeLossy, decodeWith]
  | cons lead rest =>
      rw [decodeLossy, decodeWith_cons, String.ofList_eq_empty_iff]
      cases (first lead rest).1.toOption <;> simp

/-- A node takes up bytes of a source. -/
def Node.TakesUp (source : Bytes) (n : Node) : Prop :=
  n.start < n.stop ∧ n.start < source.length

theorem Node.text_eq_empty_iff : n.text source = "" ↔ ¬ n.TakesUp source := by
  rw [Node.text, Bytes.slice, Text.Utf8.decodeLossy_eq_empty_iff, Bytes.between,
    List.drop_eq_nil_iff, List.length_take, Node.TakesUp]
  omega

namespace Outline

/-- What gives a declaration its name: the node that fills the field of the name, the first
identifier of its node, the text of its node, an identifier itself, or a label. -/
inductive NamedAt (source : Bytes) (n : Node) : String → Prop where
  | field {m : Node} (filled : n.field? "name" = some m) (shows : Text.strip (m.text source) ≠ "") :
      NamedAt source n (Text.strip (m.text source))
  | first {m : Node} (found : n.firstOf? identifierKinds = some m) :
      NamedAt source n (m.text source)
  | text (missed : n.firstOf? identifierKinds = none) :
      NamedAt source n (nameInText (n.text source))
  | itself (kind : n.kind ∈ identifierKinds) : NamedAt source n (n.text source)
  | default : NamedAt source n "default"
  | clause : NamedAt source n (Script.reexportName source n)

/-- An identifier that names a declaration takes up no bytes. -/
structure Missing (source : Bytes) (n m : Node) : Prop where
  role : m = n ∨ n.firstOf? identifierKinds = some m
  kind : m.kind ∈ identifierKinds
  absent : ¬ m.TakesUp source

theorem namedAt_guessName (source : Bytes) (n : Node) : NamedAt source n (guessName source n) := by
  rw [guessName]
  split
  next child hchild => exact .first hchild
  next hnone => exact .text hnone

theorem namedAt_nameOf (source : Bytes) (n : Node) : NamedAt source n (nameOf source n) := by
  rw [nameOf]
  split
  next child hchild =>
    dsimp only
    split
    next => exact namedAt_guessName source n
    next hshows => exact .field hchild hshows
  next => exact namedAt_guessName source n

theorem nameInText_ne_empty (s : String) : nameInText s ≠ "" := by
  rcases nameInText_isIdentifier s with h | h
  · rw [h]
    decide
  · intro hempty
    obtain ⟨c, hc, -⟩ := h.begins
    simp [hempty] at hc

theorem kind_mem_of_firstOf? {kinds : List String} (h : n.firstOf? kinds = some m) :
    m.kind ∈ kinds := by
  simpa using List.find?_some h

/-- A declaration is left without a name by a missing identifier only. -/
theorem NamedAt.exists_missing (h : NamedAt source n name) (hempty : name = "") :
    ∃ m, Missing source n m ∧ name = m.text source := by
  cases h with
  | field _ hshows => exact absurd hempty hshows
  | first hfound =>
      exact ⟨_, ⟨.inr hfound, kind_mem_of_firstOf? hfound, Node.text_eq_empty_iff.mp hempty⟩, rfl⟩
  | text => exact absurd hempty (nameInText_ne_empty _)
  | itself hkind => exact ⟨n, ⟨.inl rfl, hkind, Node.text_eq_empty_iff.mp hempty⟩, rfl⟩
  | default => exact absurd hempty (by decide)
  | clause =>
      have hlabel := Script.startsWith_reexportName source n
      rw [hempty] at hlabel
      exact absurd hlabel (by decide)

/-! ## Declarations of a tree -/

/-- Declarations that have their names from nodes that a tree holds. -/
def Named (source : Bytes) (n : Node) (es : List Declaration) : Prop :=
  ∀ e ∈ es, ∃ m, n.Holds m ∧ NamedAt source m e.name

namespace Named

variable {es : List Declaration} {f : Node → List Declaration} {way : Node → Node.Way}

theorem of_self (h : ∀ e ∈ es, NamedAt source n e.name) : Named source n es :=
  fun e he ↦ ⟨n, .refl n, h e he⟩

theorem mono (h : Named source m es) (hm : n.Holds m) : Named source n es := by
  intro e he
  obtain ⟨k, hk, hname⟩ := h e he
  exact ⟨k, hm.trans hk, hname⟩

theorem flatMap {nodes : List Node} (hnodes : ∀ m ∈ nodes, n.Holds m)
    (hf : ∀ m, Named source m (f m)) : Named source n (nodes.flatMap f) := by
  intro e he
  obtain ⟨m, hm, he⟩ := List.mem_flatMap.mp he
  exact (hf m).mono (hnodes m hm) e he

theorem members (hf : ∀ m, Named source m (f m)) : Named source n (n.members.flatMap f) :=
  flatMap (fun _ ↦ Node.holds_of_mem_members) hf

theorem filter_members (p : Node → Bool) (hf : ∀ m, Named source m (f m)) :
    Named source n ((n.members.filter p).flatMap f) :=
  flatMap (fun _ hm ↦ Node.holds_of_mem_members (List.mem_of_mem_filter hm)) hf

theorem reachMembers (hf : ∀ m, Named source m (f m)) :
    Named source n ((Node.reachMembers way n.children).flatMap f) := by
  refine flatMap (fun m hm ↦ ?_) hf
  rw [Node.reachMembers_eq_flatMap] at hm
  obtain ⟨k, hk, hm⟩ := List.mem_flatMap.mp hm
  exact (Node.holds_of_mem_members hk).trans (Node.holds_of_mem_reach hm)

end Named

/-! ## One language after the other -/

namespace Script

theorem exists_namedAt_declaratorName (source : Bytes) (n : Node) :
    ∃ m, n.Holds m ∧ NamedAt source m (declaratorName source n) := by
  have hguess : ∃ m, n.Holds m ∧ NamedAt source m (guessName source n) :=
    ⟨n, .refl n, namedAt_guessName source n⟩
  rw [declaratorName]
  split
  next target htarget =>
    split
    next hkind =>
      refine ⟨target, Node.holds_of_field? htarget, .itself ?_⟩
      simp [hkind, identifierKinds]
    next => exact hguess
  next => exact hguess

theorem named_declarationEntries (exported : Bool) (start : Nat) (n : Node) :
    Named source n (declarationEntries source exported start n) := by
  intro e he
  rcases (declaredAt_of_mem_declarationEntries e he).name with hname | ⟨m, hm, hname⟩
  · exact ⟨innermost n, holds_innermost n, hname ▸ namedAt_guessName source _⟩
  · obtain ⟨k, hk, hnamed⟩ := exists_namedAt_declaratorName source m
    exact ⟨k, (holds_innermost n).trans ((Node.holds_of_mem_members hm).trans hk), hname ▸ hnamed⟩

theorem named_entriesAt (n : Node) : Named source n (entriesAt source n) := by
  rw [entriesAt]
  split
  · rcases exportEntries_cases source n with
      ⟨declaration, hdeclaration, heq⟩ | ⟨value, -, -, heq⟩ | ⟨-, -, heq⟩
    · rw [heq]
      exact (named_declarationEntries _ _ declaration).mono
        (Node.holds_of_mem (Node.mem_children_of_orElse hdeclaration))
    · rw [heq]
      refine .of_self (List.forall_mem_singleton.mpr ?_)
      rw [(of_defaultEntry source n value).2.2]
      exact .default
    · rw [heq]
      exact .of_self (List.forall_mem_singleton.mpr .clause)
  · exact named_declarationEntries _ _ n

end Script

namespace Python

theorem holds_definition (n : Node) : n.Holds (definition n) := by
  rw [definition]
  split
  · cases hinner : n.field? "definition" <|>
        n.firstOf? ["function_definition", "class_definition"] with
    | none => exact .refl n
    | some inner => exact Node.holds_of_mem (Node.mem_children_of_orElse hinner)
  · exact .refl n

theorem kind_of_assignment? {assignment left : Node} (h : assignment? n = some (assignment, left)) :
    left.kind = "identifier" := by
  rw [assignment?] at h
  split at h
  · obtain ⟨found, -, h⟩ := Option.bind_eq_some_iff.mp h
    obtain ⟨target, -, h⟩ := Option.bind_eq_some_iff.mp h
    split at h
    next hkind =>
      obtain ⟨-, rfl⟩ := by simpa using h
      exact hkind
    next => cases h
  · cases h

theorem named_entryAt? (n : Node) : Named source n (entryAt? source n).toList := by
  intro e he
  have he := Option.mem_toList.mp he
  simp only [entryAt?] at he
  split at he
  · obtain rfl := Option.some_inj.mp he
    exact ⟨definition n, holds_definition n, namedAt_guessName source _⟩
  split at he
  · obtain rfl := Option.some_inj.mp he
    exact ⟨definition n, holds_definition n, namedAt_guessName source _⟩
  split at he
  next assignment left hassignment =>
    split at he
    · cases he
    · obtain rfl := Option.some_inj.mp he
      obtain ⟨hmem, hleft⟩ := mem_of_assignment? hassignment
      refine ⟨left, (Node.holds_of_mem hmem).trans (Node.holds_of_mem hleft), .itself ?_⟩
      simp [kind_of_assignment? hassignment, identifierKinds]
  next => cases he

end Python

namespace Go

theorem named_typeOf? (decl spec : Node) : Named source spec (typeOf? source decl spec).toList := by
  refine .of_self fun e he ↦ ?_
  have he := Option.mem_toList.mp he
  rw [typeOf?] at he
  split at he
  · obtain rfl := Option.some_inj.mp he
    exact namedAt_nameOf source spec
  · obtain ⟨type, -, rfl⟩ := Option.map_eq_some_iff.mp he
    exact namedAt_nameOf source spec

theorem named_specEntries (keyword : String) (spec : Node) :
    Named source spec (specEntries source keyword spec) := by
  intro e he
  obtain ⟨name, hname, rfl⟩ := List.mem_map.mp he
  obtain ⟨m, hm, rfl⟩ := List.mem_map.mp (List.mem_of_mem_filter hname)
  obtain ⟨hmem, hkind⟩ := List.mem_filter.mp hm
  refine ⟨m, Node.holds_of_mem_members hmem, .itself ?_⟩
  simp [beq_iff_eq.mp hkind, identifierKinds]

theorem named_entriesAt (n : Node) : Named source n (entriesAt source n) := by
  have hvalues (keyword : String) : Named source n (valueEntries source keyword n) :=
    .filter_members _ (named_specEntries keyword)
  rw [entriesAt]
  split
  · exact .of_self (List.forall_mem_singleton.mpr (namedAt_nameOf source n))
  split
  · rw [typeEntries, List.filterMap_eq_flatMap_toList]
    exact .filter_members _ (named_typeOf? n)
  split
  · exact hvalues "const"
  split
  · exact hvalues "var"
  · exact .of_self (by simp)

end Go

namespace Rust

theorem named_functionEntry (n : Node) : Named source n [functionEntry source n] :=
  .of_self (List.forall_mem_singleton.mpr (namedAt_nameOf source n))

theorem named_entriesAt (n : Node) : Named source n (entriesAt source n) := by
  have hown {e : Declaration} (he : e.name = nameOf source n) : Named source n [e] :=
    .of_self (List.forall_mem_singleton.mpr (he ▸ namedAt_nameOf source n))
  rw [entriesAt]
  split
  · exact hown rfl
  split
  · exact hown rfl
  split
  · exact hown rfl
  split
  · split
    next body hbody =>
      rw [List.map_eq_flatMap]
      exact Named.mono (.filter_members _ named_functionEntry) (Node.holds_of_field? hbody)
    next => exact .of_self (by simp)
  split
  · exact hown rfl
  · exact .of_self (by simp)

end Rust

namespace ClassRules

theorem named_entryAt (rules : ClassRules) (n : Node) :
    Named source n (rules.entryAt source n) := by
  refine .of_self fun e he ↦ ?_
  rw [entryAt] at he
  split at he
  · obtain rfl := List.mem_singleton.mp he
    rw [typeEntry]
    split <;> exact namedAt_nameOf source n
  · split at he
    · obtain rfl := List.mem_singleton.mp he
      exact namedAt_nameOf source n
    · cases he

end ClassRules

namespace Ruby

theorem named_entriesAt (n : Node) : Named source n (entriesAt source n) := by
  rw [entriesAt]
  split
  · exact .of_self (List.forall_mem_singleton.mpr (namedAt_nameOf source n))
  · intro e he
    obtain ⟨m, hm, rfl⟩ := List.mem_map.mp he
    exact ⟨m, Node.holds_of_mem_reach (List.mem_of_mem_filter hm), namedAt_nameOf source m⟩

end Ruby

/-! ## All languages -/

theorem named_ofTree (language : Language) (source : Bytes) (root : Node) :
    Named source root (ofTree language source root) := by
  cases language with
  | typescript | tsx | javascript => exact .members Script.named_entriesAt
  | python =>
      rw [ofTree, Python.outline, List.filterMap_eq_flatMap_toList]
      exact .members Python.named_entryAt?
  | go => exact .members Go.named_entriesAt
  | rust => exact .reachMembers Rust.named_entriesAt
  | java => exact .reachMembers javaRules.named_entryAt
  | csharp => exact .reachMembers csharpRules.named_entryAt
  | ruby => exact .members Ruby.named_entriesAt
  | php => exact .reachMembers phpRules.named_entryAt

/-- Every declaration of an outline is named at a node of the tree: after the field of its name, the
first identifier or the text of the node, after an identifier itself, or by a label. It has no name
exactly if it is named after an identifier that takes up no bytes of the source; so all have names
if no identifier is missing. -/
theorem nameless_iff_missing (language : Language) (source : Bytes) (root : Node) :
    (∀ e ∈ ofTree language source root, ∃ n, root.Holds n ∧ NamedAt source n e.name ∧
      (e.name = "" ↔ ∃ m, Missing source n m ∧ e.name = m.text source)) ∧
    ((∀ m, root.Holds m → m.kind ∈ identifierKinds → m.TakesUp source) →
      ∀ e ∈ ofTree language source root, e.name ≠ "") := by
  refine ⟨fun e he ↦ ?_, fun htakes e he hempty ↦ ?_⟩
  · obtain ⟨n, hheld, hname⟩ := named_ofTree language source root e he
    refine ⟨n, hheld, hname, hname.exists_missing, ?_⟩
    rintro ⟨m, hmissing, hm⟩
    exact hm.trans (Node.text_eq_empty_iff.mpr hmissing.absent)
  · obtain ⟨n, hheld, hname⟩ := named_ofTree language source root e he
    obtain ⟨m, hmissing, -⟩ := hname.exists_missing hempty
    refine hmissing.absent (htakes m ?_ hmissing.kind)
    rcases hmissing.role with rfl | hfirst
    · exact hheld
    · exact hheld.trans (Node.holds_of_firstOf? hfirst)

/-- The tree of `export const = 1;`, in which the name of the constant is missing. -/
def namelessTree : Node :=
  ⟨"program", true, none, 0, 18,
    [⟨"export_statement", true, none, 0, 17,
      [⟨"export", false, none, 0, 6, []⟩,
        ⟨"lexical_declaration", true, some "declaration", 7, 17,
          [⟨"const", false, some "kind", 7, 12, []⟩,
            ⟨"variable_declarator", true, none, 13, 16,
              [⟨"identifier", true, some "name", 13, 13, []⟩, ⟨"=", false, none, 13, 14, []⟩,
                ⟨"number", true, some "value", 15, 16, []⟩]⟩,
            ⟨";", false, none, 16, 17, []⟩]⟩]⟩]⟩

/-- A constant whose name is missing has no name. -/
theorem nameless_iff_missing_constant :
    let source := Bytes.ofText "export const = 1;\n"
    ∃ e ∈ ofTree .typescript source namelessTree, e.name = "" ∧
      ∃ n m, namelessTree.Holds n ∧ Missing source n m := by
  intro source
  have hnames : (ofTree .typescript source namelessTree).map (·.name) = [""] := by decide +kernel
  have hmem : "" ∈ (ofTree .typescript source namelessTree).map (·.name) := by simp [hnames]
  obtain ⟨e, he, hempty⟩ := List.mem_map.mp hmem
  obtain ⟨n, hheld, -, hiff⟩ := (nameless_iff_missing .typescript source namelessTree).1 e he
  obtain ⟨m, hmissing, -⟩ := hiff.mp hempty
  exact ⟨e, he, hempty, n, m, hheld, hmissing⟩

end Outline

end Dossier

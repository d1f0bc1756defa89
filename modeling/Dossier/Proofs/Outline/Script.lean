import Dossier.Outline.Script
import Dossier.Proofs.Outline.Declaration

/-!
# TypeScript and JavaScript without bodies

Functions, function values and the methods of classes are cut, wherever the text of the declaration
begins: at the declaration itself, at its export keyword, or at an ambient wrapper.
-/

namespace Dossier.Outline.Script

variable {cuts own : List Node} {a b : Bytes} {n outer : Node}

/-- What is cut at a member of a class. -/
def methodCuts (n : Node) : List Node :=
  if methodKinds.contains n.kind then (n.field? "body").toList else []

/-- What is cut at a declarator: the body of its value, if that is a function. -/
def valueCuts (n : Node) : List Node :=
  match (n.field? "value").filter isFunctionValue with
  | some value => (value.field? "body").toList
  | none => []

/-- What is cut at a declaration that is no wrapper. -/
def plainCuts (n : Node) : List Node :=
  match n.kind with
  | "function_declaration" | "generator_function_declaration" => (n.field? "body").toList
  | "class_declaration" | "abstract_class_declaration" => cutMembers methodCuts (n.field? "body")
  | "lexical_declaration" | "variable_declaration" =>
    (n.members.filter (·.kind == "variable_declarator")).flatMap valueCuts
  | _ => []

/-- What is cut at the value of a default export. -/
def defaultCuts (value : Node) : List Node :=
  if isFunctionValue value then (value.field? "body").toList
  else if value.kind = "class" then cutMembers methodCuts (value.field? "body")
  else []

/-- What is cut at an export statement. -/
def exportCuts (n : Node) : List Node :=
  match n.field? "declaration" <|> n.firstOf? declarationKinds with
  | some declaration => plainCuts (innermost declaration)
  | none => match n.field? "value" with
    | some value => defaultCuts value
    | none => []

/-- What is cut at a node of the top level. -/
def cutsOf (n : Node) : List Node :=
  if n.kind = "export_statement" then exportCuts n else plainCuts (innermost n)

/-! ## What is cut lies inside -/

theorem innermost_mem_reach (n : Node) : innermost n ∈ n.reach way := by
  rw [innermost, Node.reach_eq_entered, List.getLastD_cons, List.getLastD_eq_getLast?]
  cases hlast : ((n.entered way).flatMap (Node.reach way)).getLast? with
  | none => exact List.mem_cons_self
  | some last => exact List.mem_cons_of_mem _ (List.mem_of_getLast? hlast)

theorem innermost_nested (hn : n.Nested) : (innermost n).Nested ∧ (innermost n).Within n :=
  hn.of_mem_reach (innermost_mem_reach n)

theorem within_of_mem_methodCuts (hn : n.Nested) : ∀ c ∈ methodCuts n, c.Within n := by
  intro c hc
  rw [methodCuts] at hc
  split at hc
  · exact hn.within_of_field? (Option.mem_toList.mp hc)
  · simp at hc

theorem inBody_methods (hn : n.Nested) :
    InBody (n.field? "body") (cutMembers methodCuts (n.field? "body")) :=
  .cutMembers (fun _ ↦ hn.of_field?) fun _ ↦ within_of_mem_methodCuts

theorem field?_of_filter {value : Node}
    (h : (n.field? "value").filter isFunctionValue = some value) : n.field? "value" = some value :=
  (Option.filter_eq_some_iff.mp h).1

theorem within_of_mem_valueCuts (hn : n.Nested) : ∀ c ∈ valueCuts n, c.Within n := by
  intro c hc
  rw [valueCuts] at hc
  split at hc
  next value hvalue =>
    have hfield := field?_of_filter hvalue
    exact ((hn.of_field? hfield).within_of_field? (Option.mem_toList.mp hc)).trans
      (hn.within_of_field? hfield)
  next => simp at hc

theorem siblings_declarators (hn : n.Nested) :
    Node.Siblings (n.members.filter (·.kind == "variable_declarator")) :=
  hn.siblings_members.sublist List.filter_sublist

theorem within_of_mem_plainCuts (hn : n.Nested) : ∀ c ∈ plainCuts n, c.Within n := by
  intro c hc
  rw [plainCuts] at hc
  split at hc
  case h_7 => simp at hc
  case h_1 | h_2 => exact hn.within_of_field? (Option.mem_toList.mp hc)
  case h_3 | h_4 => exact (inBody_methods hn).within (fun _ ↦ hn.within_of_field?) hc
  case h_5 | h_6 =>
    obtain ⟨m, hm, hc⟩ := List.mem_flatMap.mp hc
    exact (within_of_mem_valueCuts ((siblings_declarators hn).nested m hm) c hc).trans
      (hn.within_of_mem (Node.mem_children_of_mem_members (List.mem_of_mem_filter hm)))

theorem within_of_mem_cutsOf (hn : n.Nested) : ∀ c ∈ cutsOf n, c.Within n := by
  have hplain {m : Node} (hm : m.Nested) {c : Node} (hc : c ∈ plainCuts (innermost m)) :
      c.Within m :=
    (within_of_mem_plainCuts (innermost_nested hm).1 c hc).trans (innermost_nested hm).2
  intro c hc
  rw [cutsOf] at hc
  split at hc
  · rw [exportCuts] at hc
    split at hc
    next declaration hdeclaration =>
      have hmem := Node.mem_children_of_orElse hdeclaration
      exact (hplain (hn.of_mem hmem) hc).trans (hn.within_of_mem hmem)
    next =>
      split at hc
      next value hvalue =>
        have hnested := hn.of_field? hvalue
        refine Node.Within.trans ?_ (hn.within_of_field? hvalue)
        rw [defaultCuts] at hc
        split at hc
        · exact hnested.within_of_field? (Option.mem_toList.mp hc)
        · split at hc
          · exact (inBody_methods hnested).within (fun _ ↦ hnested.within_of_field?) hc
          · simp at hc
      next => simp at hc
  · exact hplain hn hc

/-! ## Classes -/

theorem member?_eq (hagree : AgreeOutside cuts a b) (hn : n.Nested)
    (hconfined : Confined cuts (methodCuts n) n) : member? a n = member? b n := by
  rw [member?, member?]
  by_cases hmethod : methodKinds.contains n.kind = true
  · rw [methodCuts, if_pos hmethod] at hconfined
    rw [if_pos hmethod, if_pos hmethod,
      header_eq hagree hn (fun _ ↦ Node.mem_children_of_field?) hconfined (.toList _)]
  · rw [methodCuts, if_neg hmethod] at hconfined
    rw [if_neg hmethod, if_neg hmethod, hconfined.text_eq hagree (.refl n)]

theorem membersOf_eq (hagree : AgreeOutside cuts a b) (hn : n.Nested) (hin : n.Within outer)
    (hconfined : Confined cuts (cutMembers methodCuts (n.field? "body")) outer) :
    membersOf a n = membersOf b n := by
  rw [membersOf, membersOf]
  cases hbody : n.field? "body" with
  | none => rfl
  | some body =>
      have hnested := hn.of_field? hbody
      refine List.filterMap_congr fun m hm ↦ ?_
      exact member?_eq hagree (hnested.siblings_members.nested m hm)
        (confined_member hconfined hbody hnested ((hn.within_of_field? hbody).trans hin)
          (fun _ ↦ within_of_mem_methodCuts) hm)

/-- The part of a declaration that stands before its body, with what leads to the declaration. -/
theorem slice_outer_eq (hagree : AgreeOutside cuts a b) (hn : n.Nested) (hin : n.Within outer)
    (hconfined : Confined cuts own outer) (hown : InBody (n.field? "body") own) :
    a.slice outer.start (headerEnd n (n.field? "body")) =
      b.slice outer.start (headerEnd n (n.field? "body")) := by
  have hstop : headerEnd n (n.field? "body") ≤ n.stop :=
    headerEnd_le_stop hn fun _ ↦ Node.mem_children_of_field?
  exact slice_headerEnd_eq hagree hconfined hown (Nat.le_refl _) (Nat.le_trans hstop hin.2)
    (Nat.le_refl _)

theorem classText_eq (hagree : AgreeOutside cuts a b) (hn : n.Nested) (hin : n.Within outer)
    (hconfined : Confined cuts (cutMembers methodCuts (n.field? "body")) outer) :
    classText a outer.start n = classText b outer.start n := by
  have hslice := slice_outer_eq hagree hn hin hconfined (inBody_methods hn)
  rw [classText, classText, membersOf_eq hagree hn hin hconfined]
  cases hbody : n.field? "body" with
  | none =>
      rw [hbody, headerEnd] at hslice
      simp only [hslice]
  | some body =>
      rw [hbody, headerEnd] at hslice
      simp only [hslice]

/-! ## Variables -/

theorem declared?_eq (hagree : AgreeOutside cuts a b) (hn : n.Nested)
    (hconfined : Confined cuts (valueCuts n) n) (exported : Bool) (lead : String) (line : Nat) :
    (declared? a exported lead line n).map Declaration.unnamed =
      (declared? b exported lead line n).map Declaration.unnamed := by
  rw [declared?, declared?]
  rw [valueCuts] at hconfined
  cases hfunction : (n.field? "value").filter isFunctionValue with
  | some value =>
      rw [hfunction] at hconfined
      have hfield := field?_of_filter hfunction
      have hslice := slice_outer_eq hagree (hn.of_field? hfield) (hn.within_of_field? hfield)
        hconfined (.toList (value.field? "body"))
      cases hbody : value.field? "body" with
      | none =>
          rw [hbody, headerEnd] at hslice
          simp only [Option.map_some, Declaration.unnamed, hbody, hslice]
      | some body =>
          rw [hbody, headerEnd] at hslice
          simp only [Option.map_some, Declaration.unnamed, hbody, hslice]
  | none =>
      rw [hfunction] at hconfined
      have hslice {stop : Nat} (hstop : stop ≤ n.stop) :
          a.slice n.start stop = b.slice n.start stop :=
        hconfined.slice_eq hagree (Nat.le_refl _) hstop (by simp)
      cases htype : n.field? "type" with
      | some type =>
          have htext := hslice (hn.within_of_field? htype).2
          cases exported <;> simp [Declaration.unnamed, htext]
      | none =>
          cases hvalue : n.field? "value" with
          | some value =>
              have htext := hslice (Nat.le_trans (hn.of_field? hvalue).start_le_stop
                (hn.within_of_field? hvalue).2)
              cases exported <;> simp [Declaration.unnamed, htext]
          | none =>
              have htext := hslice (Nat.le_refl n.stop)
              cases exported <;> simp [Declaration.unnamed, htext]

theorem variableEntries_eq (hagree : AgreeOutside cuts a b) (hn : n.Nested) (hin : n.Within outer)
    (hconfined : Confined cuts
      ((n.members.filter (·.kind == "variable_declarator")).flatMap valueCuts) outer)
    (exported : Bool) :
    (variableEntries a exported outer.start n).map Declaration.unnamed =
      (variableEntries b exported outer.start n).map Declaration.unnamed := by
  have hsiblings := siblings_declarators hn
  have hwithin {m : Node} (hm : m ∈ n.members.filter (·.kind == "variable_declarator")) :
      m.Within outer :=
    (hn.within_of_mem (Node.mem_children_of_mem_members (List.mem_of_mem_filter hm))).trans hin
  rw [variableEntries, variableEntries, hagree.line_eq]
  cases hdeclarators : n.members.filter (·.kind == "variable_declarator") with
  | nil => rfl
  | cons first rest =>
      rw [hdeclarators] at hconfined hsiblings hwithin
      have hfirst := hsiblings.nested first List.mem_cons_self
      have hlead : a.slice outer.start first.start = b.slice outer.start first.start := by
        refine hconfined.slice_eq hagree (Nat.le_refl _)
          (Nat.le_trans hfirst.start_le_stop (hwithin List.mem_cons_self).2) fun c hc ↦ ?_
        obtain ⟨m, hm, hc⟩ := List.mem_flatMap.mp hc
        have hstart := (within_of_mem_valueCuts (hsiblings.nested m hm) c hc).1
        -- The first declarator begins before all the others.
        rcases List.mem_cons.mp hm with rfl | hm
        · exact hstart
        · have hbefore := (List.pairwise_cons.mp hsiblings.ordered).1 m hm
          exact Nat.le_trans hfirst.start_le_stop (Nat.le_trans hbefore hstart)
      simp only [List.map_filterMap, hlead]
      refine List.filterMap_congr fun m hm ↦ ?_
      refine declared?_eq hagree (hsiblings.nested m hm) (hconfined.trans (hwithin hm) ?_) ..
      exact .of_siblings hsiblings
        (fun k hk ↦ within_of_mem_valueCuts (hsiblings.nested k hk)) hm

/-! ## Declarations -/

theorem plainEntries_eq (hagree : AgreeOutside cuts a b) (hn : n.Nested) (hin : n.Within outer)
    (hconfined : Confined cuts (plainCuts n) outer) (exported : Bool) :
    (plainEntries a exported outer.start n).map Declaration.unnamed =
      (plainEntries b exported outer.start n).map Declaration.unnamed := by
  have hline := hagree.line_eq n
  rw [plainEntries, plainEntries]
  rw [plainCuts] at hconfined
  generalize hkind : n.kind = kind at hconfined ⊢
  split at hconfined
  case h_1 | h_2 =>
    have hslice := slice_outer_eq hagree hn hin hconfined (.toList (n.field? "body"))
    cases hbody : n.field? "body" <;> simp only [hbody, headerEnd] at hslice <;>
      simp only [List.map_cons, List.map_nil, Declaration.unnamed, hslice, hline]
  case h_3 | h_4 =>
    have htext := classText_eq hagree hn hin hconfined
    have hmembers := membersOf_eq hagree hn hin hconfined
    simp only [List.map_cons, List.map_nil, Declaration.unnamed, htext, hmembers, hline]
  case h_5 | h_6 => exact variableEntries_eq hagree hn hin hconfined exported
  case h_7 =>
    have hwhole : a.slice outer.start n.stop = b.slice outer.start n.stop :=
      hconfined.slice_eq hagree (Nat.le_refl _) hin.2 (by simp)
    split <;> first
      | contradiction
      | simp only [List.map_cons, List.map_nil, Declaration.unnamed, hwhole, hline]

theorem declarationEntries_eq (hagree : AgreeOutside cuts a b) (hn : n.Nested)
    (hin : n.Within outer) (hconfined : Confined cuts (plainCuts (innermost n)) outer)
    (exported : Bool) :
    (declarationEntries a exported outer.start n).map Declaration.unnamed =
      (declarationEntries b exported outer.start n).map Declaration.unnamed := by
  obtain ⟨hnested, hwithin⟩ := innermost_nested hn
  exact plainEntries_eq hagree hnested (hwithin.trans hin) hconfined exported

/-! ## Exports -/

theorem defaultEntry_eq (hagree : AgreeOutside cuts a b) {value : Node} (hvalue : value.Nested)
    (hin : value.Within outer) (hconfined : Confined cuts (defaultCuts value) outer) :
    (defaultEntry a outer value).unnamed = (defaultEntry b outer value).unnamed := by
  have hline := hagree.line_eq outer
  rw [defaultEntry, defaultEntry]
  rw [defaultCuts] at hconfined
  by_cases hfunction : isFunctionValue value = true
  · rw [if_pos hfunction] at hconfined
    simp only [if_pos hfunction]
    have hslice := slice_outer_eq hagree hvalue hin hconfined (.toList (value.field? "body"))
    cases hbody : value.field? "body" with
    | some body =>
        simp only [hbody, headerEnd] at hslice
        simp only [Declaration.unnamed, hslice, hline]
    | none =>
        rw [hbody] at hconfined
        have htext := hconfined.text_eq hagree (.refl outer)
        simp only [Declaration.unnamed, htext, hline]
  rw [if_neg hfunction] at hconfined
  simp only [if_neg hfunction]
  by_cases hclass : value.kind = "class"
  · rw [if_pos hclass] at hconfined
    have htext := classText_eq hagree hvalue hin hconfined
    have hmembers := membersOf_eq hagree hvalue hin hconfined
    simp only [if_pos hclass, Declaration.unnamed, htext, hmembers, hline]
  · rw [if_neg hclass] at hconfined
    have htext := hconfined.text_eq hagree (.refl outer)
    simp only [if_neg hclass, Declaration.unnamed, htext, hline]

theorem exportEntries_eq (hagree : AgreeOutside cuts a b) (hn : n.Nested)
    (hconfined : Confined cuts (exportCuts n) n) :
    (exportEntries a n).map Declaration.unnamed = (exportEntries b n).map Declaration.unnamed := by
  have hline := hagree.line_eq n
  rw [exportEntries, exportEntries]
  rw [exportCuts] at hconfined
  cases hdeclaration : n.field? "declaration" <|> n.firstOf? declarationKinds with
  | some declaration =>
      rw [hdeclaration] at hconfined
      have hmem := Node.mem_children_of_orElse hdeclaration
      exact declarationEntries_eq hagree (hn.of_mem hmem) (hn.within_of_mem hmem) hconfined true
  | none =>
      rw [hdeclaration] at hconfined
      cases hvalue : n.field? "value" with
      | some value =>
          rw [hvalue] at hconfined
          have hentry := defaultEntry_eq hagree (hn.of_field? hvalue) (hn.within_of_field? hvalue)
            hconfined
          simp only [List.map_cons, List.map_nil, hentry]
      | none =>
          rw [hvalue] at hconfined
          have htext := hconfined.text_eq hagree (.refl n)
          simp only [List.map_cons, List.map_nil, Declaration.unnamed, htext, hline]

theorem entriesAt_eq (hagree : AgreeOutside cuts a b) (hn : n.Nested)
    (hconfined : Confined cuts (cutsOf n) n) :
    (entriesAt a n).map Declaration.unnamed = (entriesAt b n).map Declaration.unnamed := by
  rw [entriesAt, entriesAt]
  rw [cutsOf] at hconfined
  by_cases hexport : n.kind = "export_statement"
  · rw [if_pos hexport] at hconfined
    rw [if_pos hexport, if_pos hexport]
    exact exportEntries_eq hagree hn hconfined
  · rw [if_neg hexport] at hconfined
    rw [if_neg hexport, if_neg hexport]
    exact declarationEntries_eq hagree hn (.refl n) hconfined false

theorem outline_eq {root : Node} (hroot : root.Nested)
    (hagree : AgreeOutside (root.members.flatMap cutsOf) a b) :
    (outline a root).map Declaration.unnamed = (outline b root).map Declaration.unnamed :=
  flatMap_members_eq hroot (fun _ ↦ within_of_mem_cutsOf) fun _ ↦ entriesAt_eq hagree

end Dossier.Outline.Script

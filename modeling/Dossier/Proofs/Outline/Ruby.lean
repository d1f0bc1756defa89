import Dossier.Outline.Ruby
import Dossier.Proofs.Outline.Declaration

/-!
# Ruby without bodies

Methods are cut at the top level and in the classes and modules that are shown. A definition that has
no body is shown by its first line, so a class or module in which something is defined has to have
a body.
-/

namespace Dossier.Outline.Ruby

variable {cuts own : List Node} {a b : Bytes} {n m k : Node}

/-- The body of a method. -/
def methodCuts (n : Node) : List Node :=
  if isMethod n then (body? n).toList else []

/-- What is cut at a definition: the body of a method, or those of the methods of a container. -/
def cutsOf (n : Node) : List Node :=
  if isContainer n then (members n).flatMap methodCuts else methodCuts n

/-- A class or module in which methods, classes or modules are defined has a body. -/
def HasBody (n : Node) : Prop :=
  isContainer n → body? n = none → ∀ m ∈ n.members, ¬ isMethod m ∧ ¬ isContainer m

theorem not_isContainer_of_isMethod (h : isMethod n = true) : isContainer n = false := by
  simp only [isMethod, Bool.or_eq_true, beq_iff_eq] at h
  rcases h with h | h <;> simp [isContainer, h]

theorem body?_mem {body : Node} (h : body? n = some body) : body ∈ n.children :=
  Node.mem_children_of_orElse h

/-! ## Members -/

theorem siblings_members (hn : n.Nested) : Node.Siblings (members n) := by
  rw [members]
  cases hbody : body? n with
  | some body => exact (hn.of_mem (body?_mem hbody)).siblings_members
  | none => exact hn.siblings_members

theorem within_of_mem_members (hn : n.Nested) (hm : m ∈ members n) : m.Within n := by
  rw [members] at hm
  cases hbody : body? n with
  | some body =>
      rw [hbody] at hm
      have hmem := body?_mem hbody
      exact ((hn.of_mem hmem).within_of_mem (Node.mem_children_of_mem_members hm)).trans
        (hn.within_of_mem hmem)
  | none =>
      rw [hbody] at hm
      exact hn.within_of_mem (Node.mem_children_of_mem_members hm)

/-- Modules are entered at their members, and nothing else is entered. -/
theorem entered_way (n : Node) : n.entered way = if n.kind = "module" then members n else [] := by
  have hbody : body? n = (n.fieldIndex? "body" <|> n.kindIndex? ["body_statement"]).bind
      (n.children[·]?) := by
    rw [body?, Node.field?_eq_bind, Node.firstOf?_eq_bind, Node.fieldIndex?, Node.kindIndex?]
    cases hindex : n.children.findIdx? (·.field == some "body") with
    | none => rfl
    | some i =>
        obtain ⟨hlt, -⟩ := List.findIdx?_eq_some_iff_getElem.mp hindex
        simp [hlt]
  rw [Node.entered, way]
  by_cases hmodule : n.kind = "module"
  · rw [if_pos hmodule, if_pos hmodule, members, hbody]
    cases hindex : (n.fieldIndex? "body" <|> n.kindIndex? ["body_statement"]) with
    | none => rfl
    | some i =>
        have hlt : i < n.children.length := by
          rw [Option.orElse_eq_orElse, Option.orElse_eq_or, Option.or_eq_some_iff] at hindex
          rcases hindex with hindex | ⟨-, hindex⟩
          · exact (List.findIdx?_eq_some_iff_getElem.mp hindex).1
          · exact (List.findIdx?_eq_some_iff_getElem.mp hindex).1
        simp [hlt]
  · rw [if_neg hmodule, if_neg hmodule]

theorem reach_of_not_isContainer (h : isContainer n = false) : n.reach way = [n] := by
  have hkind : n.kind ≠ "module" := by
    intro hkind
    simp [isContainer, hkind] at h
  rw [Node.reach_eq_entered, entered_way, if_neg hkind]
  rfl

/-! ## What is cut -/

theorem isMethod_of_mem_methodCuts {c : Node} (hc : c ∈ methodCuts n) : isMethod n = true := by
  by_contra hmethod
  simp [methodCuts, hmethod] at hc

theorem within_of_mem_methodCuts (hn : n.Nested) : ∀ c ∈ methodCuts n, c.Within n := by
  intro c hc
  rw [methodCuts] at hc
  split at hc
  · exact hn.within_of_mem (body?_mem (Option.mem_toList.mp hc))
  · simp at hc

theorem within_of_mem_cutsOf (hn : n.Nested) : ∀ c ∈ cutsOf n, c.Within n := by
  intro c hc
  rw [cutsOf] at hc
  split at hc
  · obtain ⟨m, hm, hc⟩ := List.mem_flatMap.mp hc
    exact (within_of_mem_methodCuts ((siblings_members hn).nested m hm) c hc).trans
      (within_of_mem_members hn hm)
  · exact within_of_mem_methodCuts hn c hc

/-- A method that is cut in a module is apart from all that is reached through other members. -/
theorem apart_of_mem_members (hn : n.Nested) (hm : m ∈ members n) (hk : k ∈ members n)
    {j : Node} (hj : j ∈ k.reach way) {c : Node} (hc : c ∈ methodCuts m) :
    c ∈ cutsOf j ∨ c.Apart j := by
  have hsiblings := siblings_members hn
  rcases hsiblings.eq_or_apart hm hk with rfl | hapart
  · have hmethod := isMethod_of_mem_methodCuts hc
    have hcontainer := not_isContainer_of_isMethod hmethod
    obtain rfl : j = m := by simpa [reach_of_not_isContainer hcontainer] using hj
    refine .inl ?_
    rwa [cutsOf, hcontainer, if_neg Bool.false_ne_true]
  · exact .inr (hapart.mono (within_of_mem_methodCuts (hsiblings.nested m hm) c hc)
      ((hsiblings.nested k hk).of_mem_reach hj).2)

theorem leading (hn : n.Nested) (hk : k ∈ n.entered way) (hm : m ∈ k.reach way) :
    ∀ c ∈ cutsOf n, c ∈ cutsOf m ∨ c.Apart m := by
  intro c hc
  rw [entered_way] at hk
  split at hk
  case isTrue hmodule =>
    have hcontainer : isContainer n = true := by simp [isContainer, hmodule]
    rw [cutsOf, if_pos hcontainer] at hc
    obtain ⟨p, hp, hc⟩ := List.mem_flatMap.mp hc
    exact apart_of_mem_members hn hp hk hm hc
  case isFalse => simp at hk

theorem headerText_eq (hagree : AgreeOutside cuts a b) (hn : n.Nested)
    (hconfined : Confined cuts own n) (hown : InBody (body? n) own) :
    headerText a n = headerText b n := by
  have hstop := headerEnd_le_stop hn fun _ ↦ body?_mem
  have hslice := slice_headerEnd_eq hagree hconfined hown (Nat.le_refl _) hstop (Nat.le_refl _)
  rw [headerText, headerText]
  cases hbody : body? n with
  | some body =>
      rw [hbody, headerEnd] at hslice
      simp only [hslice]
  | none =>
      rw [hbody, headerEnd] at hslice
      simp only [Node.text, hslice]

/-! ## Containers -/

theorem exists_member_of_mem_reach (hn : n.Nested) (hcontainer : isContainer n = true) {c : Node}
    (hc : c ∈ (n.reach way).flatMap cutsOf) :
    ∃ m ∈ members n, c.Within m ∧ (isMethod m ∨ isContainer m) := by
  obtain ⟨k, hk, hck⟩ := List.mem_flatMap.mp hc
  have hmembers := siblings_members hn
  rcases Node.mem_reach.mp hk with rfl | ⟨m, hm, hkm⟩
  · rw [cutsOf, if_pos hcontainer] at hck
    obtain ⟨m, hm, hc⟩ := List.mem_flatMap.mp hck
    exact ⟨m, hm, within_of_mem_methodCuts (hmembers.nested m hm) c hc,
      .inl (isMethod_of_mem_methodCuts hc)⟩
  rw [entered_way] at hm
  split at hm
  case isFalse => simp at hm
  obtain ⟨hknested, hkwithin⟩ := (hmembers.nested m hm).of_mem_reach hkm
  refine ⟨m, hm, (within_of_mem_cutsOf hknested c hck).trans hkwithin, ?_⟩
  by_cases hinner : isContainer m = true
  · exact .inr hinner
  · rw [Bool.not_eq_true] at hinner
    obtain rfl : k = m := by simpa [reach_of_not_isContainer hinner] using hkm
    rw [cutsOf, hinner, if_neg Bool.false_ne_true] at hck
    exact .inl (isMethod_of_mem_methodCuts hck)

/-- All that is cut below a container lies in its body. -/
theorem inBody_reach (hn : n.Nested) (hcontainer : isContainer n = true) (hbody : HasBody n) :
    InBody (body? n) ((n.reach way).flatMap cutsOf) := by
  intro c hc
  obtain ⟨m, hm, hwithin, hdefines⟩ := exists_member_of_mem_reach hn hcontainer hc
  rw [members] at hm
  cases hsome : body? n with
  | some body =>
      rw [hsome] at hm
      have hnested := hn.of_mem (body?_mem hsome)
      exact ⟨body, rfl,
        hwithin.trans (hnested.within_of_mem (Node.mem_children_of_mem_members hm))⟩
  | none =>
      rw [hsome] at hm
      obtain ⟨hmethod, hinner⟩ := hbody hcontainer hsome m hm
      exact absurd hdefines (not_or.mpr ⟨hmethod, hinner⟩)

/-- A method in a container meets nothing of what is cut below the container but its own body. -/
theorem confined_method (hn : n.Nested) (hcontainer : isContainer n = true) (hm : m ∈ members n)
    (hmethod : isMethod m = true) :
    Confined ((n.reach way).flatMap cutsOf) (methodCuts m) m := by
  intro c hc
  have hself : cutsOf m = methodCuts m := by
    rw [cutsOf, not_isContainer_of_isMethod hmethod, if_neg Bool.false_ne_true]
  obtain ⟨k, hk, hck⟩ := List.mem_flatMap.mp hc
  have hmembers := siblings_members hn
  rcases Node.mem_reach.mp hk with rfl | ⟨p, hp, hkp⟩
  · rw [cutsOf, if_pos hcontainer] at hck
    obtain ⟨p, hp, hc⟩ := List.mem_flatMap.mp hck
    rw [← hself]
    exact apart_of_mem_members hn hp hm Node.mem_reach_self hc
  rw [entered_way] at hp
  split at hp
  case isFalse => simp at hp
  rcases hmembers.eq_or_apart hp hm with rfl | hapart
  · obtain rfl : k = p := by
      simpa [reach_of_not_isContainer (not_isContainer_of_isMethod hmethod)] using hkp
    exact .inl (hself ▸ hck)
  · obtain ⟨hknested, hkwithin⟩ := (hmembers.nested p hp).of_mem_reach hkp
    exact .inr (hapart.mono ((within_of_mem_cutsOf hknested c hck).trans hkwithin) (.refl m))

theorem inBody_methodCuts (n : Node) : InBody (body? n) (methodCuts n) := by
  rw [methodCuts]
  split
  · exact .toList _
  · simp [InBody]

theorem containerEntry_eq (hagree : AgreeOutside cuts a b) (hn : n.Nested)
    (hcontainer : isContainer n = true) (hbody : HasBody n)
    (hconfined : Confined cuts ((n.reach way).flatMap cutsOf) n) :
    (containerEntry a n).unnamed = (containerEntry b n).unnamed := by
  have hheader := headerText_eq hagree hn hconfined (inBody_reach hn hcontainer hbody)
  have hline := hagree.line_eq n
  have hmethods : ((members n).filter isMethod).map (headerText a) =
      ((members n).filter isMethod).map (headerText b) := by
    refine List.map_congr_left fun m hm ↦ ?_
    obtain ⟨hm, hmethod⟩ := List.mem_filter.mp hm
    exact headerText_eq hagree ((siblings_members hn).nested m hm)
      (hconfined.trans (within_of_mem_members hn hm) (confined_method hn hcontainer hm hmethod))
      (inBody_methodCuts m)
  simp only [containerEntry, Declaration.unnamed, hheader, hmethods, hline]

theorem methodEntry_eq (hagree : AgreeOutside cuts a b) (hn : n.Nested)
    (hmethod : isMethod n = true) (hconfined : Confined cuts ((n.reach way).flatMap cutsOf) n) :
    (methodEntry a n).unnamed = (methodEntry b n).unnamed := by
  have hcontainer := not_isContainer_of_isMethod hmethod
  have hown : (n.reach way).flatMap cutsOf = methodCuts n := by
    simp [reach_of_not_isContainer hcontainer, cutsOf, hcontainer]
  rw [hown] at hconfined
  have hheader := headerText_eq hagree hn hconfined (inBody_methodCuts n)
  have hline := hagree.line_eq n
  simp only [methodEntry, Declaration.unnamed, hheader, hline]

theorem outline_eq {root : Node} (hroot : root.Nested)
    (hbodies : ∀ n ∈ Node.reachMembers way root.children, HasBody n)
    (hagree : AgreeOutside ((Node.reachMembers way root.children).flatMap cutsOf) a b) :
    (outline a root).map Declaration.unnamed = (outline b root).map Declaration.unnamed := by
  rw [Node.reachMembers_eq_flatMap] at hbodies hagree
  have hsiblings := hroot.siblings_members
  have hconfined {n : Node} (hn : n ∈ root.members.flatMap (Node.reach way)) :=
    Confined.of_reach hsiblings (fun _ ↦ within_of_mem_cutsOf)
      (fun _ hn _ hk _ hm ↦ leading hn hk hm) hn
  rw [outline, outline, List.map_flatMap, List.map_flatMap]
  refine List.flatMap_congr fun n hn ↦ ?_
  have hreach {m : Node} (hm : m ∈ n.reach way) : m ∈ root.members.flatMap (Node.reach way) :=
    List.mem_flatMap.mpr ⟨n, hn, hm⟩
  rw [entriesAt, entriesAt]
  split
  case isTrue hmethod =>
    simp only [List.map_cons, List.map_nil, methodEntry_eq hagree (hsiblings.nested n hn) hmethod
      (hconfined (hreach Node.mem_reach_self))]
  case isFalse =>
    rw [List.map_map, List.map_map]
    refine List.map_congr_left fun m hm ↦ ?_
    obtain ⟨hm, hcontainer⟩ := List.mem_filter.mp hm
    exact containerEntry_eq hagree (hsiblings.nested_of_mem_reach (hreach hm)) hcontainer
      (hbodies m (hreach hm)) (hconfined (hreach hm))

end Dossier.Outline.Ruby

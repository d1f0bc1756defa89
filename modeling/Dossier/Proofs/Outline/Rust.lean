import Dossier.Outline.Rust
import Dossier.Proofs.Outline.Declaration

/-!
# Rust without bodies

Functions are cut at the top level, in modules, and as members of traits and implementations.
-/

namespace Dossier.Outline.Rust

variable {cuts own : List Node} {a b : Bytes} {n : Node}

/-- The body of a function. -/
def functionCuts (n : Node) : List Node :=
  if n.kind = "function_item" then (n.field? "body").toList else []

/-- What is cut at an item: the body of a function, or those of the members of a trait or an
implementation. -/
def cutsOf (n : Node) : List Node :=
  if n.kind = "trait_item" ∨ n.kind = "impl_item" then cutMembers functionCuts (n.field? "body")
  else functionCuts n

theorem within_of_mem_functionCuts (hn : n.Nested) : ∀ c ∈ functionCuts n, c.Within n := by
  intro c hc
  rw [functionCuts] at hc
  split at hc
  · exact hn.within_of_field? (Option.mem_toList.mp hc)
  · simp at hc

theorem inBody_cutsOf (hn : n.Nested) : InBody (n.field? "body") (cutsOf n) := by
  rw [cutsOf]
  split
  · exact .cutMembers (fun _ ↦ hn.of_field?) fun _ ↦ within_of_mem_functionCuts
  · rw [functionCuts]
    split
    · exact .toList _
    · simp [InBody]

theorem within_of_mem_cutsOf (hn : n.Nested) : ∀ c ∈ cutsOf n, c.Within n :=
  fun _ hc ↦ (inBody_cutsOf hn).within (fun _ ↦ hn.within_of_field?) hc

theorem header_eq_of_confined (hagree : AgreeOutside cuts a b) (hn : n.Nested)
    (hconfined : Confined cuts own n) (hown : InBody (n.field? "body") own) :
    header a n (n.field? "body") = header b n (n.field? "body") :=
  header_eq hagree hn (fun _ ↦ Node.mem_children_of_field?) hconfined hown

theorem functionEntry_eq (hagree : AgreeOutside cuts a b) (hn : n.Nested)
    (hconfined : Confined cuts (n.field? "body").toList n) :
    (functionEntry a n).unnamed = (functionEntry b n).unnamed := by
  have hheader := header_eq_of_confined hagree hn hconfined (.toList _)
  have hline := hagree.line_eq n
  simp only [functionEntry, Declaration.unnamed, hheader, hline]

theorem traitMember?_eq (hagree : AgreeOutside cuts a b) (hn : n.Nested)
    (hconfined : Confined cuts (functionCuts n) n) : traitMember? a n = traitMember? b n := by
  rw [traitMember?, traitMember?]
  by_cases hfunction : n.kind = "function_item"
  · rw [functionCuts, if_pos hfunction] at hconfined
    rw [if_pos hfunction, if_pos hfunction, header_eq_of_confined hagree hn hconfined (.toList _)]
  · rw [functionCuts, if_neg hfunction] at hconfined
    rw [if_neg hfunction, if_neg hfunction, hconfined.text_eq hagree (.refl n)]

theorem traitText_eq (hagree : AgreeOutside cuts a b) (hn : n.Nested)
    (hconfined : Confined cuts (cutMembers functionCuts (n.field? "body")) n) :
    traitText a n = traitText b n := by
  have hheader := header_eq_of_confined hagree hn hconfined
    (.cutMembers (fun _ ↦ hn.of_field?) fun _ ↦ within_of_mem_functionCuts)
  rw [traitText, traitText]
  cases hbody : n.field? "body" with
  | none =>
      rw [hbody] at hconfined
      have htext := hconfined.text_eq hagree (.refl n)
      simp only [htext]
  | some body =>
      rw [hbody] at hconfined hheader
      have hnested := hn.of_field? hbody
      have hmembers : body.members.filterMap (traitMember? a) =
          body.members.filterMap (traitMember? b) := by
        refine List.filterMap_congr fun m hm ↦ ?_
        exact traitMember?_eq hagree (hnested.siblings_members.nested m hm)
          (confined_member hconfined rfl hnested (hn.within_of_field? hbody)
            (fun _ ↦ within_of_mem_functionCuts) hm)
      simp only [openHeader, hheader, hmembers]

theorem constText_eq (hagree : AgreeOutside cuts a b) (hn : n.Nested)
    (hconfined : Confined cuts [] n) : constText a n = constText b n := by
  have hslice {stop : Nat} (hstop : stop ≤ n.stop) : a.slice n.start stop = b.slice n.start stop :=
    hconfined.slice_eq hagree (Nat.le_refl _) hstop (by simp)
  rw [constText, constText, hconfined.text_eq hagree (.refl n)]
  cases htype : n.field? "type" with
  | some type => simp only [hslice (hn.within_of_field? htype).2]
  | none =>
      cases hvalue : n.field? "value" with
      | some value =>
          have hstop := Nat.le_trans (hn.of_field? hvalue).start_le_stop
            (hn.within_of_field? hvalue).2
          simp only [hslice hstop]
      | none => rfl

theorem implEntries_eq (hagree : AgreeOutside cuts a b) (hn : n.Nested)
    (hconfined : Confined cuts (cutMembers functionCuts (n.field? "body")) n) {body : Node}
    (hbody : n.field? "body" = some body) :
    ((body.members.filter (·.kind == "function_item")).map (functionEntry a)).map
        Declaration.unnamed =
      ((body.members.filter (·.kind == "function_item")).map (functionEntry b)).map
        Declaration.unnamed := by
  rw [List.map_map, List.map_map]
  refine List.map_congr_left fun m hm ↦ ?_
  obtain ⟨hm, hfunction⟩ := List.mem_filter.mp hm
  have hnested := hn.of_field? hbody
  have hmember := confined_member hconfined hbody hnested (hn.within_of_field? hbody)
    (fun _ ↦ within_of_mem_functionCuts) hm
  rw [functionCuts, if_pos (beq_iff_eq.mp hfunction)] at hmember
  exact functionEntry_eq hagree (hnested.siblings_members.nested m hm) hmember

theorem entriesAt_eq (hagree : AgreeOutside cuts a b) (hn : n.Nested)
    (hconfined : Confined cuts (cutsOf n) n) :
    (entriesAt a n).map Declaration.unnamed = (entriesAt b n).map Declaration.unnamed := by
  have hline := hagree.line_eq n
  rw [entriesAt, entriesAt]
  by_cases hfunction : n.kind = "function_item"
  · have hlookup : wholeKinds.lookup n.kind = none := by rw [hfunction]; decide
    have hmember : ¬ (n.kind = "trait_item" ∨ n.kind = "impl_item") := by rw [hfunction]; decide
    rw [cutsOf, if_neg hmember, functionCuts, if_pos hfunction] at hconfined
    simp only [hlookup, if_pos hfunction, List.map_cons, List.map_nil,
      functionEntry_eq hagree hn hconfined]
  by_cases htrait : n.kind = "trait_item"
  · have hlookup : wholeKinds.lookup n.kind = none := by rw [htrait]; decide
    rw [cutsOf, if_pos (.inl htrait)] at hconfined
    simp only [hlookup, if_neg hfunction, if_pos htrait, List.map_cons, List.map_nil,
      Declaration.unnamed, traitText_eq hagree hn hconfined, hline]
  by_cases himpl : n.kind = "impl_item"
  · have hlookup : wholeKinds.lookup n.kind = none := by rw [himpl]; decide
    rw [cutsOf, if_pos (.inr himpl)] at hconfined
    simp only [hlookup, if_neg hfunction, if_neg htrait, if_pos himpl]
    cases hbody : n.field? "body" with
    | none => rfl
    | some body => exact implEntries_eq hagree hn hconfined hbody
  rw [cutsOf, if_neg (not_or.mpr ⟨htrait, himpl⟩), functionCuts, if_neg hfunction] at hconfined
  have htext := hconfined.text_eq hagree (.refl n)
  have hconst := constText_eq hagree hn hconfined
  cases wholeKinds.lookup n.kind with
  | some kind => simp only [List.map_cons, List.map_nil, Declaration.unnamed, htext, hline]
  | none =>
      simp only [if_neg hfunction, if_neg htrait, if_neg himpl]
      split
      · simp only [List.map_cons, List.map_nil, Declaration.unnamed, hconst, hline]
      · rfl

theorem wrapper_of_way (hway : way n ≠ .stop) :
    cutsOf n = [] ∧ ∀ source, entriesAt source n = [] := by
  have hkind : n.kind = "mod_item" := by
    by_contra hkind
    exact hway (if_neg hkind)
  have hlookup : wholeKinds.lookup n.kind = none := by rw [hkind]; decide
  refine ⟨?_, fun source ↦ ?_⟩
  · simp [cutsOf, functionCuts, hkind]
  · rw [entriesAt, hlookup]
    simp [hkind]

theorem outline_eq {root : Node} (hroot : root.Nested)
    (hagree : AgreeOutside ((Node.reachMembers way root.children).flatMap cutsOf) a b) :
    (outline a root).map Declaration.unnamed = (outline b root).map Declaration.unnamed :=
  flatMap_reachMembers_eq hroot (fun _ ↦ within_of_mem_cutsOf) (fun _ ↦ wrapper_of_way)
    fun _ ↦ entriesAt_eq hagree

end Dossier.Outline.Rust

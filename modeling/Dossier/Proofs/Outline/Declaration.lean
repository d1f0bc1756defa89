import Dossier.Outline.Declaration
import Dossier.Proofs.Source.Agreement
import Mathlib.Data.List.Forall2

/-!
# Declarations without their bodies

The outline of every language cuts some nodes out of the text that it shows: the bodies of functions
and methods. This module has what the languages share in the proof that nothing else of their
outlines than names depends on what is cut.
-/

namespace Dossier.Outline

/-- A declaration without its name. The name is guessed from the whole text if no node has it. -/
def Declaration.unnamed (d : Declaration) : Declaration :=
  { d with name := "" }

/-- Two declarations are the same but for their names. -/
structure SameButName (d e : Declaration) : Prop where
  kind_eq : d.kind = e.kind
  signature_eq : d.signature = e.signature
  exported_eq : d.exported = e.exported
  line_eq : d.line = e.line
  fieldsOnly_eq : d.fieldsOnly = e.fieldsOnly

theorem Declaration.unnamed_eq_iff {d e : Declaration} :
    d.unnamed = e.unnamed ↔ SameButName d e := by
  cases d
  cases e
  simp only [unnamed, Declaration.mk.injEq, true_and]
  constructor
  · rintro ⟨hkind, hsignature, hexported, hline, hfields⟩
    exact ⟨hkind, hsignature, hexported, hline, hfields⟩
  · rintro ⟨hkind, hsignature, hexported, hline, hfields⟩
    exact ⟨hkind, hsignature, hexported, hline, hfields⟩

theorem forall₂_of_map_unnamed {l l' : List Declaration}
    (h : l.map Declaration.unnamed = l'.map Declaration.unnamed) :
    List.Forall₂ SameButName l l' := by
  rw [← List.forall₂_eq_eq_eq, List.forall₂_map_left_iff, List.forall₂_map_right_iff] at h
  exact h.imp fun _ _ hde ↦ Declaration.unnamed_eq_iff.mp hde

/-! ## Headers -/

variable {cuts own : List Node} {a b : Bytes} {n : Node} {body? : Option Node}

/-- Where the part of a node ends that stands before its body. -/
def headerEnd (n : Node) (body? : Option Node) : Nat :=
  match body? with
  | some body => body.start
  | none => n.stop

theorem header_eq_slice (source : Bytes) (n : Node) (body? : Option Node) :
    header source n body? = Text.dedentTail (n.column source)
      (Text.strip (source.slice n.start (headerEnd n body?))) := by
  cases body? <;> rfl

/-- What is cut out of a node lies in its body. -/
def InBody (body? : Option Node) (own : List Node) : Prop :=
  ∀ c ∈ own, ∃ body, body? = some body ∧ c.Within body

theorem InBody.toList (body? : Option Node) : InBody body? body?.toList := by
  intro c hc
  exact ⟨c, Option.mem_toList.mp hc, .refl c⟩

theorem InBody.headerEnd_le (h : InBody body? own) {c : Node} (hc : c ∈ own) (m : Node) :
    headerEnd m body? ≤ c.start := by
  obtain ⟨body, rfl, hwithin⟩ := h c hc
  exact hwithin.1

theorem InBody.within (h : InBody body? own) (hbody : ∀ body, body? = some body → body.Within n)
    {c : Node} (hc : c ∈ own) : c.Within n := by
  obtain ⟨body, hsome, hwithin⟩ := h c hc
  exact hwithin.trans (hbody body hsome)

theorem headerEnd_le_stop (hn : n.Nested)
    (hbody : ∀ body, body? = some body → body ∈ n.children) : headerEnd n body? ≤ n.stop := by
  cases body? with
  | none => exact Nat.le_refl _
  | some body =>
      have hmem := hbody body rfl
      exact Nat.le_trans (hn.of_mem hmem).start_le_stop (hn.within_of_mem hmem).2

/-- The part of a node that stands before its body is the same. -/
theorem slice_headerEnd_eq (hagree : AgreeOutside cuts a b) (hconfined : Confined cuts own n)
    (hown : InBody body? own) {m : Node} {start stop : Nat} (hstart : n.start ≤ start)
    (hstop : stop ≤ n.stop) (hend : stop ≤ headerEnd m body?) :
    a.slice start stop = b.slice start stop :=
  hconfined.slice_eq hagree hstart hstop fun _ hc ↦ Nat.le_trans hend (hown.headerEnd_le hc m)

theorem header_eq (hagree : AgreeOutside cuts a b) (hn : n.Nested)
    (hbody : ∀ body, body? = some body → body ∈ n.children) (hconfined : Confined cuts own n)
    (hown : InBody body? own) : header a n body? = header b n body? := by
  rw [header_eq_slice, header_eq_slice, hagree.column_eq,
    slice_headerEnd_eq hagree hconfined hown (Nat.le_refl _) (headerEnd_le_stop hn hbody)
      (Nat.le_refl _)]

/-! ## Members -/

/-- What is cut out of the members of a body. -/
def cutMembers (cutsOf : Node → List Node) (body? : Option Node) : List Node :=
  body?.toList.flatMap fun body ↦ body.members.flatMap cutsOf

variable {cutsOf : Node → List Node}

theorem InBody.cutMembers (hbody : ∀ body, body? = some body → body.Nested)
    (hwithin : ∀ m : Node, m.Nested → ∀ c ∈ cutsOf m, c.Within m) :
    InBody body? (cutMembers cutsOf body?) := by
  intro c hc
  obtain ⟨body, hsome, hc⟩ := List.mem_flatMap.mp hc
  obtain ⟨m, hm, hc⟩ := List.mem_flatMap.mp hc
  rw [Option.mem_toList] at hsome
  have hnested := hbody body hsome
  have hmem := Node.mem_children_of_mem_members hm
  exact ⟨body, hsome,
    (hwithin m (hnested.of_mem hmem) c hc).trans (hnested.within_of_mem hmem)⟩

/-- A member of a body meets nothing of what is cut but its own. -/
theorem confined_member (h : Confined cuts (cutMembers cutsOf body?) n) {body m : Node}
    (hsome : body? = some body) (hbody : body.Nested) (hin : body.Within n)
    (hwithin : ∀ m : Node, m.Nested → ∀ c ∈ cutsOf m, c.Within m) (hm : m ∈ body.members) :
    Confined cuts (cutsOf m) m := by
  subst hsome
  have hmem := Node.mem_children_of_mem_members hm
  have hconfined : Confined (body.members.flatMap cutsOf) (cutsOf m) m :=
    .of_siblings hbody.siblings_members
      (fun k hk ↦ hwithin k (hbody.siblings_members.nested k hk)) hm
  refine h.trans ((hbody.within_of_mem hmem).trans hin) ?_
  simpa [cutMembers] using hconfined

/-! ## Outlines -/

/-- The declarations at the members of a root, each of which meets only what is cut at itself. -/
theorem flatMap_members_eq {root : Node} {entriesAt : Bytes → Node → List Declaration}
    (hroot : root.Nested)
    (hwithin : ∀ n : Node, n.Nested → ∀ c ∈ cutsOf n, c.Within n)
    (heq : ∀ n : Node, n.Nested → Confined (root.members.flatMap cutsOf) (cutsOf n) n →
      (entriesAt a n).map Declaration.unnamed = (entriesAt b n).map Declaration.unnamed) :
    (root.members.flatMap (entriesAt a)).map Declaration.unnamed =
      (root.members.flatMap (entriesAt b)).map Declaration.unnamed := by
  rw [List.map_flatMap, List.map_flatMap]
  refine List.flatMap_congr fun n hn ↦ heq n (hroot.siblings_members.nested n hn) ?_
  exact .of_siblings hroot.siblings_members
    (fun m hm ↦ hwithin m (hroot.siblings_members.nested m hm)) hn

/-- The declarations that a walk through wrappers reaches. The wrappers declare nothing themselves. -/
theorem flatMap_reachMembers_eq {way : Node → Node.Way} {root : Node}
    {entriesAt : Bytes → Node → List Declaration} (hroot : root.Nested)
    (hwithin : ∀ n : Node, n.Nested → ∀ c ∈ cutsOf n, c.Within n)
    (hwrapper : ∀ n : Node, way n ≠ .stop → cutsOf n = [] ∧ ∀ source, entriesAt source n = [])
    (heq : ∀ n : Node, n.Nested →
      Confined ((Node.reachMembers way root.children).flatMap cutsOf) (cutsOf n) n →
      (entriesAt a n).map Declaration.unnamed = (entriesAt b n).map Declaration.unnamed) :
    ((Node.reachMembers way root.children).flatMap (entriesAt a)).map Declaration.unnamed =
      ((Node.reachMembers way root.children).flatMap (entriesAt b)).map Declaration.unnamed := by
  rw [Node.reachMembers_eq_flatMap] at heq ⊢
  have hsiblings := hroot.siblings_members
  rw [List.map_flatMap, List.map_flatMap]
  refine List.flatMap_congr fun n hn ↦ ?_
  by_cases hway : way n = .stop
  · have hreach : (n.reach way).flatMap cutsOf = cutsOf n := by
      simp [Node.reach_eq_entered, Node.entered, hway]
    refine heq n (hsiblings.nested_of_mem_reach hn) ?_
    rw [← hreach]
    refine .of_reach hsiblings hwithin (fun m _ k hk _ _ c hc ↦ ?_) hn
    have hentered : way m ≠ .stop := by
      intro hstop
      simp [Node.entered, hstop] at hk
    rw [(hwrapper m hentered).1] at hc
    simp at hc
  · rw [(hwrapper n hway).2, (hwrapper n hway).2]

end Dossier.Outline

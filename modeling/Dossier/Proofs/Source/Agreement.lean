import Dossier.Proofs.Source.Nested
import Mathlib.Data.List.Basic

/-!
# Sources that differ inside some nodes

Two sources agree outside some nodes if they have the same length and the same line breaks and are
the same at every other byte. Lines and columns are then the same everywhere, and so is every slice
that meets none of the nodes. Which of the nodes a slice could meet is known from the node it lies
in.
-/

namespace Dossier

/-- Two sources that differ at most inside some nodes and have the same line breaks. -/
structure AgreeOutside (cuts : List Node) (a b : Bytes) : Prop where
  length_eq : a.length = b.length
  lineFeed_iff : ∀ i : Nat, a[i]? = some 10 ↔ b[i]? = some 10
  outside : ∀ i : Nat, (∀ c ∈ cuts, ¬ (c.start ≤ i ∧ i < c.stop)) → a[i]? = b[i]?

namespace AgreeOutside

variable {cuts : List Node} {a b : Bytes}

theorem map_isLineFeed (h : AgreeOutside cuts a b) : a.map (· == 10) = b.map (· == 10) := by
  refine List.ext_getElem (by simpa using h.length_eq) fun i hi hi' ↦ ?_
  have hiff := h.lineFeed_iff i
  rw [List.getElem?_eq_getElem (by simpa using hi), List.getElem?_eq_getElem (by simpa using hi'),
    Option.some_inj, Option.some_inj] at hiff
  rw [List.getElem_map, List.getElem_map, Bool.eq_iff_iff, beq_iff_eq, beq_iff_eq]
  exact hiff

theorem lineAt_eq (h : AgreeOutside cuts a b) (start : Nat) : a.lineAt start = b.lineAt start := by
  have hcount (bytes : Bytes) : (bytes.take start).count 10 =
      ((bytes.map (· == 10)).take start).count true := by
    rw [← List.map_take, List.count, List.count, List.countP_map]
    congr 1
    funext x
    simp
  rw [Bytes.lineAt, Bytes.lineAt, hcount, hcount, h.map_isLineFeed]

theorem columnAt_eq (h : AgreeOutside cuts a b) (start : Nat) :
    a.columnAt start = b.columnAt start := by
  have hlength (bytes : Bytes) : ((bytes.take start).reverse.takeWhile (· != 10)).length =
      (((bytes.map (· == 10)).take start).reverse.takeWhile (!·)).length := by
    rw [← List.map_take, ← List.map_reverse, List.takeWhile_map, List.length_map]
    rfl
  rw [Bytes.columnAt, Bytes.columnAt, hlength, hlength, h.map_isLineFeed, h.length_eq]

theorem line_eq (h : AgreeOutside cuts a b) (n : Node) : n.line a = n.line b :=
  h.lineAt_eq n.start

theorem column_eq (h : AgreeOutside cuts a b) (n : Node) : n.column a = n.column b :=
  h.columnAt_eq n.start

/-- A slice that meets no node in which the sources differ. -/
theorem slice_eq (h : AgreeOutside cuts a b) {start stop : Nat}
    (hclear : ∀ c ∈ cuts, c.stop ≤ start ∨ stop ≤ c.start) :
    a.slice start stop = b.slice start stop := by
  have hbetween : a.between start stop = b.between start stop := by
    refine List.ext_getElem? fun i ↦ ?_
    simp only [Bytes.between, List.getElem?_drop, List.getElem?_take]
    split
    · refine h.outside _ fun c hc hin ↦ ?_
      have := hclear c hc
      omega
    · rfl
  rw [Bytes.slice, Bytes.slice, hbetween]

/-- A byte inside one of the nodes may be replaced, unless a line break comes or goes with it. -/
theorem of_set {c : Node} (hc : c ∈ cuts) {i : Nat} (hstart : c.start ≤ i) (hstop : i < c.stop)
    {byte : UInt8} (hold : a[i]? ≠ some 10) (hnew : byte ≠ 10) :
    AgreeOutside cuts a (a.set i byte) where
  length_eq := List.length_set.symm
  lineFeed_iff j := by
    by_cases hij : i = j
    · subst hij
      by_cases hi : i < a.length
      · rw [List.getElem?_set_self hi]
        simp [hold, hnew]
      · rw [List.set_eq_of_length_le (Nat.le_of_not_lt hi)]
    · rw [List.getElem?_set_ne hij]
  outside j hj := by
    have hij : i ≠ j := by
      rintro rfl
      exact hj c hc ⟨hstart, hstop⟩
    rw [List.getElem?_set_ne hij]

end AgreeOutside

/-! ## What a node can meet -/

/-- Of some nodes, only those on a shorter list can meet the node `n`. -/
def Confined (cuts own : List Node) (n : Node) : Prop :=
  ∀ c ∈ cuts, c ∈ own ∨ c.Apart n

namespace Confined

variable {cuts own inner : List Node} {n m : Node} {nodes : List Node}

/-- Siblings meet only what lies in themselves. -/
theorem of_siblings {cutsOf : Node → List Node} (hsiblings : Node.Siblings nodes)
    (hwithin : ∀ n ∈ nodes, ∀ c ∈ cutsOf n, c.Within n) (hn : n ∈ nodes) :
    Confined (nodes.flatMap cutsOf) (cutsOf n) n := by
  intro c hc
  obtain ⟨m, hm, hcm⟩ := List.mem_flatMap.mp hc
  rcases hsiblings.eq_or_apart hm hn with rfl | hapart
  · exact .inl hcm
  · exact .inr (hapart.mono (hwithin m hm c hcm) (.refl n))

/-- A node that a walk reaches meets only what lies at the nodes reached from it. What lies at the
nodes that lead to it has to be told apart from it or to lie there, too. -/
theorem of_reach {way : Node → Node.Way} {cutsOf : Node → List Node}
    (hsiblings : Node.Siblings nodes) (hwithin : ∀ n : Node, n.Nested → ∀ c ∈ cutsOf n, c.Within n)
    (hleading : ∀ n : Node, n.Nested → ∀ k ∈ n.entered way, ∀ m ∈ k.reach way, ∀ c ∈ cutsOf n,
      c ∈ cutsOf m ∨ c.Apart m)
    (hn : n ∈ nodes.flatMap (Node.reach way)) :
    Confined ((nodes.flatMap (Node.reach way)).flatMap cutsOf) ((n.reach way).flatMap cutsOf) n := by
  intro c hc
  obtain ⟨m, hm, hcm⟩ := List.mem_flatMap.mp hc
  have hnested := hsiblings.nested_of_mem_reach hm
  have hself {c : Node} (hc : c ∈ cutsOf n) : c ∈ (n.reach way).flatMap cutsOf :=
    List.mem_flatMap.mpr ⟨n, Node.mem_reach_self, hc⟩
  rcases hsiblings.reach_trichotomy hn hm with hinside | habove | hapart
  · exact .inl (List.mem_flatMap.mpr ⟨m, hinside, hcm⟩)
  · rcases Node.mem_reach.mp habove with rfl | ⟨k, hk, hnk⟩
    · exact .inl (hself hcm)
    · exact (hleading m hnested k hk n hnk c hcm).imp_left hself
  · exact .inr (hapart.symm.mono (hwithin m hnested c hcm) (.refl n))

/-- Inside a node only what the node can meet counts. -/
theorem trans (h : Confined cuts own n) (hm : m.Within n) (hinner : Confined own inner m) :
    Confined cuts inner m := by
  intro c hc
  rcases h c hc with hown | hapart
  · exact hinner c hown
  · exact .inr (hapart.mono (.refl c) hm)

variable {a b : Bytes}

/-- A slice of a node is the same if all that the node can meet comes after it. -/
theorem slice_eq (h : Confined cuts own n) (hagree : AgreeOutside cuts a b) {start stop : Nat}
    (hstart : n.start ≤ start) (hstop : stop ≤ n.stop) (hown : ∀ c ∈ own, stop ≤ c.start) :
    a.slice start stop = b.slice start stop := by
  refine hagree.slice_eq fun c hc ↦ ?_
  rcases h c hc with hc | hc | hc
  · exact .inr (hown c hc)
  · exact .inl (Nat.le_trans hc hstart)
  · exact .inr (Nat.le_trans hstop hc)

/-- The text of a node inside a node that can meet nothing. -/
theorem text_eq (h : Confined cuts [] n) (hagree : AgreeOutside cuts a b) (hm : m.Within n) :
    m.text a = m.text b :=
  h.slice_eq hagree hm.1 hm.2 (by simp)

end Confined

end Dossier

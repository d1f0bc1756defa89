import Dossier.DirectoryTree.Render
import Dossier.Proofs.DirectoryTree.Nodes
import Dossier.Proofs.Text.OneLine
import Dossier.Proofs.Text.Split
import Mathlib.Data.List.Infix

/-!
# Lines of a tree

A node of a tree has an address: its number among the nodes at the top, or the address of the node above
it and its number there. A tree is shown in the order of the addresses, one line a node, and the rules in
front of a node say which of the nodes above it have a sibling after them.
-/

namespace Dossier

namespace TreeNode

open Text (OneLine indentLines joinLines physicalLines)

/-! ## Addresses -/

/-- The nodes right below a node. -/
def inner : TreeNode → List TreeNode
  | .directory _ _ children => children
  | _ => []

/-- Where an address leads to from a node. -/
def down? : List Nat → TreeNode → Option TreeNode
  | [], node => some node
  | i :: rest, node => node.inner[i]?.bind (down? rest)

/-- The node at an address. -/
def nodeAt? (nodes : List TreeNode) : List Nat → Option TreeNode
  | [] => none
  | i :: rest => nodes[i]?.bind (down? rest)

/-- The address of the sibling after a node. -/
def next : List Nat → List Nat
  | [] => []
  | [i] => [i + 1]
  | i :: j :: rest => i :: next (j :: rest)

/-- Whether the node at an address has a sibling after it. -/
def hasNext (nodes : List TreeNode) (address : List Nat) : Bool :=
  (nodeAt? nodes (next address)).isSome

/-- The addresses of the nodes above a node, from the top down. -/
def ancestors (address : List Nat) : List (List Nat) :=
  address.inits.tail.dropLast

/-- The line of the node at an address. -/
def lineAt (pad : String) (nodes : List TreeNode) (address : List Nat) : String :=
  pad ++ String.join ((ancestors address).map fun above ↦
      if hasNext nodes above then "│   " else "    ") ++
    (if hasNext nodes address then "├── " else "└── ") ++
    ((nodeAt? nodes address).map label).getD ""

mutual

/-- The addresses below a node, its own one first. -/
def addressesIn : TreeNode → List (List Nat)
  | .directory _ _ children => [] :: addressesFrom 0 children
  | .file .. => [[]]
  | .collapsed .. => [[]]

/-- The addresses of siblings and of all below them, if the first sibling has the number `i`. -/
def addressesFrom (i : Nat) : List TreeNode → List (List Nat)
  | [] => []
  | node :: rest => (addressesIn node).map (i :: ·) ++ addressesFrom (i + 1) rest

end

/-- The addresses of some nodes and of all below them. -/
def addresses (nodes : List TreeNode) : List (List Nat) :=
  addressesFrom 0 nodes

variable {nodes rest : List TreeNode} {node : TreeNode} {pad : String} {address : List Nat} {i j k : Nat}

theorem nested_induction {motive : List TreeNode → Prop} (nil : motive [])
    (cons : ∀ node rest, motive node.inner → motive rest → motive (node :: rest)) :
    (nodes : List TreeNode) → motive nodes
  | [] => nil
  | node :: rest =>
    cons node rest (nested_induction nil cons node.inner) (nested_induction nil cons rest)
termination_by nodes => sizeOf nodes
decreasing_by
  · cases node <;> simp [inner] <;> omega
  · simp

theorem addressesIn_eq (node : TreeNode) : addressesIn node = [] :: addressesFrom 0 node.inner := by
  cases node <;> simp [addressesIn, addressesFrom, inner]

theorem addressesFrom_cons (i : Nat) (node : TreeNode) (rest : List TreeNode) :
    addressesFrom i (node :: rest) =
      [i] :: (addressesFrom 0 node.inner).map (i :: ·) ++ addressesFrom (i + 1) rest := by
  rw [addressesFrom, addressesIn_eq, List.map_cons]

theorem down?_cons (i : Nat) (rest : List Nat) (node : TreeNode) :
    down? (i :: rest) node = nodeAt? node.inner (i :: rest) :=
  rfl

theorem nodeAt?_cons (h : nodes[i]? = some node) (hne : address ≠ []) :
    nodeAt? nodes (i :: address) = nodeAt? node.inner address := by
  obtain ⟨j, rest, rfl⟩ := List.exists_cons_of_ne_nil hne
  rw [nodeAt?, h, Option.bind_some, down?_cons]

theorem mem_addressesFrom : address ∈ addressesFrom k nodes ↔
    ∃ i rest, address = (k + i) :: rest ∧ (nodeAt? nodes (i :: rest)).isSome := by
  induction nodes using nested_induction generalizing k address with
  | nil => simp [addressesFrom, nodeAt?]
  | cons node others ihInner ihRest =>
      rw [addressesFrom_cons, List.mem_append, List.mem_cons, List.mem_map, ihRest]
      constructor
      · rintro ((rfl | ⟨below, hbelow, rfl⟩) | ⟨i, rest, rfl, hsome⟩)
        · exact ⟨0, [], rfl, rfl⟩
        · obtain ⟨j, rest, rfl, hsome⟩ := ihInner.mp hbelow
          refine ⟨0, (0 + j) :: rest, rfl, ?_⟩
          rw [nodeAt?_cons rfl (List.cons_ne_nil _ _), Nat.zero_add]
          exact hsome
        · exact ⟨i + 1, rest, by rw [Nat.add_right_comm, Nat.add_assoc], hsome⟩
      · rintro ⟨i, rest, rfl, hsome⟩
        cases i with
        | zero =>
            cases rest with
            | nil => exact .inl (.inl rfl)
            | cons j rest =>
                rw [nodeAt?_cons rfl (List.cons_ne_nil _ _)] at hsome
                exact .inl (.inr ⟨j :: rest, ihInner.mpr ⟨j, rest, by rw [Nat.zero_add], hsome⟩, rfl⟩)
        | succ i => exact .inr ⟨i, rest, by rw [Nat.add_right_comm, Nat.add_assoc], hsome⟩

theorem ne_nil_of_mem_addressesFrom (h : address ∈ addressesFrom k nodes) : address ≠ [] := by
  obtain ⟨i, rest, rfl, -⟩ := mem_addressesFrom.mp h
  exact List.cons_ne_nil _ _

theorem mem_addresses : address ∈ addresses nodes ↔ (nodeAt? nodes address).isSome := by
  rw [addresses, mem_addressesFrom]
  constructor
  · rintro ⟨i, rest, rfl, hsome⟩
    rwa [Nat.zero_add]
  · intro hsome
    cases address with
    | nil => exact absurd hsome (by simp [nodeAt?])
    | cons i rest => exact ⟨i, rest, by rw [Nat.zero_add], hsome⟩

theorem pairwise_addressesFrom (k : Nat) (nodes : List TreeNode) :
    (addressesFrom k nodes).Pairwise (· < ·) := by
  induction nodes using nested_induction generalizing k with
  | nil => exact .nil
  | cons node rest ihInner ihRest =>
      rw [addressesFrom_cons, List.pairwise_append]
      refine ⟨List.pairwise_cons.mpr ⟨?_, ?_⟩, ihRest (k + 1), ?_⟩
      · intro address haddress
        obtain ⟨below, hbelow, rfl⟩ := List.mem_map.mp haddress
        obtain ⟨i, rest, rfl, -⟩ := mem_addressesFrom.mp hbelow
        exact List.cons_lt_cons_self.mpr (List.nil_lt_cons _ _)
      · rw [List.pairwise_map]
        exact (ihInner 0).imp List.cons_lt_cons_self.mpr
      · intro address haddress later hlater
        obtain ⟨i, below, rfl, -⟩ := mem_addressesFrom.mp hlater
        obtain ⟨tail, rfl⟩ : ∃ tail, address = k :: tail := by
          rcases List.mem_cons.mp haddress with rfl | haddress
          · exact ⟨[], rfl⟩
          · obtain ⟨tail, -, rfl⟩ := List.mem_map.mp haddress
            exact ⟨tail, rfl⟩
        exact List.cons_lt_cons_iff.mpr (.inl (by omega))

theorem all_eq (node : TreeNode) : all node = node :: forest node.inner := by
  cases node <;> simp [all, forest, inner]

/-- Siblings from the number `k` on have their addresses from there. -/
theorem map_nodeAt? (before nodes : List TreeNode) :
    (addressesFrom before.length nodes).map (nodeAt? (before ++ nodes)) =
      (forest nodes).map some := by
  induction nodes using nested_induction generalizing before with
  | nil => rfl
  | cons node rest ihInner ihRest =>
      have hnode : (before ++ node :: rest)[before.length]? = some node := by simp
      have hbelow : (addressesFrom 0 node.inner).map
          (fun address ↦ nodeAt? (before ++ node :: rest) (before.length :: address)) =
            (forest node.inner).map some := by
        rw [← ihInner []]
        refine List.map_congr_left fun address haddress ↦ ?_
        exact nodeAt?_cons hnode (ne_nil_of_mem_addressesFrom haddress)
      have hrest := ihRest (before ++ [node])
      rw [List.length_append, List.length_singleton, List.append_assoc, List.singleton_append] at hrest
      rw [addressesFrom_cons, List.map_append, List.map_cons, List.map_map, hrest, forest, all_eq,
        List.map_append, List.map_cons, ← hbelow, nodeAt?, hnode]
      rfl

/-! ## Lines -/

theorem ancestors_cons (i : Nat) (hne : address ≠ []) :
    ancestors (i :: address) = [i] :: (ancestors address).map (i :: ·) := by
  obtain ⟨j, rest, rfl⟩ := List.exists_cons_of_ne_nil hne
  have htail : (j :: rest).inits.tail ≠ [] := by cases rest <;> simp
  have hinits : (j :: rest).inits = [] :: (j :: rest).inits.tail := by simp
  rw [ancestors, List.inits_cons, List.tail_cons, hinits, List.map_cons,
    List.dropLast_cons_of_ne_nil (by simpa using htail), ← List.map_dropLast]
  rfl

theorem ne_nil_of_mem_ancestors {above : List Nat} (h : above ∈ ancestors address) : above ≠ [] := by
  cases address with
  | nil => simp [ancestors] at h
  | cons i rest =>
      have hmem := List.mem_of_mem_dropLast h
      rw [List.inits_cons, List.tail_cons] at hmem
      obtain ⟨tail, -, rfl⟩ := List.mem_map.mp hmem
      exact List.cons_ne_nil i tail

theorem next_cons (i : Nat) (hne : address ≠ []) :
    next (i :: address) = i :: next address ∧ next address ≠ [] := by
  obtain ⟨j, rest, rfl⟩ := List.exists_cons_of_ne_nil hne
  refine ⟨rfl, ?_⟩
  cases rest <;> exact List.cons_ne_nil _ _

theorem hasNext_cons (h : nodes[i]? = some node) (hne : address ≠ []) :
    hasNext nodes (i :: address) = hasNext node.inner address := by
  obtain ⟨hnext, hnextNe⟩ := next_cons i hne
  rw [hasNext, hnext, nodeAt?_cons h hnextNe, hasNext]

theorem hasNext_singleton (before : List TreeNode) (node : TreeNode) (rest : List TreeNode) :
    hasNext (before ++ node :: rest) [before.length] = !rest.isEmpty := by
  have hnext : (before ++ node :: rest)[before.length + 1]? = rest[0]? := by
    rw [List.getElem?_append_right (Nat.le_add_right _ 1), Nat.add_sub_cancel_left,
      List.getElem?_cons_succ]
  rw [hasNext, next, nodeAt?, hnext]
  cases rest <;> rfl

/-- The line of a node is a line among its siblings behind the rule that goes on from above. -/
theorem lineAt_cons (pad : String) (h : nodes[i]? = some node) (hne : address ≠ []) :
    lineAt pad nodes (i :: address) =
      lineAt (pad ++ if hasNext nodes [i] then "│   " else "    ") node.inner address := by
  have habove : (ancestors address).map (fun above ↦
      if hasNext nodes (i :: above) then "│   " else "    ") =
        (ancestors address).map fun above ↦ if hasNext node.inner above then "│   " else "    " :=
    List.map_congr_left fun above hmem ↦ by rw [hasNext_cons h (ne_nil_of_mem_ancestors hmem)]
  rw [lineAt, lineAt, ancestors_cons i hne, List.map_cons, List.map_map, String.join_cons,
    nodeAt?_cons h hne, hasNext_cons h hne, ← habove]
  simp only [String.append_assoc]
  rfl

theorem lines_eq (pad : String) (last : Bool) (node : TreeNode) :
    lines pad last node = (pad ++ connector last ++ label node) ::
      forestLines (pad ++ continuation last) node.inner := by
  cases node <;> simp [lines, forestLines, inner, label]

theorem forestLines_eq (pad : String) (before nodes : List TreeNode) :
    forestLines pad nodes =
      (addressesFrom before.length nodes).map (lineAt pad (before ++ nodes)) := by
  induction nodes using nested_induction generalizing pad before with
  | nil => rfl
  | cons node rest ihInner ihRest =>
      have hnode : (before ++ node :: rest)[before.length]? = some node := by simp
      have hnext := hasNext_singleton before node rest
      have hown : pad ++ connector rest.isEmpty ++ label node =
          lineAt pad (before ++ node :: rest) [before.length] := by
        rw [lineAt, hnext, nodeAt?, hnode, connector]
        cases rest.isEmpty <;> simp [ancestors, down?]
      have hbelow : forestLines (pad ++ continuation rest.isEmpty) node.inner =
          (addressesFrom 0 node.inner).map
            fun address ↦ lineAt pad (before ++ node :: rest) (before.length :: address) := by
        rw [ihInner _ []]
        refine List.map_congr_left fun address haddress ↦ ?_
        rw [lineAt_cons pad hnode (ne_nil_of_mem_addressesFrom haddress), hnext, continuation]
        cases rest.isEmpty <;> rfl
      have hrest := ihRest pad (before ++ [node])
      rw [List.length_append, List.length_singleton, List.append_assoc, List.singleton_append] at hrest
      rw [forestLines, lines_eq, addressesFrom_cons, List.map_append, List.map_cons, List.map_map,
        hrest, hown, hbelow]
      rfl

/-! ## Rendering -/

/-- A node whose line holds no line feed. -/
def IsOneLine : TreeNode → Prop
  | .file name _ remark => OneLine name ∧ ∀ text ∈ remark, OneLine text
  | .directory name _ _ => OneLine name
  | .collapsed name _ _ _ => OneLine name

instance : DecidablePred IsOneLine
  | .file name _ remark => inferInstanceAs (Decidable (OneLine name ∧ ∀ text ∈ remark, OneLine text))
  | .directory name _ _ => inferInstanceAs (Decidable (OneLine name))
  | .collapsed name _ _ _ => inferInstanceAs (Decidable (OneLine name))

theorem IsOneLine.label (h : node.IsOneLine) : OneLine node.label := by
  cases node with
  | file name path remark =>
      obtain ⟨hname, hremark⟩ := h
      cases remark with
      | none => exact hname
      | some text =>
          rw [TreeNode.label]
          split
          · exact hname
          · exact (hname.append (by decide)).append (hremark text rfl)
  | directory name path children => exact h.append (by decide)
  | collapsed name path files dirs =>
      exact ((((h.append (by decide)).append (Text.oneLine_ofInt files)).append (by decide)).append
        (Text.oneLine_ofInt dirs)).append (by decide)

theorem oneLine_join {parts : List String} (h : ∀ s ∈ parts, OneLine s) :
    OneLine (String.join parts) := by
  rw [OneLine, String.toList_join, List.mem_flatMap]
  rintro ⟨s, hs, hmem⟩
  exact h s hs hmem

theorem oneLine_lineAt (hpad : OneLine pad) (hnodes : ∀ node ∈ forest nodes, node.IsOneLine)
    (h : address ∈ addresses nodes) : OneLine (lineAt pad nodes address) := by
  obtain ⟨node, hmem, hnode⟩ : ∃ node ∈ forest nodes, some node = nodeAt? nodes address := by
    rw [← List.mem_map, ← map_nodeAt? [] nodes]
    exact List.mem_map.mpr ⟨address, h, rfl⟩
  have habove : OneLine (String.join ((ancestors address).map fun above ↦
      if hasNext nodes above then "│   " else "    ")) := by
    refine oneLine_join fun s hs ↦ ?_
    obtain ⟨above, -, rfl⟩ := List.mem_map.mp hs
    split <;> decide
  have hown : OneLine (if hasNext nodes address then "├── " else "└── ") := by
    split <;> decide
  rw [lineAt, ← hnode]
  exact ((hpad.append habove).append hown).append (hnodes node hmem).label

theorem render_eq (pad : String) (nodes : List TreeNode) :
    render pad nodes = joinLines ((addresses nodes).map (lineAt pad nodes)) := by
  rw [render, forestLines_eq pad [] nodes]
  rfl

theorem addresses_ne_nil (hne : nodes ≠ []) : addresses nodes ≠ [] := by
  obtain ⟨node, rest, rfl⟩ := List.exists_cons_of_ne_nil hne
  rw [addresses, addressesFrom_cons, List.cons_append]
  exact List.cons_ne_nil _ _

/-- The lines of a forest are its nodes in the order of their addresses, which are those that lead to a
node; a pad goes before every line. -/
theorem render_lines (hpad : OneLine pad) (hnodes : ∀ node ∈ forest nodes, node.IsOneLine) :
    (addresses nodes).Pairwise (· < ·) ∧
    (∀ address, address ∈ addresses nodes ↔ (nodeAt? nodes address).isSome) ∧
    (addresses nodes).map (nodeAt? nodes) = (forest nodes).map some ∧
    (nodes = [] → render pad nodes = "") ∧
    (nodes ≠ [] → physicalLines (render pad nodes) = (addresses nodes).map (lineAt pad nodes) ∧
      render pad nodes = indentLines pad (render "" nodes)) := by
  have hlines (hne : nodes ≠ []) (pad : String) (hpad : OneLine pad) :
      physicalLines (render pad nodes) = (addresses nodes).map (lineAt pad nodes) := by
    rw [render_eq]
    refine Text.split_intercalate_of_not_mem (by simpa using addresses_ne_nil hne) fun s hs ↦ ?_
    obtain ⟨address, haddress, rfl⟩ := List.mem_map.mp hs
    exact oneLine_lineAt hpad hnodes haddress
  refine ⟨pairwise_addressesFrom 0 nodes, fun _ ↦ mem_addresses, map_nodeAt? [] nodes, ?_, ?_⟩
  · rintro rfl
    rfl
  · intro hne
    refine ⟨hlines hne pad hpad, ?_⟩
    have hbare (address : List Nat) : pad ++ lineAt "" nodes address = lineAt pad nodes address := by
      simp only [lineAt, String.empty_append, String.append_assoc]
    rw [indentLines, hlines hne "" (by decide), List.map_map, render_eq]
    exact congrArg joinLines (List.map_congr_left fun address _ ↦ (hbare address).symm)

/-- A tree of three levels. -/
def smallForest : List TreeNode :=
  [.directory "src" "src"
    [.directory "lib" "src/lib" [.file "util.ts" "src/lib/util.ts" none],
      .collapsed "many" "src/many" 16 0],
    .file "README.md" "README.md" (some "documentation")]

theorem render_lines_small :
    addresses smallForest = [[0], [0, 0], [0, 0, 0], [0, 1], [1]] ∧
      physicalLines (render "> " smallForest) =
        ["> ├── src/", "> │   ├── lib/", "> │   │   └── util.ts",
          "> │   └── many/ (16 files, 0 dirs)", "> └── README.md # documentation"] := by
  have hpad : OneLine "> " := by decide
  have hnodes : ∀ node ∈ forest smallForest, node.IsOneLine := by decide
  obtain ⟨-, -, -, -, hlines⟩ := render_lines hpad hnodes
  refine ⟨by decide, (hlines (by decide)).1.trans ?_⟩
  decide +kernel

end TreeNode

end Dossier

import Dossier.DirectoryTree.Basic
import Dossier.Proofs.FileSystem.Correspondence
import Dossier.Proofs.Inventory.Exact

/-!
# Walks through trees of one shape

A walk tells of two directories that correspond the same files, the same closed directories and as
many links, and the trees that are built from them are equal. The order in which the directories list
their names shows at most in the order in which the files are told, before they are sorted.
-/

namespace Dossier

open Entry (SameListing SameShape subdirectories)

variable {entries entries' : List (String × Entry)} {levels : Nat} {here : Location}

theorem map_eq_of_forall₂ {α β γ : Type} {r : α → β → Prop} {f : α → γ} {g : β → γ} {xs : List α}
    {ys : List β} (h : List.Forall₂ r xs ys) (hfg : ∀ x y, r x y → f x = g y) :
    xs.map f = ys.map g := by
  rw [← List.forall₂_eq_eq_eq]
  exact List.rel_map (fun x y ↦ hfg x y) h

theorem filterMap_eq_of_forall₂ {α β γ : Type} {r : α → β → Prop} {f : α → Option γ}
    {g : β → Option γ} {xs : List α} {ys : List β} (h : List.Forall₂ r xs ys)
    (hfg : ∀ x y, r x y → f x = g y) : xs.filterMap f = ys.filterMap g := by
  have hmapped := congrArg (List.filterMap id) (map_eq_of_forall₂ h hfg)
  rwa [List.filterMap_map, List.filterMap_map] at hmapped

theorem flatMap_perm_of_forall₂ {α β γ : Type} {r : α → β → Prop} {f : α → List γ}
    {g : β → List γ} {xs : List α} {ys : List β} (h : List.Forall₂ r xs ys)
    (hfg : ∀ x y, r x y → (f x).Perm (g y)) : (xs.flatMap f).Perm (ys.flatMap g) := by
  induction h with
  | nil => exact .refl _
  | cons hxy _ ih =>
      rw [List.flatMap_cons, List.flatMap_cons]
      exact (hfg _ _ hxy).append ih

/-! ## The inventory -/

namespace Inventory

variable {scope : Scope}

theorem own_perm (h : SameListing entries entries') :
    (own scope here entries).Perm (own scope here entries') := by
  have hnames := Entry.names_kept_perm h.shape h.distinct.names
    (fun name e ↦ e.isData && !scope.hidden name)
    fun name e e' he ↦ by rw [he.sameKind.isData_eq]
  rw [own, own]
  have hpaths := hnames.map fun name ↦ Path.relativeText (here ++ [name])
  rw [List.map_map, List.map_map] at hpaths
  exact hpaths.filter (!isNoise ·)

theorem filesBelow_perm (h : SameListing entries entries') :
    (filesBelow scope levels here entries).Perm (filesBelow scope levels here entries') := by
  induction levels generalizing here entries entries' with
  | zero =>
      rw [filesBelow, filesBelow, List.append_nil, List.append_nil]
      exact own_perm h
  | succ levels ih =>
      rw [filesBelow, filesBelow]
      refine (own_perm h).append (flatMap_perm_of_forall₂ (h.subdirectories scope.hidden) ?_)
      rintro ⟨name, inner⟩ ⟨_, inner'⟩ ⟨rfl, hinner⟩
      dsimp only
      split
      · exact .refl _
      · exact ih hinner

/-- The same is asked about if it is known of each link in both cases whether it leads to a directory. -/
theorem askedIn_perm {leadsIn leadsIn' : Location → Bool} (h : SameListing entries entries')
    (hlinks : ∀ name target, entries.lookup name = some (.link target) →
      leadsIn (here ++ [name]) = leadsIn' (here ++ [name])) (last : Bool) :
    (askedIn scope leadsIn last here entries).Perm (askedIn scope leadsIn' last here entries') := by
  have hinward : ∀ x ∈ entries, (x.2.isDirectory || x.2.isLink && leadsIn (here ++ [x.1])) =
      (x.2.isDirectory || x.2.isLink && leadsIn' (here ++ [x.1])) := by
    rintro ⟨name, e⟩ hmem
    cases e with
    | file | directory | special => rfl
    | link target => rw [hlinks name target (lookup_eq_some_of_mem h.distinct.names hmem)]
  have hkept (keep : Bool → Bool) : (((entries.filter fun x ↦ !scope.hidden x.1).filter
        fun x ↦ keep (x.2.isDirectory || x.2.isLink && leadsIn (here ++ [x.1]))).map
          fun x ↦ here ++ [x.1]).Perm
      (((entries'.filter fun x ↦ !scope.hidden x.1).filter
        fun x ↦ keep (x.2.isDirectory || x.2.isLink && leadsIn' (here ++ [x.1]))).map
          fun x ↦ here ++ [x.1]) := by
    have hnames := Entry.names_kept_perm h.shape h.distinct.names
      (fun name e ↦ keep (e.isDirectory || e.isLink && leadsIn' (here ++ [name])) &&
        !scope.hidden name)
      fun name e e' he ↦ by rw [he.sameKind.isDirectory_eq, he.sameKind.isLink_eq]
    have hplaces := hnames.map fun name ↦ here ++ [name]
    rw [List.map_map, List.map_map] at hplaces
    rw [List.filter_filter, List.filter_filter]
    refine .trans (.of_eq (congrArg _ (List.filter_congr fun x hx ↦ ?_))) hplaces
    rw [hinward x hx]
  rw [askedIn, askedIn, List.map_append, List.map_append]
  refine .append ?_ (hkept (!·))
  cases last with
  | true => exact .refl _
  | false => exact hkept id

theorem askedBelow_perm {leadsIn : Location → Bool} (leadsIn' : Location → Bool)
    (h : SameListing entries entries')
    (hlinks : ∀ place target, (Entry.directory entries).find? place = some (.link target) →
      leadsIn (here ++ place) = leadsIn' (here ++ place)) :
    (askedBelow scope leadsIn levels here entries).Perm
      (askedBelow scope leadsIn' levels here entries') := by
  have hown {here : Location} {entries entries' : List (String × Entry)}
      (h : SameListing entries entries')
      (hlinks : ∀ place target, (Entry.directory entries).find? place = some (.link target) →
        leadsIn (here ++ place) = leadsIn' (here ++ place)) (last : Bool) :
      (askedIn scope leadsIn last here entries).Perm
        (askedIn scope leadsIn' last here entries') :=
    askedIn_perm h (fun name target hlookup ↦
      hlinks [name] target (by simp [Entry.find?_directory_cons, hlookup])) last
  induction levels generalizing here entries entries' with
  | zero =>
      rw [askedBelow, askedBelow, List.append_nil, List.append_nil]
      exact hown h hlinks _
  | succ levels ih =>
      rw [askedBelow, askedBelow]
      refine (hown h hlinks _).append (flatMap_perm_of_forall₂ ((List.forall₂_and_left _ _).mpr
        ⟨fun x hx ↦ hx, h.subdirectories scope.hidden⟩) ?_)
      rintro ⟨name, inner⟩ ⟨_, inner'⟩ ⟨hmem, rfl, hinner⟩
      have hlookup : entries.lookup name = some (.directory inner) :=
        lookup_eq_some_of_mem h.distinct.names (Entry.mem_subdirectories.mp hmem).2
      dsimp only
      split
      · exact .refl _
      · refine ih hinner fun place target hfound ↦ ?_
        rw [List.append_assoc, List.singleton_append]
        exact hlinks (name :: place) target (by
          rw [Entry.find?_directory_cons, hlookup, Option.bind_some, hfound])

theorem deniedBelow_congr (h : SameListing entries entries') :
    deniedBelow scope levels here entries = deniedBelow scope levels here entries' := by
  induction levels generalizing here entries entries' with
  | zero => rfl
  | succ levels ih =>
      rw [deniedBelow, deniedBelow, List.flatMap_def, List.flatMap_def]
      refine congrArg List.flatten (map_eq_of_forall₂ (h.subdirectories scope.hidden) ?_)
      rintro ⟨name, inner⟩ ⟨_, inner'⟩ ⟨rfl, hinner⟩
      dsimp only
      rw [ih hinner]

/-- Links are counted alike if it is known of each in both cases whether it leads to a directory. -/
theorem countP_links {leadsIn leadsIn' : Location → Bool} (h : SameListing entries entries')
    (hlinks : ∀ name target, entries.lookup name = some (.link target) →
      leadsIn (here ++ [name]) = leadsIn' (here ++ [name])) :
    (entries.countP fun (name, e) ↦ e.isLink && !scope.hidden name && !leadsIn (here ++ [name])) =
      entries'.countP fun (name, e) ↦
        e.isLink && !scope.hidden name && !leadsIn' (here ++ [name]) := by
  have hnames := Entry.names_kept_perm h.shape h.distinct.names
    (fun name e ↦ e.isLink && !scope.hidden name && !leadsIn' (here ++ [name]))
    fun name e e' he ↦ by rw [he.sameKind.isLink_eq]
  have hlength := hnames.length_eq
  rw [List.length_map, List.length_map, ← List.countP_eq_length_filter,
    ← List.countP_eq_length_filter] at hlength
  refine Eq.trans (List.countP_congr ?_) hlength
  rintro ⟨name, e⟩ hmem
  cases e with
  | file | directory | special => simp [Entry.isLink]
  | link target =>
      dsimp only
      rw [hlinks name target (lookup_eq_some_of_mem h.distinct.names hmem)]

theorem linksBelow_congr {leadsIn : Location → Bool} (leadsIn' : Location → Bool)
    (h : SameListing entries entries')
    (hlinks : ∀ place target, (Entry.directory entries).find? place = some (.link target) →
      leadsIn (here ++ place) = leadsIn' (here ++ place)) :
    linksBelow scope leadsIn levels here entries =
      linksBelow scope leadsIn' levels here entries' := by
  have hown (name target : String) (hlookup : entries.lookup name = some (.link target)) :
      leadsIn (here ++ [name]) = leadsIn' (here ++ [name]) :=
    hlinks [name] target (by simp [Entry.find?_directory_cons, hlookup])
  induction levels generalizing here entries entries' with
  | zero => rw [linksBelow, linksBelow, countP_links h hown]
  | succ levels ih =>
      rw [linksBelow, linksBelow, countP_links h hown]
      refine congrArg (_ + List.foldr (· + ·) 0 ·) ?_
      refine map_eq_of_forall₂ ((List.forall₂_and_left _ _).mpr
        ⟨fun x hx ↦ hx, h.subdirectories scope.hidden⟩) ?_
      rintro ⟨name, inner⟩ ⟨_, inner'⟩ ⟨hmem, rfl, hinner⟩
      have hlookup : entries.lookup name = some (.directory inner) :=
        lookup_eq_some_of_mem h.distinct.names (Entry.mem_subdirectories.mp hmem).2
      have hbelow (place : Location) (target : String)
          (hfound : (Entry.directory inner).find? place = some (.link target)) :
          leadsIn (here ++ [name] ++ place) = leadsIn' (here ++ [name] ++ place) := by
        rw [List.append_assoc, List.singleton_append]
        exact hlinks (name :: place) target (by
          rw [Entry.find?_directory_cons, hlookup, Option.bind_some, hfound])
      dsimp only
      rw [ih hinner hbelow fun n t hn ↦ hbelow [n] t (by simp [Entry.find?_directory_cons, hn])]

end Inventory

/-! ## The directory tree -/

namespace DirectoryTree

variable {scope : Scope}

theorem leaves_congr (h : SameListing entries entries') :
    leaves scope entries = leaves scope entries' := by
  have hnames := Entry.names_kept_perm h.shape h.distinct.names
    (fun name e ↦ !e.isDirectory && !scope.hidden name && !scope.noise name)
    fun name e e' he ↦ by rw [he.sameKind.isDirectory_eq]
  exact Text.sorted_eq_of_perm hnames

theorem isCollapsed_congr (h : SameListing entries entries') :
    isCollapsed scope here entries = isCollapsed scope here entries' := by
  have hcount : shownCount scope entries = shownCount scope entries' := by
    rw [shownCount, shownCount, (h.subdirectories scope.hidden).length_eq, leaves_congr h]
  rw [isCollapsed, isCollapsed, hcount]

theorem nodes_congr (h : SameListing entries entries') :
    nodes scope levels here entries = nodes scope levels here entries' := by
  induction levels generalizing here entries entries' with
  | zero => rfl
  | succ levels ih =>
      rw [nodes, nodes, leaves_congr h]
      refine congrArg (· ++ _) ?_
      refine filterMap_eq_of_forall₂ (h.subdirectories scope.hidden) ?_
      rintro ⟨name, inner⟩ ⟨_, inner'⟩ ⟨rfl, hinner⟩
      dsimp only at hinner ⊢
      rw [isCollapsed_congr hinner, leaves_congr hinner, ih hinner,
        (hinner.subdirectories scope.hidden).length_eq]

theorem unreadable_congr (h : SameListing entries entries') :
    unreadable scope levels here entries = unreadable scope levels here entries' := by
  induction levels generalizing here entries entries' with
  | zero => rfl
  | succ levels ih =>
      rw [unreadable, unreadable, List.flatMap_def, List.flatMap_def]
      refine congrArg List.flatten (map_eq_of_forall₂ (h.subdirectories scope.hidden) ?_)
      rintro ⟨name, inner⟩ ⟨_, inner'⟩ ⟨rfl, hinner⟩
      dsimp only
      rw [isCollapsed_congr hinner, ih hinner]

end DirectoryTree

end Dossier

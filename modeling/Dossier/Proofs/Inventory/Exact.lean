import Dossier.Proofs.Inventory
import Mathlib.Data.List.Sort

/-!
# Exactly the files of a project

A walk through a project whose root can be listed asks of what it comes to whether it is a link, and it
ends without a result exactly if the system does not say so of one of these places. Otherwise it tells
everything but links and directories that lies in directories it may list, under names it may show and
not too deep, and nothing else. It tells every directory that it comes to and cannot list, in the order
in which it comes to them. So taking the right to list one directory away takes the files below it away
and puts one warning in the place of all that was said about it before.
-/

namespace Dossier

namespace Inventory

open Entry (subdirectories)
open Steps (Fails bind_eq_ok fails_bind fails_forM not_fails_pure pure_eq_ok)
open Walk (Enters met entered)

/-! ## What a walk lists and reports -/

section Walks

variable (scope : Scope)

/-- The files of a walk that lie in one directory. -/
def own (here : Location) (entries : List (String × Entry)) : List String :=
  ((entries.filter fun (name, e) => e.isData && !scope.hidden name).map fun (name, _) =>
    Path.relativeText (here ++ [name])).filter (!isNoise ·)

theorem mem_own {here : Location} {entries : List (String × Entry)} {path : String} :
    path ∈ own scope here entries ↔ ∃ name e, (name, e) ∈ entries ∧ e.isData = true ∧
      scope.hidden name = false ∧ path = Path.relativeText (here ++ [name]) ∧
        isNoise path = false := by
  rw [own, List.mem_filter, List.mem_map]
  constructor
  · rintro ⟨⟨⟨name, e⟩, hmem, rfl⟩, hnoise⟩
    obtain ⟨hmem, hkept⟩ := List.mem_filter.mp hmem
    obtain ⟨hdata, hshown⟩ := Bool.and_eq_true_iff.mp hkept
    exact ⟨name, e, hmem, hdata, by simpa using hshown, rfl, by simpa using hnoise⟩
  · rintro ⟨name, e, hmem, hdata, hshown, rfl, hnoise⟩
    refine ⟨⟨(name, e), List.mem_filter.mpr ⟨hmem, ?_⟩, rfl⟩, by simpa using hnoise⟩
    simp [hdata, hshown]

theorem filesBelow_eq (levels : Nat) (here : Location) (entries : List (String × Entry)) :
    filesBelow scope levels here entries =
      (entered scope.hidden (fun there _ ↦ scope.denied there) levels here entries).flatMap
        fun x ↦ own scope x.1 x.2 := by
  induction levels generalizing here entries with
  | zero => simp [filesBelow, entered, met, own]
  | succ levels ih =>
      rw [filesBelow, Walk.entered_succ, List.flatMap_cons, List.flatMap_assoc, own]
      congr 2
      funext x
      obtain ⟨name, inner⟩ := x
      dsimp only
      split
      · rfl
      · rw [ih]

theorem deniedBelow_eq (levels : Nat) (here : Location) (entries : List (String × Entry)) :
    deniedBelow scope levels here entries =
      ((met scope.hidden (fun there _ ↦ scope.denied there) levels here entries).filter
        fun x ↦ scope.denied x.1).map (·.1) := by
  induction levels generalizing here entries with
  | zero => rfl
  | succ levels ih =>
      rw [deniedBelow, met, List.filter_flatMap, List.map_flatMap]
      congr 1
      funext x
      obtain ⟨name, inner⟩ := x
      cases hdenied : scope.denied (here ++ [name]) <;> simp [hdenied, ih]

variable (leadsIn : Location → Bool)

theorem mem_askedIn {last : Bool} {here place : Location} {entries : List (String × Entry)} :
    place ∈ askedIn scope leadsIn last here entries ↔ ∃ name e, (name, e) ∈ entries ∧
      scope.hidden name = false ∧ place = here ++ [name] ∧
        (last = true → (e.isDirectory || e.isLink && leadsIn (here ++ [name])) = false) := by
  have hmap {kept : List (String × Entry)} :
      place ∈ kept.map (fun (name, _) ↦ here ++ [name]) ↔
        ∃ name e, (name, e) ∈ kept ∧ place = here ++ [name] := by
    simp [eq_comm]
  have hkept {shown : List (String × Entry)} {inward : String × Entry → Bool} {x : String × Entry} :
      x ∈ (if last = true then [] else shown.filter inward) ++ shown.filter (!inward ·) ↔
        x ∈ shown ∧ (last = true → inward x = false) := by
    cases last <;> cases hinward : inward x <;> simp [List.mem_filter, hinward]
  rw [askedIn, hmap]
  refine exists_congr fun name ↦ exists_congr fun e ↦ ?_
  rw [hkept, List.mem_filter, Bool.not_eq_true']
  tauto

theorem askedBelow_eq (levels : Nat) (here : Location) (entries : List (String × Entry)) :
    askedBelow scope leadsIn levels here entries =
      (entered scope.hidden (fun there _ ↦ scope.denied there) levels here entries).flatMap
        fun x ↦ askedIn scope leadsIn (x.1.length == here.length + levels) x.1 x.2 := by
  induction levels generalizing here entries with
  | zero => simp [askedBelow, entered, met]
  | succ levels ih =>
      have hfirst : (here.length == here.length + (levels + 1)) = (levels + 1 == 0) := by simp
      have hlevel (name : String) :
          (here ++ [name]).length + levels = here.length + (levels + 1) := by simp; omega
      rw [askedBelow, Walk.entered_succ, List.flatMap_cons, List.flatMap_assoc, hfirst]
      congr 2
      funext x
      obtain ⟨name, inner⟩ := x
      dsimp only
      split
      · rfl
      · rw [ih, hlevel]

end Walks

/-! ## The two sides of the walk -/

section

variable (fs : FileSystem) (ignored : List String) (root : Path) (entries : List (String × Entry))

/-- Nothing on the way from the root to a place is ignored, and every directory above the place can
be listed. -/
structure Passable (place : Location) : Prop where
  shown : ∀ name ∈ place, Text.isIgnored ignored name = false
  readable : ∀ above, above <+: place → above ≠ [] → above ≠ place →
    root.join ⟨"", above⟩ ∉ fs.denied

/-- Something that is no directory, no link and no generated file and lies where a walk gets to. -/
structure IsListed (place : Location) : Prop where
  data : ∃ e, (Entry.directory entries).find? place = some e ∧ e.isData = true
  depth : place.length ≤ maxDepth + 1
  passable : Passable fs ignored root place
  not_noise : isNoise (Path.relativeText place) = false

/-- A real directory below the root that a walk comes to, whether or not it can be listed. -/
structure IsMet (place : Location) : Prop where
  directory : ∃ inner, (Entry.directory entries).find? place = some (.directory inner)
  below : place ≠ []
  depth : place.length ≤ maxDepth
  passable : Passable fs ignored root place

/-- Something in a directory that a walk enters, of which it is asked whether it is a link. In the last
directories that are entered nothing is asked of directories and of links to them. -/
structure IsAsked (place : Location) : Prop where
  found : ∃ e, (Entry.directory entries).find? place = some e ∧ (place.length = maxDepth + 1 →
    e.isDirectory = false ∧ (e.isLink = true → fs.isDirectory (root.join ⟨"", place⟩) = false))
  below : place ≠ []
  depth : place.length ≤ maxDepth + 1
  passable : Passable fs ignored root place

/-- The files of a project in strictly increasing order, exactly those that a walk gets to, and one
warning for each directory that it cannot list, depth first and in the order of names. -/
structure IsExact (inventory : Inventory) (reported : List Location) : Prop where
  increasing : inventory.files.Pairwise (· < ·)
  mem_files : ∀ path, path ∈ inventory.files ↔
    ∃ place, path = Path.relativeText place ∧ IsListed fs ignored root entries place
  warnings_eq : inventory.warnings = reported.map fun place ↦
    unreadableDirectory (Path.relativeText place) .denied
  depth_first : reported.Pairwise (· < ·)
  mem_reported : ∀ place, place ∈ reported ↔
    IsMet fs ignored root entries place ∧ root.join ⟨"", place⟩ ∈ fs.denied

end

variable {fs : FileSystem} {ignored : List String} {root : Path} {entries : List (String × Entry)}

theorem passable_concat {dir : Location} {name : String} :
    Passable fs ignored root (dir ++ [name]) ↔
      (∀ part ∈ dir, Text.isIgnored ignored part = false) ∧ Text.isIgnored ignored name = false ∧
        ∀ above, above <+: dir → above ≠ [] → root.join ⟨"", above⟩ ∉ fs.denied := by
  constructor
  · rintro ⟨hshown, hreadable⟩
    refine ⟨fun part hpart ↦ hshown part (List.mem_append_left _ hpart), hshown name (by simp), ?_⟩
    intro above habove hne
    refine hreadable above (habove.trans (List.prefix_append ..)) hne ?_
    rintro rfl
    simpa using habove.length_le
  · rintro ⟨hdir, hname, hreadable⟩
    refine ⟨by simpa [or_imp, forall_and] using ⟨hdir, hname⟩, fun above habove hne hproper ↦ ?_⟩
    exact hreadable above ((List.prefix_concat_iff.mp habove).resolve_left hproper) hne

/-- A walk gets into the directories that are not ignored and can be listed with all above them. -/
theorem enters_iff {dir : Location} {held : List (String × Entry)} :
    Enters (Text.isIgnored ignored) (fun there _ ↦ (Scope.below fs ignored root).denied there) []
        entries dir held ↔
      (Entry.directory entries).find? dir = some (.directory held) ∧
        (∀ part ∈ dir, Text.isIgnored ignored part = false) ∧
          ∀ above, above <+: dir → above ≠ [] → root.join ⟨"", above⟩ ∉ fs.denied := by
  constructor
  · rintro ⟨hfound, hshown, hopened⟩
    refine ⟨hfound, hshown, fun above habove hne ↦ ?_⟩
    obtain ⟨inner, hinner⟩ := Entry.exists_directory_of_prefix hfound habove
    simpa [Scope.below] using hopened above habove hne inner hinner
  · rintro ⟨hfound, hshown, hreadable⟩
    refine ⟨hfound, hshown, fun above habove hne inner _ ↦ ?_⟩
    simpa [Scope.below] using hreadable above habove hne

theorem mem_filesBelow_iff (hdistinct : (Entry.directory entries).Named List.Nodup)
    {path : String} :
    path ∈ filesBelow (Scope.below fs ignored root) maxDepth [] entries ↔
      ∃ place, path = Path.relativeText place ∧ IsListed fs ignored root entries place := by
  rw [filesBelow_eq, List.mem_flatMap]
  constructor
  · rintro ⟨⟨dir, held⟩, hentered, hpath⟩
    obtain ⟨dir', hdir, hdepth, henters⟩ := (Walk.mem_entered_iff hdistinct).mp hentered
    obtain rfl : dir = dir' := by simpa using hdir
    obtain ⟨name, e, hmem, hdata, hname, rfl, hnoise⟩ := (mem_own _).mp hpath
    obtain ⟨hfound, hshown, hreadable⟩ := enters_iff.mp henters
    have hheld := (hdistinct.of_find? hfound).names
    refine ⟨dir ++ [name], rfl, ⟨e, ?_, hdata⟩, by simpa using hdepth, ?_, hnoise⟩
    · exact Entry.find?_concat_iff.mpr ⟨held, hfound, lookup_eq_some_of_mem hheld hmem⟩
    · exact passable_concat.mpr ⟨hshown, hname, hreadable⟩
  · rintro ⟨place, rfl, ⟨e, hthere, hdata⟩, hdepth, hpassable, hnoise⟩
    rcases List.eq_nil_or_concat place with rfl | ⟨dir, name, rfl⟩
    · obtain rfl : Entry.directory entries = e := by simpa using hthere
      simp [Entry.isData, Entry.isDirectory] at hdata
    · rw [List.concat_eq_append] at hthere hdepth hpassable hnoise ⊢
      obtain ⟨held, hfound, hlookup⟩ := Entry.find?_concat_iff.mp hthere
      obtain ⟨hshown, hname, hreadable⟩ := passable_concat.mp hpassable
      refine ⟨(dir, held), (Walk.mem_entered_iff hdistinct).mpr ⟨dir, rfl, ?_, ?_⟩, ?_⟩
      · simpa using hdepth
      · exact enters_iff.mpr ⟨hfound, hshown, hreadable⟩
      · exact (mem_own _).mpr
          ⟨name, e, mem_of_lookup_eq_some hlookup, hdata, hname, rfl, hnoise⟩

theorem mem_deniedBelow_iff (hdistinct : (Entry.directory entries).Named List.Nodup)
    {place : Location} :
    place ∈ deniedBelow (Scope.below fs ignored root) maxDepth [] entries ↔
      IsMet fs ignored root entries place ∧ root.join ⟨"", place⟩ ∈ fs.denied := by
  rw [deniedBelow_eq, List.mem_map]
  constructor
  · rintro ⟨⟨there, inner⟩, hmem, rfl⟩
    obtain ⟨hmet, hdenied⟩ := List.mem_filter.mp hmem
    obtain ⟨dir, name, held, rfl, hdepth, henters, hname, hlookup⟩ :=
      (Walk.mem_met_iff hdistinct).mp hmet
    obtain ⟨hfound, hshown, hreadable⟩ := enters_iff.mp henters
    rw [List.nil_append] at hdenied ⊢
    refine ⟨⟨⟨inner, ?_⟩, by simp, by simpa [Nat.succ_le_iff] using hdepth, ?_⟩, ?_⟩
    · exact Entry.find?_concat_iff.mpr ⟨held, hfound, hlookup⟩
    · exact passable_concat.mpr ⟨hshown, hname, hreadable⟩
    · simpa [Scope.below] using hdenied
  · rintro ⟨⟨⟨inner, hfound⟩, hne, hdepth, hpassable⟩, hdenied⟩
    rcases List.eq_nil_or_concat place with rfl | ⟨dir, name, rfl⟩
    · exact absurd rfl hne
    · rw [List.concat_eq_append] at hfound hdepth hpassable hdenied ⊢
      obtain ⟨held, hheld, hlookup⟩ := Entry.find?_concat_iff.mp hfound
      obtain ⟨hshown, hname, hreadable⟩ := passable_concat.mp hpassable
      refine ⟨(dir ++ [name], inner), List.mem_filter.mpr ⟨?_, by simpa [Scope.below] using hdenied⟩,
        rfl⟩
      refine (Walk.mem_met_iff hdistinct).mpr ⟨dir, name, held, by simp, ?_, ?_, hname, hlookup⟩
      · simpa [Nat.succ_le_iff] using hdepth
      · exact enters_iff.mpr ⟨hheld, hshown, hreadable⟩

theorem mem_askedBelow_iff (hdistinct : (Entry.directory entries).Named List.Nodup)
    {place : Location} :
    place ∈ askedBelow (Scope.below fs ignored root) (fun here ↦ fs.isDirectory (root.join ⟨"", here⟩))
        maxDepth [] entries ↔ IsAsked fs ignored root entries place := by
  rw [askedBelow_eq, List.mem_flatMap]
  constructor
  · rintro ⟨⟨dir, held⟩, hentered, hasked⟩
    obtain ⟨dir', hdir, hdepth, henters⟩ := (Walk.mem_entered_iff hdistinct).mp hentered
    obtain rfl : dir = dir' := by simpa using hdir
    obtain ⟨name, e, hmem, hname, rfl, hlast⟩ := (mem_askedIn _ _).mp hasked
    obtain ⟨hfound, hshown, hreadable⟩ := enters_iff.mp henters
    have hheld := (hdistinct.of_find? hfound).names
    refine ⟨⟨e, ?_, fun hdeepest ↦ ?_⟩, by simp, by simpa using hdepth, ?_⟩
    · exact Entry.find?_concat_iff.mpr ⟨held, hfound, lookup_eq_some_of_mem hheld hmem⟩
    · simpa using hlast (by simpa using hdeepest)
    · exact passable_concat.mpr ⟨hshown, hname, hreadable⟩
  · rintro ⟨⟨e, hthere, hlast⟩, hne, hdepth, hpassable⟩
    rcases List.eq_nil_or_concat place with rfl | ⟨dir, name, rfl⟩
    · exact absurd rfl hne
    · rw [List.concat_eq_append] at hthere hlast hdepth hpassable ⊢
      obtain ⟨held, hfound, hlookup⟩ := Entry.find?_concat_iff.mp hthere
      obtain ⟨hshown, hname, hreadable⟩ := passable_concat.mp hpassable
      refine ⟨(dir, held), (Walk.mem_entered_iff hdistinct).mpr ⟨dir, rfl, ?_, ?_⟩, ?_⟩
      · simpa using hdepth
      · exact enters_iff.mpr ⟨hfound, hshown, hreadable⟩
      · refine (mem_askedIn _ _).mpr
          ⟨name, e, mem_of_lookup_eq_some hlookup, hname, rfl, fun hdeepest ↦ ?_⟩
        simpa using hlast (by simpa using hdeepest)

/-- A walk through a listable root ends without a result exactly if it is not said of one of the places
that it asks about whether there is a link. -/
theorem fails_take_iff (ignored : List String) (hdistinct : fs.Distinct) (hroot : fs.IsListable root)
    (hscan : fs.scan root = .ok entries) : Fails (take fs ignored root) ↔
      ∃ place, IsAsked fs ignored root entries place ∧ fs.IsSilent (root.join ⟨"", place⟩) := by
  rw [take, FileSystem.ensureReadable_eq_ok.mpr hroot, hscan]
  simp only [fails_bind, Steps.not_fails_ok, false_or, exists_const, Except.toOption,
    Option.getD_some, not_fails_pure, and_false, or_false, fails_forM, FileSystem.fails_askLink,
    mem_askedBelow_iff (FileSystem.named_of_scan hdistinct hscan), true_and]

/-- What a walk that comes to its end answers with. -/
theorem take_isExact (hdistinct : fs.Distinct) {inventory : Inventory}
    (htake : take fs ignored root = .ok inventory) : ∃ entries reported,
      fs.scan root = .ok entries ∧ IsExact fs ignored root entries inventory reported := by
  obtain ⟨⟨⟩, hreadable, hwalk⟩ := bind_eq_ok.mp htake
  obtain ⟨entries, hscan⟩ := (FileSystem.ensureReadable_eq_ok.mp hreadable).2
  have hentries : (Entry.directory entries).Named List.Nodup :=
    FileSystem.named_of_scan hdistinct hscan
  have hmet : (met (Text.isIgnored ignored) (fun there _ ↦ (Scope.below fs ignored root).denied there)
      maxDepth [] entries).Pairwise fun a b ↦ a.1 < b.1 :=
    Walk.pairwise_lt_met hentries
  obtain ⟨-, -, hwalk⟩ := bind_eq_ok.mp hwalk
  obtain rfl := pure_eq_ok.mp hwalk
  rw [hscan]
  refine ⟨entries, _, rfl, Text.pairwise_lt_sorted (nodup_eraseDups _), fun path ↦ ?_, rfl, ?_,
    fun place ↦ ?_⟩
  · rw [Text.mem_sorted, List.mem_eraseDups]
    exact mem_filesBelow_iff hentries
  · rw [deniedBelow_eq]
    exact List.pairwise_map.mpr (hmet.sublist List.filter_sublist)
  · exact mem_deniedBelow_iff hentries

/-- The files of an inventory are those that a walk gets to. -/
theorem isListed_of_mem_files (hdistinct : fs.Distinct) {inventory : Inventory}
    (h : take fs ignored root = .ok inventory) {path : String} (hpath : path ∈ inventory.files) :
    ∃ entries place, fs.scan root = .ok entries ∧ path = Path.relativeText place ∧
      IsListed fs ignored root entries place := by
  obtain ⟨entries, reported, hscan, hexact⟩ := take_isExact hdistinct h
  obtain ⟨place, hplace, hlisted⟩ := (hexact.mem_files path).mp hpath
  exact ⟨entries, place, hscan, hplace, hlisted⟩

end Inventory

end Dossier

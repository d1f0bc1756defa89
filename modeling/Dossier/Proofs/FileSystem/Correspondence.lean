import Dossier.Proofs.FileSystem.Walk

/-!
# Trees of one shape

Two trees correspond if they hold things of one kind at every place: files, links with one target, or
directories with the same names. The order in which a directory lists its names does not count, and
about the bytes of files as much is asked as is needed at their places. What is read off the sorted
entries of a directory is the same for both trees.
-/

namespace Dossier

/-- Proper names, none of them twice. -/
structure ProperNames (names : List String) : Prop where
  nodup : names.Nodup
  proper : ∀ name ∈ names, ProperName name

/-- A file system that gives proper names to what its directories hold, and no name twice in one of
them. -/
structure FileSystem.IsSound (fs : FileSystem) : Prop where
  wellFormed : fs.WellFormed
  distinct : fs.Distinct

namespace Entry

theorem named_properNames_iff {e : Entry} :
    e.Named ProperNames ↔ e.WellFormed ∧ e.Named List.Nodup := by
  constructor
  · intro h
    induction h with
    | file bytes => exact ⟨.file bytes, .file bytes⟩
    | link target => exact ⟨.link target, .link target⟩
    | special reading => exact ⟨.special reading, .special reading⟩
    | directory names _ ih =>
        refine ⟨.directory (by simpa using names.proper) fun x hx ↦ (ih x hx).1, ?_⟩
        exact .directory names.nodup fun x hx ↦ (ih x hx).2
  · rintro ⟨hproper, hnodup⟩
    induction hnodup with
    | file bytes => exact .file bytes
    | link target => exact .link target
    | special reading => exact .special reading
    | directory names _ ih =>
        refine .directory ⟨names, by simpa using hproper.names⟩ fun x hx ↦ ?_
        exact ih x hx (hproper.inner x hx)

variable {asked : Location → ByteArray → ByteArray → Prop} {e e' : Entry} {place : Location}
  {entries entries' : List (String × Entry)} {name : String}

/-- Two files with bytes as asked, two links with one target, two directories with the same names, or two
others that are read alike. -/
inductive SameKind (asked : ByteArray → ByteArray → Prop) : Entry → Entry → Prop where
  | file {bytes bytes' : ByteArray} (h : asked bytes bytes') :
      SameKind asked (.file bytes) (.file bytes')
  | link (target : String) : SameKind asked (.link target) (.link target)
  | special (reading : Option (Except FileError ByteArray)) :
      SameKind asked (.special reading) (.special reading)
  | directory {entries entries' : List (String × Entry)}
      (names : (entries.map (·.1)).Perm (entries'.map (·.1))) :
      SameKind asked (.directory entries) (.directory entries')

/-- Two trees hold things of one kind at every place, with bytes as asked for the place. -/
def Corresponds (asked : Location → ByteArray → ByteArray → Prop) (e e' : Entry) : Prop :=
  ∀ place, Option.Rel (SameKind (asked place)) (e.find? place) (e'.find? place)

/-- Two trees hold things of one kind at every place, whatever is in their files. -/
abbrev SameShape : Entry → Entry → Prop :=
  Corresponds fun _ _ _ ↦ True

namespace SameKind

variable {wanted wanted' : ByteArray → ByteArray → Prop}

theorem refl (hrefl : ∀ b, wanted b b) (e : Entry) : SameKind wanted e e := by
  cases e with
  | file bytes => exact .file (hrefl bytes)
  | link target => exact .link target
  | special reading => exact .special reading
  | directory entries => exact .directory (.refl _)

theorem mono (h : SameKind wanted e e') (himp : ∀ b b', wanted b b' → wanted' b b') :
    SameKind wanted' e e' := by
  cases h with
  | file h => exact .file (himp _ _ h)
  | link target => exact .link target
  | special reading => exact .special reading
  | directory names => exact .directory names

theorem symm (h : SameKind wanted e e') (himp : ∀ b b', wanted b b' → wanted' b' b) :
    SameKind wanted' e' e := by
  cases h with
  | file h => exact .file (himp _ _ h)
  | link target => exact .link target
  | special reading => exact .special reading
  | directory names => exact .directory names.symm

theorem isFile_eq (h : SameKind wanted e e') : e.isFile = e'.isFile := by
  cases h <;> rfl

theorem isLink_eq (h : SameKind wanted e e') : e.isLink = e'.isLink := by
  cases h <;> rfl

theorem isDirectory_eq (h : SameKind wanted e e') : e.isDirectory = e'.isDirectory := by
  cases h <;> rfl

theorem isData_eq (h : SameKind wanted e e') : e.isData = e'.isData := by
  cases h <;> rfl

end SameKind

namespace Corresponds

theorem sameKind (h : Corresponds asked e e') : SameKind (asked []) e e' := by
  have hroot := h []
  rw [find?_nil, find?_nil] at hroot
  cases hroot with
  | some h => exact h

theorem refl (hrefl : ∀ place b, asked place b b) (e : Entry) : Corresponds asked e e := by
  intro place
  cases e.find? place with
  | none => exact .none
  | some found => exact .some (.refl (hrefl place) found)

theorem mono {asked' : Location → ByteArray → ByteArray → Prop} (h : Corresponds asked e e')
    (himp : ∀ place b b', asked place b b' → asked' place b b') : Corresponds asked' e e' := by
  intro place
  have hplace := h place
  revert hplace
  generalize e.find? place = found, e'.find? place = found'
  rintro (hkind | _)
  · exact .some (hkind.mono (himp place))
  · exact .none

theorem sameShape (h : Corresponds asked e e') : SameShape e e' :=
  h.mono fun _ _ _ _ ↦ trivial

theorem symm {asked' : Location → ByteArray → ByteArray → Prop} (h : Corresponds asked e e')
    (himp : ∀ place b b', asked place b b' → asked' place b' b) : Corresponds asked' e' e := by
  intro place
  have hplace := h place
  revert hplace
  generalize e.find? place = found, e'.find? place = found'
  rintro (hkind | _)
  · exact .some (hkind.symm (himp place))
  · exact .none

/-- What is found at one place corresponds again. -/
theorem find? (h : Corresponds asked e e') (place : Location) :
    Option.Rel (Corresponds fun rest ↦ asked (place ++ rest)) (e.find? place) (e'.find? place) := by
  have hbelow (rest : Location) : Option.Rel (SameKind (asked (place ++ rest)))
      ((e.find? place).bind (·.find? rest)) ((e'.find? place).bind (·.find? rest)) := by
    rw [← find?_append, ← find?_append]
    exact h (place ++ rest)
  have hplace := h place
  revert hplace hbelow
  generalize e.find? place = found, e'.find? place = found'
  rintro hbelow (hkind | _)
  · exact .some hbelow
  · exact .none

theorem lookup (h : Corresponds asked (.directory entries) (.directory entries')) (name : String) :
    Option.Rel (Corresponds fun rest ↦ asked (name :: rest)) (entries.lookup name)
      (entries'.lookup name) := by
  have hname := h.find? [name]
  simpa only [find?_directory_cons, find?_nil, Option.bind_fun_some, List.singleton_append]
    using hname

theorem names (h : Corresponds asked (.directory entries) (.directory entries')) :
    (entries.map (·.1)).Perm (entries'.map (·.1)) := by
  cases h.sameKind with
  | directory names => exact names

theorem exists_mem (h : Corresponds asked (.directory entries) (.directory entries'))
    (hnodup : (entries.map (·.1)).Nodup) (hmem : (name, e) ∈ entries) :
    ∃ e', (name, e') ∈ entries' ∧ Corresponds (fun rest ↦ asked (name :: rest)) e e' := by
  have hname := h.lookup name
  rw [lookup_eq_some_of_mem hnodup hmem] at hname
  revert hname
  generalize hlookup : entries'.lookup name = there
  rintro (he | _)
  exact ⟨_, mem_of_lookup_eq_some hlookup, he⟩

theorem directory (names : (entries.map (·.1)).Perm (entries'.map (·.1)))
    (inner : ∀ name, Option.Rel (Corresponds fun rest ↦ asked (name :: rest)) (entries.lookup name)
      (entries'.lookup name)) : Corresponds asked (.directory entries) (.directory entries') := by
  rintro (_ | ⟨name, rest⟩)
  · rw [find?_nil, find?_nil]
    exact .some (.directory names)
  · rw [find?_directory_cons, find?_directory_cons]
    have hname := inner name
    revert hname
    generalize entries.lookup name = found, entries'.lookup name = found'
    rintro (he | _)
    · exact he rest
    · exact .none

theorem single (h : Corresponds (fun rest ↦ asked (name :: rest)) e e') :
    Corresponds asked (.directory [(name, e)]) (.directory [(name, e')]) := by
  refine directory (.refl _) fun other ↦ ?_
  rw [List.lookup_cons, List.lookup_cons]
  cases hsame : other == name with
  | true =>
      obtain rfl := beq_iff_eq.mp hsame
      exact .some h
  | false => exact .none

/-- A directory corresponds to the one that lists the same in another order. -/
theorem of_perm (hrefl : ∀ place b, asked place b b) (hnodup : (entries.map (·.1)).Nodup)
    (hperm : entries.Perm entries') :
    Corresponds asked (.directory entries) (.directory entries') := by
  refine directory (hperm.map _) fun name ↦ ?_
  rw [← lookup_eq_of_perm hnodup hperm]
  cases entries.lookup name with
  | none => exact .none
  | some e => exact .some (refl (fun place ↦ hrefl (name :: place)) e)

/-- A directory of the one tree stands where the other one has a directory. -/
theorem exists_directory (h : Corresponds asked (.directory entries) e') :
    ∃ entries', e' = .directory entries' := by
  cases h.sameKind with
  | directory names => exact ⟨_, rfl⟩

end Corresponds

/-! ## Entries of corresponding directories -/

/-- Entries in the strict order of their names are related one by one if those under one name are. -/
theorem forall₂_of_pairwise_lt {α β : Type} {r : α → β → Prop} {xs : List (String × α)}
    {ys : List (String × β)} (hxs : xs.Pairwise fun a b ↦ a.1 < b.1)
    (hys : ys.Pairwise fun a b ↦ a.1 < b.1) (hmem : ∀ x ∈ xs, ∃ b, (x.1, b) ∈ ys ∧ r x.2 b)
    (hback : ∀ y ∈ ys, ∃ a, (y.1, a) ∈ xs) :
    List.Forall₂ (fun x y ↦ x.1 = y.1 ∧ r x.2 y.2) xs ys := by
  have hnodup := List.pairwise_map.mpr (hxs.imp ne_of_lt)
  have hnodup' := List.pairwise_map.mpr (hys.imp ne_of_lt)
  have hnames : xs.map (·.1) = ys.map (·.1) := by
    have hperm : (xs.map (·.1)).Perm (ys.map (·.1)) := by
      refine (List.perm_ext_iff_of_nodup hnodup hnodup').mpr fun name ↦ ⟨?_, ?_⟩
      · intro hname
        obtain ⟨x, hx, rfl⟩ := List.mem_map.mp hname
        obtain ⟨b, hb, -⟩ := hmem x hx
        exact List.mem_map.mpr ⟨_, hb, rfl⟩
      · intro hname
        obtain ⟨y, hy, rfl⟩ := List.mem_map.mp hname
        obtain ⟨a, ha⟩ := hback y hy
        exact List.mem_map.mpr ⟨_, ha, rfl⟩
    have hsorted : (xs.map (·.1)).Pairwise (· < ·) := List.pairwise_map.mpr hxs
    have hsorted' : (ys.map (·.1)).Pairwise (· < ·) := List.pairwise_map.mpr hys
    refine hperm.eq_of_pairwise ?_ hsorted hsorted'
    intro a b _ _ hab hba
    exact absurd hab (lt_asymm hba)
  have hsame : List.Forall₂ (fun x y ↦ x.1 = y.1) xs ys := by
    have hequal : List.Forall₂ (· = ·) (xs.map (·.1)) (ys.map (·.1)) := by
      rw [hnames, List.forall₂_eq_eq_eq]
    exact List.forall₂_map_left_iff.mp (List.forall₂_map_right_iff.mp hequal)
  obtain ⟨hlength, hzip⟩ := List.forall₂_iff_zip.mp hsame
  refine List.forall₂_iff_zip.mpr ⟨hlength, ?_⟩
  rintro ⟨name, a⟩ ⟨name', b⟩ hpair
  obtain rfl : name = name' := hzip hpair
  obtain ⟨hx, hy⟩ := List.of_mem_zip hpair
  obtain ⟨c, hc, hr⟩ := hmem _ hx
  obtain rfl : c = b := by
    have hlookup := lookup_eq_some_of_mem hnodup' hc
    rw [lookup_eq_some_of_mem hnodup' hy] at hlookup
    exact (Option.some_inj.mp hlookup).symm
  exact ⟨rfl, hr⟩

section Listed

variable (h : SameShape (.directory entries) (.directory entries'))
  (hnodup : (entries.map (·.1)).Nodup)
include h hnodup

theorem mem_names_kept {keep : String → Entry → Bool}
    (hkeep : ∀ name e e', SameShape e e' → keep name e = keep name e')
    (hname : name ∈ (entries.filter fun x ↦ keep x.1 x.2).map (·.1)) :
    name ∈ (entries'.filter fun x ↦ keep x.1 x.2).map (·.1) := by
  obtain ⟨⟨name, e⟩, hmem, rfl⟩ := List.mem_map.mp hname
  obtain ⟨hmem, hkept⟩ := List.mem_filter.mp hmem
  obtain ⟨e', hmem', hshape⟩ := h.exists_mem hnodup hmem
  exact List.mem_map.mpr ⟨_, List.mem_filter.mpr ⟨hmem', hkeep name e e' hshape ▸ hkept⟩, rfl⟩

/-- What is kept of the names does not depend on their order, nor on the bytes of files. -/
theorem names_kept_perm (keep : String → Entry → Bool)
    (hkeep : ∀ name e e', SameShape e e' → keep name e = keep name e') :
    ((entries.filter fun x ↦ keep x.1 x.2).map (·.1)).Perm
      ((entries'.filter fun x ↦ keep x.1 x.2).map (·.1)) := by
  have hnodup' : (entries'.map (·.1)).Nodup := h.names.nodup_iff.mp hnodup
  refine (List.perm_ext_iff_of_nodup (hnodup.sublist (List.filter_sublist.map _))
    (hnodup'.sublist (List.filter_sublist.map _))).mpr fun name ↦ ⟨?_, ?_⟩
  · exact mem_names_kept h hnodup hkeep
  · exact mem_names_kept (h.symm fun _ _ _ h ↦ h) hnodup' hkeep

theorem exists_mem_subdirectories {hidden : String → Bool} {inner : List (String × Entry)}
    (hmem : (name, inner) ∈ subdirectories hidden entries) :
    ∃ inner', (name, inner') ∈ subdirectories hidden entries' ∧
      SameShape (.directory inner) (.directory inner') := by
  obtain ⟨hshown, hmem⟩ := mem_subdirectories.mp hmem
  obtain ⟨e', hmem', hshape⟩ := h.exists_mem hnodup hmem
  obtain ⟨inner', rfl⟩ := hshape.exists_directory
  exact ⟨inner', mem_subdirectories.mpr ⟨hshown, hmem'⟩, hshape⟩

end Listed

/-- The entries of two directories that correspond, with no name twice at any depth. -/
structure SameListing (entries entries' : List (String × Entry)) : Prop where
  shape : SameShape (.directory entries) (.directory entries')
  distinct : (Entry.directory entries).Named List.Nodup

/-- What is below two such directories corresponds, directory by directory. -/
theorem SameListing.subdirectories (h : SameListing entries entries') (hidden : String → Bool) :
    List.Forall₂ (fun x y ↦ x.1 = y.1 ∧ SameListing x.2 y.2) (subdirectories hidden entries)
      (subdirectories hidden entries') := by
  have hnodup := h.distinct.names
  have hnodup' : (entries'.map (·.1)).Nodup := h.shape.names.nodup_iff.mp hnodup
  refine forall₂_of_pairwise_lt (pairwise_lt_subdirectories hnodup hidden)
    (pairwise_lt_subdirectories hnodup' hidden) ?_ ?_
  · rintro ⟨name, inner⟩ hmem
    obtain ⟨inner', hmem', hshape⟩ := exists_mem_subdirectories h.shape hnodup hmem
    exact ⟨inner', hmem', hshape, h.distinct.inner _ (mem_subdirectories.mp hmem).2⟩
  · rintro ⟨name, inner⟩ hmem
    obtain ⟨inner', hmem', -⟩ :=
      exists_mem_subdirectories (h.shape.symm fun _ _ _ h ↦ h) hnodup' hmem
    exact ⟨inner', hmem'⟩

end Entry

end Dossier

import Dossier.Proofs.FileSystem.Straight
import Dossier.Proofs.Inventory.Exact

/-!
# Directories that may not be listed any more

Taking the right to list one directory away changes nothing for look-ups. A walk loses the files below
that directory, and it says one thing about the directory in the place of all that it said about
the directory and what is below it. What a walk tells need not be a regular file: a pipe is told too.
-/

namespace Dossier

namespace FileSystem

/-- The same file system where one more path refuses to be listed. -/
def deny (fs : FileSystem) (p : Path) : FileSystem :=
  { fs with denied := p :: fs.denied }

theorem walk_deny (fs : FileSystem) (p : Path) (ending : Ending) (links : Nat) (here : Location)
    (rest : List String) :
    (fs.deny p).walk ending links here rest = fs.walk ending links here rest := by
  -- A look-up reads what directories hold, and never asks whether they may be listed.
  have hat (here : Location) : (fs.deny p).at? here = fs.at? here := rfl
  induction links, here, rest using walk.induct fs ending with
  | case1 => rw [walk, walk]
  | case9 _ _ _ _ _ _ _ _ _ _ _ _ start ih =>
      rw [walk, walk]
      simpa [*, start] using ih
  | _ =>
      rw [walk, walk]
      simp [*]

theorem stat_deny (fs : FileSystem) (p q : Path) : (fs.deny p).stat q = fs.stat q := by
  simp only [stat, locate, locateAs, walk_deny]
  rfl

theorem probe_deny (fs : FileSystem) (p q : Path) : (fs.deny p).probe q = fs.probe q := by
  simp only [probe, seek, stat_deny]
  rfl

theorem isDirectory_deny (fs : FileSystem) (p q : Path) :
    (fs.deny p).isDirectory q = fs.isDirectory q := by
  simp only [isDirectory, look, stat_deny]
  rfl

theorem mem_denied_deny {fs : FileSystem} {p q : Path} :
    q ∈ (fs.deny p).denied ↔ q = p ∨ q ∈ fs.denied :=
  List.mem_cons

theorem scan_deny_of_ne {fs : FileSystem} {p q : Path} (h : q ≠ p) :
    (fs.deny p).scan q = fs.scan q := by
  have hdenied : (fs.deny p).denied.contains q = fs.denied.contains q := by
    rw [deny, List.contains_cons, beq_eq_false_iff_ne.mpr h, Bool.false_or]
  rw [scan, scan, hdenied, entriesOf, entriesOf, stat_deny]

theorem Distinct.deny {fs : FileSystem} (h : fs.Distinct) (p : Path) : (fs.deny p).Distinct :=
  h

theorem IsListable.deny {fs : FileSystem} {root : Path} (h : fs.IsListable root) {p : Path}
    (hne : root ≠ p) : (fs.deny p).IsListable root := by
  rwa [IsListable, probe_deny, scan_deny_of_ne hne]

end FileSystem

theorem Path.join_relative_inj {root : Path} {a b : Location} :
    root.join ⟨"", a⟩ = root.join ⟨"", b⟩ ↔ a = b := by
  simp

namespace Inventory

open Steps (Fails)

variable {fs : FileSystem} {ignored : List String} {root : Path} {entries : List (String × Entry)}
  {inventory less : Inventory} {reported : List Location} {dir place : Location}

/-- What a walk loses with the right to list `dir`: the files below it, and all that was said about it
and what is below it, for which one warning stands in. -/
structure Loses (dir : Location) (reported : List Location) (inventory less : Inventory) :
    Prop where
  files_eq : less.files =
    inventory.files.filter fun path ↦ !dir.isPrefixOf (Path.ofText path).parts
  warnings_eq : ∃ before inside after, reported = before ++ inside ++ after ∧
    (∀ there ∈ inside, dir <+: there) ∧ (∀ there ∈ before ++ after, ¬ dir <+: there) ∧
      less.warnings = (before ++ dir :: after).map fun there ↦
        unreadableDirectory (Path.relativeText there) .denied

theorem passable_deny (hdir : dir ≠ []) :
    Passable (fs.deny (root.join ⟨"", dir⟩)) ignored root place ↔
      Passable fs ignored root place ∧ (dir <+: place → dir = place) := by
  constructor
  · rintro ⟨hshown, hreadable⟩
    refine ⟨⟨hshown, fun above habove hne hproper hmem ↦ ?_⟩, fun hbegins ↦ ?_⟩
    · exact hreadable above habove hne hproper (FileSystem.mem_denied_deny.mpr (.inr hmem))
    · by_contra hne
      exact hreadable dir hbegins hdir hne (FileSystem.mem_denied_deny.mpr (.inl rfl))
  · rintro ⟨⟨hshown, hreadable⟩, honly⟩
    refine ⟨hshown, fun above habove hne hproper hmem ↦ ?_⟩
    rcases FileSystem.mem_denied_deny.mp hmem with heq | hmem
    · obtain rfl := Path.join_relative_inj.mp heq
      exact hproper (honly habove)
    · exact hreadable above habove hne hproper hmem

theorem isListed_deny (hmet : IsMet fs ignored root entries dir) :
    IsListed (fs.deny (root.join ⟨"", dir⟩)) ignored root entries place ↔
      IsListed fs ignored root entries place ∧ ¬ dir <+: place := by
  have hne : (∃ e, (Entry.directory entries).find? place = some e ∧ e.isData = true) →
      dir ≠ place := by
    rintro ⟨e, hthere, hdata⟩ rfl
    obtain ⟨inner, hinner⟩ := hmet.directory
    obtain rfl := Option.some_inj.mp (hinner.symm.trans hthere)
    simp [Entry.isData, Entry.isDirectory] at hdata
  constructor
  · rintro ⟨hdata, hdepth, hpassable, hnoise⟩
    obtain ⟨hpassable, honly⟩ := (passable_deny hmet.below).mp hpassable
    exact ⟨⟨hdata, hdepth, hpassable, hnoise⟩, fun h ↦ hne hdata (honly h)⟩
  · rintro ⟨⟨hdata, hdepth, hpassable, hnoise⟩, hnot⟩
    exact ⟨hdata, hdepth, (passable_deny hmet.below).mpr ⟨hpassable, fun h ↦ absurd h hnot⟩, hnoise⟩

/-- Nothing more is asked if one more directory refuses to be listed. -/
theorem IsAsked.of_deny (hmet : IsMet fs ignored root entries dir)
    (h : IsAsked (fs.deny (root.join ⟨"", dir⟩)) ignored root entries place) :
    IsAsked fs ignored root entries place := by
  obtain ⟨⟨e, hthere, hlast⟩, hbelow, hdepth, hpassable⟩ := h
  refine ⟨⟨e, hthere, ?_⟩, hbelow, hdepth, ((passable_deny hmet.below).mp hpassable).1⟩
  simpa only [FileSystem.isDirectory_deny] using hlast

theorem isReported_deny (hmet : IsMet fs ignored root entries dir) :
    (IsMet (fs.deny (root.join ⟨"", dir⟩)) ignored root entries place ∧
        root.join ⟨"", place⟩ ∈ (fs.deny (root.join ⟨"", dir⟩)).denied) ↔
      place = dir ∨
        (IsMet fs ignored root entries place ∧ root.join ⟨"", place⟩ ∈ fs.denied) ∧
          ¬ dir <+: place := by
  rw [FileSystem.mem_denied_deny, Path.join_relative_inj]
  constructor
  · rintro ⟨⟨hdirectory, hbelow, hdepth, hpassable⟩, hdenied⟩
    obtain ⟨hpassable, honly⟩ := (passable_deny hmet.below).mp hpassable
    by_cases heq : place = dir
    · exact .inl heq
    · exact .inr ⟨⟨⟨hdirectory, hbelow, hdepth, hpassable⟩, hdenied.resolve_left heq⟩,
        fun h ↦ heq (honly h).symm⟩
  · rintro (rfl | ⟨⟨⟨hdirectory, hbelow, hdepth, hpassable⟩, hdenied⟩, hnot⟩)
    · obtain ⟨hdirectory, hbelow, hdepth, hpassable⟩ := hmet
      exact ⟨⟨hdirectory, hbelow, hdepth, (passable_deny hbelow).mpr ⟨hpassable, fun _ ↦ rfl⟩⟩,
        .inl rfl⟩
    · exact ⟨⟨hdirectory, hbelow, hdepth,
        (passable_deny hmet.below).mpr ⟨hpassable, fun h ↦ absurd h hnot⟩⟩, .inr hdenied⟩

/-- The place of a listed file is read back from its text. -/
theorem IsListed.parts_ofText (h : IsListed fs ignored root entries place)
    (hentries : (Entry.directory entries).WellFormed) :
    (Path.ofText (Path.relativeText place)).parts = place := by
  obtain ⟨e, hthere, -⟩ := h.data
  rw [Path.ofText_relativeText (hentries.plainName_of_find? hthere)]

theorem IsExact.loses (hentries : (Entry.directory entries).WellFormed)
    (h : IsExact fs ignored root entries inventory reported)
    (hmet : IsMet fs ignored root entries dir) {reported' : List Location}
    (h' : IsExact (fs.deny (root.join ⟨"", dir⟩)) ignored root entries less reported') :
    Loses dir reported inventory less := by
  constructor
  · refine h'.increasing.eq_of_mem_iff (h.increasing.sublist List.filter_sublist) fun path ↦ ?_
    rw [h'.mem_files, List.mem_filter, h.mem_files]
    constructor
    · rintro ⟨place, rfl, hlisted⟩
      obtain ⟨hlisted, hnot⟩ := (isListed_deny hmet).mp hlisted
      refine ⟨⟨place, rfl, hlisted⟩, ?_⟩
      rw [hlisted.parts_ofText hentries, Bool.not_eq_true', ← Bool.not_eq_true]
      exact fun h ↦ hnot (List.isPrefixOf_iff_prefix.mp h)
    · rintro ⟨⟨place, rfl, hlisted⟩, hkept⟩
      rw [hlisted.parts_ofText hentries, Bool.not_eq_true', ← Bool.not_eq_true,
        List.isPrefixOf_iff_prefix] at hkept
      exact ⟨place, rfl, (isListed_deny hmet).mpr ⟨hlisted, hkept⟩⟩
  · -- Depth first, what was said about `dir` and what is below it stands together.
    obtain ⟨before, inside, after, rfl, hsorted, hinside, houtside⟩ :=
      Location.exists_block h.depth_first dir
    refine ⟨before, inside, after, rfl, hinside, houtside, ?_⟩
    rw [h'.warnings_eq]
    refine congrArg _ (h'.depth_first.eq_of_mem_iff hsorted fun there ↦ ?_)
    rw [h'.mem_reported, isReported_deny hmet, ← h.mem_reported]
    constructor
    · rintro (rfl | ⟨hmem, hnot⟩)
      · simp
      · have hoff : there ∉ inside := fun h ↦ hnot (hinside there h)
        simp only [List.mem_append, hoff, or_false] at hmem
        exact List.mem_append.mpr (hmem.imp_right (List.mem_cons_of_mem dir))
    · intro hmem
      by_cases heq : there = dir
      · exact .inl heq
      · have hmem : there ∈ before ∨ there ∈ after := by simpa [heq] using hmem
        refine .inr ⟨?_, houtside there (List.mem_append.mpr hmem)⟩
        exact List.mem_append.mpr (hmem.imp_left (List.mem_append_left inside))

/-- A walk through a listable root ends without a result exactly if it is not said of one of the places
that it asks about whether there is a link. Otherwise it tells exactly what it gets to and is neither a
directory nor a link, in order, and the directories that it cannot list. Without the right to list one
more directory that it comes to, it loses what is below that directory and nothing else. -/
theorem take_exact (ignored : List String) (hfs : fs.WellFormed) (hdistinct : fs.Distinct)
    (hroot : fs.IsListable root) : ∃ entries, fs.scan root = .ok entries ∧
      (Fails (take fs ignored root) ↔
        ∃ place, IsAsked fs ignored root entries place ∧ fs.IsSilent (root.join ⟨"", place⟩)) ∧
      ∀ inventory, take fs ignored root = .ok inventory → ∃ reported,
        IsExact fs ignored root entries inventory reported ∧
          ∀ dir, IsMet fs ignored root entries dir → ∃ less,
            take (fs.deny (root.join ⟨"", dir⟩)) ignored root = .ok less ∧
              Loses dir reported inventory less := by
  obtain ⟨entries, hscan⟩ := hroot.2
  have hfails := fails_take_iff ignored hdistinct hroot hscan
  refine ⟨entries, hscan, hfails, fun inventory htake ↦ ?_⟩
  obtain ⟨_, reported, hscanned, hexact⟩ := take_isExact hdistinct htake
  obtain rfl := Except.ok.inj (hscan.symm.trans hscanned)
  refine ⟨reported, hexact, fun dir hmet ↦ ?_⟩
  have hne : root ≠ root.join ⟨"", dir⟩ := by
    intro heq
    have hself : root.join ⟨"", []⟩ = root := by simp
    exact hmet.below (Path.join_relative_inj.mp (hself.trans heq)).symm
  have hscan' : (fs.deny (root.join ⟨"", dir⟩)).scan root = .ok entries := by
    rw [FileSystem.scan_deny_of_ne hne, hscan]
  have hanswered : ¬ Fails (take (fs.deny (root.join ⟨"", dir⟩)) ignored root) := by
    rw [fails_take_iff ignored (hdistinct.deny _) (hroot.deny hne) hscan']
    rintro ⟨place, hasked, hsilent⟩
    have hfailed := hfails.mpr ⟨place, hasked.of_deny hmet, hsilent⟩
    rw [htake] at hfailed
    exact Steps.not_fails_ok _ hfailed
  obtain ⟨less, htake'⟩ := Steps.not_fails_iff.mp hanswered
  obtain ⟨_, reported', hscanned', hless⟩ := take_isExact (hdistinct.deny _) htake'
  obtain rfl := Except.ok.inj (hscan'.symm.trans hscanned')
  exact ⟨less, htake', hexact.loses (hfs.of_scan hscan) hmet hless⟩

/-- The file in the directory is found, unless the directory refuses to be listed. -/
theorem take_exact_nested : ∃ inventory less,
    take FileSystem.nested [] ⟨"/", ["p"]⟩ = .ok inventory ∧
      take (FileSystem.nested.deny ⟨"/", ["p", "a"]⟩) [] ⟨"/", ["p"]⟩ = .ok less ∧
      "a/x" ∈ inventory.files ∧ "a/x" ∉ less.files := by
  obtain ⟨entries, hscan, hfails, hanswer⟩ := take_exact [] FileSystem.nested_wellFormed
    FileSystem.nested_distinct FileSystem.nested_isListable
  obtain rfl := Except.ok.inj (FileSystem.nested_scan.symm.trans hscan)
  obtain ⟨inventory, htake⟩ : ∃ inventory,
      take FileSystem.nested [] ⟨"/", ["p"]⟩ = .ok inventory := by
    rw [← Steps.not_fails_iff, hfails]
    rintro ⟨place, hasked, hoverlong | hforbidden⟩
    · obtain ⟨e, hthere, -⟩ := hasked.found
      have hshort : ∀ place ∈ [[], ["a"], ["a", "x"], ["b"]],
          FileSystem.isOverlong ((Path.mk "/" ["p"]).join ⟨"", place⟩) = false := by decide
      rw [hshort place (FileSystem.mem_nestedEntries_places hthere)] at hoverlong
      exact Bool.noConfusion hoverlong
    · exact Bool.noConfusion hforbidden
  obtain ⟨reported, hexact, hless⟩ := hanswer inventory htake
  have hpassable {place : Location} : Passable FileSystem.nested [] ⟨"/", ["p"]⟩ place :=
    ⟨fun _ _ ↦ rfl, fun _ _ _ _ ↦ List.not_mem_nil⟩
  have hmet : IsMet FileSystem.nested [] ⟨"/", ["p"]⟩ FileSystem.nestedEntries ["a"] :=
    ⟨⟨_, rfl⟩, by simp, by decide, hpassable⟩
  have hlisted : IsListed FileSystem.nested [] ⟨"/", ["p"]⟩ FileSystem.nestedEntries ["a", "x"] :=
    ⟨⟨_, rfl, rfl⟩, by decide, hpassable, by decide⟩
  obtain ⟨less, htake', hloses⟩ := hless ["a"] hmet
  refine ⟨inventory, less, htake, htake', (hexact.mem_files "a/x").mpr ⟨["a", "x"], rfl, hlisted⟩, ?_⟩
  rw [hloses.files_eq, List.mem_filter]
  rintro ⟨-, hkept⟩
  exact absurd hkept (by decide)

/-- A project with a pipe from which nothing comes. -/
def piped : FileSystem where
  entries := [("p", .directory [("pipe", .special none)])]

/-- A pipe is told among the files. -/
theorem pipe_is_told : piped.scan ⟨"/", ["p"]⟩ = .ok [("pipe", .special none)] ∧
    ∃ inventory, take piped [] ⟨"/", ["p"]⟩ = .ok inventory ∧ "pipe" ∈ inventory.files := by
  have hstat : piped.stat ⟨"/", ["p"]⟩ = .ok (.directory [("pipe", .special none)]) :=
    (FileSystem.isStraight_of_at? (by decide) (by decide) rfl).stat_eq (by decide) (by decide) rfl
  have hscan : piped.scan ⟨"/", ["p"]⟩ = .ok [("pipe", .special none)] := by
    rw [FileSystem.scan, FileSystem.entriesOf, hstat]
    rfl
  have hlistable : piped.IsListable ⟨"/", ["p"]⟩ :=
    ⟨⟨_, FileSystem.probe_of_stat rfl (by decide) hstat⟩, _, hscan⟩
  have hdistinct : piped.Distinct :=
    .directory (by decide) (List.forall_mem_singleton.mpr
      (.directory (by decide) (List.forall_mem_singleton.mpr (.special _))))
  have hpipe : IsListed piped [] ⟨"/", ["p"]⟩ [("pipe", .special none)] ["pipe"] :=
    ⟨⟨_, rfl, rfl⟩, by decide, ⟨fun _ _ ↦ rfl, fun _ _ _ _ ↦ List.not_mem_nil⟩, by decide⟩
  obtain ⟨inventory, htake⟩ : ∃ inventory, take piped [] ⟨"/", ["p"]⟩ = .ok inventory := by
    rw [← Steps.not_fails_iff, fails_take_iff [] hdistinct hlistable hscan]
    rintro ⟨place, hasked, hoverlong | hforbidden⟩
    · obtain ⟨e, hthere, -⟩ := hasked.found
      obtain rfl : place = ["pipe"] := by
        cases place with
        | nil => exact absurd rfl hasked.below
        | cons name rest =>
            rw [Entry.find?_directory_cons] at hthere
            obtain ⟨inner, hinner, hrest⟩ := Option.bind_eq_some_iff.mp hthere
            have hfound := List.mem_singleton.mp (mem_of_lookup_eq_some hinner)
            obtain ⟨rfl, rfl⟩ := Prod.mk.inj hfound
            cases rest with
            | nil => rfl
            | cons => simp [Entry.find?] at hrest
      exact absurd hoverlong (by decide)
    · exact Bool.noConfusion hforbidden
  obtain ⟨_, reported, hscanned, hexact⟩ := take_isExact hdistinct htake
  obtain rfl := Except.ok.inj (hscan.symm.trans hscanned)
  exact ⟨hscan, inventory, htake, (hexact.mem_files "pipe").mpr ⟨["pipe"], rfl, hpipe⟩⟩

end Inventory

end Dossier

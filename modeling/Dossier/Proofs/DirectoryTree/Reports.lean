import Dossier.Proofs.DirectoryTree.Fitting
import Dossier.Proofs.DirectoryTree.Shape
import Dossier.Proofs.Inventory.Exact

/-!
# Directories that a tree cannot list

Each tree that is tried for a budget reports the directories that it cannot list, and only the tree that
is shown has its reports kept. They name exactly the directories that this tree gets to and cannot
list, each once.
-/

namespace Dossier

/-- The message that a directory at a place below the root cannot be listed. -/
def Location.report (place : Location) : String :=
  unreadableDirectory (Path.relativeText place) .denied

namespace DirectoryTree

open Entry (subdirectories)
open Inventory (Passable passable_concat)
open Walk (met)

/-! ## Which directories a tree gets to -/

section

variable (fs : FileSystem) (style : Style) (paths : List String) (root : Path)
  (entries : List (String × Entry)) (levels : Nat)

/-- A directory that a tree lists, or would list if it could: less deep than the tree and not ignored,
and the directories above it are not ignored, can be listed and are spread out. -/
structure IsVisited (place : Location) : Prop where
  directory : ∃ inner, (Entry.directory entries).find? place = some (.directory inner)
  below : place ≠ []
  depth : place.length < levels
  passable : Passable fs style.ignored root place
  spread : IsSpreadBy style entries paths place.dropLast

/-- A directory that a tree gets to and cannot list. -/
def IsUnreadable (place : Location) : Prop :=
  IsVisited fs style paths root entries levels place ∧ root.join ⟨"", place⟩ ∈ fs.denied

end

variable {fs : FileSystem} {style : Style} {paths : List String} {root : Path}
  {entries : List (String × Entry)} {levels : Nat} {place : Location}

theorem unreadable_eq (scope : Scope) (levels : Nat) (here : Location)
    (entries : List (String × Entry)) :
    unreadable scope (levels + 1) here entries =
      ((met scope.hidden (isClosed scope) levels here entries).filter
        fun x ↦ scope.denied x.1).map (·.1) := by
  induction levels generalizing here entries with
  | zero => simp [unreadable, met]
  | succ levels ih =>
      rw [unreadable, met, List.filter_flatMap, List.map_flatMap]
      congr 1
      funext x
      obtain ⟨name, inner⟩ := x
      dsimp only
      rw [if_neg (Nat.succ_ne_zero levels)]
      cases hdenied : scope.denied (here ++ [name]) with
      | true => simp [hdenied, isClosed]
      | false => cases hcollapsed : isCollapsed scope (here ++ [name]) inner <;>
          simp [hdenied, hcollapsed, isClosed, ih]

theorem pairwise_lt_unreadable (scope : Scope) (levels : Nat)
    (hdistinct : (Entry.directory entries).Named List.Nodup) :
    (unreadable scope levels [] entries).Pairwise (· < ·) := by
  cases levels with
  | zero => exact .nil
  | succ levels =>
      rw [unreadable_eq]
      exact List.pairwise_map.mpr ((Walk.pairwise_lt_met hdistinct).sublist List.filter_sublist)

theorem mem_unreadable_iff (hdistinct : (Entry.directory entries).Named List.Nodup) :
    place ∈ unreadable (Scope.below fs style (significant paths) root) levels [] entries ↔
      IsUnreadable fs style paths root entries levels place := by
  cases levels with
  | zero =>
      constructor
      · simp [unreadable]
      · rintro ⟨hvisited, -⟩
        exact absurd hvisited.depth (Nat.not_lt_zero _)
  | succ levels =>
      rw [unreadable_eq, List.mem_map]
      constructor
      · rintro ⟨⟨there, inner⟩, hmem, rfl⟩
        obtain ⟨hmet, hdenied⟩ := List.mem_filter.mp hmem
        obtain ⟨dir, name, held, rfl, hdepth, henters, hname, hlookup⟩ :=
          (Walk.mem_met_iff hdistinct).mp hmet
        rw [List.nil_append] at hdenied ⊢
        have hentry : (Entry.directory entries).find? (dir ++ [name]) = some (.directory inner) :=
          Entry.find?_concat_iff.mpr ⟨held, henters.found, hlookup⟩
        have hshown : ∀ part ∈ dir ++ [name], Text.isIgnored style.ignored part = false :=
          List.forall_mem_append.mpr ⟨henters.shown, List.forall_mem_singleton.mpr hname⟩
        obtain ⟨hreadable, hspread⟩ := (opened_below_iff hentry hshown).mp henters.opened
        refine ⟨⟨⟨inner, hentry⟩, by simp, by simpa using hdepth, ?_, ?_⟩, ?_⟩
        · exact passable_concat.mpr ⟨henters.shown, hname, hreadable⟩
        · rwa [List.dropLast_concat]
        · simpa [Scope.below] using hdenied
      · rintro ⟨⟨⟨inner, hentry⟩, hne, hdepth, hpassable, hspread⟩, hdenied⟩
        rcases List.eq_nil_or_concat place with rfl | ⟨dir, name, rfl⟩
        · exact absurd rfl hne
        · rw [List.concat_eq_append] at hentry hdepth hpassable hdenied hspread ⊢
          rw [List.dropLast_concat] at hspread
          obtain ⟨held, hheld, hlookup⟩ := Entry.find?_concat_iff.mp hentry
          obtain ⟨hshown, hname, hreadable⟩ := passable_concat.mp hpassable
          have hall : ∀ part ∈ dir ++ [name], Text.isIgnored style.ignored part = false :=
            List.forall_mem_append.mpr ⟨hshown, List.forall_mem_singleton.mpr hname⟩
          refine ⟨(dir ++ [name], inner), List.mem_filter.mpr ⟨?_, by simpa [Scope.below] using hdenied⟩,
            rfl⟩
          refine (Walk.mem_met_iff hdistinct).mpr ⟨dir, name, held, by simp, by simpa using hdepth,
            ⟨hheld, hshown, ?_⟩, hname, hlookup⟩
          exact (opened_below_iff hentry hall).mpr ⟨hreadable, hspread⟩

/-! ## What is reported -/

theorem unreadableDirectory_inj {shown shown' : String} {e : FileError}
    (h : unreadableDirectory shown e = unreadableDirectory shown' e) : shown = shown' := by
  unfold unreadableDirectory at h
  rwa [String.append_left_inj, String.append_left_inj, String.append_right_inj] at h

theorem report_inj {place place' : Location} (hplain : ∀ name ∈ place, PlainName name)
    (hplain' : ∀ name ∈ place', PlainName name) (h : place.report = place'.report) :
    place = place' :=
  Path.relativeText_inj hplain hplain' (unreadableDirectory_inj h)

/-- Reports of places in order, without repetition. -/
theorem nodup_map_report {places : List Location} (hordered : places.Pairwise (· < ·))
    (hplain : ∀ place ∈ places, ∀ name ∈ place, PlainName name) :
    (places.map Location.report).Nodup := by
  refine List.pairwise_map.mpr (hordered.imp_of_mem fun ha hb hlt heq ↦ ?_)
  exact ne_of_lt hlt (report_inj (hplain _ ha) (hplain _ hb) heq)

/-- The warnings of a tree with a number of levels: one about the root if that cannot be listed, else
one about each directory that the tree gets to and cannot list, in the order of their names. -/
inductive Reports (fs : FileSystem) (style : Style) (paths : List String) (root : Path)
    (levels : Nat) : List String → Prop where
  | root {e : FileError} (hscan : fs.scan root = .error e) :
      Reports fs style paths root levels [unreadableDirectory "." e]
  | below {entries : List (String × Entry)} {places : List Location}
      (hscan : fs.scan root = .ok entries) (ordered : places.Pairwise (· < ·))
      (mem_iff : ∀ place, place ∈ places ↔ IsUnreadable fs style paths root entries levels place) :
      Reports fs style paths root levels (places.map Location.report)

theorem Reports.nodup (hfs : fs.WellFormed) {warnings : List String}
    (h : Reports fs style paths root levels warnings) : warnings.Nodup := by
  cases h with
  | root hscan => exact List.nodup_singleton _
  | below hscan hordered hmem =>
      refine nodup_map_report hordered fun place hplace ↦ ?_
      obtain ⟨inner, hentry⟩ := ((hmem place).mp hplace).1.directory
      exact (hfs.of_scan hscan).plainName_of_find? hentry

/-- The reports of a tree whose root can be listed. -/
theorem Reports.of_scan {warnings : List String}
    (h : Reports fs style paths root levels warnings) (hscan : fs.scan root = .ok entries) :
    ∃ places : List Location, places.Pairwise (· < ·) ∧
      (∀ place, place ∈ places ↔ IsUnreadable fs style paths root entries levels place) ∧
      warnings = places.map Location.report := by
  cases h with
  | root hfailed => cases hscan.symm.trans hfailed
  | below hscan' hordered hmem =>
      obtain rfl := Except.ok.inj (hscan'.symm.trans hscan)
      exact ⟨_, hordered, hmem, rfl⟩

theorem reports_build (style : Style) (paths : List String) (root : Path) (hdistinct : fs.Distinct)
    (hlevels : levels ≠ 0) :
    Reports fs style paths root levels (build fs style paths root levels).2 := by
  rw [build, if_neg hlevels]
  cases hscan : fs.scan root with
  | error e => exact .root hscan
  | ok entries =>
      have hentries : (Entry.directory entries).Named List.Nodup :=
        FileSystem.named_of_scan hdistinct hscan
      exact .below hscan (pairwise_lt_unreadable _ levels hentries) fun place ↦
        mem_unreadable_iff hentries

/-- The tree that is shown within a budget, with its warnings. -/
theorem fitting_eq {title : String} (htitle : titleOf fs root = .ok title) (style : Style)
    (paths : List String) (budget : Int) :
    fitting fs style paths root budget =
      .ok (textAt fs style paths root title (depthWithin fs style paths root title budget),
        (build fs style paths root (depthWithin fs style paths root title budget)).2) := by
  rw [fitting, htitle]
  rfl

theorem fitting_ok {budget : Int} {shown : String × List String}
    (h : fitting fs style paths root budget = .ok shown) :
    ∃ title, titleOf fs root = .ok title ∧
      shown = (textAt fs style paths root title (depthWithin fs style paths root title budget),
        (build fs style paths root (depthWithin fs style paths root title budget)).2) := by
  obtain ⟨title, htitle, -⟩ := Steps.bind_eq_ok.mp h
  exact ⟨title, htitle, Except.ok.inj (h.symm.trans (fitting_eq htitle ..))⟩

theorem depthWithin_ne_zero (fs : FileSystem) (style : Style) (paths : List String) (root : Path)
    (title : String) (budget : Int) : depthWithin fs style paths root title budget ≠ 0 :=
  Nat.one_le_iff_ne_zero.mp (isDeepest_depthWithin fs style paths root title budget).pos

end DirectoryTree

end Dossier

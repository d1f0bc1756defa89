import Dossier.Proofs.FileSystem.WellFormed
import Dossier.Proofs.Text.Order
import Mathlib.Data.List.Flatten

/-!
# Walks through directories

A walk goes down from a directory through real directories, one level after the other. It passes
hidden names by, and it does not enter a directory that is closed to it. The file list and the
directory tree of a project are read off such walks, so what a walk meets is worked out once here: the
directories that can be looked up without a link, not too deep, with no hidden name on the way and
no closed directory above them, in the order of their names.
-/

namespace Dossier

open Entry (subdirectories)

theorem Entry.mem_subdirectories {hidden : String → Bool} {entries inner : List (String × Entry)}
    {name : String} : (name, inner) ∈ subdirectories hidden entries ↔
      hidden name = false ∧ (name, .directory inner) ∈ entries := by
  rw [subdirectories, sortedByName, List.mem_mergeSort, List.mem_filterMap]
  constructor
  · rintro ⟨⟨found, e⟩, hmem, h⟩
    cases e with
    | file | link | special => simp at h
    | directory listed =>
        by_cases hhidden : hidden found = true
        · simp [hhidden] at h
        · obtain ⟨rfl, rfl⟩ : found = name ∧ listed = inner := by simpa [hhidden] using h
          exact ⟨by simpa using hhidden, hmem⟩
  · rintro ⟨hhidden, hmem⟩
    exact ⟨_, hmem, by simp [hhidden]⟩

theorem Entry.pairwise_lt_subdirectories {entries : List (String × Entry)}
    (hnodup : (entries.map (·.1)).Nodup) (hidden : String → Bool) :
    (subdirectories hidden entries).Pairwise fun a b ↦ a.1 < b.1 := by
  refine pairwise_lt_sortedByName (hnodup.sublist ?_)
  induction entries with
  | nil => simp
  | cons x rest ih =>
      obtain ⟨name, e⟩ := x
      have hrest := ih (List.nodup_cons.mp hnodup).2
      rw [List.filterMap_cons]
      split
      · exact hrest.cons name
      · next kept hkept =>
        cases e with
        | file | link | special => simp at hkept
        | directory inner =>
            dsimp only at hkept
            split at hkept
            · simp at hkept
            · obtain rfl := Option.some_inj.mp hkept
              exact hrest.cons_cons name

namespace Walk

variable (hidden : String → Bool) (closed : Location → List (String × Entry) → Bool)

/-- The directories that a walk meets, closed ones as well, with what they hold. -/
def met : (levels : Nat) → (here : Location) → List (String × Entry) →
    List (Location × List (String × Entry))
  | 0, _, _ => []
  | levels + 1, here, entries =>
    (subdirectories hidden entries).flatMap fun (name, inner) =>
      (here ++ [name], inner) ::
        if closed (here ++ [name]) inner then [] else met levels (here ++ [name]) inner

/-- The directories that a walk enters: the one it begins in and those it meets and finds open. -/
def entered (levels : Nat) (here : Location) (entries : List (String × Entry)) :
    List (Location × List (String × Entry)) :=
  (here, entries) :: (met hidden closed levels here entries).filter fun x => !closed x.1 x.2

theorem entered_succ (levels : Nat) (here : Location) (entries : List (String × Entry)) :
    entered hidden closed (levels + 1) here entries =
      (here, entries) :: (subdirectories hidden entries).flatMap fun (name, inner) =>
        if closed (here ++ [name]) inner then []
        else entered hidden closed levels (here ++ [name]) inner := by
  rw [entered, met, List.filter_flatMap]
  congr 2
  funext ⟨name, inner⟩
  cases hclosed : closed (here ++ [name]) inner <;> simp [hclosed, entered]

/-- The walk from the place `here` gets into the directory `dir` below it. -/
structure Enters (here : Location) (entries : List (String × Entry)) (dir : Location)
    (held : List (String × Entry)) : Prop where
  found : (Entry.directory entries).find? dir = some (.directory held)
  shown : ∀ name ∈ dir, hidden name = false
  opened : ∀ above, above <+: dir → above ≠ [] → ∀ inner,
    (Entry.directory entries).find? above = some (.directory inner) →
      closed (here ++ above) inner = false

section

variable {hidden closed}
variable {levels : Nat} {here there dir : Location} {entries held inner : List (String × Entry)}
  {name : String}

theorem enters_nil : Enters hidden closed here entries [] held ↔ entries = held := by
  constructor
  · rintro ⟨hfound, -, -⟩
    simpa using hfound
  · rintro rfl
    refine ⟨Entry.find?_nil _, by simp, fun above habove hne ↦ ?_⟩
    exact absurd (List.prefix_nil.mp habove) hne

theorem enters_cons : Enters hidden closed here entries (name :: dir) held ↔
    hidden name = false ∧ ∃ inner, entries.lookup name = some (.directory inner) ∧
      closed (here ++ [name]) inner = false ∧
        Enters hidden closed (here ++ [name]) inner dir held := by
  constructor
  · rintro ⟨hfound, hshown, hopened⟩
    rw [Entry.find?_directory_cons] at hfound
    obtain ⟨e, hlookup, hfound⟩ := Option.bind_eq_some_iff.mp hfound
    -- Only a directory has anything below it.
    obtain ⟨inner, rfl⟩ : ∃ inner, e = .directory inner := by
      cases e with
      | directory inner => exact ⟨inner, rfl⟩
      | file | link | special => cases dir <;> simp [Entry.find?] at hfound
    refine ⟨hshown name List.mem_cons_self, inner, hlookup, ?_, hfound, ?_, ?_⟩
    · refine hopened [name] ?_ (by simp) inner ?_
      · exact (List.prefix_cons_inj name).mpr List.nil_prefix
      · simp [Entry.find?_directory_cons, hlookup]
    · exact fun part hpart ↦ hshown part (List.mem_cons_of_mem name hpart)
    · intro above habove _ found habovefound
      rw [List.append_assoc, List.singleton_append]
      refine hopened (name :: above) ?_ (by simp) found ?_
      · exact (List.prefix_cons_inj name).mpr habove
      · simp [Entry.find?_directory_cons, hlookup, habovefound]
  · rintro ⟨hname, inner, hlookup, hopen, hfound, hshown, hopened⟩
    refine ⟨?_, List.forall_mem_cons.mpr ⟨hname, hshown⟩, ?_⟩
    · simp [Entry.find?_directory_cons, hlookup, hfound]
    · intro above habove hne found habovefound
      obtain ⟨rest, rfl, hrest⟩ := (List.prefix_cons_iff.mp habove).resolve_left hne
      rw [Entry.find?_directory_cons, hlookup, Option.bind_some] at habovefound
      cases rest with
      | nil =>
          obtain rfl : inner = found := by simpa using habovefound
          exact hopen
      | cons next rest =>
          rw [← List.singleton_append, ← List.append_assoc]
          exact hopened _ hrest (by simp) found habovefound

/-- A walk gets into a directory from the one right above it. -/
theorem enters_concat : Enters hidden closed here entries (dir ++ [name]) inner ↔
    ∃ held, Enters hidden closed here entries dir held ∧ hidden name = false ∧
      held.lookup name = some (.directory inner) ∧
        closed (here ++ dir ++ [name]) inner = false := by
  induction dir generalizing here entries with
  | nil =>
      rw [List.nil_append, enters_cons]
      simp only [enters_nil, List.append_nil]
      constructor
      · rintro ⟨hname, found, hlookup, hopen, rfl⟩
        exact ⟨entries, rfl, hname, hlookup, hopen⟩
      · rintro ⟨_, rfl, hname, hlookup, hopen⟩
        exact ⟨hname, inner, hlookup, hopen, rfl⟩
  | cons first dir ih =>
      have hplace : here ++ [first] ++ dir ++ [name] = here ++ first :: dir ++ [name] := by simp
      rw [List.cons_append, enters_cons]
      simp only [ih, enters_cons, hplace]
      constructor
      · rintro ⟨hfirst, below, hlookup, hopen, held, hheld⟩
        exact ⟨held, ⟨hfirst, below, hlookup, hopen, hheld.1⟩, hheld.2⟩
      · rintro ⟨held, ⟨hfirst, below, hlookup, hopen, henters⟩, hheld⟩
        exact ⟨hfirst, below, hlookup, hopen, held, henters, hheld⟩

theorem mem_met_succ : (there, held) ∈ met hidden closed (levels + 1) here entries ↔
    ∃ name inner, (name, inner) ∈ subdirectories hidden entries ∧
      ((there, held) = (here ++ [name], inner) ∨
        closed (here ++ [name]) inner = false ∧
          (there, held) ∈ met hidden closed levels (here ++ [name]) inner) := by
  rw [met, List.mem_flatMap, Prod.exists]
  refine exists_congr fun name ↦ exists_congr fun inner ↦ and_congr_right fun _ ↦ ?_
  rw [List.mem_cons]
  refine or_congr_right ?_
  cases closed (here ++ [name]) inner <;> simp

/-- What a walk meets are the directories right below those that it gets into. -/
theorem mem_met_iff (hdistinct : (Entry.directory entries).Named List.Nodup) :
    (there, inner) ∈ met hidden closed levels here entries ↔
      ∃ dir name held, there = here ++ dir ++ [name] ∧ dir.length < levels ∧
        Enters hidden closed here entries dir held ∧ hidden name = false ∧
          held.lookup name = some (.directory inner) := by
  induction levels generalizing here entries with
  | zero => simp [met]
  | succ levels ih =>
      have hlookup {name : String} {below : List (String × Entry)} :
          (name, Entry.directory below) ∈ entries ↔
            entries.lookup name = some (.directory below) :=
        ⟨lookup_eq_some_of_mem hdistinct.names, mem_of_lookup_eq_some⟩
      have hbelow {name : String} {below : List (String × Entry)}
          (h : entries.lookup name = some (.directory below)) :
          (Entry.directory below).Named List.Nodup :=
        hdistinct.inner _ (mem_of_lookup_eq_some h)
      rw [met, List.mem_flatMap]
      constructor
      · rintro ⟨⟨first, below⟩, hfirst, hmem⟩
        obtain ⟨hshown, hfirst⟩ := Entry.mem_subdirectories.mp hfirst
        rw [hlookup] at hfirst
        rcases List.mem_cons.mp hmem with heq | hmem
        · obtain ⟨rfl, rfl⟩ := Prod.mk.inj heq
          refine ⟨[], first, entries, by simp, by simp, enters_nil.mpr rfl, hshown, hfirst⟩
        · cases hclosed : closed (here ++ [first]) below with
          | true => simp [hclosed] at hmem
          | false =>
              rw [hclosed, if_neg Bool.false_ne_true, ih (hbelow hfirst)] at hmem
              obtain ⟨dir, name, held, rfl, hlength, henters, hname, hheld⟩ := hmem
              refine ⟨first :: dir, name, held, by simp, by simpa using hlength, ?_, hname, hheld⟩
              exact enters_cons.mpr ⟨hshown, below, hfirst, hclosed, henters⟩
      · rintro ⟨dir, name, held, rfl, hlength, henters, hname, hheld⟩
        cases dir with
        | nil =>
            obtain rfl := enters_nil.mp henters
            exact ⟨(name, inner), Entry.mem_subdirectories.mpr ⟨hname, hlookup.mpr hheld⟩, by simp⟩
        | cons first dir =>
            obtain ⟨hshown, below, hfirst, hclosed, henters⟩ := enters_cons.mp henters
            refine ⟨(first, below), Entry.mem_subdirectories.mpr ⟨hshown, hlookup.mpr hfirst⟩, ?_⟩
            refine List.mem_cons_of_mem _ ?_
            rw [hclosed, if_neg Bool.false_ne_true, ih (hbelow hfirst)]
            exact ⟨dir, name, held, by simp, by simpa using hlength, henters, hname, hheld⟩

theorem mem_entered_iff (hdistinct : (Entry.directory entries).Named List.Nodup) :
    (there, inner) ∈ entered hidden closed levels here entries ↔
      ∃ dir, there = here ++ dir ∧ dir.length ≤ levels ∧
        Enters hidden closed here entries dir inner := by
  rw [entered, List.mem_cons, List.mem_filter, mem_met_iff hdistinct]
  constructor
  · rintro (heq | ⟨⟨dir, name, held, rfl, hlength, henters, hname, hheld⟩, hopen⟩)
    · obtain ⟨rfl, rfl⟩ := Prod.mk.inj heq
      exact ⟨[], by simp, by simp, enters_nil.mpr rfl⟩
    · refine ⟨dir ++ [name], by simp, by simpa [Nat.succ_le_iff] using hlength, ?_⟩
      exact enters_concat.mpr ⟨held, henters, hname, hheld, by simpa using hopen⟩
  · rintro ⟨dir, rfl, hlength, henters⟩
    rcases List.eq_nil_or_concat dir with rfl | ⟨dir, name, rfl⟩
    · obtain rfl := enters_nil.mp henters
      simp
    · rw [List.concat_eq_append] at henters hlength ⊢
      obtain ⟨held, henters, hname, hheld, hopen⟩ := enters_concat.mp henters
      have hlength : dir.length < levels := by simpa [Nat.succ_le_iff] using hlength
      refine .inr ⟨⟨dir, name, held, by simp, hlength, henters, hname, hheld⟩, ?_⟩
      simpa using hopen

/-- A walk meets directories in the order of their names, each right before what is below it. -/
theorem pairwise_lt_met (hdistinct : (Entry.directory entries).Named List.Nodup) :
    (met hidden closed levels here entries).Pairwise fun a b ↦ a.1 < b.1 := by
  induction levels generalizing here entries with
  | zero => exact .nil
  | succ levels ih =>
      have hbelow {name : String} {below : List (String × Entry)}
          (h : (name, below) ∈ subdirectories hidden entries) :
          (Entry.directory below).Named List.Nodup :=
        hdistinct.inner _ (Entry.mem_subdirectories.mp h).2
      have hplace {name : String} {below : List (String × Entry)} {x : Location × List (String × Entry)}
          (h : (name, below) ∈ subdirectories hidden entries)
          (hx : x ∈ if closed (here ++ [name]) below = true then []
            else met hidden closed levels (here ++ [name]) below) :
          ∃ rest, rest ≠ [] ∧ x.1 = here ++ [name] ++ rest := by
        split at hx
        · simp at hx
        · obtain ⟨dir, last, -, heq, -⟩ := (mem_met_iff (hbelow h)).mp hx
          exact ⟨dir ++ [last], by simp, by rw [heq, List.append_assoc]⟩
      rw [met, List.pairwise_flatMap]
      constructor
      · rintro ⟨name, below⟩ hmem
        refine List.pairwise_cons.mpr ⟨fun x hx ↦ ?_, ?_⟩
        · obtain ⟨rest, hne, heq⟩ := hplace hmem hx
          rw [heq]
          exact Location.lt_append _ hne
        · split
          · exact .nil
          · exact ih (hbelow hmem)
      · have hplace' {name : String} {below : List (String × Entry)}
            {x : Location × List (String × Entry)}
            (h : (name, below) ∈ subdirectories hidden entries)
            (hx : x ∈ (here ++ [name], below) :: if closed (here ++ [name]) below = true then []
              else met hidden closed levels (here ++ [name]) below) :
            ∃ rest, x.1 = here ++ name :: rest := by
          rcases List.mem_cons.mp hx with rfl | hx
          · exact ⟨[], rfl⟩
          · obtain ⟨rest, -, heq⟩ := hplace h hx
            exact ⟨rest, by simpa using heq⟩
        refine (Entry.pairwise_lt_subdirectories hdistinct.names hidden).imp_of_mem ?_
        rintro ⟨name, below⟩ ⟨name', below'⟩ hmem hmem' hlt x hx y hy
        obtain ⟨rest, hx⟩ := hplace' hmem hx
        obtain ⟨rest', hy⟩ := hplace' hmem' hy
        rw [hx, hy]
        exact Location.append_lt_append hlt rest rest'

theorem nodup_entered (hdistinct : (Entry.directory entries).Named List.Nodup) :
    ((entered hidden closed levels here entries).map (·.1)).Nodup := by
  rw [entered, List.map_cons, List.nodup_cons]
  constructor
  · intro hmem
    obtain ⟨⟨there, inner⟩, hmem, heq⟩ := List.mem_map.mp hmem
    obtain ⟨dir, name, -, hthere, -⟩ := (mem_met_iff hdistinct).mp (List.mem_of_mem_filter hmem)
    simp [hthere] at heq
  · refine List.pairwise_map.mpr (((pairwise_lt_met hdistinct).sublist List.filter_sublist).imp ?_)
    exact fun h ↦ ne_of_lt h

end

end Walk

end Dossier

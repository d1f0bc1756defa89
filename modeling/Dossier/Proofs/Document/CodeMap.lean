import Dossier.Document.CodeMap
import Dossier.Proofs.Budget.Estimate

/-!
# What becomes of the files of a code map

Packing decides about every file exactly once and in the order of rank. A file is on the map with its
entry as it is or folded, or it is left out, and what is on the map costs no more than the budget.
Nothing here depends on how texts are measured, except that an empty text must cost nothing.
-/

namespace Dossier.Document

open Budget (estimate)
open Outline (File)

/-! ## One file -/

/-- What a file shows on the map: its entry, folded if that is its outcome. -/
def Placed.entry (format : MapFormat) (p : Placed) : String :=
  mapEntry format (p.outcome == .folded) p.listed

/-- A decision leaves a file out and adds nothing, or adds its entry behind the separator at a cost
within the cap. -/
theorem placeOne_cases (measure : Measure) (format : MapFormat) (cap : Nat) (separator : String)
    (x : Listed) :
    (placeOne measure format cap separator x).listed = x ∧
      ((placeOne measure format cap separator x).isIncluded = true ∧
          (placeOne measure format cap separator x).piece =
            separator ++ (placeOne measure format cap separator x).entry format ∧
          measure (placeOne measure format cap separator x).piece ≤ cap ∨
        (placeOne measure format cap separator x).isIncluded = false ∧
          (placeOne measure format cap separator x).piece = "") := by
  simp only [placeOne]
  split
  · rename_i hwhole
    exact ⟨rfl, Or.inl ⟨rfl, rfl, hwhole⟩⟩
  · split
    · exact ⟨rfl, Or.inr ⟨rfl, rfl⟩⟩
    · rename_i hfold
      obtain ⟨-, -, hshort⟩ := by simpa only [not_or] using hfold
      exact ⟨rfl, Or.inl ⟨rfl, rfl, Nat.le_of_not_lt hshort⟩⟩

section OneFile

variable (measure : Measure) (format : MapFormat)

theorem listed_placeOne (cap : Nat) (separator : String) (x : Listed) :
    (placeOne measure format cap separator x).listed = x :=
  (placeOne_cases measure format cap separator x).1

theorem placeOne_of_le {cap : Nat} {separator : String} {x : Listed}
    (h : measure (separator ++ mapEntry format false x) ≤ cap) :
    placeOne measure format cap separator x =
      ⟨x, .verbatim, separator ++ mapEntry format false x⟩ := by
  simp only [placeOne, if_pos h]

/-- A file is shown as it is if that is within the cap. -/
theorem outcome_placeOne_eq_verbatim_iff {cap : Nat} {separator : String} {x : Listed} :
    (placeOne measure format cap separator x).outcome = .verbatim ↔
      measure (separator ++ mapEntry format false x) ≤ cap := by
  constructor
  · intro hverbatim
    by_contra hover
    simp only [placeOne, if_neg hover] at hverbatim
    split at hverbatim <;> simp at hverbatim
  · intro hwithin
    rw [placeOne_of_le measure format hwithin]

/-- Folding changes nothing where only the names are shown. -/
theorem mapEntry_compact (fold : Bool) (x : Listed) :
    mapEntry .compact fold x = mapEntry .compact false x := rfl

/-- A file is on the map if its entry is within the cap, as it is or folded. -/
theorem isIncluded_placeOne_iff {cap : Nat} {separator : String} {x : Listed} :
    (placeOne measure format cap separator x).isIncluded = true ↔
      measure (separator ++ mapEntry format false x) ≤ cap ∨
        measure (separator ++ mapEntry format true x) ≤ cap := by
  by_cases hwhole : measure (separator ++ mapEntry format false x) ≤ cap
  · simp [placeOne, hwhole, Placed.isIncluded]
  · rw [or_iff_right hwhole]
    simp only [placeOne, if_neg hwhole]
    split
    · rename_i hdropped
      refine iff_of_false (by simp [Placed.isIncluded]) ?_
      intro hshort
      rcases hdropped with rfl | hsame | hover
      · exact hwhole (mapEntry_compact true x ▸ hshort)
      · exact hwhole (hsame ▸ hshort)
      · omega
    · rename_i hfolded
      refine iff_of_true (by simp [Placed.isIncluded]) ?_
      obtain ⟨-, -, hshort⟩ := by simpa only [not_or] using hfolded
      exact Nat.le_of_not_lt hshort

/-- What a file takes of the budget. -/
def Placed.cost (p : Placed) : Nat :=
  if p.isIncluded then measure p.piece else 0

theorem cost_placeOne_le (cap : Nat) (separator : String) (x : Listed) :
    (placeOne measure format cap separator x).cost measure ≤ cap := by
  obtain ⟨-, ⟨hin, -, hcost⟩ | ⟨hout, -⟩⟩ := placeOne_cases measure format cap separator x
  · simpa [Placed.cost, hin] using hcost
  · simp [Placed.cost, hout]

end OneFile

/-! ## All files -/

section Place

variable (measure : Measure) (format : MapFormat)

/-- One step of packing: the file is decided under an even part of what is left, and those behind it
share what it does not take. -/
theorem place_cons_decided (remaining : Nat) (first : Bool) (x : Listed) (rest : List Listed) :
    ∃ p, p = placeOne measure format (remaining / (rest.length + 1))
        (if first then "" else mapSeparator) x ∧
      place measure format remaining first (x :: rest) =
        p :: place measure format (remaining - p.cost measure) (first && !p.isIncluded) rest := by
  obtain ⟨p, hp⟩ : ∃ p, p = placeOne measure format (remaining / (rest.length + 1))
    (if first then "" else mapSeparator) x := ⟨_, rfl⟩
  refine ⟨p, hp, ?_⟩
  cases hin : p.isIncluded with
  | true => simp only [place, ← hp, hin, if_true, Placed.cost, Bool.not_true, Bool.and_false]
  | false =>
      simp only [place, ← hp, hin, Bool.false_eq_true, if_false, Placed.cost, Bool.not_false,
        Bool.and_true, Nat.sub_zero]

/-- All that one step of packing can do. The file is decided, and the rest is packed with what the
decision leaves. -/
theorem place_cons (remaining : Nat) (first : Bool) (x : Listed) (rest : List Listed) :
    ∃ p, p.listed = x ∧
      (p.isIncluded = true ∧
          p.piece = (if first then "" else mapSeparator) ++ p.entry format ∧
          measure p.piece ≤ remaining / (rest.length + 1) ∧
          place measure format remaining first (x :: rest) =
            p :: place measure format (remaining - measure p.piece) false rest ∨
        p.isIncluded = false ∧ p.piece = "" ∧
          place measure format remaining first (x :: rest) =
            p :: place measure format remaining first rest) := by
  obtain ⟨p, hp, hplace⟩ := place_cons_decided measure format remaining first x rest
  obtain ⟨hlisted, hdecided⟩ := placeOne_cases measure format (remaining / (rest.length + 1))
    (if first then "" else mapSeparator) x
  rw [← hp] at hlisted hdecided
  refine ⟨p, hlisted, ?_⟩
  rcases hdecided with ⟨hin, hpiece, hcost⟩ | ⟨hout, hpiece⟩
  · exact .inl ⟨hin, hpiece, hcost, by simpa [Placed.cost, hin] using hplace⟩
  · exact .inr ⟨hout, hpiece, by simpa [Placed.cost, hout] using hplace⟩

/-- Every file is decided once, and the order is kept. -/
theorem map_listed_place (remaining : Nat) (first : Bool) (files : List Listed) :
    (place measure format remaining first files).map (·.listed) = files := by
  induction files generalizing remaining first with
  | nil => rfl
  | cons x rest ih =>
      obtain ⟨p, hlisted, ⟨-, -, -, hplace⟩ | ⟨-, -, hplace⟩⟩ :=
        place_cons measure format remaining first x rest <;>
      rw [hplace, List.map_cons, hlisted, ih]

@[simp] theorem length_place (remaining : Nat) (first : Bool) (files : List Listed) :
    (place measure format remaining first files).length = files.length := by
  have hlisted := congrArg List.length (map_listed_place measure format remaining first files)
  simpa using hlisted

/-- The caps keep the cost of all pieces together within what there is to spend. -/
theorem sum_measure_place_le (hempty : measure "" = 0) (remaining : Nat) (first : Bool)
    (files : List Listed) :
    ((place measure format remaining first files).map fun p ↦ measure p.piece).sum ≤
      remaining := by
  induction files generalizing remaining first with
  | nil => exact Nat.zero_le _
  | cons x rest ih =>
      obtain ⟨p, -, ⟨-, -, hcost, hplace⟩ | ⟨-, hpiece, hplace⟩⟩ :=
        place_cons measure format remaining first x rest
      · have hcap : remaining / (rest.length + 1) ≤ remaining := Nat.div_le_self _ _
        have hrest := ih (remaining - measure p.piece) false
        rw [hplace, List.map_cons, List.sum_cons]
        omega
      · rw [hplace, List.map_cons, List.sum_cons, hpiece, hempty, Nat.zero_add]
        exact ih remaining first

/-- Behind an entry every further one stands behind a separator. -/
theorem join_pieces_after (remaining : Nat) (files : List Listed) :
    String.join ((place measure format remaining false files).map (·.piece)) =
      String.join (((place measure format remaining false files).filter (·.isIncluded)).map
        fun p ↦ mapSeparator ++ p.entry format) := by
  induction files generalizing remaining with
  | nil => rfl
  | cons x rest ih =>
      obtain ⟨p, -, ⟨hin, hpiece, -, hplace⟩ | ⟨hout, hpiece, hplace⟩⟩ :=
        place_cons measure format remaining false x rest
      · rw [hplace, List.filter_cons_of_pos hin, List.map_cons, List.map_cons, String.join_cons,
          String.join_cons, ih, hpiece]
        rfl
      · rw [hplace, List.filter_cons_of_neg (by simp [hout]), List.map_cons, String.join_cons,
          hpiece, ih, String.empty_append]

theorem intercalate_cons_eq_append_join (separator piece : String) (rest : List String) :
    String.intercalate separator (piece :: rest) =
      piece ++ String.join (rest.map (separator ++ ·)) := by
  induction rest generalizing piece with
  | nil => simp
  | cons next rest ih =>
      rw [String.intercalate_cons_cons, List.map_cons, String.join_cons, ih next,
        String.append_assoc, String.append_assoc]

/-- The pieces joined are the entries of the files on the map with separators between them. -/
theorem join_pieces (remaining : Nat) (files : List Listed) :
    String.join ((place measure format remaining true files).map (·.piece)) =
      String.intercalate mapSeparator
        (((place measure format remaining true files).filter (·.isIncluded)).map
          (·.entry format)) := by
  induction files generalizing remaining with
  | nil => rfl
  | cons x rest ih =>
      obtain ⟨p, -, ⟨hin, hpiece, -, hplace⟩ | ⟨hout, hpiece, hplace⟩⟩ :=
        place_cons measure format remaining true x rest
      · rw [if_pos rfl, String.empty_append] at hpiece
        rw [hplace, List.filter_cons_of_pos hin, List.map_cons, List.map_cons, String.join_cons,
          intercalate_cons_eq_append_join, hpiece, join_pieces_after, List.map_map]
        rfl
      · rw [hplace, List.filter_cons_of_neg (by simp [hout]), List.map_cons, String.join_cons,
          hpiece, ih, String.empty_append]

end Place

/-! ## Maps -/

/-- A map accounts for files in their order by a decision about each: the decisions give the content
and all three lists. -/
structure CodeMap.Accounts (m : CodeMap) (format : MapFormat) (files : List Listed)
    (placed : List Placed) : Prop where
  listed : placed.map (·.listed) = files
  content : m.content = String.intercalate mapSeparator
    ((placed.filter (·.isIncluded)).map (·.entry format))
  included : m.included = (placed.filter (·.isIncluded)).map (·.listed.file.path)
  collapsed : m.collapsed = (placed.filter (·.outcome == .folded)).map (·.listed.file.path)
  truncated : m.truncated = (placed.filter (!·.isIncluded)).map (·.listed.file.path)

theorem accounts_place (measure : Measure) (depth : Depth) (format : MapFormat) (budget : Int)
    (files : List File) :
    (packCodeMap measure depth format budget files).Accounts format (prioritize depth files)
      (place measure format budget.toNat true (prioritize depth files)) := by
  refine ⟨?_, ?_, rfl, rfl, ?_⟩
  · exact map_listed_place measure format budget.toNat true _
  · exact join_pieces measure format budget.toNat _
  · simp [packCodeMap, pathsWhere, Placed.isIncluded, bne]

theorem packCodeMap_accounts (measure : Measure) (depth : Depth) (format : MapFormat)
    (budget : Int) (files : List File) :
    ∃ placed, (packCodeMap measure depth format budget files).Accounts format
      (prioritize depth files) placed :=
  ⟨_, accounts_place measure depth format budget files⟩

namespace CodeMap.Accounts

variable {m : CodeMap} {format : MapFormat} {files : List Listed} {placed : List Placed}

theorem paths_eq (h : m.Accounts format files placed) :
    placed.map (·.listed.file.path) = files.map (·.file.path) := by
  rw [← h.listed, List.map_map]
  rfl

/-- Every file is on exactly one of the two lists. -/
theorem perm (h : m.Accounts format files placed) :
    (m.included ++ m.truncated).Perm (files.map (·.file.path)) := by
  rw [h.included, h.truncated, ← h.paths_eq, ← List.map_append]
  exact (List.filter_append_perm _ placed).map _

theorem included_sublist (h : m.Accounts format files placed) :
    m.included.Sublist (files.map (·.file.path)) := by
  rw [h.included, ← h.paths_eq]
  exact List.filter_sublist.map _

theorem truncated_sublist (h : m.Accounts format files placed) :
    m.truncated.Sublist (files.map (·.file.path)) := by
  rw [h.truncated, ← h.paths_eq]
  exact List.filter_sublist.map _

theorem collapsed_sublist (h : m.Accounts format files placed) :
    m.collapsed.Sublist m.included := by
  rw [h.collapsed, h.included]
  refine List.Sublist.map _ (List.monotone_filter_right _ fun p hp ↦ ?_)
  have hfolded : p.outcome = .folded := by simpa using hp
  simp [Placed.isIncluded, hfolded]

end CodeMap.Accounts

/-- A map is within its budget, and no map is within less than nothing. -/
theorem tokens_packCodeMap_le (depth : Depth) (format : MapFormat) (budget : Int)
    (files : List File) :
    (packCodeMap estimate depth format budget files).tokens ≤ budget.toNat := by
  have hsum := sum_measure_place_le estimate format Budget.estimate_empty budget.toNat true
    (prioritize depth files)
  have hjoin := Budget.estimate_join_le
    ((place estimate format budget.toNat true (prioritize depth files)).map (·.piece))
  rw [List.map_map] at hjoin
  exact Nat.le_trans hjoin hsum

/-! ## Files with something to show -/

theorem mem_prioritize_iff {depth : Depth} {files : List File} {x : Listed} :
    x ∈ prioritize depth files ↔
      x.file ∈ files ∧ x.entries = selectEntries depth x.file ∧ x.entries ≠ [] := by
  rw [prioritize, List.mem_mergeSort, List.mem_filter, List.mem_map]
  constructor
  · rintro ⟨⟨file, hfile, rfl⟩, hne⟩
    exact ⟨hfile, rfl, by simpa using hne⟩
  · rintro ⟨hfile, hentries, hne⟩
    refine ⟨⟨x.file, hfile, ?_⟩, by simpa using hne⟩
    rw [← hentries]

/-- If no two files have the same path, neither have two files of the map. -/
theorem nodup_paths_prioritize {depth : Depth} {files : List File}
    (h : (files.map (·.path)).Nodup) :
    ((prioritize depth files).map (·.file.path)).Nodup := by
  have hperm := (List.mergeSort_perm ((files.map fun file ↦
    (⟨file, selectEntries depth file⟩ : Listed)).filter fun x ↦ !x.entries.isEmpty)
    Listed.notAfter).map (·.file.path)
  rw [prioritize, hperm.nodup_iff]
  refine h.sublist ?_
  have hmap : (files.map fun file ↦ (⟨file, selectEntries depth file⟩ : Listed)).map
      (·.file.path) = files.map (·.path) := by
    rw [List.map_map]
    rfl
  rw [← hmap]
  exact List.filter_sublist.map _

end Dossier.Document

import Dossier.Proofs.Document.Funding

/-!
# Fair shares of the code map

The cap of a file is an even part of what is left when its turn comes. A file takes no more than
its cap, so that those behind it have at least as large a cap each, and a file that is left out
takes nothing. Hence caps never fall along a run, and an even part of the whole budget is enough for
a file whatever the other files are.
-/

namespace Dossier.Document

open Outline (File)

/-! ## Runs -/

/-- The decisions by which a map is packed. -/
def decisions (measure : Measure) (depth : Depth) (format : MapFormat) (budget : Int)
    (files : List File) : List Placed :=
  place measure format budget.toNat true (prioritize depth files)

theorem accounts_decisions (measure : Measure) (depth : Depth) (format : MapFormat) (budget : Int)
    (files : List File) :
    (packCodeMap measure depth format budget files).Accounts format (prioritize depth files)
      (decisions measure depth format budget files) :=
  accounts_place measure depth format budget files

/-- What files take of the budget together. -/
def spent (measure : Measure) (placed : List Placed) : Nat :=
  (placed.map (·.cost measure)).sum

@[simp] theorem spent_nil (measure : Measure) : spent measure [] = 0 := rfl

@[simp] theorem spent_cons (measure : Measure) (p : Placed) (rest : List Placed) :
    spent measure (p :: rest) = p.cost measure + spent measure rest := rfl

/-- The cap of the file at a position: what those before it leave, over the number of those that are
left. -/
def capAt (measure : Measure) (room : Nat) (placed : List Placed) (i : Nat) : Nat :=
  (room - spent measure (placed.take i)) / (placed.length - i)

@[simp] theorem capAt_zero (measure : Measure) (room : Nat) (placed : List Placed) :
    capAt measure room placed 0 = room / placed.length := rfl

@[simp] theorem capAt_cons_succ (measure : Measure) (room : Nat) (p : Placed) (rest : List Placed)
    (i : Nat) :
    capAt measure room (p :: rest) (i + 1) = capAt measure (room - p.cost measure) rest i := by
  simp only [capAt, List.take_succ_cons, spent_cons, List.length_cons, Nat.sub_sub,
    Nat.add_sub_add_right]

/-- What stands in front of an entry behind these files. -/
def separatorAfter (placed : List Placed) : String :=
  if placed.any (·.isIncluded) then mapSeparator else ""

theorem measure_separatorAfter_le {measure : Measure}
    (hseparator : ∀ s, measure s ≤ measure (mapSeparator ++ s)) (placed : List Placed)
    (s : String) : measure (separatorAfter placed ++ s) ≤ measure (mapSeparator ++ s) := by
  rw [separatorAfter]
  split
  · exact le_refl _
  · simpa using hseparator s

/-! ## All files -/

section Place

variable (measure : Measure) (format : MapFormat)

/-- Every file is decided under its cap, behind a separator if there is something before it. -/
theorem decided_of_mem_place {remaining : Nat} {first : Bool} {files : List Listed} {i : Nat} :
    ∀ p ∈ (place measure format remaining first files)[i]?,
      p = placeOne measure format
        (capAt measure remaining (place measure format remaining first files) i)
        (if first then separatorAfter ((place measure format remaining first files).take i)
          else mapSeparator) p.listed := by
  induction files generalizing remaining first i with
  | nil => simp [place]
  | cons x rest ih =>
      obtain ⟨q, hq, hplace⟩ := place_cons_decided measure format remaining first x rest
      have hlisted : q.listed = x := hq ▸ listed_placeOne ..
      rw [hplace]
      cases i with
      | zero =>
          intro p hp
          obtain rfl : q = p := by simpa using hp
          simpa [separatorAfter, hlisted] using hq
      | succ i =>
          -- What is behind the first file is decided as if nothing were before it, but for the
          -- separator if that file is on the map.
          intro p hp
          rw [List.getElem?_cons_succ] at hp
          have hrest := ih p hp
          rw [capAt_cons_succ, List.take_succ_cons]
          cases first <;> cases hin : q.isIncluded <;>
            simpa [hin, separatorAfter] using hrest

/-- An entry that costs no more than a share within the cap is on the map, as it is or folded. -/
theorem shown_of_le_capAt {share room : Nat} {files : List Listed} {i : Nat} {p : Placed}
    (hp : p ∈ (place measure format room true files)[i]?)
    (hshare : share ≤ capAt measure room (place measure format room true files) i) :
    let separator := separatorAfter ((place measure format room true files).take i)
    (measure (separator ++ mapEntry format false p.listed) ≤ share → p.outcome = .verbatim) ∧
      (measure (separator ++ mapEntry format true p.listed) ≤ share → p.isIncluded = true) := by
  intro separator
  have hdecided := decided_of_mem_place measure format p hp
  rw [if_pos rfl] at hdecided
  rw [hdecided, listed_placeOne]
  constructor
  · intro hwhole
    apply (outcome_placeOne_eq_verbatim_iff measure format).mpr
    exact hwhole.trans hshare
  · intro hshort
    apply (isIncluded_placeOne_iff measure format).mpr
    exact .inr (hshort.trans hshare)

/-- What is left for every file stays left for those behind a file that keeps to its cap. -/
theorem mul_le_sub_of_le_div {share cost room k : Nat} (hshare : share * (k + 1) ≤ room)
    (hcost : cost ≤ room / (k + 1)) : share * k ≤ room - cost := by
  rw [Nat.le_div_iff_mul_le (Nat.succ_pos k)] at hcost
  rw [Nat.mul_succ] at hshare hcost
  rcases Nat.le_total cost share with hle | hle
  · omega
  · have hmul := Nat.mul_le_mul_right k hle
    omega

/-- If there is room for a share of each file, every cap is at least that share. -/
theorem le_capAt_place {share remaining : Nat} {first : Bool} {files : List Listed}
    (hshare : share * files.length ≤ remaining) {i : Nat} (hi : i < files.length) :
    share ≤ capAt measure remaining (place measure format remaining first files) i := by
  induction files generalizing remaining first i with
  | nil => exact absurd hi (Nat.not_lt_zero i)
  | cons x rest ih =>
      obtain ⟨q, hq, hplace⟩ := place_cons_decided measure format remaining first x rest
      have hcost : q.cost measure ≤ remaining / (rest.length + 1) :=
        hq ▸ cost_placeOne_le measure format _ _ x
      rw [List.length_cons] at hshare hi
      rw [hplace]
      cases i with
      | zero =>
          rw [capAt_zero, List.length_cons, length_place]
          exact (Nat.le_div_iff_mul_le (Nat.succ_pos _)).mpr hshare
      | succ i =>
          rw [capAt_cons_succ]
          apply ih
          · exact mul_le_sub_of_le_div hshare hcost
          · omega

/-- Caps never fall along a run. -/
theorem capAt_place_mono {remaining : Nat} {first : Bool} {files : List Listed} {i j : Nat}
    (hij : i ≤ j) (hj : j < files.length) :
    capAt measure remaining (place measure format remaining first files) i ≤
      capAt measure remaining (place measure format remaining first files) j := by
  induction files generalizing remaining first i j with
  | nil => exact absurd hj (Nat.not_lt_zero j)
  | cons x rest ih =>
      cases i with
      | zero =>
          -- The cap of the first file is a share that the whole budget covers for each of them.
          apply le_capAt_place measure format _ hj
          rw [capAt_zero, length_place]
          exact Nat.div_mul_le_self _ _
      | succ i =>
          obtain ⟨j, rfl⟩ : ∃ k, j = k + 1 := ⟨j - 1, by omega⟩
          obtain ⟨q, -, hplace⟩ := place_cons_decided measure format remaining first x rest
          rw [hplace, capAt_cons_succ, capAt_cons_succ]
          apply ih
          · omega
          · simpa using hj

end Place

/-! ## Maps -/

/-- Every file of a map is decided under a cap of its own, and the caps never fall in the order of
rank. So an entry that costs no more than an even part of the whole budget is on the map, as it is
or folded, whatever the other files are. -/
theorem fair_share_suffices (measure : Measure) (depth : Depth) (format : MapFormat) (budget : Int)
    (files : List File) :
    let placed := decisions measure depth format budget files
    let cap := capAt measure budget.toNat placed
    let share := budget.toNat / (prioritize depth files).length
    (packCodeMap measure depth format budget files).Accounts format (prioritize depth files)
        placed ∧
      (∀ i, ∀ p ∈ placed[i]?,
        p = placeOne measure format (cap i) (separatorAfter (placed.take i)) p.listed) ∧
      (∀ i j, i ≤ j → j < placed.length → cap i ≤ cap j) ∧
      (∀ i, ∀ p ∈ placed[i]?,
        (measure (separatorAfter (placed.take i) ++ mapEntry format false p.listed) ≤ share →
          p.outcome = .verbatim) ∧
        (measure (separatorAfter (placed.take i) ++ mapEntry format true p.listed) ≤ share →
          p.isIncluded = true)) ∧
      ((∀ s, measure s ≤ measure (mapSeparator ++ s)) → ∀ p ∈ placed,
        (measure (mapSeparator ++ mapEntry format false p.listed) ≤ share →
          p.outcome = .verbatim) ∧
        (measure (mapSeparator ++ mapEntry format true p.listed) ≤ share →
          p.isIncluded = true)) := by
  intro placed cap share
  have hlength : placed.length = (prioritize depth files).length := length_place ..
  have hmono : ∀ i j, i ≤ j → j < placed.length → cap i ≤ cap j := by
    intro i j hij hj
    exact capAt_place_mono measure format hij (hlength ▸ hj)
  have hfair : ∀ i, ∀ p ∈ placed[i]?, share ≤ cap i := by
    intro i p hp
    obtain ⟨hi, -⟩ := List.getElem?_eq_some_iff.mp hp
    exact le_capAt_place measure format (Nat.div_mul_le_self _ _) (hlength ▸ hi)
  refine ⟨accounts_decisions .., fun _ ↦ decided_of_mem_place measure format, hmono, ?_, ?_⟩
  · intro i p hp
    exact shown_of_le_capAt measure format hp (hfair i p hp)
  · intro hseparator p hp
    obtain ⟨i, hi⟩ := List.mem_iff_getElem?.mp hp
    obtain ⟨hverbatim, hincluded⟩ := shown_of_le_capAt measure format hi (hfair i p hi)
    have hless := measure_separatorAfter_le hseparator (placed.take i)
    constructor
    · intro hwhole
      exact hverbatim ((hless _).trans hwhole)
    · intro hshort
      exact hincluded ((hless _).trans hshort)

/-- A file with an interface that takes several lines. -/
def shapeFile : File :=
  { path := "shape.d.ts", language := "typescript"
    entries := [{ kind := .interface, name := "Shape"
                  signature := "interface Shape \x7b\n  width: number\n  height: number\n\x7d" }] }

/-- Half of the budget covers the function as it is, and the interface only if it is folded. -/
theorem fair_share_suffices_two : ∃ p q,
    decisions Budget.estimate .all .signatures 32 [fileWith "main.go" "func f()", shapeFile] =
      [p, q] ∧
    Budget.estimate (mapSeparator ++ mapEntry .signatures false p.listed) ≤ 16 ∧
    p.outcome = .verbatim ∧
    16 < Budget.estimate (mapSeparator ++ mapEntry .signatures false q.listed) ∧
    Budget.estimate (mapSeparator ++ mapEntry .signatures true q.listed) ≤ 16 ∧
    q.isIncluded = true := by
  have hranked : prioritize .all [fileWith "main.go" "func f()", shapeFile] =
      [fileWith "main.go" "func f()", shapeFile].map fun file ↦ ⟨file, file.entries⟩ :=
    prioritize_of_pairwise (by decide +kernel) (by decide)
  obtain ⟨haccounts, -, -, -, hfair⟩ :=
    fair_share_suffices Budget.estimate .all .signatures 32
      [fileWith "main.go" "func f()", shapeFile]
  have hlisted := haccounts.listed
  rw [hranked] at hlisted
  obtain ⟨p, rest, hplaced, hp, hrest⟩ := List.map_eq_cons_iff.mp hlisted
  obtain ⟨q, rest, rfl, hq, hnil⟩ := List.map_eq_cons_iff.mp hrest
  obtain rfl := List.map_eq_nil_iff.mp hnil
  rw [hranked, hplaced] at hfair
  obtain ⟨hverbatim, -⟩ := hfair estimate_le_separated p (by simp)
  obtain ⟨-, hincluded⟩ := hfair estimate_le_separated q (by simp)
  rw [hp] at hverbatim
  rw [hq] at hincluded
  refine ⟨p, q, hplaced, ?_⟩
  rw [hp, hq]
  exact ⟨by decide +kernel, hverbatim (by decide +kernel), by decide +kernel, by decide +kernel,
    hincluded (by decide +kernel)⟩

end Dossier.Document

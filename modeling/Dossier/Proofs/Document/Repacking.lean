import Dossier.Proofs.Document.Coverage
import Dossier.Proofs.Document.FairShare

/-!
# Packing again with more room

Two runs over the same files decide alike until one decides better. With more room that is the run
with more room, for until then both have taken the same of it. What comes after may fare worse: a
file that is shown better may take more than what there is more room, and those behind it pay for
that. So a file is lost in a larger share only behind one that has gained.
-/

namespace Dossier.Document

open Budget (Tokenizer)
open Outline (File)

/-! ## Outcomes -/

/-- How much of a file an outcome shows. -/
def Outcome.worth : Outcome → Nat
  | .dropped => 0
  | .folded => 1
  | .verbatim => 2

theorem Outcome.worth_injective : Function.Injective Outcome.worth := by
  intro o o' h
  cases o <;> cases o' <;> first
    | rfl
    | exact absurd h (by decide)

theorem Placed.isIncluded_iff {p : Placed} : p.isIncluded = true ↔ 0 < p.outcome.worth := by
  cases houtcome : p.outcome <;> simp [Placed.isIncluded, Outcome.worth, houtcome]

/-- The first difference between two series of outcomes is at a position, and the second has the
better outcome there. -/
def GainsAt (outcomes outcomes' : List Outcome) (j : Nat) : Prop :=
  (∀ k < j, outcomes[k]? = outcomes'[k]?) ∧
    ∃ o ∈ outcomes[j]?, ∃ o' ∈ outcomes'[j]?, o.worth < o'.worth

theorem gainsAt_zero {o o' : Outcome} {rest rest' : List Outcome} (h : o.worth < o'.worth) :
    GainsAt (o :: rest) (o' :: rest') 0 := by
  refine ⟨?_, o, rfl, o', rfl, h⟩
  intro k hk
  exact absurd hk (Nat.not_lt_zero k)

theorem GainsAt.cons {outcomes outcomes' : List Outcome} {j : Nat}
    (h : GainsAt outcomes outcomes' j) (o : Outcome) :
    GainsAt (o :: outcomes) (o :: outcomes') (j + 1) := by
  obtain ⟨hsame, hgain⟩ := h
  refine ⟨?_, hgain⟩
  intro k hk
  cases k with
  | zero => rfl
  | succ k => exact hsame k (by omega)

/-- An outcome that gets worse stands behind one that gets better. -/
theorem GainsAt.lt_of_worse {outcomes outcomes' : List Outcome} {j i : Nat}
    (h : GainsAt outcomes outcomes' j) {o o' : Outcome} (ho : outcomes[i]? = some o)
    (ho' : outcomes'[i]? = some o') (hworse : o'.worth < o.worth) : j < i := by
  obtain ⟨hsame, q, hq, q', hq', hgain⟩ := h
  by_contra hle
  rcases Nat.lt_or_eq_of_le (Nat.le_of_not_lt hle) with hlt | rfl
  · have heq := hsame i hlt
    rw [ho, ho'] at heq
    obtain rfl := Option.some.inj heq
    exact Nat.lt_irrefl _ hworse
  · obtain rfl := Option.some.inj (ho.symm.trans hq)
    obtain rfl := Option.some.inj (ho'.symm.trans hq')
    omega

section Place

variable (measure : Measure) (format : MapFormat)

theorem worth_placeOne_mono {cap cap' : Nat} (hcap : cap ≤ cap') (separator : String) (x : Listed) :
    (placeOne measure format cap separator x).outcome.worth ≤
      (placeOne measure format cap' separator x).outcome.worth := by
  cases houtcome : (placeOne measure format cap separator x).outcome with
  | dropped => exact Nat.zero_le _
  | folded =>
      have hin : (placeOne measure format cap separator x).isIncluded = true := by
        simp [Placed.isIncluded, houtcome]
      rw [isIncluded_placeOne_iff] at hin
      have hin' : (placeOne measure format cap' separator x).isIncluded = true :=
        (isIncluded_placeOne_iff measure format).mpr
          (hin.imp (fun h ↦ h.trans hcap) fun h ↦ h.trans hcap)
      exact Placed.isIncluded_iff.mp hin'
  | verbatim =>
      rw [outcome_placeOne_eq_verbatim_iff] at houtcome
      rw [(outcome_placeOne_eq_verbatim_iff measure format).mpr (houtcome.trans hcap)]

/-- What a decision adds to the map is told by its outcome. -/
theorem piece_placeOne (cap : Nat) (separator : String) (x : Listed) :
    (placeOne measure format cap separator x).piece =
      if (placeOne measure format cap separator x).isIncluded then
        separator ++ (placeOne measure format cap separator x).entry format
      else "" := by
  obtain ⟨-, ⟨hin, hpiece, -⟩ | ⟨hout, hpiece⟩⟩ := placeOne_cases measure format cap separator x
  · rw [if_pos hin, hpiece]
  · rw [if_neg (by simp [hout]), hpiece]

theorem placeOne_eq_of_outcome_eq {cap cap' : Nat} {separator : String} {x : Listed}
    (h : (placeOne measure format cap separator x).outcome =
      (placeOne measure format cap' separator x).outcome) :
    placeOne measure format cap separator x = placeOne measure format cap' separator x := by
  have hlisted := listed_placeOne measure format cap separator x
  have hlisted' := listed_placeOne measure format cap' separator x
  have hpiece := piece_placeOne measure format cap separator x
  have hpiece' := piece_placeOne measure format cap' separator x
  generalize placeOne measure format cap separator x = p at *
  generalize placeOne measure format cap' separator x = p' at *
  obtain ⟨y, o, piece⟩ := p
  obtain ⟨y', o', piece'⟩ := p'
  obtain rfl : o = o' := h
  obtain rfl : y = x := hlisted
  obtain rfl : y' = y := hlisted'
  exact congrArg _ (hpiece.trans hpiece'.symm)

/-- With more room the outcomes are the same, or the first one that is different is better. -/
theorem place_gains {remaining remaining' : Nat} (hroom : remaining ≤ remaining') (first : Bool)
    (files : List Listed) :
    (place measure format remaining first files).map (·.outcome) =
        (place measure format remaining' first files).map (·.outcome) ∨
      ∃ j, GainsAt ((place measure format remaining first files).map (·.outcome))
        ((place measure format remaining' first files).map (·.outcome)) j := by
  induction files generalizing remaining remaining' first with
  | nil => exact .inl rfl
  | cons x rest ih =>
      obtain ⟨p, hp, hplace⟩ := place_cons_decided measure format remaining first x rest
      obtain ⟨p', hp', hplace'⟩ := place_cons_decided measure format remaining' first x rest
      have hcap : remaining / (rest.length + 1) ≤ remaining' / (rest.length + 1) :=
        Nat.div_le_div_right hroom
      have hworth : p.outcome.worth ≤ p'.outcome.worth := by
        rw [hp, hp']
        exact worth_placeOne_mono measure format hcap _ x
      rw [hplace, hplace', List.map_cons, List.map_cons]
      -- As long as the outcomes agree both runs take the same, so that the room of the second stays
      -- the larger one.
      by_cases hsame : p.outcome = p'.outcome
      · obtain rfl : p = p' := by
          rw [hp, hp'] at hsame ⊢
          exact placeOne_eq_of_outcome_eq measure format hsame
        rcases ih (Nat.sub_le_sub_right hroom (p.cost measure)) (first && !p.isIncluded) with
          heq | ⟨j, hj⟩
        · left
          rw [heq]
        · right
          exact ⟨j + 1, hj.cons p.outcome⟩
      · right
        refine ⟨0, gainsAt_zero ?_⟩
        exact lt_of_le_of_ne hworth (Outcome.worth_injective.ne hsame)

/-! ## Files that are lost -/

/-- The file at a position is overtaken: the first file that fares otherwise stands before it and
fares better, and those before it take more than what there is more room, unless it has come to
stand behind a separator. -/
structure OvertakenAt (room room' : Nat) (placed placed' : List Placed) (i : Nat) : Prop where
  gain : ∃ j < i, GainsAt (placed.map (·.outcome)) (placed'.map (·.outcome)) j
  outspent : separatorAfter (placed.take i) = separatorAfter (placed'.take i) →
    room' + spent measure (placed.take i) < room + spent measure (placed'.take i)

theorem listed_eq_of_mem_place {room room' : Nat} {files : List Listed} {i : Nat} {p p' : Placed}
    (hp : p ∈ (place measure format room true files)[i]?)
    (hp' : p' ∈ (place measure format room' true files)[i]?) : p.listed = p'.listed := by
  have hfile : files[i]? = some p.listed := by
    rw [← map_listed_place measure format room true files, List.getElem?_map, hp]
    rfl
  rw [← map_listed_place measure format room' true files, List.getElem?_map, hp'] at hfile
  exact (Option.some.inj hfile).symm

theorem worth_le_of_capAt_le {room room' : Nat} {files : List Listed} {i : Nat} {p p' : Placed}
    (hp : p ∈ (place measure format room true files)[i]?)
    (hp' : p' ∈ (place measure format room' true files)[i]?)
    (hcap : capAt measure room (place measure format room true files) i ≤
      capAt measure room' (place measure format room' true files) i)
    (hseparator : separatorAfter ((place measure format room true files).take i) =
      separatorAfter ((place measure format room' true files).take i)) :
    p.outcome.worth ≤ p'.outcome.worth := by
  have hlisted : p.listed = p'.listed := listed_eq_of_mem_place measure format hp hp'
  have hdecided := decided_of_mem_place measure format p hp
  have hdecided' := decided_of_mem_place measure format p' hp'
  rw [if_pos rfl] at hdecided hdecided'
  rw [hdecided, hdecided', hseparator, hlisted]
  exact worth_placeOne_mono measure format hcap _ _

/-- A file that is shown worse with more room is overtaken. -/
theorem overtakenAt_of_worse {room room' : Nat} (hroom : room ≤ room') {files : List Listed}
    {i : Nat} {p p' : Placed} (hp : p ∈ (place measure format room true files)[i]?)
    (hp' : p' ∈ (place measure format room' true files)[i]?)
    (hworse : p'.outcome.worth < p.outcome.worth) :
    OvertakenAt measure room room' (place measure format room true files)
      (place measure format room' true files) i := by
  constructor
  case gain =>
    have houtcome : ((place measure format room true files).map (·.outcome))[i]? =
        some p.outcome := by
      rw [List.getElem?_map, hp]
      rfl
    have houtcome' : ((place measure format room' true files).map (·.outcome))[i]? =
        some p'.outcome := by
      rw [List.getElem?_map, hp']
      rfl
    rcases place_gains measure format hroom true files with heq | ⟨j, hj⟩
    · rw [heq, houtcome'] at houtcome
      rw [Option.some.inj houtcome] at hworse
      exact absurd hworse (Nat.lt_irrefl _)
    · exact ⟨j, hj.lt_of_worse houtcome houtcome' hworse, hj⟩
  case outspent =>
    intro hseparator
    by_contra hnot
    have hcap : capAt measure room (place measure format room true files) i ≤
        capAt measure room' (place measure format room' true files) i := by
      rw [capAt, capAt, length_place, length_place]
      apply Nat.div_le_div_right
      omega
    have hworth := worth_le_of_capAt_le measure format hp hp' hcap hseparator
    omega

end Place

/-! ## Maps -/

/-- More room makes the outcomes no worse at first: where they begin to differ, the file there is
shown better. -/
theorem first_difference_gains (measure : Measure) (depth : Depth) (format : MapFormat)
    {budget budget' : Int} (hbudget : budget ≤ budget') (files : List File) :
    let placed (room : Int) := decisions measure depth format room files
    let outcomes (room : Int) := (placed room).map (·.outcome)
    (∀ room, (packCodeMap measure depth format room files).Accounts format
      (prioritize depth files) (placed room)) ∧
      (outcomes budget ≠ outcomes budget' →
        ∃ j, GainsAt (outcomes budget) (outcomes budget') j) := by
  intro placed outcomes
  refine ⟨fun room ↦ accounts_decisions measure depth format room files, ?_⟩
  intro hdiffer
  have hroom : budget.toNat ≤ budget'.toNat := Int.toNat_le_toNat hbudget
  exact (place_gains measure format hroom true (prioritize depth files)).resolve_left hdiffer

/-- Two files of which the one that is ranked last takes more. -/
def unevenFiles : List File :=
  [fileWith "main.go" "func f()", fileWith "x.go" "func f(n int, names []string)"]

theorem prioritize_unevenFiles :
    prioritize .all unevenFiles = unevenFiles.map fun file ↦ ⟨file, file.entries⟩ :=
  prioritize_of_pairwise (by decide +kernel) (by decide)

/-- The first file is left out with less room and shown with more. -/
theorem first_difference_gains_two : (15 : Int) ≤ 20 ∧
    ∃ j, GainsAt ((decisions Budget.estimate .all .signatures 15 unevenFiles).map (·.outcome))
      ((decisions Budget.estimate .all .signatures 20 unevenFiles).map (·.outcome)) j := by
  have hle : (15 : Int) ≤ 20 := by decide
  obtain ⟨-, hgains⟩ := first_difference_gains Budget.estimate .all .signatures hle unevenFiles
  refine ⟨hle, hgains ?_⟩
  simp only [decisions, prioritize_unevenFiles]
  decide +kernel

/-- A file of the map that is packed with less room is on the one with more room too, unless it is
overtaken. -/
def KeptUnlessOvertaken (measure : Measure) (depth : Depth) (format : MapFormat)
    (budget budget' : Int) (files : List File) : Prop :=
  ∀ path ∈ (packCodeMap measure depth format budget files).included,
    path ∉ (packCodeMap measure depth format budget' files).included →
      ∃ i, (∃ p ∈ (decisions measure depth format budget files)[i]?,
          p.listed.file.path = path ∧ p.isIncluded = true) ∧
        OvertakenAt measure budget.toNat budget'.toNat (decisions measure depth format budget files)
          (decisions measure depth format budget' files) i

theorem keptUnlessOvertaken (measure : Measure) (depth : Depth) (format : MapFormat)
    {budget budget' : Int} (hbudget : budget ≤ budget') (files : List File) :
    KeptUnlessOvertaken measure depth format budget budget' files := by
  intro path hpath hlost
  have haccounts := accounts_decisions measure depth format budget files
  have haccounts' := accounts_decisions measure depth format budget' files
  rw [haccounts.included] at hpath
  rw [haccounts'.included] at hlost
  obtain ⟨p, hp, rfl⟩ := List.mem_map.mp hpath
  obtain ⟨hp, hin⟩ := List.mem_filter.mp hp
  obtain ⟨i, hi⟩ := List.mem_iff_getElem?.mp hp
  obtain ⟨p', hi'⟩ : ∃ p', (decisions measure depth format budget' files)[i]? = some p' := by
    obtain ⟨hlt, -⟩ := List.getElem?_eq_some_iff.mp hi
    have hlength : (decisions measure depth format budget files).length =
        (decisions measure depth format budget' files).length :=
      (length_place ..).trans (length_place ..).symm
    exact ⟨_, List.getElem?_eq_getElem (hlength ▸ hlt)⟩
  have hlisted : p.listed = p'.listed := listed_eq_of_mem_place measure format hi hi'
  have hout : ¬ p'.isIncluded = true := by
    intro hin'
    apply hlost
    rw [hlisted]
    exact List.mem_map.mpr ⟨p', List.mem_filter.mpr ⟨List.mem_of_getElem? hi', hin'⟩, rfl⟩
  refine ⟨i, ⟨p, hi, rfl, hin⟩, ?_⟩
  apply overtakenAt_of_worse measure format (Int.toNat_le_toNat hbudget) hi hi'
  rw [Placed.isIncluded_iff] at hin hout
  omega

/-! ## Runs -/

/-- With more room a file is lost from the map only behind one that has gained: the first file that
fares otherwise is ranked before it and is shown better, and those before it take more than what
there is more room, unless the file has come to stand behind a separator. So it is in a run, where
the map that is shown has the larger of its two shares. -/
theorem lost_only_if_overtaken :
    (∀ (measure : Measure) (depth : Depth) (format : MapFormat) (budget budget' : Int)
      (files : List File), budget ≤ budget' →
        KeptUnlessOvertaken measure depth format budget budget' files) ∧
      ∀ {fs fs' : FileSystem} {services : Services} {t t' : Tokenizer} {request : Request}
        {compiled : Compiled}, compile fs services t request = (.ok (compiled, fs'), t') →
        ∃ root settings notices found,
          prepare services.yaml fs request.root = .ok (root, settings, notices) ∧
          survey fs services root settings request.profile = .ok found ∧
          let budget := request.budget.getD settings.budget
          let share := (split t'.measure found.profile.name budget).get .codeMap
          let share' := max share (compiled.allocation.get .codeMap)
          let shown := codeMapOf t'.measure settings found share'
          compiled.contentOn .codeMap = shown.content ∧ compiled.truncated = shown.truncated ∧
            KeptUnlessOvertaken t'.measure settings.depth settings.format share share'
              found.outlines := by
  constructor
  · intro measure depth format budget budget' files hbudget
    exact keptUnlessOvertaken measure depth format hbudget files
  · intro fs fs' services t t' request compiled hrun
    obtain ⟨-, root, settings, notices, found, contents, remarks, hprepare, hsurvey, -, rfl⟩ :=
      compile_ok hrun
    refine ⟨root, settings, notices, found, hprepare, hsurvey, ?_⟩
    intro budget share share' shown
    have hshown : lastMap t'.measure budget settings found contents = shown :=
      lastMap_eq t'.measure budget settings found contents
    refine ⟨?_, ?_, keptUnlessOvertaken _ _ _ (le_max_left _ _) _⟩
    · rw [← hshown]
      exact contentOn_of_sections_eq (by rw [Compiled.withRemarks, finish_eq]) .codeMap
    · rw [← hshown]
      rfl

/-- The findings about a project of two files. -/
def unevenFindings : Findings :=
  { profile := { name := "p" }, files := ["main.go", "x.go"], sources := ["main.go", "x.go"]
    outlines := unevenFiles, warnings := [], progress := [] }

/-- Contents of which the notes are empty, and the others take what their shares are. -/
def notelessContents : Contents :=
  { overview := "A program.", tree := "p/\n└── main.go", knowledge := "", warnings := []
    keyFiles := "# Notes\n\nHow to use this program.\n" }

/-- The file that is ranked last is on the map alone if there is less room, and is left out for the
other one if there is more. A document whose notes leave their share to the code map loses it. -/
theorem larger_share_loses_last :
    ("x.go" ∈ (packCodeMap Budget.estimate .all .signatures 15 unevenFiles).included ∧
      "x.go" ∉ (packCodeMap Budget.estimate .all .signatures 20 unevenFiles).included) ∧
    let first := (split Budget.estimate "p" 78).get .codeMap
    let compiled := finish Budget.estimate { depth := .all } 78 unevenFindings notelessContents
    first = 15 ∧ compiled.allocation.get .codeMap = 20 ∧ compiled.truncated = ["x.go"] := by
  simp only [finish, codeMapOf, packCodeMap, repacked, unevenFindings, prioritize_unevenFiles]
  decide +kernel

/-- The file that is lost has been overtaken, and a run on one source shows the map of its larger
share. -/
theorem lost_only_if_overtaken_two :
    (∃ i, OvertakenAt Budget.estimate 15 20
      (decisions Budget.estimate .all .signatures 15 unevenFiles)
      (decisions Budget.estimate .all .signatures 20 unevenFiles) i) ∧
    ∃ compiled t' settings found share share',
      compile (projectWith "run.go" goSource) bareServices {} (dryRequest (some { name := "p" })) =
        (.ok (compiled, projectWith "run.go" goSource), t') ∧
      compiled.contentOn .codeMap = (codeMapOf t'.measure settings found share').content ∧
      KeptUnlessOvertaken t'.measure settings.depth settings.format share share'
        found.outlines := by
  obtain ⟨hmaps, hruns⟩ := lost_only_if_overtaken
  constructor
  · have hin : "x.go" ∈ (packCodeMap Budget.estimate .all .signatures 15 unevenFiles).included := by
      simp only [packCodeMap, prioritize_unevenFiles]
      decide +kernel
    have hout :
        "x.go" ∉ (packCodeMap Budget.estimate .all .signatures 20 unevenFiles).included := by
      simp only [packCodeMap, prioritize_unevenFiles]
      decide +kernel
    obtain ⟨i, -, hovertaken⟩ := hmaps Budget.estimate .all .signatures 15 20 unevenFiles
      (by decide) "x.go" hin hout
    exact ⟨i, hovertaken⟩
  · obtain ⟨compiled, t', hrun⟩ := source_returns { name := "p" }
    obtain ⟨root, settings, notices, found, -, -, hcontent, -, hkept⟩ := hruns hrun
    exact ⟨compiled, t', settings, found, _, _, hrun, hcontent, hkept⟩

end Dossier.Document

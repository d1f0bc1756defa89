import Dossier.Text.Runs
import Mathlib.Data.List.DropRight

/-!
# Edited runs

Editing the runs of a text goes through the text from run to run. So what holds of an edited text can
be shown for a single character, for an edited run and for what comes after either.
-/

namespace Dossier.Text

section

variable {p : Char → Bool} {edit : List Char → List Char} {c : Char} {cs run rest : List Char}

/-! ## From run to run -/

@[simp] theorem mapRunsChars_nil : mapRunsChars p edit [] = [] := rfl

theorem mapRunsChars_cons (h : p c = false) :
    mapRunsChars p edit (c :: cs) = c :: mapRunsChars p edit cs := by
  rw [mapRunsChars, List.foldr_cons, extendRun, h]
  rfl

/-- In front of a character outside the class no run is open. -/
theorem fst_foldr_extendRun (h : ∀ c ∈ rest.head?, p c = false) :
    (rest.foldr (extendRun p edit) ([], [])).1 = [] := by
  cases rest with
  | nil => rfl
  | cons c rest => rw [List.foldr_cons, extendRun, h c rfl, if_neg Bool.false_ne_true]

theorem mapRunsChars_append (hne : run ≠ []) (hrun : ∀ c ∈ run, p c = true)
    (hrest : ∀ c ∈ rest.head?, p c = false) :
    mapRunsChars p edit (run ++ rest) = edit run ++ mapRunsChars p edit rest := by
  have hopen : (rest.foldr (extendRun p edit) ([], [])).1 = [] := fst_foldr_extendRun hrest
  have hfold : (run ++ rest).foldr (extendRun p edit) ([], []) =
      (run, (rest.foldr (extendRun p edit) ([], [])).2) := by
    clear hne
    induction run with
    | nil => exact Prod.ext hopen rfl
    | cons c run ih =>
        rw [List.cons_append, List.foldr_cons, ih fun d hd ↦ hrun d (List.mem_cons_of_mem c hd),
          extendRun, if_pos (hrun c List.mem_cons_self)]
  obtain ⟨c, run, rfl⟩ := List.exists_cons_of_ne_nil hne
  rw [mapRunsChars, hfold, closeRun, mapRunsChars, ← Prod.eta (rest.foldr _ _), hopen, closeRun]
  simp

/-- Every text is empty, or begins with a character outside the class, or with a whole run. -/
theorem runs_induction {motive : List Char → Prop} (p : Char → Bool) (nil : motive [])
    (cons : ∀ c cs, p c = false → motive cs → motive (c :: cs))
    (run : ∀ run rest, run ≠ [] → (∀ c ∈ run, p c = true) → (∀ c ∈ rest.head?, p c = false) →
      motive rest → motive (run ++ rest)) (cs : List Char) : motive cs := by
  suffices h : motive cs ∧ ∀ begun, begun ≠ [] → (∀ c ∈ begun, p c = true) → motive (begun ++ cs) from
    h.1
  induction cs with
  | nil => exact ⟨nil, fun begun hne hall ↦ run begun [] hne hall (by simp) nil⟩
  | cons c cs ih =>
      obtain ⟨hcs, hbegun⟩ := ih
      cases hc : p c with
      | false =>
          have hmotive : motive (c :: cs) := cons c cs hc hcs
          exact ⟨hmotive, fun begun hne hall ↦ run begun (c :: cs) hne hall (by simpa using hc) hmotive⟩
      | true =>
          refine ⟨hbegun [c] (by simp) (by simpa using hc), fun begun hne hall ↦ ?_⟩
          rw [← List.singleton_append, ← List.append_assoc]
          refine hbegun (begun ++ [c]) (by simp) fun d hd ↦ ?_
          rcases List.mem_append.mp hd with hd | hd
          · exact hall d hd
          · rwa [List.mem_singleton.mp hd]

/-- Edits that bring in no character bring none into the text. -/
theorem mapRunsChars_subset (h : ∀ run, run ≠ [] → (∀ c ∈ run, p c = true) → edit run ⊆ run)
    (cs : List Char) : mapRunsChars p edit cs ⊆ cs := by
  induction cs using runs_induction p with
  | nil => simp
  | cons c cs hc ih =>
      rw [mapRunsChars_cons hc]
      exact List.cons_subset_cons c ih
  | run run rest hne hrun hrest ih =>
      rw [mapRunsChars_append hne hrun hrest, List.append_subset]
      exact ⟨List.Subset.trans (h run hne hrun) (List.subset_append_left ..),
        List.Subset.trans ih (List.subset_append_right ..)⟩

/-- A text stays as it is if its runs do. -/
theorem mapRunsChars_eq_self
    (h : ∀ run, run ≠ [] → run <:+: cs → (∀ c ∈ run, p c = true) → edit run = run) :
    mapRunsChars p edit cs = cs := by
  induction cs using runs_induction p with
  | nil => rfl
  | cons c cs hc ih =>
      rw [mapRunsChars_cons hc,
        ih fun run hne hpart ↦ h run hne (hpart.trans (List.suffix_cons c cs).isInfix)]
  | run run rest hne hrun hrest ih =>
      rw [mapRunsChars_append hne hrun hrest, h run hne (List.prefix_append run rest).isInfix hrun,
        ih fun part hne hpart ↦ h part hne (hpart.trans (List.suffix_append run rest).isInfix)]

/-- No character of the class is left if no run keeps one. -/
theorem not_of_mem_mapRunsChars
    (h : ∀ run, run ≠ [] → (∀ c ∈ run, p c = true) → ∀ c ∈ edit run, p c = false) (cs : List Char) :
    ∀ c ∈ mapRunsChars p edit cs, p c = false := by
  induction cs using runs_induction p with
  | nil => simp
  | cons c cs hc ih =>
      rw [mapRunsChars_cons hc]
      exact List.forall_mem_cons.mpr ⟨hc, ih⟩
  | run run rest hne hrun hrest ih =>
      rw [mapRunsChars_append hne hrun hrest]
      exact List.forall_mem_append.mpr ⟨h run hne hrun, ih⟩

/-- The beginning of a text is edited to the beginning of the edited text, if that is so for runs. -/
theorem mapRunsChars_prefix
    (h : ∀ begun run, begun ≠ [] → (∀ c ∈ run, p c = true) → begun <+: run → edit begun <+: edit run)
    {begun cs : List Char} (hbegun : begun <+: cs) :
    mapRunsChars p edit begun <+: mapRunsChars p edit cs := by
  induction cs using runs_induction p generalizing begun with
  | nil =>
      obtain rfl := List.prefix_nil.mp hbegun
      exact List.prefix_rfl
  | cons c cs hc ih =>
      cases begun with
      | nil => exact List.nil_prefix
      | cons d begun =>
          obtain ⟨rfl, htail⟩ := List.cons_prefix_cons.mp hbegun
          rw [mapRunsChars_cons hc, mapRunsChars_cons hc]
          exact (List.prefix_cons_inj d).mpr (ih htail)
  | run run rest hne hrun hrest ih =>
      rw [mapRunsChars_append hne hrun hrest]
      -- The text ends within the run, or goes on behind it.
      rcases List.prefix_or_prefix_of_prefix hbegun (List.prefix_append run rest) with
        hwithin | ⟨more, rfl⟩
      · by_cases hempty : begun = []
        · rw [hempty]
          exact List.nil_prefix
        · have hall : ∀ c ∈ begun, p c = true := fun c hc ↦ hrun c (hwithin.subset hc)
          have hedited : mapRunsChars p edit begun = edit begun := by
            have hended : mapRunsChars p edit (begun ++ []) = edit begun ++ mapRunsChars p edit [] :=
              mapRunsChars_append hempty hall (by simp)
            rwa [List.append_nil, mapRunsChars_nil, List.append_nil] at hended
          rw [hedited]
          exact (h begun run hempty hrun hwithin).trans (List.prefix_append ..)
      · have hmore : more <+: rest := (List.prefix_append_right_inj run).mp hbegun
        have hhead : ∀ c ∈ more.head?, p c = false := by
          obtain ⟨after, rfl⟩ := hmore
          intro c hc
          exact hrest c (by rw [List.head?_append, Option.mem_def.mp hc]; rfl)
        rw [mapRunsChars_append hne hrun hhead]
        exact (List.prefix_append_right_inj _).mpr (ih hmore)

end

theorem replaceRuns_subset (c : Char) (least : Nat) (s : String) :
    (replaceRuns c least (String.singleton c) s).toList ⊆ s.toList := by
  rw [replaceRuns, mapRuns, String.toList_ofList]
  refine mapRunsChars_subset (fun run hne hrun ↦ ?_) s.toList
  obtain ⟨d, run, rfl⟩ := List.exists_cons_of_ne_nil hne
  split
  · obtain rfl : d = c := eq_of_beq (hrun d List.mem_cons_self)
    simp
  · exact List.Subset.refl _

/-! ## Rows of one character -/

/-- A row that is too short is not completed by what comes after it. -/
theorem not_isInfix_append {c : Char} {least : Nat} {row rest : List Char}
    (hrow : row.length < least) (hrest : ∀ d ∈ rest.head?, d ≠ c)
    (h : ¬ List.replicate least c <:+: rest) : ¬ List.replicate least c <:+: row ++ rest := by
  induction row with
  | nil => exact h
  | cons d row ih =>
      rw [List.cons_append, List.infix_cons_iff]
      rintro (hbegins | hinside)
      · -- The row ends before it is long enough, so what comes after it begins with the character.
        rw [← List.cons_append] at hbegins
        have hafter : (d :: row).length < (List.replicate least c).length := by
          rwa [List.length_replicate]
        obtain ⟨more, hmore⟩ := List.prefix_of_prefix_length_le (List.prefix_append (d :: row) rest)
          hbegins hafter.le
        rw [← hmore] at hbegins
        have hfirst : more <+: rest := (List.prefix_append_right_inj _).mp hbegins
        have hcs : ∀ x ∈ more, x = c := fun x hx ↦
          List.eq_of_mem_replicate (hmore ▸ List.mem_append_right _ hx)
        obtain ⟨x, more, rfl⟩ : ∃ x xs, more = x :: xs := by
          refine List.exists_cons_of_ne_nil ?_
          rintro rfl
          rw [← hmore, List.append_nil] at hafter
          exact Nat.lt_irrefl _ hafter
        obtain ⟨after, rfl⟩ := hfirst
        exact hrest x rfl (hcs x List.mem_cons_self)
      · exact ih (Nat.lt_of_succ_lt hrow) hinside

/-- No long row of a character is left if every run of it is made short. -/
theorem not_isInfix_mapRunsChars {c : Char} {least : Nat} {edit : List Char → List Char}
    (hleast : 0 < least) (hedit : ∀ run, (∀ d ∈ run, d = c) → (edit run).length < least)
    (cs : List Char) : ¬ List.replicate least c <:+: mapRunsChars (· == c) edit cs := by
  induction cs using runs_induction (· == c) with
  | nil =>
      rw [mapRunsChars_nil, List.infix_nil, List.replicate_eq_nil_iff]
      exact hleast.ne'
  | cons d cs hd ih =>
      rw [mapRunsChars_cons (p := (· == c)) hd, List.infix_cons_iff]
      rintro (hbegins | hinside)
      · obtain ⟨least, rfl⟩ := Nat.exists_eq_add_of_lt hleast
        rw [Nat.zero_add, List.replicate_succ] at hbegins
        exact ne_of_beq_false hd (List.cons_prefix_cons.mp hbegins).1.symm
      · exact ih hinside
  | run run rest hne hrun hrest ih =>
      rw [mapRunsChars_append hne hrun hrest]
      refine not_isInfix_append (hedit run fun d hd ↦ eq_of_beq (hrun d hd)) ?_ ih
      cases rest with
      | nil => simp
      | cons d rest =>
          have hd : (d == c) = false := hrest d rfl
          rw [mapRunsChars_cons (p := (· == c)) hd]
          simpa using hd

/-- A text without long rows of a character stays as it is if short runs do. -/
theorem mapRunsChars_eq_self_of_not_isInfix {c : Char} {least : Nat}
    {edit : List Char → List Char} {cs : List Char} (h : ¬ List.replicate least c <:+: cs)
    (hedit : ∀ run, run.length < least → edit run = run) :
    mapRunsChars (· == c) edit cs = cs := by
  refine mapRunsChars_eq_self fun run _ hpart hrun ↦ hedit run (Nat.lt_of_not_le fun hlong ↦ h ?_)
  have hcs : run = List.replicate run.length c :=
    List.eq_replicate_of_mem fun d hd ↦ eq_of_beq (hrun d hd)
  have hbegins : List.replicate least c <+: run := by
    rw [hcs]
    exact List.prefix_replicate_iff.mpr
      ⟨by rwa [List.length_replicate], by rw [List.length_replicate]⟩
  exact hbegins.isInfix.trans hpart

/-! ## Stripping -/

theorem stripChars_isInfix (cs : List Char) : stripChars cs <:+: cs := by
  have hend : stripChars cs <+: cs.dropWhile isBlank := trimEndChars_prefix isBlank _
  exact hend.isInfix.trans (List.dropWhile_suffix isBlank).isInfix

/-- A text that is already stripped at its start stays so when its end is stripped. -/
theorem dropWhile_of_prefix {p : Char → Bool} {cs part : List Char}
    (hpart : part <+: cs.dropWhile p) : part.dropWhile p = part := by
  rw [List.dropWhile_eq_self_iff]
  intro hpos
  rw [hpart.getElem hpos]
  exact List.dropWhile_get_zero_not p cs (Nat.lt_of_lt_of_le hpos hpart.length_le)

theorem stripChars_stripChars (cs : List Char) : stripChars (stripChars cs) = stripChars cs := by
  have hpart : stripChars cs <+: cs.dropWhile isBlank := trimEndChars_prefix isBlank _
  have hstart : (stripChars cs).dropWhile isBlank = stripChars cs := dropWhile_of_prefix hpart
  rw [stripChars, hstart]
  exact List.rdropWhile_idempotent isBlank (cs.dropWhile isBlank)

@[simp] theorem strip_strip (s : String) : strip (strip s) = strip s := by
  rw [strip, strip, String.toList_ofList, stripChars_stripChars]

theorem stripChars_eq_nil_iff {cs : List Char} : stripChars cs = [] ↔ ∀ c ∈ cs, isBlank c := by
  have hend : stripChars cs = [] ↔ ∀ c ∈ cs.dropWhile isBlank, isBlank c :=
    List.rdropWhile_eq_nil_iff
  rw [hend, ← List.dropWhile_eq_nil_iff, ← List.dropWhile_eq_nil_iff, List.dropWhile_idempotent]

theorem strip_eq_empty_iff {s : String} : strip s = "" ↔ allBlank s = true := by
  rw [← String.toList_inj, strip, String.toList_ofList, allBlank, List.all_eq_true]
  exact stripChars_eq_nil_iff

end Dossier.Text

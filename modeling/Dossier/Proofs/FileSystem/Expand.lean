import Dossier.FileSystem.Expand
import Dossier.Proofs.FileSystem.Probe
import Dossier.Proofs.FileSystem.WellFormed

/-!
# Patterns that end a run

Expanding a pattern fails if the pattern is no relative path, has too many components or has two stars
inside one, if a directory that it goes through cannot be listed for another reason than a refusal, if
two stars lead too far down, or if one of the paths on the way is too long to be looked up.
-/

namespace Dossier.FileSystem

open Steps

variable {fs : FileSystem} {p base : Path} {inner : Bool} {tokens : List Text.Wildcard.Token}

/-! ## Components -/

/-- A pattern that is no list of components. -/
def UnusablePattern (pattern : String) : Prop :=
  (Path.ofText pattern).isAbsolute = true ∨ (Path.ofText pattern).parts = [] ∨
    maxSteps < (Path.ofText pattern).parts.length ∨
    ∃ part ∈ (Path.ofText pattern).parts, part ≠ "**" ∧ Text.contains part "**" = true

theorem fails_stepOfText {part : String} :
    Fails (Step.ofText part) ↔ part ≠ "**" ∧ Text.contains part "**" = true := by
  rw [Step.ofText]
  by_cases hstars : part = "**"
  · simp [hstars]
  · by_cases hinside : Text.contains part "**" = true
    · simp [hstars, hinside]
    · rw [if_neg hstars, if_neg hinside]
      split <;> simp [hinside]

theorem fails_stepsOf {pattern : String} : Fails (stepsOf pattern) ↔ UnusablePattern pattern := by
  rw [stepsOf, UnusablePattern]
  by_cases habsolute : (Path.ofText pattern).isAbsolute = true
  · simp [habsolute]
  rw [if_neg habsolute]
  by_cases hempty : (Path.ofText pattern).parts = []
  · simp [hempty]
  rw [if_neg (by simpa using hempty), fails_bind]
  simp only [habsolute, hempty, false_or, Bool.false_eq_true]
  by_cases hlong : maxSteps < (Path.ofText pattern).parts.length
  · simp only [hlong, if_true, fails_error, and_true, true_or, iff_true]
    exact fails_or_exists_true
  · rw [List.take_of_length_le (not_lt.mp hlong), fails_mapM]
    simp [hlong, fails_stepOfText]

theorem sparesRoot_stepOfText (part : String) : SparesRoot (Step.ofText part) := by
  unfold Step.ofText
  split
  · simp
  · split
    · simp [Failure.isAboutRoot]
    · split <;> simp

theorem sparesRoot_stepsOf {pattern : String} : SparesRoot (stepsOf pattern) := by
  unfold stepsOf
  dsimp only
  split
  · simp [Failure.isAboutRoot]
  · split
    · simp [Failure.isAboutRoot]
    · refine (SparesRoot.mapM sparesRoot_stepOfText _).bind fun steps ↦ .ite ?_ (sparesRoot_pure steps)
      simp [Failure.isAboutRoot]

/-- The exact components are plain names. -/
def Step.IsPlain : Step → Prop
  | .exact name => PlainName name
  | _ => True

/-- What an exact component says stands in the pattern. -/
theorem mem_parts_of_exact_mem {pattern : String} {steps : List Step}
    (h : stepsOf pattern = .ok steps) {name : String} (hname : .exact name ∈ steps) :
    name ∈ (Path.ofText pattern).parts := by
  rw [stepsOf] at h
  split at h
  · simp at h
  split at h
  · simp at h
  obtain ⟨read, hread, h⟩ := bind_eq_ok.mp h
  split at h
  · cases h
  obtain rfl := pure_eq_ok.mp h
  obtain ⟨part, hpart, hread⟩ := exists_of_mem_right (mapM_eq_ok.mp hread) hname
  rw [Step.ofText] at hread
  split at hread
  · cases hread
  split at hread
  · cases hread
  split at hread
  · cases hread
  · obtain rfl := Step.exact.inj (Except.ok.inj hread)
    exact List.mem_of_mem_take hpart

theorem isPlain_of_stepsOf {pattern : String} {steps : List Step}
    (h : stepsOf pattern = .ok steps) : ∀ step ∈ steps, step.IsPlain := by
  intro step hstep
  cases step with
  | exact name => exact Path.plainName_of_mem_ofText (mem_parts_of_exact_mem h hstep)
  | wild tokens => trivial
  | anyDepth => trivial

/-! ## Directories -/

/-- The names in a directory cannot be given: it is not listed, for another reason than a refusal,
or the name of a link in it that may be followed is too long. -/
def ListingHazard (fs : FileSystem) (p : Path) (inner : Bool) : Prop :=
  (∃ e, fs.scan p = .error e ∧ e ≠ .denied) ∨
    inner = true ∧ ∃ entries, fs.scan p = .ok entries ∧
      ∃ x ∈ fs.knownEntries p entries, x.2.isLink = true ∧ fs.IsTooLong (p.child x.1)

theorem fails_checkEntries {entries : List (String × Entry)} :
    Fails (fs.checkEntries p entries) ↔
      ∃ x ∈ entries, x.2.isLink = true ∧ fs.IsTooLong (p.child x.1) := by
  rw [checkEntries, fails_forM]
  refine exists_congr fun x ↦ and_congr_right fun _ ↦ ?_
  obtain ⟨name, e⟩ := x
  cases hlink : e.isLink with
  | false => simp [hlink]
  | true =>
      simp only [hlink, if_true, true_and, discard, Functor.discard]
      rw [← fails_sought]
      cases fs.sought (p.child name) <;> simp [Functor.mapConst, Except.map]

theorem fails_fittingNames :
    Fails (fs.fittingNames p inner tokens) ↔ fs.ListingHazard p inner := by
  rw [fittingNames, ListingHazard]
  cases hscan : fs.scan p with
  | error e => cases e <;> simp
  | ok entries =>
      cases inner with
      | false => simp
      | true => simp [fails_checkEntries]

theorem sparesRoot_checkEntries {entries : List (String × Entry)} :
    SparesRoot (fs.checkEntries p entries) := by
  refine .forM (fun x ↦ ?_) entries
  obtain ⟨name, e⟩ := x
  refine .ite ?_ (sparesRoot_pure ())
  exact sparesRoot_map.mpr sparesRoot_sought

theorem sparesRoot_fittingNames : SparesRoot (fs.fittingNames p inner tokens) := by
  unfold fittingNames
  split
  · cases inner with
    | false => simp
    | true => exact sparesRoot_checkEntries.bind fun _ ↦ sparesRoot_pure _
  · simp
  · simp [Failure.isAboutRoot]

/-- Expanding components from a path on meets something that ends the run. -/
def StepsHazard (fs : FileSystem) : List Step → Path → Prop
  | [], _ => False
  | .exact name :: rest, p =>
      fs.forbidden .follow (p.child name) = false ∧ fs.IsTooLong (p.child name) ∨
      fs.passes (!rest.isEmpty) (p.child name) = .ok true ∧ StepsHazard fs rest (p.child name)
  | .wild tokens :: rest, p => fs.ListingHazard p (!rest.isEmpty) ∨
      ∃ names, fs.fittingNames p (!rest.isEmpty) tokens = .ok names ∧ ∃ name ∈ names,
        rest ≠ [] ∧ (fs.IsTooLong (p.child name) ∨
          fs.admits true (p.child name) = .ok true ∧ StepsHazard fs rest (p.child name))
  | .anyDepth :: rest, p => ∃ q ∈ fs.directoriesFrom p,
      p.parts.length + maxDescent < q.parts.length ∨ StepsHazard fs rest q ∨ isOverlong q = true

theorem fails_reaches : Fails (fs.reaches inner p) ↔ fs.Refuses p :=
  fails_leadsTo

theorem fails_passes :
    Fails (fs.passes inner p) ↔ fs.forbidden .follow p = false ∧ fs.IsTooLong p := by
  rw [passes]
  cases hforbidden : fs.forbidden .follow p <;> simp [fails_reaches, Refuses, hforbidden]

theorem fails_admits : Fails (fs.admits inner p) ↔ inner = true ∧ fs.IsTooLong p := by
  rw [admits]
  cases inner <;> simp [fails_sought]

theorem fails_expandSteps {steps : List Step} :
    Fails (fs.expandSteps steps p) ↔ fs.StepsHazard steps p := by
  induction steps generalizing p with
  | nil => simp [expandSteps, StepsHazard]
  | cons step rest ih =>
      cases step with
      | exact name => rw [expandSteps, fails_bind_ite, fails_passes, StepsHazard, ih]
      | wild tokens =>
          rw [expandSteps, fails_bind, fails_fittingNames, StepsHazard]
          refine or_congr_right (exists_congr fun names ↦ and_congr_right fun _ ↦ ?_)
          rw [fails_bind, fails_mapM]
          simp only [fails_bind_ite, ih, not_fails_pure, and_false, exists_false, or_false]
          refine exists_congr fun name ↦ and_congr_right fun _ ↦ ?_
          cases rest with
          | nil => simp [fails_admits, StepsHazard]
          | cons next rest => simp [fails_admits]
      | anyDepth =>
          rw [expandSteps, fails_bind, fails_mapM, StepsHazard]
          simp only [not_fails_pure, and_false, exists_false, or_false]
          refine exists_congr fun q ↦ and_congr_right fun _ ↦ ?_
          by_cases hdeep : p.parts.length + maxDescent < q.parts.length
          · simp [hdeep]
          · rw [if_neg hdeep, fails_bind, ih]
            by_cases hoverlong : isOverlong q = true
            · simp only [hoverlong, if_true, fails_error, and_true, or_true, iff_true, ← ih]
              exact fails_or_exists_true
            · simp [hdeep, hoverlong]

theorem sparesRoot_expandSteps {steps : List Step} : SparesRoot (fs.expandSteps steps p) := by
  induction steps generalizing p with
  | nil => simp [expandSteps]
  | cons step rest ih =>
      cases step with
      | exact name =>
          rw [expandSteps]
          have hpasses : SparesRoot (fs.passes (!rest.isEmpty) (p.child name)) :=
            .ite (sparesRoot_ok false) sparesRoot_leadsTo
          exact hpasses.bind fun _ ↦ .ite ih (sparesRoot_pure [])
      | wild tokens =>
          rw [expandSteps]
          refine sparesRoot_fittingNames.bind fun names ↦ ?_
          refine (SparesRoot.mapM (fun name ↦ ?_) names).bind fun _ ↦ sparesRoot_pure _
          have hadmits : SparesRoot (fs.admits (!rest.isEmpty) (p.child name)) :=
            .ite (sparesRoot_sought.bind fun found ↦ sparesRoot_pure (found.any Entry.isDirectory))
              (sparesRoot_ok true)
          exact hadmits.bind fun _ ↦ .ite ih (sparesRoot_pure [])
      | anyDepth =>
          rw [expandSteps]
          refine (SparesRoot.mapM (fun q ↦ ?_) _).bind fun _ ↦ sparesRoot_pure _
          exact .ite (by simp [Failure.isAboutRoot])
            (ih.bind fun found ↦ .ite (by simp [Failure.isAboutRoot]) (sparesRoot_pure found))

theorem sparesRoot_expand {pattern : String} : SparesRoot (fs.expand base pattern) := by
  unfold expand
  refine sparesRoot_stepsOf.bind fun steps ↦ sparesRoot_leadsTo.bind fun _ ↦ ?_
  exact .ite (sparesRoot_expandSteps.bind fun _ ↦ sparesRoot_pure _) (sparesRoot_pure [])

/-- Expanding a pattern meets something that ends the run. -/
def ExpandHazard (fs : FileSystem) (base : Path) (pattern : String) : Prop :=
  UnusablePattern pattern ∨ fs.Refuses base ∨
    ∃ steps, stepsOf pattern = .ok steps ∧ fs.reaches true base = .ok true ∧
      fs.StepsHazard steps base

theorem fails_expand {pattern : String} :
    Fails (fs.expand base pattern) ↔ fs.ExpandHazard base pattern := by
  rw [ExpandHazard, ← fails_stepsOf, expand, fails_bind]
  simp only [fails_bind_ite, fails_reaches, fails_map, fails_expandSteps, bind_pure_comp]
  cases stepsOf pattern <;> simp

/-! ## Where the paths lie -/

theorem mem_directoriesAmong {denied : Path → Bool} {entries : List (String × Entry)} {q : Path} :
    q ∈ directoriesAmong denied p entries ↔
      ∃ x ∈ entries, q ∈ directoriesBelow denied (p.child x.1) x.2 := by
  induction entries with
  | nil => simp [directoriesAmong]
  | cons x rest ih =>
      obtain ⟨name, e⟩ := x
      rw [directoriesAmong, List.mem_append, ih, List.exists_mem_cons_iff]

theorem extends_of_mem_directoriesBelow {denied : Path → Bool} {e : Entry} (he : e.WellFormed)
    {q : Path} (hq : q ∈ directoriesBelow denied p e) : q.Extends p := by
  induction he generalizing p with
  | file | link | special => simp [directoriesBelow] at hq
  | directory names _ ih =>
      rw [directoriesBelow, List.mem_cons] at hq
      rcases hq with rfl | hq
      · exact .refl _
      · split at hq
        · simp at hq
        · obtain ⟨x, hx, hq⟩ := mem_directoriesAmong.mp hq
          exact (ih x hx hq).trans ((Path.Extends.refl p).child (names x hx).toPlainName)

theorem extends_of_mem_directoriesFrom (hfs : fs.WellFormed) {q : Path}
    (hq : q ∈ fs.directoriesFrom p) : q.Extends p := by
  rw [directoriesFrom] at hq
  split at hq
  next e hstat => exact extends_of_mem_directoriesBelow (hfs.of_stat hstat) hq
  next => simp at hq

theorem properName_of_fittingNames (hfs : fs.WellFormed) {names : List String}
    (h : fs.fittingNames p inner tokens = .ok names) {name : String} (hname : name ∈ names) :
    ProperName name := by
  rw [fittingNames] at h
  split at h
  next entries hscan =>
    have hlisted : ∃ x ∈ entries, x.1 = name := by
      cases inner with
      | false =>
          obtain rfl := pure_eq_ok.mp h
          exact List.mem_map.mp (List.mem_filter.mp hname).1
      | true =>
          obtain ⟨_, _, h⟩ := bind_eq_ok.mp h
          obtain rfl := pure_eq_ok.mp h
          obtain ⟨x, hx, rfl⟩ := List.mem_map.mp (List.mem_filter.mp hname).1
          exact ⟨x, List.mem_of_mem_filter hx, rfl⟩
    obtain ⟨x, hx, rfl⟩ := hlisted
    exact (hfs.of_scan hscan).names x hx
  next =>
    obtain rfl := Except.ok.inj h
    simp at hname
  next => simp at h

theorem bind_ite_eq_ok {α : Type} {ask : Except Failure Bool} {x : Except Failure (List α)}
    {found : List α} {a : α} (h : (ask >>= fun answer ↦ if answer = true then x else pure []) =
      .ok found) (ha : a ∈ found) : ask = .ok true ∧ x = .ok found := by
  obtain ⟨answer, hask, h⟩ := bind_eq_ok.mp h
  cases answer with
  | true => exact ⟨hask, h⟩
  | false =>
      obtain rfl := pure_eq_ok.mp h
      simp at ha

theorem extends_of_mem_expandSteps (hfs : fs.WellFormed) {steps : List Step}
    (hsteps : ∀ step ∈ steps, step.IsPlain) {found : List Path}
    (h : fs.expandSteps steps p = .ok found) {q : Path} (hq : q ∈ found) : q.Extends p := by
  induction steps generalizing p found with
  | nil =>
      obtain rfl := Except.ok.inj h
      obtain rfl := List.mem_singleton.mp hq
      exact .refl q
  | cons step rest ih =>
      obtain ⟨hstep, hrest⟩ := List.forall_mem_cons.mp hsteps
      cases step with
      | exact name =>
          rw [expandSteps] at h
          exact (ih hrest (bind_ite_eq_ok h hq).2 hq).trans ((Path.Extends.refl p).child hstep)
      | wild tokens =>
          rw [expandSteps] at h
          obtain ⟨names, hnames, h⟩ := bind_eq_ok.mp h
          obtain ⟨lists, hlists, h⟩ := bind_eq_ok.mp h
          obtain rfl := pure_eq_ok.mp h
          obtain ⟨list, hlist, hq⟩ := List.mem_flatten.mp hq
          obtain ⟨name, hname, hlist⟩ := exists_of_mem_right (mapM_eq_ok.mp hlists) hlist
          have hplain := (properName_of_fittingNames hfs hnames hname).toPlainName
          exact (ih hrest (bind_ite_eq_ok hlist hq).2 hq).trans
            ((Path.Extends.refl p).child hplain)
      | anyDepth =>
          rw [expandSteps] at h
          obtain ⟨lists, hlists, h⟩ := bind_eq_ok.mp h
          obtain rfl := pure_eq_ok.mp h
          obtain ⟨list, hlist, hq⟩ := List.mem_flatten.mp hq
          obtain ⟨dir, hdir, hlist⟩ := exists_of_mem_right (mapM_eq_ok.mp hlists) hlist
          split at hlist
          · cases hlist
          obtain ⟨below, hbelow, hlist⟩ := bind_eq_ok.mp hlist
          split at hlist
          · cases hlist
          obtain rfl := pure_eq_ok.mp hlist
          exact (ih hrest hbelow hq).trans (extends_of_mem_directoriesFrom hfs hdir)

/-- What a pattern stands for lies below the directory that it is expanded in. -/
theorem extends_of_mem_expand (hfs : fs.WellFormed) {pattern : String} {found : List Path}
    (h : fs.expand base pattern = .ok found) {q : Path} (hq : q ∈ found) : q.Extends base := by
  rw [expand] at h
  obtain ⟨steps, hsteps, h⟩ := bind_eq_ok.mp h
  obtain ⟨-, h⟩ := bind_ite_eq_ok h hq
  obtain ⟨paths, hpaths, h⟩ := bind_eq_ok.mp h
  obtain rfl := pure_eq_ok.mp h
  exact extends_of_mem_expandSteps hfs (isPlain_of_stepsOf hsteps) hpaths
    ((List.mergeSort_perm _ _).mem_iff.mp hq)

end Dossier.FileSystem

import Dossier.Proofs.FileSystem.Counterparts
import Dossier.Proofs.Profile.Workspaces

/-!
# Profiles of counterparts

Directories that answer alike have the same profile, if their manifests have the same bytes. Of their
other files a profile takes in only that they are there.
-/

namespace Dossier

theorem Path.name_down {p p' : Path} (h : p.name = p'.name) (place : Location) :
    (p.down place).name = (p'.down place).name := by
  rcases List.eq_nil_or_concat place with rfl | ⟨above, name, rfl⟩
  · rw [down_nil, down_nil, h]
  · simp [Path.name, down]

namespace Profile

open Data (Datum)
open FileSystem (Counterparts Reach SameText)
open Steps

/-- The files in a directory that may be gone into have the same bytes on both sides, if they are
manifests. -/
def SameManifests (fs fs' : FileSystem) (base base' : Path) (reach : Reach) : Prop :=
  ∀ place name, reach.entered place → name ∈ manifestNames →
    SameText fs fs' (base.down (place ++ [name])) (base'.down (place ++ [name]))

variable {yaml : Data.Reader} {fs fs' : FileSystem} {base base' : Path} {reach : Reach} {place : Location} {name : String}

section

variable (h : Counterparts fs fs' base base' reach)
include h

/-! ## Manifests -/

theorem readTable_together {parse : Data.Reader} (hplace : reach.looked place)
    (hsame : SameText fs fs' (base.down place) (base'.down place)) :
    Together Eq (readTable fs parse (base.down place)) (readTable fs' parse (base'.down place)) := by
  refine (h.leadsToFile hplace).bind ?_
  rintro answer _ rfl
  cases answer with
  | false => exact .pure rfl
  | true =>
      rw [h.readText_eq hplace hsame]
      exact Together.self _

theorem readToml_together (hplace : reach.looked place)
    (hsame : SameText fs fs' (base.down place) (base'.down place)) :
    Together Eq (readToml fs (base.down place)) (readToml fs' (base'.down place)) := by
  refine (h.leadsToFile hplace).bind ?_
  rintro answer _ rfl
  cases answer with
  | false => exact .pure rfl
  | true =>
      rw [h.readBytes_eq hplace hsame]
      exact Together.self _

theorem readPlain_together (hplace : reach.looked place)
    (hsame : SameText fs fs' (base.down place) (base'.down place)) :
    Together Eq (readPlain fs (base.down place)) (readPlain fs' (base'.down place)) := by
  refine (h.leadsToFile hplace).bind ?_
  rintro answer _ rfl
  cases answer with
  | false => exact .pure rfl
  | true =>
      rw [h.readText_eq hplace hsame]
      exact Together.self _

/-- A name that a directory can hold something under may be looked up in one that may be gone into. -/
theorem looked_child (hplace : reach.entered place) (hname : ProperName name) :
    reach.looked (place ++ [name]) :=
  h.child place name hplace (h.proper name hname)

variable (hsame : SameManifests fs fs' base base' reach) (hplace : reach.entered place)
include hsame hplace

theorem readTable_child {parse : Data.Reader} (hname : name ∈ manifestNames) :
    Together Eq (readTable fs parse ((base.down place).child name))
      (readTable fs' parse ((base'.down place).child name)) := by
  have hproper : ∀ name ∈ manifestNames, ProperName name := by decide
  rw [Path.child_down, Path.child_down]
  exact readTable_together h (looked_child h hplace (hproper name hname)) (hsame _ _ hplace hname)

theorem readToml_child (hname : name ∈ manifestNames) :
    Together Eq (readToml fs ((base.down place).child name))
      (readToml fs' ((base'.down place).child name)) := by
  have hproper : ∀ name ∈ manifestNames, ProperName name := by decide
  rw [Path.child_down, Path.child_down]
  exact readToml_together h (looked_child h hplace (hproper name hname)) (hsame _ _ hplace hname)

theorem readPlain_child (hname : name ∈ manifestNames) :
    Together Eq (readPlain fs ((base.down place).child name))
      (readPlain fs' ((base'.down place).child name)) := by
  have hproper : ∀ name ∈ manifestNames, ProperName name := by decide
  rw [Path.child_down, Path.child_down]
  exact readPlain_together h (looked_child h hplace (hproper name hname)) (hsame _ _ hplace hname)

theorem identify_together :
    Together Eq (identify fs (base.down place)) (identify fs' (base'.down place)) := by
  refine (readTable_child h hsame hplace (by decide)).bind ?_
  rintro package _ rfl
  refine .ite .rfl (fun _ ↦ .pure rfl) fun _ ↦ ?_
  refine (readToml_child h hsame hplace (by decide)).bind ?_
  rintro pyproject _ rfl
  cases named? ((section? pyproject "project").getD []) with
  | some identity => exact .pure rfl
  | none =>
      dsimp only
      cases named? (((section? pyproject "tool").bind (section? · "poetry")).getD []) with
      | some identity => exact .pure rfl
      | none =>
          refine (readToml_child h hsame hplace (by decide)).bind ?_
          rintro cargo _ rfl
          cases named? ((section? cargo "package").getD []) with
          | some identity => exact .pure rfl
          | none =>
              refine (readTable_child h hsame hplace (by decide)).bind ?_
              rintro composer _ rfl
              cases named? composer with
              | some identity => exact .pure rfl
              | none =>
                  refine (readPlain_child h hsame hplace (by decide)).bind ?_
                  rintro content _ rfl
                  exact .pure rfl

omit hsame

/-! ## Runtimes -/

theorem firstMarked_together {table : List (String × List String)}
    (htable : ∀ row ∈ table, ∀ marker ∈ row.2, ProperName marker) :
    Together Eq (firstMarked fs (base.down place) table)
      (firstMarked fs' (base'.down place) table) := by
  refine Agree.bind (r := Eq) ?_ ?_
  · refine Together.findM? fun row hrow ↦ Together.anyM fun marker hmarker ↦ ?_
    rw [Path.child_down, Path.child_down]
    exact h.leadsAnywhere (looked_child h hplace (htable row hrow marker hmarker))
  · rintro found _ rfl
    exact .pure rfl

theorem holdsSolution_eq :
    holdsSolution fs (base.down place) = holdsSolution fs' (base'.down place) := by
  rw [holdsSolution, holdsSolution]
  rcases (h.scan (h.self place hplace)).outcomes with
    ⟨e, _, hscan, hscan', rfl⟩ | ⟨entries, entries', hscan, hscan', hentries⟩
  · rw [hscan, hscan']
  · rw [hscan, hscan']
    exact hentries.shape.names.any_eq

theorem runtimeOf_together :
    Together Eq (runtimeOf fs (base.down place)) (runtimeOf fs' (base'.down place)) := by
  refine (firstMarked_together h hplace (by decide)).bind ?_
  rintro found _ rfl
  rw [holdsSolution_eq h hplace]
  exact Together.self _

include hsame

theorem stackOf_together (hactions : reach.looked (place ++ [".github", "workflows"])) :
    Together Eq (stackOf fs (base.down place)) (stackOf fs' (base'.down place)) := by
  refine (readTable_child h hsame hplace (by decide)).bind ?_
  rintro package _ rfl
  refine (readToml_child h hsame hplace (by decide)).bind ?_
  rintro pyproject _ rfl
  refine (Together.self _).bind ?_
  rintro python _ rfl
  refine (readToml_child h hsame hplace (by decide)).bind ?_
  rintro cargo _ rfl
  refine (readPlain_child h hsame hplace (by decide)).bind ?_
  rintro go _ rfl
  refine Agree.bind (r := Eq) (Together.anyM fun name hname ↦ ?_) ?_
  · have hproper : ∀ name ∈ ["Dockerfile", "docker-compose.yml"], ProperName name := by decide
    rw [Path.child_down, Path.child_down]
    exact h.leadsToFile (looked_child h hplace (hproper name hname))
  rintro docker _ rfl
  rw [Path.child_down, Path.child_down, Path.child_down, Path.child_down, List.append_assoc]
  refine (h.leadsToDirectory hactions).bind ?_
  rintro actions _ rfl
  exact .pure rfl

/-! ## Workspaces -/

theorem membershipOf_together :
    Together Eq (membershipOf yaml fs (base.down place)) (membershipOf yaml fs' (base'.down place)) := by
  refine (readTable_child h hsame hplace (by decide)).bind ?_
  rintro package _ rfl
  refine (firstMarked_together h hplace (by decide)).bind ?_
  rintro manager _ rfl
  refine Agree.bind (r := Eq) ?_ ?_
  · refine .ite .rfl (fun _ ↦ ?_) fun _ ↦ .pure rfl
    rw [Path.child_down, Path.child_down]
    refine (h.leadsAnywhere (looked_child h hplace (by decide))).bind ?_
    rintro answer _ rfl
    exact Together.self _
  rintro installer _ rfl
  refine (readTable_child h hsame hplace (by decide)).bind ?_
  rintro listed _ rfl
  refine (Together.self _).bind ?_
  rintro pnpm _ rfl
  refine (readTable_child h hsame hplace (by decide)).bind ?_
  rintro json _ rfl
  refine (Together.self _).bind ?_
  rintro lerna _ rfl
  refine (readToml_child h hsame hplace (by decide)).bind ?_
  rintro cargo _ rfl
  refine (readPlain_child h hsame hplace (by decide)).bind ?_
  rintro used _ rfl
  exact .pure rfl

theorem describe_together {shown : String} (hname : base.name = base'.name) :
    Together Eq (describe fs (base.down place) shown) (describe fs' (base'.down place) shown) := by
  refine (identify_together h hsame hplace).bind ?_
  rintro identity _ rfl
  refine (runtimeOf_together h hplace).bind ?_
  rintro runtime _ rfl
  exact .pure (by rw [Path.name_down hname])

end

/-- No pattern of a project goes on with a name that is not asked about. -/
def PatternsNamed (yaml : Data.Reader) (fs : FileSystem) (root : Path) (named : String → Prop) : Prop :=
  ∀ membership, membershipOf yaml fs root = .ok membership → ∀ pattern ∈ membership.patterns,
    ∀ cleaned, cleanPattern? pattern = some cleaned →
      ∀ name ∈ (Path.ofText cleaned).parts, named name

theorem shownPath_down (base : Path) (place : Location) :
    shownPath base (base.down place) = Path.relativeText place := by
  simp [shownPath, Path.down, Path.below?]

section

variable (h : Counterparts fs fs' base base' reach)
  (hsame : SameManifests fs fs' base base' reach) (hname : base.name = base'.name)
  (hmodules : base.parts.contains "node_modules" = base'.parts.contains "node_modules")
include h hsame hname hmodules

theorem addMember_together {found : List Workspace} (hplace : reach.looked place) :
    Together Eq (addMember fs base found (base.down place))
      (addMember fs' base' found (base'.down place)) := by
  have hmember : Together Eq (isMember fs (base.down place)) (isMember fs' (base'.down place)) := by
    refine (h.reaches _ hplace).bind ?_
    rintro answer _ rfl
    refine .pure ?_
    rw [Path.down, Path.down, List.contains_append, List.contains_append, hmodules]
  rw [addMember, addMember, shownPath_down, shownPath_down]
  refine hmember.bind_of_ok ?_
  rintro answer _ hanswer - rfl
  refine .ite .rfl (fun _ ↦ .pure rfl) fun hnew ↦ ?_
  -- Only a directory is described.
  have hentered : reach.entered place := by
    obtain ⟨reached, hreached, hanswer⟩ := bind_eq_ok.mp hanswer
    cases reached with
    | true => exact h.entered_of_reaches hplace hreached
    | false => simp [← pure_eq_ok.mp hanswer] at hnew
  refine (describe_together h hsame hentered hname).bind ?_
  rintro w _ rfl
  exact .pure rfl

theorem addPattern_together {found : List Workspace} {pattern : String}
    (hself : reach.looked []) (hpattern : ∀ cleaned, cleanPattern? pattern = some cleaned →
      ∀ name ∈ (Path.ofText cleaned).parts, reach.named name) :
    Together Eq (addPattern fs base found pattern) (addPattern fs' base' found pattern) := by
  rw [addPattern, addPattern]
  cases hcleaned : cleanPattern? pattern with
  | none => exact .ok rfl
  | some cleaned =>
      refine (h.expand hself (hpattern cleaned hcleaned)).bind ?_
      rintro _ _ ⟨places, rfl, rfl, hlooked⟩
      refine Together.foldlM (r := fun p p' ↦ ∃ place, reach.looked place ∧ p = base.down place ∧
        p' = base'.down place) ?_ ?_ rfl
      · refine List.forall₂_map_left_iff.mpr (List.forall₂_map_right_iff.mpr ?_)
        exact List.forall₂_same.mpr fun place hplace ↦ ⟨place, hlooked place hplace, rfl, rfl⟩
      · rintro _ _ ⟨place, hplace, rfl, rfl⟩ found _ rfl
        exact addMember_together h hsame hname hmodules hplace

theorem monorepoOf_together (hentered : reach.entered [])
    (hpatterns : PatternsNamed yaml fs base reach.named) :
    Together Eq (monorepoOf yaml fs base) (monorepoOf yaml fs' base') := by
  have hmembership : Together Eq (membershipOf yaml fs _) (membershipOf yaml fs' _) :=
    membershipOf_together h hsame hentered
  rw [Path.down_nil, Path.down_nil] at hmembership
  refine hmembership.bind_of_ok ?_
  rintro membership _ hgiven - rfl
  refine Agree.bind (r := Eq) ?_ ?_
  · refine Together.foldlM
      (r := fun pattern pattern' ↦ pattern ∈ membership.patterns ∧ pattern = pattern')
      (List.forall₂_same.mpr fun pattern hpattern ↦ ⟨hpattern, rfl⟩) ?_ rfl
    rintro pattern _ ⟨hpattern, rfl⟩ found _ rfl
    exact addPattern_together h hsame hname hmodules (h.self [] hentered)
      (hpatterns membership hgiven pattern hpattern)
  · rintro workspaces _ rfl
    exact Together.self _

/-- Two directories that answer alike have the same profile. -/
theorem detect_together {dir dir' : Path} (hresolve : fs.resolve dir = .ok base)
    (hresolve' : fs'.resolve dir' = .ok base') (hentered : reach.entered [])
    (hactions : reach.looked [".github", "workflows"])
    (hpatterns : PatternsNamed yaml fs base reach.named) :
    Together Eq (detect yaml fs dir) (detect yaml fs' dir') := by
  have hidentity := identify_together h hsame hentered
  have hstack := stackOf_together h hsame hentered hactions
  have hruntime := runtimeOf_together h hentered
  rw [Path.down_nil, Path.down_nil] at hidentity hstack hruntime
  rw [detect, detect, hresolve, hresolve']
  refine hidentity.bind ?_
  rintro identity _ rfl
  refine hstack.bind ?_
  rintro stack _ rfl
  refine (monorepoOf_together h hsame hname hmodules hentered hpatterns).bind ?_
  rintro monorepo _ rfl
  refine hruntime.bind ?_
  rintro runtime _ rfl
  exact .pure (by rw [hname])

end

end Profile

end Dossier

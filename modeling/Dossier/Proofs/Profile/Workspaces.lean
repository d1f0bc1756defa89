import Dossier.Profile.Detect
import Dossier.Proofs.FileSystem.Expand
import Dossier.Proofs.Profile.Manifest

/-!
# Members that end a run

The members of a project are described one after another, each once. A member that has been described
does no harm, and members are told apart by the paths that they are shown by. That decides exactly
which lists of patterns end a run.
-/

namespace Dossier.Profile

open Data (Datum)
open FileSystem (fails_leadsAnywhere fails_reaches fails_expand extends_of_mem_expand
  sparesRoot_leadsTo sparesRoot_expand)
open Steps

variable {yaml : Data.Reader} {fs : FileSystem} {root p q dir : Path} {found : List Workspace}

/-! ## How members are listed -/

/-- The installer has to be told, and the system refuses to look up the file that tells it. -/
def InstallerHazard (fs : FileSystem) (dir : Path) : Prop :=
  ∃ package, readJson fs (dir.child "package.json") = .ok package ∧
    ∃ manager, firstMarked fs dir managerMarkers = .ok manager ∧
      ((packageMembers? package).isSome && manager.isNone) = true ∧
        fs.Refuses (dir.child "bun.lockb")

theorem fails_installerOf {asked : Bool} :
    Fails (installerOf fs dir asked) ↔ asked = true ∧ fs.Refuses (dir.child "bun.lockb") := by
  rw [installerOf]
  cases asked with
  | false => simp
  | true => simp [fails_leadsAnywhere]

/-- One of the files that list members ends the run. -/
def MembershipHazard (yaml : Data.Reader) (fs : FileSystem) (dir : Path) : Prop :=
  TextHazard fs Data.Json.parse (dir.child "package.json") ∨
    MarkerHazard fs dir (managerMarkers.flatMap (·.2)) ∨ InstallerHazard fs dir ∨
    TextHazard fs yaml (dir.child "pnpm-workspace.yaml") ∨
    (∃ pnpm, readTable fs yaml (dir.child "pnpm-workspace.yaml") = .ok pnpm ∧
      NotIterable (Datum.lookup "packages" pnpm)) ∨
    TextHazard fs Data.Json.parse (dir.child "lerna.json") ∨
    (∃ lerna, readJson fs (dir.child "lerna.json") = .ok lerna ∧
      NotIterable (Datum.lookup "packages" lerna)) ∨
    TomlHazard fs (dir.child "Cargo.toml") ∨ fs.Refuses (dir.child "go.work")

theorem fails_membershipOf : Fails (membershipOf yaml fs dir) ↔ MembershipHazard yaml fs dir := by
  simp only [membershipOf, fails_bind, not_fails_pure, and_false, exists_false, or_false,
    fails_or_exists, fails_or_exists_or]
  simp only [fails_readTable, fails_readToml, fails_readPlain, fails_installerOf, fails_firstMarked,
    fails_elementsOrNone]
  rw [MembershipHazard, InstallerHazard, ← fails_readJson, ← fails_readJson]
  cases readJson fs (dir.child "package.json") <;> simp

theorem sparesRoot_membershipOf : SparesRoot (membershipOf yaml fs dir) := by
  refine sparesRoot_readTable.bind fun package ↦ sparesRoot_firstMarked.bind fun manager ↦ ?_
  have hinstaller (asked : Bool) : SparesRoot (installerOf fs dir asked) :=
    .ite (sparesRoot_leadsTo.bind fun _ ↦ sparesRoot_pure _) (sparesRoot_pure none)
  refine (hinstaller _).bind fun installer ↦ sparesRoot_readTable.bind fun pnpm ↦ ?_
  refine sparesRoot_elementsOrNone.bind fun pnpm ↦ sparesRoot_readTable.bind fun lerna ↦ ?_
  refine sparesRoot_elementsOrNone.bind fun lerna ↦ sparesRoot_readToml.bind fun cargo ↦ ?_
  exact sparesRoot_readPlain.bind fun _ ↦ sparesRoot_pure _

/-! ## Describing members -/

/-- One of the files that describe a project ends the run. -/
def DescriptionHazard (fs : FileSystem) (dir : Path) : Prop :=
  IdentityHazard fs dir ∨ RuntimeHazard fs dir

theorem fails_describe {shown : String} :
    Fails (describe fs dir shown) ↔ DescriptionHazard fs dir := by
  simp only [describe, fails_bind, not_fails_pure, and_false, exists_false, or_false,
    fails_or_exists]
  rw [fails_identify, fails_runtimeOf, DescriptionHazard]

/-- A path that a pattern stands for ends the run: the system refuses to look it up, or it is a member
that cannot be described. -/
def MemberHazard (fs : FileSystem) (p : Path) : Prop :=
  fs.Refuses p ∨ isMember fs p = .ok true ∧ DescriptionHazard fs p

theorem fails_isMember : Fails (isMember fs p) ↔ fs.Refuses p := by
  rw [isMember, fails_bind, fails_reaches]
  simp

theorem shownPath_inj (hp : p.Extends root) (hq : q.Extends root)
    (h : shownPath root p = shownPath root q) : p = q := by
  obtain ⟨names, hnames, hbelow, rfl⟩ := hp.below?
  obtain ⟨names', hnames', hbelow', rfl⟩ := hq.below?
  rw [shownPath, shownPath, hbelow, hbelow'] at h
  rw [Path.relativeText_inj hnames hnames' h]

/-- Every member found so far is shown by the path of a place below the root that ends no run. -/
def Settled (fs : FileSystem) (root : Path) (found : List Workspace) : Prop :=
  ∀ w ∈ found, ∃ p, p.Extends root ∧ w.path = shownPath root p ∧ ¬ MemberHazard fs p

theorem Settled.nil : Settled fs root [] := by
  simp [Settled]

theorem path_of_describe {shown : String} {w : Workspace}
    (h : describe fs dir shown = .ok w) : w.path = shown := by
  obtain ⟨identity, -, h⟩ := bind_eq_ok.mp h
  obtain ⟨runtime, -, h⟩ := bind_eq_ok.mp h
  rw [← pure_eq_ok.mp h]

/-- A place that is shown like a member found before is that member. -/
theorem Settled.not_hazard (hfound : Settled fs root found) (hp : p.Extends root)
    (hshown : found.any (·.path == shownPath root p) = true) : ¬ MemberHazard fs p := by
  obtain ⟨w, hw, hpath⟩ := List.any_eq_true.mp hshown
  obtain ⟨q, hq, hwq, hsafe⟩ := hfound w hw
  rwa [shownPath_inj hp hq ((eq_of_beq hpath).symm.trans hwq)]

theorem fails_addMember (hfound : Settled fs root found) (hp : p.Extends root) :
    Fails (addMember fs root found p) ↔ MemberHazard fs p := by
  rw [addMember, fails_bind, fails_isMember, MemberHazard]
  refine or_congr_right ⟨?_, ?_⟩
  · rintro ⟨member, hmember, h⟩
    cases member with
    | false => simp at h
    | true =>
        refine ⟨hmember, ?_⟩
        cases hshown : found.any (·.path == shownPath root p) with
        | true => simp [hshown] at h
        | false =>
            rw [hshown] at h
            simpa [fails_bind, fails_describe] using h
  · rintro ⟨hmember, hdescription⟩
    refine ⟨true, hmember, ?_⟩
    cases hshown : found.any (·.path == shownPath root p) with
    | true => exact absurd (.inr ⟨hmember, hdescription⟩) (hfound.not_hazard hp hshown)
    | false => simpa [fails_bind, fails_describe] using hdescription

theorem Settled.addMember (hfound : Settled fs root found) (hp : p.Extends root)
    {found' : List Workspace} (h : addMember fs root found p = .ok found') :
    Settled fs root found' := by
  have hsafe : ¬ MemberHazard fs p := by
    rw [← fails_addMember hfound hp, not_fails_iff]
    exact ⟨found', h⟩
  rw [Profile.addMember] at h
  obtain ⟨member, -, h⟩ := bind_eq_ok.mp h
  split at h
  · obtain rfl := pure_eq_ok.mp h
    exact hfound
  · obtain ⟨w, hw, h⟩ := bind_eq_ok.mp h
    obtain rfl := pure_eq_ok.mp h
    refine List.forall_mem_append.mpr ⟨hfound, List.forall_mem_singleton.mpr ?_⟩
    exact ⟨p, hp, path_of_describe hw, hsafe⟩

theorem sparesRoot_addMember (found : List Workspace) (p : Path) :
    SparesRoot (addMember fs root found p) := by
  have hmember : SparesRoot (isMember fs p) :=
    sparesRoot_leadsTo.bind fun _ ↦ sparesRoot_pure _
  have hdescribe (shown : String) : SparesRoot (describe fs p shown) :=
    sparesRoot_identify.bind fun _ ↦ sparesRoot_runtimeOf.bind fun _ ↦ sparesRoot_pure _
  refine hmember.bind fun member ↦ .ite (sparesRoot_pure found) ?_
  exact (hdescribe _).bind fun w ↦ sparesRoot_pure _

/-! ## Patterns -/

/-- A pattern ends the run: it cannot be expanded, or something that it stands for ends the run. -/
def PatternHazard (fs : FileSystem) (root : Path) (pattern : String) : Prop :=
  ∃ cleaned, cleanPattern? pattern = some cleaned ∧
    (fs.ExpandHazard root cleaned ∨
      ∃ paths, fs.expand root cleaned = .ok paths ∧ ∃ p ∈ paths, MemberHazard fs p)

theorem fails_addPattern (hfs : fs.WellFormed) (hfound : Settled fs root found)
    {pattern : String} :
    Fails (addPattern fs root found pattern) ↔ PatternHazard fs root pattern := by
  rw [addPattern, PatternHazard]
  cases cleanPattern? pattern with
  | none => simp
  | some cleaned =>
      simp only [Option.some.injEq, exists_eq_left', fails_bind, fails_expand]
      refine or_congr_right (exists_congr fun paths ↦ and_congr_right fun hpaths ↦ ?_)
      exact fails_foldlM (Settled fs root)
        (fun _ hp _ hsettled _ h ↦ hsettled.addMember (extends_of_mem_expand hfs hpaths hp) h)
        (fun _ hp _ hsettled ↦ fails_addMember hsettled (extends_of_mem_expand hfs hpaths hp))
        hfound

theorem Settled.addPattern (hfs : fs.WellFormed) (hfound : Settled fs root found)
    {pattern : String} {found' : List Workspace}
    (h : addPattern fs root found pattern = .ok found') : Settled fs root found' := by
  rw [Profile.addPattern] at h
  split at h
  · obtain ⟨paths, hpaths, h⟩ := bind_eq_ok.mp h
    exact foldlM_preserves (Settled fs root)
      (fun _ hp _ hsettled _ hstep ↦
        hsettled.addMember (extends_of_mem_expand hfs hpaths hp) hstep) hfound h
  · obtain rfl := Except.ok.inj h
    exact hfound

theorem sparesRoot_addPattern (found : List Workspace) (pattern : String) :
    SparesRoot (addPattern fs root found pattern) := by
  unfold addPattern
  split
  · exact sparesRoot_expand.bind fun paths ↦ .foldlM sparesRoot_addMember paths found
  · simp

/-- The members of a project end the run. -/
def MonorepoHazard (yaml : Data.Reader) (fs : FileSystem) (root : Path) : Prop :=
  MembershipHazard yaml fs root ∨ ∃ membership, membershipOf yaml fs root = .ok membership ∧
    ∃ pattern ∈ membership.patterns, PatternHazard fs root pattern

theorem fails_monorepoOf (hfs : fs.WellFormed) :
    Fails (monorepoOf yaml fs root) ↔ MonorepoHazard yaml fs root := by
  rw [monorepoOf, fails_bind, fails_membershipOf, MonorepoHazard]
  refine or_congr_right (exists_congr fun membership ↦ and_congr_right fun _ ↦ ?_)
  have hadd : Fails (membership.patterns.foldlM (addPattern fs root) []) ↔
      ∃ pattern ∈ membership.patterns, PatternHazard fs root pattern := by
    refine fails_foldlM (Settled fs root) ?_ ?_ Settled.nil
    · intro pattern _ found hfound found' h
      exact hfound.addPattern hfs h
    · intro pattern _ found hfound
      exact fails_addPattern hfs hfound
  rw [fails_bind_left, hadd]
  intro found _
  cases found with
  | nil => exact not_fails_pure _
  | cons w rest => exact not_fails_pure _

theorem sparesRoot_monorepoOf : SparesRoot (monorepoOf yaml fs root) := by
  refine sparesRoot_membershipOf.bind fun membership ↦ ?_
  refine (SparesRoot.foldlM sparesRoot_addPattern membership.patterns []).bind fun found ↦ ?_
  cases found with
  | nil => simp
  | cons w rest => simp

/-! ## Profiles -/

/-- Something in a directory ends the run when its profile is detected. -/
def DetectHazard (yaml : Data.Reader) (fs : FileSystem) (dir : Path) : Prop :=
  Fails (fs.resolve dir) ∨ ∃ root, fs.resolve dir = .ok root ∧
    (IdentityHazard fs root ∨ StackHazard fs root ∨ MonorepoHazard yaml fs root ∨ RuntimeHazard fs root)

theorem fails_detect (hfs : fs.WellFormed) : Fails (detect yaml fs dir) ↔ DetectHazard yaml fs dir := by
  simp only [detect, fails_bind, not_fails_pure, and_false, exists_false, or_false, fails_or_exists]
  simp only [fails_identify, fails_stackOf, fails_monorepoOf hfs, fails_runtimeOf, DetectHazard]

theorem sparesRoot_resolve : SparesRoot (fs.resolve p) := by
  unfold FileSystem.resolve
  split
  · simp [Failure.isAboutRoot]
  · split
    · simp
    · simp [Failure.isAboutRoot]
    · dsimp only
      split <;> simp [Failure.isAboutRoot]

theorem sparesRoot_detect : SparesRoot (detect yaml fs dir) := by
  refine sparesRoot_resolve.bind fun root ↦ sparesRoot_identify.bind fun identity ↦ ?_
  refine sparesRoot_stackOf.bind fun stack ↦ sparesRoot_monorepoOf.bind fun monorepo ↦ ?_
  exact sparesRoot_runtimeOf.bind fun _ ↦ sparesRoot_pure _

/-! ## Projects without manifests -/

/-- The files that are read as manifests. -/
def manifestNames : List String :=
  ["package.json", "pyproject.toml", "Cargo.toml", "composer.json", "go.mod", "pnpm-workspace.yaml",
    "lerna.json", "go.work"]

/-- The files that are looked for in the directory of a project. -/
def markerNames : List String :=
  manifestNames ++ (runtimeMarkers ++ managerMarkers).flatMap (·.2) ++
    ["Dockerfile", "docker-compose.yml"]

/-- The files in which the members of a project are listed. -/
def memberNames : List String :=
  ["package.json", "pnpm-workspace.yaml", "lerna.json", "Cargo.toml", "go.work"] ++
    managerMarkers.flatMap (·.2)

theorem firstMarked_of_unmarked {table : List (String × List String)}
    (h : ∀ marker ∈ table.flatMap (·.2), fs.look (dir.child marker) = .error .missing) :
    firstMarked fs dir table = .ok none := by
  rw [firstMarked, findM?_eq_ok_none]
  · rfl
  · intro row hrow
    refine anyM_eq_ok_false.mpr fun marker hmarker ↦ ?_
    exact FileSystem.leadsTo_of_missing (h marker (List.mem_flatMap.mpr ⟨row, hrow, hmarker⟩)) _

theorem membershipOf_of_unlisted
    (h : ∀ name ∈ memberNames, fs.look (dir.child name) = .error .missing) :
    membershipOf yaml fs dir = .ok {} := by
  have htable (parse : Data.Reader) (name : String) (hname : name ∈ memberNames) :
      readTable fs parse (dir.child name) = .ok [] :=
    readTable_of_missing (h name hname)
  have hused : usePattern.groupsOnLines 1 "" = [] := by cbv
  rw [membershipOf, readJson, htable _ _ (by decide),
    firstMarked_of_unmarked fun marker hmarker ↦ h marker (List.mem_append_right _ hmarker),
    htable _ _ (by decide), readJson, htable _ _ (by decide),
    readToml_of_missing (h _ (by decide)), readPlain_of_missing (h _ (by decide))]
  simp only [bind, Except.bind, pure, Except.pure, hused]
  rfl

section

variable (hmissing : ∀ name ∈ markerNames, fs.look (dir.child name) = .error .missing)
include hmissing

theorem firstMarked_of_missing {table : List (String × List String)}
    (htable : table.flatMap (·.2) ⊆ markerNames) : firstMarked fs dir table = .ok none :=
  firstMarked_of_unmarked fun marker hmarker ↦ hmissing marker (htable hmarker)

theorem membershipOf_of_missing : membershipOf yaml fs dir = .ok {} := by
  have hnames : memberNames ⊆ markerNames := by decide
  exact membershipOf_of_unlisted fun name hname ↦ hmissing name (hnames hname)

/-- A directory in which nothing is found that is looked for has a profile. -/
theorem exists_detect_of_missing (hresolve : fs.resolve p = .ok dir)
    (hworkflows : fs.look ((dir.child ".github").child "workflows") = .error .missing) :
    ∃ profile, detect yaml fs p = .ok profile := by
  have htable (parse : Data.Reader) (name : String) (hname : name ∈ markerNames) :
      readTable fs parse (dir.child name) = .ok [] :=
    readTable_of_missing (hmissing name hname)
  have htoml (name : String) (hname : name ∈ markerNames) : readToml fs (dir.child name) = .ok [] :=
    readToml_of_missing (hmissing name hname)
  have hplain (name : String) (hname : name ∈ markerNames) : readPlain fs (dir.child name) = .ok "" :=
    readPlain_of_missing (hmissing name hname)
  have hidentity : identify fs dir = .ok (moduleIdentity "") := by
    rw [identify, readJson, htable _ _ (by decide), htoml _ (by decide), htoml _ (by decide), readJson,
      htable _ _ (by decide), hplain _ (by decide)]
    rfl
  have hstack : ∃ stack, stackOf fs dir = .ok stack := by
    have hdocker : ["Dockerfile", "docker-compose.yml"].anyM
        (fun name ↦ fs.leadsToFile (dir.child name)) = .ok false := by
      refine anyM_eq_ok_false.mpr fun name hname ↦ ?_
      exact FileSystem.leadsTo_of_missing (hmissing name (List.mem_append_right _ hname)) _
    have hactions : fs.leadsToDirectory ((dir.child ".github").child "workflows") = .ok false :=
      FileSystem.leadsTo_of_missing hworkflows _
    rw [stackOf, readJson, htable _ _ (by decide), htoml _ (by decide), htoml _ (by decide),
      hplain _ (by decide), hdocker, hactions]
    exact ⟨_, rfl⟩
  have hmonorepo : monorepoOf yaml fs dir = .ok none := by
    rw [monorepoOf, membershipOf_of_missing hmissing]
    rfl
  have hruntime : ∃ runtime, runtimeOf fs dir = .ok runtime := by
    rw [runtimeOf, firstMarked_of_missing hmissing (by decide)]
    exact ⟨_, rfl⟩
  obtain ⟨stack, hstack⟩ := hstack
  obtain ⟨runtime, hruntime⟩ := hruntime
  simp only [detect, hresolve, hidentity, hstack, hmonorepo, hruntime, bind, Except.bind]
  exact ⟨_, rfl⟩

end

end Dossier.Profile

import Dossier.Proofs.Profile.Workspaces
import Dossier.Proofs.Text.OneLine

/-!
# Profiles on lines

What a profile is made of comes from tables, apart from names and descriptions and from the paths of
members. If no name in the file system has a line feed, the texts that are shown as they are have none
either.
-/

namespace Dossier

/-- The texts of a member that are shown as they are stay on their line. -/
structure Workspace.Unbroken (w : Workspace) : Prop where
  path : Text.OneLine w.path
  runtime : ∀ runtime ∈ w.runtime, Text.OneLine runtime

/-- The texts of a profile that are shown as they are stay on their lines. -/
structure Profile.Unbroken (profile : Profile) : Prop where
  runtime : Text.OneLine profile.runtime
  frameworks : ∀ s ∈ profile.frameworks, Text.OneLine s
  tooling : ∀ s ∈ profile.tooling, Text.OneLine s
  tool : ∀ monorepo ∈ profile.monorepo, Text.OneLine monorepo.tool
  workspaces : ∀ monorepo ∈ profile.monorepo, ∀ w ∈ monorepo.workspaces, w.Unbroken

/-- No name in a file system has a line feed. -/
def FileSystem.Unbroken (fs : FileSystem) : Prop :=
  fs.top.Named fun names ↦ ∀ name ∈ names, Text.OneLine name

namespace Profile

open FileSystem (exists_stat_of_leadsTo extends_of_mem_expand names_of_stat)
open Steps

variable {yaml : Data.Reader} {fs : FileSystem} {root p dir : Path} {found : List Workspace}

/-! ## Texts from tables -/

theorem oneLine_of_firstMarked {table : List (String × List String)}
    (htable : ∀ row ∈ table, Text.OneLine row.1) {marked : Option String}
    (h : firstMarked fs dir table = .ok marked) : ∀ s ∈ marked, Text.OneLine s := by
  obtain ⟨row?, hfind, h⟩ := bind_eq_ok.mp h
  obtain rfl := pure_eq_ok.mp h
  intro s hs
  obtain ⟨row, rfl, rfl⟩ := Option.map_eq_some_iff.mp hs
  exact htable row (mem_of_findM?_eq_ok hfind)

theorem oneLine_of_runtimeOf {runtime : String} (h : runtimeOf fs dir = .ok runtime) :
    Text.OneLine runtime := by
  obtain ⟨marked, hmarked, h⟩ := bind_eq_ok.mp h
  cases marked with
  | some s =>
      obtain rfl := pure_eq_ok.mp h
      exact oneLine_of_firstMarked (by decide) hmarked s rfl
  | none =>
      obtain rfl := pure_eq_ok.mp h
      split <;> decide

theorem oneLine_labels {known : List (String × String)} (hknown : ∀ row ∈ known, Text.OneLine row.2)
    (has : String → Bool) : ∀ s ∈ labels known has, Text.OneLine s := by
  intro s hs
  obtain ⟨row, hrow, rfl⟩ := List.mem_map.mp hs
  exact hknown row (List.mem_of_mem_filter hrow)

theorem oneLine_of_stackOf {stack : Stack} (h : stackOf fs dir = .ok stack) :
    (∀ s ∈ stack.frameworks, Text.OneLine s) ∧ ∀ s ∈ stack.tooling, Text.OneLine s := by
  simp only [stackOf, bind_eq_ok, pure_eq_ok] at h
  obtain ⟨package, -, pyproject, -, python, -, cargo, -, go, -, docker, -, actions, -, rfl⟩ := h
  simp only [List.forall_mem_append]
  refine ⟨⟨⟨⟨?_, ?_⟩, ?_⟩, ?_⟩, ⟨⟨?_, ?_⟩, ?_⟩, ?_⟩
  case refine_7 => split <;> simp [Text.OneLine]
  case refine_8 => split <;> simp [Text.OneLine]
  all_goals exact oneLine_labels (by decide) _

theorem oneLine_of_installerOf {asked : Bool} {installer : Option String}
    (h : installerOf fs dir asked = .ok installer) : ∀ s ∈ installer, Text.OneLine s := by
  unfold installerOf at h
  split at h
  · obtain ⟨bun, -, h⟩ := bind_eq_ok.mp h
    split at h <;> obtain rfl := pure_eq_ok.mp h <;> simp [Text.OneLine]
  · obtain rfl := pure_eq_ok.mp h
    simp

theorem oneLine_of_membershipOf {membership : Membership}
    (h : membershipOf yaml fs dir = .ok membership) : ∀ s ∈ membership.tool, Text.OneLine s := by
  simp only [membershipOf, bind_eq_ok, pure_eq_ok] at h
  obtain ⟨package, -, manager, hmanager, installer, hinstaller, pnpm, -, pnpm', -, lerna, -, lerna',
    -, cargo, -, go, -, rfl⟩ := h
  intro s hs
  cases manager with
  | some manager =>
      obtain rfl : manager = s := by simpa using hs
      exact oneLine_of_firstMarked (by decide) hmanager _ rfl
  | none =>
      cases installer with
      | some installer =>
          obtain rfl : installer = s := by simpa using hs
          exact oneLine_of_installerOf hinstaller _ rfl
      | none =>
          obtain ⟨members, -, rfl⟩ : ∃ members, crateMembers? cargo = some members ∧ "cargo" = s := by
            simpa using hs
          decide

/-! ## Members -/

/-- A path below the root that leads somewhere is shown on one line. -/
theorem oneLine_shownPath (hfs : fs.Unbroken) (hp : p.Extends root) {e : Entry}
    (hstat : fs.stat p = .ok e) : Text.OneLine (shownPath root p) := by
  -- The path may have been put together from a pattern, and a pattern may have any characters. But
  -- the path has been looked up, so its names are names of the file system.
  obtain ⟨names, -, hbelow, rfl⟩ := hp.below?
  rw [shownPath, hbelow]
  refine Path.oneLine_relativeText fun name hname ↦ ?_
  rcases names_of_stat hfs hstat name (List.mem_append_right _ hname) with rfl | rfl | hline
  · decide
  · decide
  · exact hline

theorem exists_stat_of_isMember (h : isMember fs p = .ok true) : ∃ e, fs.stat p = .ok e := by
  obtain ⟨reached, hreached, h⟩ := bind_eq_ok.mp h
  obtain ⟨rfl, -⟩ : reached = true ∧ "node_modules" ∉ p.parts := by
    simpa using pure_eq_ok.mp h
  obtain ⟨e, hstat, -⟩ := exists_stat_of_leadsTo hreached
  exact ⟨e, hstat⟩

theorem oneLine_of_describe {shown : String} {w : Workspace}
    (h : describe fs dir shown = .ok w) : ∀ runtime ∈ w.runtime, Text.OneLine runtime := by
  obtain ⟨identity, -, h⟩ := bind_eq_ok.mp h
  obtain ⟨runtime, hruntime, h⟩ := bind_eq_ok.mp h
  obtain rfl := pure_eq_ok.mp h
  intro s hs
  dsimp only at hs
  split at hs
  · simp at hs
  · obtain rfl := Option.some_inj.mp hs
    exact oneLine_of_runtimeOf hruntime

/-- A member is what is known about a directory that a pattern stands for. -/
def Described (fs : FileSystem) (root : Path) (w : Workspace) : Prop :=
  ∃ pattern paths p, fs.expand root pattern = .ok paths ∧ p ∈ paths ∧ isMember fs p = .ok true ∧
    describe fs p (shownPath root p) = .ok w

theorem described_of_addMember {pattern : String} {paths : List Path}
    (hpaths : fs.expand root pattern = .ok paths) (hp : p ∈ paths)
    (hfound : ∀ w ∈ found, Described fs root w) {found' : List Workspace}
    (h : addMember fs root found p = .ok found') : ∀ w ∈ found', Described fs root w := by
  rw [addMember] at h
  obtain ⟨member, hmember, h⟩ := bind_eq_ok.mp h
  split at h
  · obtain rfl := pure_eq_ok.mp h
    exact hfound
  · next hnew =>
    obtain rfl : member = true := by simp_all
    obtain ⟨w, hw, h⟩ := bind_eq_ok.mp h
    obtain rfl := pure_eq_ok.mp h
    refine List.forall_mem_append.mpr ⟨hfound, List.forall_mem_singleton.mpr ?_⟩
    exact ⟨pattern, paths, p, hpaths, hp, hmember, hw⟩

theorem described_of_addPattern (hfound : ∀ w ∈ found, Described fs root w) {pattern : String}
    {found' : List Workspace} (h : addPattern fs root found pattern = .ok found') :
    ∀ w ∈ found', Described fs root w := by
  rw [addPattern] at h
  split at h
  · obtain ⟨paths, hpaths, h⟩ := bind_eq_ok.mp h
    refine foldlM_preserves (fun found ↦ ∀ w ∈ found, Described fs root w) ?_ hfound h
    intro p hp found hfound found' hstep
    exact described_of_addMember hpaths hp hfound hstep
  · obtain rfl := Except.ok.inj h
    exact hfound

theorem described_of_monorepoOf {monorepo : Monorepo}
    (h : monorepoOf yaml fs root = .ok (some monorepo)) :
    Text.OneLine monorepo.tool ∧ ∀ w ∈ monorepo.workspaces, Described fs root w := by
  obtain ⟨membership, hmembership, h⟩ := bind_eq_ok.mp h
  obtain ⟨found, hfold, h⟩ := bind_eq_ok.mp h
  have hfound : ∀ w ∈ found, Described fs root w := by
    refine foldlM_preserves (fun found ↦ ∀ w ∈ found, Described fs root w) ?_ (by simp) hfold
    intro pattern _ found hfound found' hstep
    exact described_of_addPattern hfound hstep
  cases found with
  | nil => simp [pure_eq_ok] at h
  | cons w rest =>
      obtain rfl := Option.some_inj.mp (pure_eq_ok.mp h)
      refine ⟨?_, hfound⟩
      cases htool : membership.tool with
      | none =>
          change Text.OneLine "workspace"
          decide
      | some tool => exact oneLine_of_membershipOf hmembership tool htool

theorem Described.oneLine_runtime {w : Workspace} (h : Described fs root w) :
    ∀ runtime ∈ w.runtime, Text.OneLine runtime := by
  obtain ⟨_, _, _, -, -, -, hw⟩ := h
  exact oneLine_of_describe hw

theorem Described.oneLine_path (hfs : fs.WellFormed) (hnames : fs.Unbroken) {w : Workspace}
    (h : Described fs root w) : Text.OneLine w.path := by
  obtain ⟨pattern, paths, p, hpaths, hp, hmember, hw⟩ := h
  obtain ⟨e, hstat⟩ := exists_stat_of_isMember hmember
  rw [path_of_describe hw]
  exact oneLine_shownPath hnames (extends_of_mem_expand hfs hpaths hp) hstat

/-! ## Profiles -/

/-- The members that a profile lists have been described. -/
theorem described_of_detect {profile : Profile} (h : detect yaml fs dir = .ok profile) :
    ∃ root, ∀ monorepo ∈ profile.monorepo, ∀ w ∈ monorepo.workspaces, Described fs root w := by
  simp only [detect, bind_eq_ok, pure_eq_ok] at h
  obtain ⟨root, -, identity, -, stack, -, monorepo, hmonorepo, runtime, -, rfl⟩ := h
  refine ⟨root, ?_⟩
  rintro m rfl
  exact (described_of_monorepoOf hmonorepo).2

/-- A profile that is detected keeps to its lines if the paths of its members do. -/
theorem unbroken_of_paths {profile : Profile} (h : detect yaml fs dir = .ok profile)
    (hpaths : ∀ monorepo ∈ profile.monorepo, ∀ w ∈ monorepo.workspaces, Text.OneLine w.path) :
    profile.Unbroken := by
  simp only [detect, bind_eq_ok, pure_eq_ok] at h
  obtain ⟨root, -, identity, -, stack, hstack, monorepo, hmonorepo, runtime, hruntime, rfl⟩ := h
  obtain ⟨hframeworks, htooling⟩ := oneLine_of_stackOf hstack
  refine ⟨oneLine_of_runtimeOf hruntime, hframeworks, htooling, ?_, ?_⟩
  · rintro m rfl
    exact (described_of_monorepoOf hmonorepo).1
  · rintro m rfl w hw
    exact ⟨hpaths m rfl w hw, ((described_of_monorepoOf hmonorepo).2 w hw).oneLine_runtime⟩

/-- Where no name has a line feed, a profile that is detected keeps to its lines. -/
theorem unbroken_of_detect (hfs : fs.WellFormed) (hnames : fs.Unbroken) {profile : Profile}
    (h : detect yaml fs dir = .ok profile) : profile.Unbroken := by
  obtain ⟨root, hmembers⟩ := described_of_detect h
  exact unbroken_of_paths h fun m hm w hw ↦ (hmembers m hm w hw).oneLine_path hfs hnames

end Profile

end Dossier

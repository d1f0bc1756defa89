import Dossier.Proofs.Document.Returns
import Dossier.Proofs.Profile.Workspaces
import Mathlib

/-!
# The manifest that names a project

Manifests are asked one after another until one settles the identity of the project. Every manifest
that gives a name settles it. Others do as well: a package that is not empty, a table with anything
under the name, and the module file whatever it holds. Then the project is called after its
directory, and no later manifest is asked for a name.
-/

namespace Dossier.Profile

open Data (Datum)
open Steps

variable {yaml : Data.Reader} {fs : FileSystem} {dir root : Path} {identity : Identity} {table : Table}

/-- The manifests that may name a project, in the order in which they are asked. -/
inductive Manifest where
  /-- All of `package.json`. -/
  | package
  /-- The `project` table of `pyproject.toml`. -/
  | project
  /-- The `tool.poetry` table of `pyproject.toml`. -/
  | poetry
  /-- The `package` table of `Cargo.toml`. -/
  | crate
  /-- All of `composer.json`. -/
  | composer
  /-- The line in `go.mod` that names the module. -/
  | module
deriving DecidableEq, Repr

/-- What a manifest says about a project, and whether the search ends with it. -/
structure Answer where
  settles : Bool
  identity : Identity
deriving DecidableEq, Repr

/-- The answer of a table that ends the search only with something under the name. -/
def tableAnswer (table : Table) : Answer :=
  ⟨(named? table).isSome, identityIn table⟩

namespace Manifest

/-- All manifests, in the order in which they are asked. -/
def all : List Manifest :=
  [.package, .project, .poetry, .crate, .composer, .module]

/-- What a manifest in a directory says. -/
def answer (fs : FileSystem) (dir : Path) : Manifest → Except Failure Answer
  | .package => do
    let package ← readJson fs (dir.child "package.json")
    return ⟨!package.isEmpty, identityIn package⟩
  | .project => do
    let pyproject ← readToml fs (dir.child "pyproject.toml")
    return tableAnswer ((section? pyproject "project").getD [])
  | .poetry => do
    let pyproject ← readToml fs (dir.child "pyproject.toml")
    return tableAnswer (((section? pyproject "tool").bind (section? · "poetry")).getD [])
  | .crate => do
    let cargo ← readToml fs (dir.child "Cargo.toml")
    return tableAnswer ((section? cargo "package").getD [])
  | .composer => do
    let composer ← readJson fs (dir.child "composer.json")
    return tableAnswer composer
  | .module => do
    let content ← readPlain fs (dir.child "go.mod")
    return ⟨true, moduleIdentity content⟩

/-- Whether a manifest gives a name. -/
def names (fs : FileSystem) (dir : Path) (m : Manifest) : Bool :=
  match m.answer fs dir with
  | .ok answer => answer.identity.properName?.isSome
  | .error _ => false

/-- What a manifest says about a project, whether or not the search ends with it. -/
def Says (fs : FileSystem) (dir : Path) (m : Manifest) (identity : Identity) : Prop :=
  ∃ settles, m.answer fs dir = .ok ⟨settles, identity⟩

end Manifest

/-- Asks manifests one after another until one settles the identity. -/
def ask (fs : FileSystem) (dir : Path) : List Manifest → Except Failure Identity
  | [] => .ok {}
  | m :: rest => do
    let answer ← m.answer fs dir
    if answer.settles then return answer.identity else ask fs dir rest

/-- The name of a project that gives itself none. -/
def directoryName (root : Path) : String :=
  if root.name = "" then "project" else root.name

/-- The first manifest that gives a name gives name and description, and a project without such a
manifest is called after its directory. -/
def NamedByFirst (fs : FileSystem) (root : Path) (profile : Profile) : Prop :=
  match Manifest.all.find? (·.names fs root) with
  | some m => m.Says fs root ⟨some profile.name, profile.description⟩
  | none => profile.name = directoryName root

/-! ## The search -/

theorem eq_identityIn_of_named? (h : named? table = some identity) :
    identity = identityIn table := by
  rw [named?] at h
  split at h
  · split at h
    · cases h
    · exact (Option.some_inj.mp h).symm
  · cases h

theorem ask_table {α : Type} {m : Manifest} {reading : Except Failure α} {select : α → Table}
    (h : m.answer fs dir = reading >>= fun a ↦ pure (tableAnswer (select a)))
    (rest : List Manifest) : ask fs dir (m :: rest) = reading >>= fun a ↦
      match named? (select a) with
      | some identity => pure identity
      | _ => ask fs dir rest := by
  rw [ask, h]
  cases reading with
  | error f => rfl
  | ok a =>
      simp only [bind, Except.bind, pure, Except.pure, tableAnswer]
      cases hnamed : named? (select a) with
      | none => rfl
      | some identity => rw [eq_identityIn_of_named? hnamed]; rfl

theorem ask_module : ask fs dir [.module] = do
    return moduleIdentity (← readPlain fs (dir.child "go.mod")) := by
  rw [ask, Manifest.answer]
  cases readPlain fs (dir.child "go.mod") <;> rfl

/-- The search for a name, one manifest after the other. -/
theorem identify_eq_ask : identify fs dir = ask fs dir Manifest.all := by
  rw [identify, Manifest.all, ask, Manifest.answer, ask_table (m := .project) rfl,
    ask_table (m := .poetry) rfl, ask_table (m := .crate) rfl, ask_table (m := .composer) rfl,
    ask_module]
  cases readJson fs (dir.child "package.json") with
  | error f => rfl
  | ok package =>
      cases package with
      | cons entry rest => rfl
      | nil => cases readToml fs (dir.child "pyproject.toml") <;> rfl

/-- The search ends with a manifest: it settles the identity, and none before it does. -/
def EndsWith (fs : FileSystem) (dir : Path) (s : Manifest) (identity : Identity) : Prop :=
  ∃ before after, Manifest.all = before ++ s :: after ∧
    (∀ m ∈ before, ∃ other, m.answer fs dir = .ok ⟨false, other⟩) ∧
    s.answer fs dir = .ok ⟨true, identity⟩

theorem exists_of_ask {ms : List Manifest} (h : ask fs dir ms = .ok identity)
    (hends : ∃ m ∈ ms, ∀ answer, m.answer fs dir = .ok answer → answer.settles = true) :
    ∃ before s after, ms = before ++ s :: after ∧
      (∀ m ∈ before, ∃ other, m.answer fs dir = .ok ⟨false, other⟩) ∧
      s.answer fs dir = .ok ⟨true, identity⟩ := by
  induction ms with
  | nil => simp at hends
  | cons m rest ih =>
      obtain ⟨⟨settles, other⟩, hanswer, h⟩ := bind_eq_ok.mp h
      cases settles with
      | true =>
          obtain rfl := pure_eq_ok.mp h
          exact ⟨[], m, rest, rfl, by simp, hanswer⟩
      | false =>
          obtain ⟨last, hlast, hsettles⟩ := hends
          have hrest : last ∈ rest := by
            refine (List.mem_cons.mp hlast).resolve_left ?_
            rintro rfl
            exact Bool.false_ne_true (hsettles _ hanswer)
          obtain ⟨before, s, after, rfl, hbefore, hs⟩ := ih h ⟨last, hrest, hsettles⟩
          have hall := List.forall_mem_cons.mpr ⟨⟨other, hanswer⟩, hbefore⟩
          exact ⟨m :: before, s, after, rfl, hall, hs⟩

theorem ask_of_settled {before after : List Manifest} {s : Manifest}
    (hbefore : ∀ m ∈ before, ∃ other, m.answer fs dir = .ok ⟨false, other⟩)
    (hs : s.answer fs dir = .ok ⟨true, identity⟩) :
    ask fs dir (before ++ s :: after) = .ok identity := by
  induction before with
  | nil =>
      rw [List.nil_append, ask, hs]
      rfl
  | cons m before ih =>
      obtain ⟨⟨other, hother⟩, hbefore⟩ := List.forall_mem_cons.mp hbefore
      rw [List.cons_append, ask, hother]
      exact ih hbefore

theorem identify_eq_ok : identify fs dir = .ok identity ↔ ∃ s, EndsWith fs dir s identity := by
  rw [identify_eq_ask]
  constructor
  · intro h
    have hmodule : ∀ answer, Manifest.module.answer fs dir = .ok answer →
        answer.settles = true := by
      intro answer hanswer
      obtain ⟨content, -, hanswer⟩ := bind_eq_ok.mp hanswer
      obtain rfl := pure_eq_ok.mp hanswer
      rfl
    obtain ⟨before, s, after, hall, hbefore, hs⟩ := exists_of_ask h ⟨.module, by decide, hmodule⟩
    exact ⟨s, before, after, hall, hbefore, hs⟩
  · rintro ⟨s, before, after, hall, hbefore, hs⟩
    rw [hall]
    exact ask_of_settled hbefore hs

/-! ## Names settle the search -/

theorem isEmpty_of_text {d : Datum} {s : String} (h : d.text? = some s)
    (hs : s ≠ "") : d.isEmpty = false := by
  cases d with
  | text t =>
      obtain rfl := Option.some_inj.mp h
      simpa [Datum.isEmpty] using hs
  | codes cs =>
      obtain rfl := Option.some_inj.mp h
      cases cs with
      | nil => exact absurd rfl hs
      | cons c rest => rfl
  | _ => cases h

theorem lookup_of_properName (h : (identityIn table).properName?.isSome = true) :
    ∃ d, Datum.lookup "name" table = some d ∧ d.isEmpty = false := by
  obtain ⟨name, hname⟩ := Option.isSome_iff_exists.mp h
  have hfilled : filled? (Datum.lookup "name" table) = some name :=
    (Option.filter_eq_some_iff.mp hname).1
  obtain ⟨s, htext, hs⟩ := Option.bind_eq_some_iff.mp hfilled
  obtain ⟨d, hlookup, htext⟩ := Option.bind_eq_some_iff.mp htext
  have hne : s ≠ "" := by
    rintro rfl
    simp [Text.allBlank] at hs
  exact ⟨d, hlookup, isEmpty_of_text htext hne⟩

theorem settles_tableAnswer (h : (identityIn table).properName?.isSome = true) :
    (tableAnswer table).settles = true := by
  obtain ⟨d, hlookup, hfull⟩ := lookup_of_properName h
  simp [tableAnswer, named?, hlookup, hfull]

theorem settles_of_properName {m : Manifest} {answer : Answer}
    (hanswer : m.answer fs dir = .ok answer)
    (h : answer.identity.properName?.isSome = true) : answer.settles = true := by
  cases m with
  | package =>
      obtain ⟨package, -, hanswer⟩ := bind_eq_ok.mp hanswer
      obtain rfl := pure_eq_ok.mp hanswer
      obtain ⟨s, hlookup, -⟩ := lookup_of_properName h
      cases package with
      | nil => simp [Datum.lookup] at hlookup
      | cons entry rest => rfl
  | project | poetry | crate | composer =>
      obtain ⟨read, -, hanswer⟩ := bind_eq_ok.mp hanswer
      obtain rfl := pure_eq_ok.mp hanswer
      exact settles_tableAnswer h
  | module =>
      obtain ⟨content, -, hanswer⟩ := bind_eq_ok.mp hanswer
      obtain rfl := pure_eq_ok.mp hanswer
      rfl

/-! ## The name of a project -/

section

variable {s m : Manifest} (h : EndsWith fs dir s identity)
include h

theorem names_of_endsWith : s.names fs dir = identity.properName?.isSome := by
  obtain ⟨before, after, -, -, hs⟩ := h
  rw [Manifest.names, hs]

/-- If the search ends with a manifest that gives a name, it is the first one that does. -/
theorem find?_of_endsWith (hname : identity.properName?.isSome = true) :
    Manifest.all.find? (·.names fs dir) = some s := by
  have hs : s.names fs dir = true := by rw [names_of_endsWith h, hname]
  obtain ⟨before, after, hall, hbefore, -⟩ := h
  refine List.find?_eq_some_iff_append.mpr ⟨hs, before, after, hall, fun m hm ↦ ?_⟩
  obtain ⟨other, hother⟩ := hbefore m hm
  rw [Bool.not_eq_true', Bool.eq_false_iff]
  intro hnames
  rw [Manifest.names, hother] at hnames
  exact Bool.false_ne_true (settles_of_properName hother hnames)

/-- A name and a description are those of the first manifest that gives a name exactly if the search
ends with that manifest, or if it says what would be said without it. -/
theorem namedByFirst_iff {profile : Profile}
    (hname : profile.name = identity.properName?.getD (directoryName dir))
    (hdescription : profile.description = identity.description) :
    NamedByFirst fs dir profile ↔ ∀ m, Manifest.all.find? (·.names fs dir) = some m →
      m = s ∨ m.Says fs dir ⟨some (directoryName dir), identity.description⟩ := by
  rw [NamedByFirst]
  cases hown : identity.properName? with
  | some name =>
      have hfirst := find?_of_endsWith h (by rw [hown]; rfl)
      obtain ⟨before, after, -, -, hs⟩ := h
      have hidentity : identity = ⟨some profile.name, profile.description⟩ := by
        rw [hname, hdescription, hown, Option.getD_some, ← (Option.filter_eq_some_iff.mp hown).1]
      rw [hfirst]
      refine iff_of_true ⟨true, ?_⟩ fun m hm ↦ .inl (Option.some_inj.mp hm).symm
      rw [hs, ← hidentity]
  | none =>
      rw [hown, Option.getD_none] at hname
      cases hfirst : Manifest.all.find? (·.names fs dir) with
      | none => simp [hname]
      | some m =>
          have hother : m ≠ s := by
            rintro rfl
            have hnames := List.find?_some hfirst
            rw [names_of_endsWith h, hown] at hnames
            exact Bool.false_ne_true hnames
          simp [hname, hdescription, hother]

end

/-- Detection fails exactly if it meets a hazard. Otherwise the search for a name ends with a
manifest, and this manifest alone gives the name, or else the directory does, and the description.
That is the name and the description of the first manifest that gives a name exactly if the search
ends with that manifest, or if it says what is said without it. -/
theorem detect_names_by_settled (hfs : fs.WellFormed) :
    (Fails (detect yaml fs dir) ↔ DetectHazard yaml fs dir) ∧
    ∀ profile, detect yaml fs dir = .ok profile → ∃ root s identity,
      fs.resolve dir = .ok root ∧ EndsWith fs root s identity ∧
      profile.name = identity.properName?.getD (directoryName root) ∧
      profile.description = identity.description ∧
      (NamedByFirst fs root profile ↔ ∀ m, Manifest.all.find? (·.names fs root) = some m →
        m = s ∨ m.Says fs root ⟨some (directoryName root), identity.description⟩) := by
  refine ⟨fails_detect hfs, fun profile h ↦ ?_⟩
  simp only [detect, bind_eq_ok, pure_eq_ok] at h
  obtain ⟨root, hresolve, identity, hidentity, stack, -, monorepo, -, runtime, -, rfl⟩ := h
  obtain ⟨s, hs⟩ := identify_eq_ok.mp hidentity
  exact ⟨root, s, identity, hresolve, hs, rfl, rfl, namedByFirst_iff hs rfl rfl⟩

/-! ## A blank name before a name -/

open Document (projectWith)

/-- A manifest with a blank name in the table that is asked first and a name in the next one. -/
def blankManifest : String :=
  "[project]\nname = ' '\n[tool.poetry]\nname = 'tool'\n"

/-- The project of that manifest. -/
def blankProject : FileSystem :=
  projectWith "pyproject.toml" blankManifest.toUTF8

/-- What the manifest holds. -/
def blankTable : Table :=
  [(.text "project", .map [(.text "name", .text " ")]),
    (.text "tool", .map [(.text "poetry", .map [(.text "name", .text "tool")])])]

theorem look_manifest : blankProject.look ((Path.mk "/" ["p"]).child "pyproject.toml") =
    .ok (.file blankManifest.toUTF8) :=
  Document.stat_file (by decide) (by decide) (by decide)

theorem readToml_blankProject :
    readToml blankProject ((Path.mk "/" ["p"]).child "pyproject.toml") = .ok blankTable :=
  (readToml_of_look (by decide) rfl look_manifest).trans (by cbv)

theorem look_blankProject {name : String} (hname : name ∈ markerNames)
    (hother : name ≠ "pyproject.toml") :
    blankProject.look ((Path.mk "/" ["p"]).child name) = .error .missing := by
  have hnames : ∀ name ∈ markerNames, FileSystem.isOverlong ⟨"/", ["p", name]⟩ = false ∧
      ProperName name ∧ name.utf8ByteSize ≤ FileSystem.maxNameBytes := by
    decide
  obtain ⟨hlong, hproper, hshort⟩ := hnames name hname
  exact Document.stat_missing hlong hproper hshort hother

theorem readJson_blankProject :
    readJson blankProject ((Path.mk "/" ["p"]).child "package.json") = .ok [] :=
  readTable_of_missing (look_blankProject (by decide) (by decide))

theorem resolve_blankProject : blankProject.resolve ⟨"/", ["p"]⟩ = .ok ⟨"/", ["p"]⟩ :=
  Document.resolve_projectWith _ _

theorem identify_blankProject : identify blankProject ⟨"/", ["p"]⟩ = .ok {} := by
  rw [identify, readJson_blankProject, readToml_blankProject]
  rfl

theorem runtimeOf_blankProject :
    ∃ runtime, runtimeOf blankProject ⟨"/", ["p"]⟩ = .ok runtime := by
  refine not_fails_iff.mp fun hfails ↦ ?_
  obtain ⟨before, marker, after, hmarkers, -, hrefused⟩ := fails_runtimeOf.mp hfails
  have hmarker : marker ∈ markerNames := by
    have hnames : runtimeMarkers.flatMap (·.2) ⊆ markerNames := by decide
    exact hnames (hmarkers ▸ List.mem_append_right before List.mem_cons_self)
  by_cases hfile : marker = "pyproject.toml"
  · rw [hfile] at hrefused
    have hfound := FileSystem.leadsTo_of_look (by decide) look_manifest fun _ ↦ true
    exact not_fails_iff.mpr ⟨_, hfound⟩ hrefused
  · have hmissing := FileSystem.leadsTo_of_missing (look_blankProject hmarker hfile) fun _ ↦ true
    exact not_fails_iff.mpr ⟨_, hmissing⟩ hrefused

theorem detect_blankProject (yaml : Data.Reader) :
    ∃ profile, detect yaml blankProject ⟨"/", ["p"]⟩ = .ok profile := by
  have hcargo : readToml blankProject ((Path.mk "/" ["p"]).child "Cargo.toml") = .ok [] :=
    readToml_of_missing (look_blankProject (by decide) (by decide))
  have hgo : readPlain blankProject ((Path.mk "/" ["p"]).child "go.mod") = .ok "" :=
    readPlain_of_missing (look_blankProject (by decide) (by decide))
  have hdocker : ["Dockerfile", "docker-compose.yml"].anyM
      (fun name ↦ blankProject.leadsToFile ((Path.mk "/" ["p"]).child name)) = .ok false := by
    have hnames : ∀ name ∈ ["Dockerfile", "docker-compose.yml"],
        name ∈ markerNames ∧ name ≠ "pyproject.toml" := by
      decide
    refine anyM_eq_ok_false.mpr fun name hname ↦ ?_
    obtain ⟨hmarker, hother⟩ := hnames name hname
    exact FileSystem.leadsTo_of_missing (look_blankProject hmarker hother) _
  have hworkflows : blankProject.look (((Path.mk "/" ["p"]).child ".github").child "workflows") =
      .error .missing :=
    Document.stat_missing (by decide) (by decide) (by decide) (by decide)
  have hactions : blankProject.leadsToDirectory
      (((Path.mk "/" ["p"]).child ".github").child "workflows") = .ok false :=
    FileSystem.leadsTo_of_missing hworkflows _
  have hstack : ∃ stack, stackOf blankProject ⟨"/", ["p"]⟩ = .ok stack := by
    rw [stackOf, readJson_blankProject, readToml_blankProject, hcargo, hgo, hdocker, hactions]
    exact ⟨_, rfl⟩
  have hmonorepo : monorepoOf yaml blankProject ⟨"/", ["p"]⟩ = .ok none := by
    have hnames : ∀ name ∈ memberNames, name ∈ markerNames ∧ name ≠ "pyproject.toml" := by decide
    rw [monorepoOf, membershipOf_of_unlisted fun name hname ↦
      look_blankProject (hnames name hname).1 (hnames name hname).2]
    rfl
  obtain ⟨stack, hstack⟩ := hstack
  obtain ⟨runtime, hruntime⟩ := runtimeOf_blankProject
  simp only [detect, resolve_blankProject, identify_blankProject, hstack, hmonorepo, hruntime,
    bind, Except.bind]
  exact ⟨_, rfl⟩

/-- A blank name keeps the name of the next table from being used. -/
theorem detect_names_by_settled_blank : ∃ profile,
    detect Document.bareServices.yaml blankProject ⟨"/", ["p"]⟩ = .ok profile ∧ profile.name = "p" ∧
      Manifest.all.find? (·.names blankProject ⟨"/", ["p"]⟩) = some .poetry ∧
      Manifest.poetry.Says blankProject ⟨"/", ["p"]⟩ ⟨some "tool", none⟩ ∧
      ¬ NamedByFirst blankProject ⟨"/", ["p"]⟩ profile := by
  have hpackage : Manifest.package.answer blankProject ⟨"/", ["p"]⟩ = .ok ⟨false, {}⟩ := by
    rw [Manifest.answer, readJson_blankProject]
    rfl
  have hproject : Manifest.project.answer blankProject ⟨"/", ["p"]⟩ = .ok ⟨true, {}⟩ := by
    rw [Manifest.answer, readToml_blankProject]
    rfl
  have hpoetry : Manifest.poetry.answer blankProject ⟨"/", ["p"]⟩ =
      .ok ⟨true, ⟨some "tool", none⟩⟩ := by
    rw [Manifest.answer, readToml_blankProject]
    cbv
  have hfirst : Manifest.all.find? (·.names blankProject ⟨"/", ["p"]⟩) = some .poetry := by
    simp [Manifest.all, Manifest.names, hpackage, hproject, hpoetry, Identity.properName?]
  have hfs : blankProject.WellFormed := Document.projectWith_wellFormed (by decide) _
  obtain ⟨profile, hprofile⟩ := detect_blankProject Document.bareServices.yaml
  obtain ⟨root, s, identity, hroot, hends, hname, -, hiff⟩ :=
    (detect_names_by_settled hfs).2 profile hprofile
  obtain rfl := Except.ok.inj (resolve_blankProject.symm.trans hroot)
  obtain rfl := Except.ok.inj (identify_blankProject.symm.trans (identify_eq_ok.mpr ⟨s, hends⟩))
  refine ⟨profile, hprofile, hname, hfirst, ⟨true, hpoetry⟩, fun hnamed ↦ ?_⟩
  rcases hiff.mp hnamed .poetry hfirst with rfl | ⟨settles, hsays⟩
  · have hnames := names_of_endsWith hends
    rw [List.find?_some hfirst] at hnames
    cases hnames
  · rw [hpoetry] at hsays
    exact absurd (Answer.mk.inj (Except.ok.inj hsays)).2 (by decide)

end Dossier.Profile

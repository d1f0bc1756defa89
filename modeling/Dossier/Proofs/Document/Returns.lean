import Dossier.Proofs.Document.Hazards
import Dossier.Proofs.FileSystem.Kinds
import Dossier.Proofs.FileSystem.Straight

/-!
# Which runs return

A run that is not asked to write returns a document exactly if its root can be listed and it meets
none of the hazards. It blames the root exactly if the root can be looked up and cannot be listed.
-/

namespace Dossier

open Steps

namespace Document

variable {fs : FileSystem} {measure : Measure} {root : Path}

/-! ## Runs -/

variable {services : Services} {t : Budget.Tokenizer} {request : Request} {settings : Settings}
  {warnings : List String} {found : Findings}

theorem isNamed_of_survey (hfs : fs.WellFormed) {known : Option Profile}
    (h : survey fs services root settings known = .ok found) : ∀ path ∈ found.files, IsNamed path := by
  obtain ⟨-, inventory, warnings, progress, htake, hfiles, -, -⟩ := survey_ok h
  rw [hfiles]
  exact Inventory.isNamed_of_mem_files hfs htake

/-- What ends the building of a document: what is read for it does, or its contents do. -/
def BuildHazard (fs : FileSystem) (services : Services) (t : Budget.Tokenizer) (request : Request)
    (root : Path) (settings : Settings) : Prop :=
  SurveyHazard fs services root settings request.profile ∨
    ∃ found, survey fs services root settings request.profile = .ok found ∧
      ContentsHazard fs t.measure root settings found
        (split t.measure found.profile.name (request.budget.getD settings.budget))

theorem fails_compose (hroot : fs.IsListable root) {budget : Int}
    (hfiles : ∀ path ∈ found.files, IsNamed path) :
    Fails (compose fs measure root settings budget found) ↔
      ContentsHazard fs measure root settings found (split measure found.profile.name budget) := by
  rw [compose, fails_bind_left, fails_contentsOf hroot.isClean hfiles]
  intro contents _
  exact not_fails_pure _

theorem fails_build (hfs : fs.WellFormed) (hdistinct : fs.Distinct)
    (habsolute : root.isAbsolute = true) (hroot : fs.IsListable root) :
    Fails (build fs services t request root settings warnings) ↔
      BuildHazard fs services t request root settings := by
  rw [BuildHazard, ← fails_survey hfs hdistinct habsolute hroot, build, fails_bind]
  refine or_congr_right (exists_congr fun found ↦ and_congr_right fun hfound ↦ ?_)
  rw [fails_bind_left, fails_compose hroot (isNamed_of_survey hfs hfound)]
  intro compiled _
  exact not_fails_pure _

theorem sparesRoot_build (hroot : fs.IsListable root) :
    SparesRoot (build fs services t request root settings warnings) := by
  refine (sparesRoot_survey hroot).bind fun found ↦ ?_
  have hcompose (budget : Int) : SparesRoot (compose fs t.measure root settings budget found) :=
    sparesRoot_contentsOf.bind fun _ ↦ sparesRoot_pure _
  exact (hcompose _).bind fun _ ↦ sparesRoot_pure _

/-- What ends a run whose root can be listed. -/
def RunHazard (fs : FileSystem) (services : Services) (t : Budget.Tokenizer) (request : Request)
    (root : Path) : Prop :=
  Settings.LoadHazard services.yaml fs root ∨
    ∃ settings notices, Settings.load services.yaml fs root = .ok (settings, notices) ∧
      BuildHazard fs services (t.configure services.load request.precise).1 request root settings

theorem fails_ensureReadable : Fails (fs.ensureReadable root) ↔ ¬ fs.IsListable root := by
  rw [← FileSystem.ensureReadable_eq_ok]
  cases fs.ensureReadable root <;> simp

theorem fails_prepare {yaml : Data.Reader} {p : Path} : Fails (prepare yaml fs p) ↔
    Fails (fs.resolve p) ∨ ∃ root, fs.resolve p = .ok root ∧
      (¬ fs.IsListable root ∨ Settings.LoadHazard yaml fs root) := by
  rw [prepare, fails_bind]
  refine or_congr_right (exists_congr fun root ↦ and_congr_right fun _ ↦ ?_)
  rw [fails_bind, fails_ensureReadable, fails_bind, Settings.fails_load]
  constructor
  · rintro (hroot | ⟨_, -, hload | ⟨loaded, -, h⟩⟩)
    · exact .inl hroot
    · exact .inr hload
    · exact absurd h (not_fails_pure _)
  · intro h
    by_cases hroot : fs.IsListable root
    · have hload := h.resolve_left (not_not.mpr hroot)
      exact .inr ⟨(), FileSystem.ensureReadable_eq_ok.mpr hroot, .inl hload⟩
    · exact .inl hroot

/-- A run without the tokenizer that it leaves behind. -/
theorem fst_compile : (compile fs services t request).1 = (do
    let (root, settings, warnings) ← prepare services.yaml fs request.root
    let (t, notices) := t.configure services.load request.precise
    publish fs request root
      (← build fs services t request root settings (warnings ++ notices))) := by
  rw [compile]
  cases prepare services.yaml fs request.root with
  | error f => rfl
  | ok prepared => rfl

theorem publish_dry (hdry : request.dryRun = true) (compiled : Compiled) :
    publish fs request root compiled = .ok (compiled, fs) := by
  rw [publish, if_pos hdry]
  rfl

theorem sparesRoot_publish (hdry : request.dryRun = true) (compiled : Compiled) :
    SparesRoot (publish fs request root compiled) := by
  rw [publish_dry hdry]
  exact sparesRoot_ok _

theorem fails_compile (hfs : fs.WellFormed) (hdistinct : fs.Distinct)
    (hdry : request.dryRun = true) :
    Fails (compile fs services t request).1 ↔ Fails (prepare services.yaml fs request.root) ∨
      ∃ root settings warnings,
        prepare services.yaml fs request.root = .ok (root, settings, warnings) ∧
          BuildHazard fs services (t.configure services.load request.precise).1 request root
            settings := by
  have hrest {root : Path} {settings : Settings} {warnings : List String} {t : Budget.Tokenizer}
      {notices : List String}
      (hprepare : prepare services.yaml fs request.root = .ok (root, settings, warnings)) :
      Fails (build fs services t request root settings (warnings ++ notices) >>=
        publish fs request root) ↔ BuildHazard fs services t request root settings := by
    obtain ⟨hresolve, hreadable, -⟩ := prepare_ok hprepare
    rw [fails_bind_left, fails_build hfs hdistinct (isAbsolute_of_resolve hresolve)
      (FileSystem.ensureReadable_eq_ok.mp hreadable)]
    intro compiled _
    rw [publish_dry hdry]
    exact not_fails_ok _
  rw [fst_compile, fails_bind]
  refine or_congr_right ⟨?_, ?_⟩
  · rintro ⟨⟨root, settings, warnings⟩, hprepare, h⟩
    exact ⟨root, settings, warnings, hprepare, (hrest hprepare).mp h⟩
  · rintro ⟨root, settings, warnings, hprepare, h⟩
    exact ⟨(root, settings, warnings), hprepare, (hrest hprepare).mpr h⟩

theorem prepare_of_listable (hresolve : fs.resolve request.root = .ok root)
    (hroot : fs.IsListable root)
    (hload : Settings.load services.yaml fs root = .ok (settings, warnings)) :
    prepare services.yaml fs request.root = .ok (root, settings, warnings) := by
  rw [prepare]
  refine bind_eq_ok.mpr ⟨root, hresolve, bind_eq_ok.mpr ⟨(), ?_, ?_⟩⟩
  · exact FileSystem.ensureReadable_eq_ok.mpr hroot
  · exact bind_eq_ok.mpr ⟨(settings, warnings), hload, rfl⟩

theorem fails_compile_iff (hfs : fs.WellFormed) (hdistinct : fs.Distinct)
    (hdry : request.dryRun = true) :
    Fails (compile fs services t request).1 ↔ Fails (fs.resolve request.root) ∨
      ∃ root, fs.resolve request.root = .ok root ∧
        (¬ fs.IsListable root ∨ RunHazard fs services t request root) := by
  rw [fails_compile hfs hdistinct hdry, fails_prepare]
  constructor
  · rintro ((h | ⟨root, hresolve, h⟩) | ⟨root, settings, warnings, hprepare, h⟩)
    · exact .inl h
    · exact .inr ⟨root, hresolve, h.imp_right .inl⟩
    · obtain ⟨hresolve, -, hload⟩ := prepare_ok hprepare
      exact .inr ⟨root, hresolve, .inr (.inr ⟨settings, warnings, hload, h⟩)⟩
  · rintro (h | ⟨root, hresolve, h⟩)
    · exact .inl (.inl h)
    · by_cases hroot : fs.IsListable root
      · rcases h.resolve_left (not_not.mpr hroot) with hload | ⟨settings, warnings, hload, h⟩
        · exact .inl (.inr ⟨root, hresolve, .inr hload⟩)
        · exact .inr ⟨root, settings, warnings, prepare_of_listable hresolve hroot hload, h⟩
      · exact .inl (.inr ⟨root, hresolve, .inl hroot⟩)

/-- A run that is not asked to write leaves the file system as it is. -/
theorem unchanged_of_compile {fs' : FileSystem} {compiled : Compiled} (hdry : request.dryRun = true)
    (h : (compile fs services t request).1 = .ok (compiled, fs')) : fs' = fs := by
  rw [fst_compile] at h
  obtain ⟨⟨root, settings, warnings⟩, -, h⟩ := bind_eq_ok.mp h
  obtain ⟨built, -, h⟩ := bind_eq_ok.mp h
  rw [publish_dry hdry] at h
  exact (Prod.mk.inj (Except.ok.inj h)).2.symm

/-- A run that is not asked to write returns exactly if its root can be listed and nothing ends
it. -/
theorem returns_iff (hfs : fs.WellFormed) (hdistinct : fs.Distinct) (hdry : request.dryRun = true) :
    (∃ compiled, (compile fs services t request).1 = .ok (compiled, fs)) ↔
      ∃ root, fs.resolve request.root = .ok root ∧ fs.IsListable root ∧
        ¬ RunHazard fs services t request root := by
  have hreturns : (∃ compiled, (compile fs services t request).1 = .ok (compiled, fs)) ↔
      ¬ Fails (compile fs services t request).1 := by
    rw [not_fails_iff]
    constructor
    · rintro ⟨compiled, h⟩
      exact ⟨(compiled, fs), h⟩
    · rintro ⟨⟨compiled, fs'⟩, h⟩
      obtain rfl := unchanged_of_compile hdry h
      exact ⟨compiled, h⟩
  rw [hreturns, fails_compile_iff hfs hdistinct hdry]
  cases hresolve : fs.resolve request.root with
  | error f => simp
  | ok root => simp [not_or]

/-- A run that is not asked to write blames the root exactly if the root can be looked up and cannot
be listed. -/
theorem blamesRoot_iff (hdry : request.dryRun = true) :
    BlamesRoot (compile fs services t request).1 ↔
      ∃ root, fs.resolve request.root = .ok root ∧ fs.IsUnreadable root := by
  rw [fst_compile, blamesRoot_bind, prepare, blamesRoot_bind]
  constructor
  · rintro ((h | ⟨root, hresolve, h⟩) | ⟨⟨root, settings, warnings⟩, hprepare, h⟩)
    · exact absurd h Profile.sparesRoot_resolve.not_blamesRoot
    · rcases blamesRoot_bind.mp h with hreadable | ⟨_, -, h⟩
      · exact ⟨root, hresolve, FileSystem.blamesRoot_ensureReadable.mp hreadable⟩
      · refine absurd h (SparesRoot.not_blamesRoot ?_)
        exact Settings.sparesRoot_load.bind fun _ ↦ sparesRoot_pure _
    · obtain ⟨hresolve, hreadable, -⟩ := prepare_ok hprepare
      refine absurd h (SparesRoot.not_blamesRoot ?_)
      exact (sparesRoot_build (FileSystem.ensureReadable_eq_ok.mp hreadable)).bind fun compiled ↦
        sparesRoot_publish hdry compiled
  · rintro ⟨root, hresolve, hunreadable⟩
    have hreadable := FileSystem.blamesRoot_ensureReadable.mpr hunreadable
    exact .inl (.inr ⟨root, hresolve, blamesRoot_bind.mpr (.inl hreadable)⟩)

/-! ## Projects that do no harm -/

theorem not_excerptsHazard (hplain : fs.top.IsPlain) {budget : Int} {done : Excerpts}
    {paths : List String} : ¬ ExcerptsHazard fs measure root budget done paths := by
  induction paths generalizing done with
  | nil => exact id
  | cons path rest ih =>
      rintro (hendless | ⟨next, -, h⟩)
      · exact FileSystem.readText_ne_endless hplain _ hendless
      · exact ih h

theorem not_sourceHazard (hplain : fs.top.IsPlain) {parse : Parser}
    (hparse : ∀ language source, parse language source = none) (p : Path) :
    ¬ Outline.SourceHazard fs parse p := by
  rintro ⟨language, -, e, -, -, hendless | ⟨source, -, hdefeats⟩⟩
  · exact FileSystem.readText_ne_endless hplain _ hendless
  · simp [Outline.defeats, hparse] at hdefeats

/-- A directory of files and directories that can be listed, at a path without links, in which nothing
is found that is looked for by its name. -/
structure IsBare (fs : FileSystem) (root : Path) (entries : List (String × Entry)) : Prop where
  root_eq : root.root = "/"
  straight : fs.IsStraight root
  at?_eq : fs.at? root.parts = some (.directory entries)
  short : ∀ name ∈ root.parts, name.utf8ByteSize ≤ FileSystem.maxNameBytes
  room : root.text.utf8ByteSize + 1 + FileSystem.maxNameBytes ≤ FileSystem.maxPathBytes
  opened : fs.denied.contains root = false
  permitted : ∀ access p, fs.forbidden access p = false
  plain : fs.top.IsPlain
  held : ∀ place e, (Entry.directory entries).find? place = some e →
    FileSystem.isOverlong (root.join ⟨"", place⟩) = false
  absent : ∀ name ∈ [".devctx", ".github"] ++ Settings.fileNames ++ Profile.markerNames,
    entries.lookup name = none

namespace IsBare

variable {entries : List (String × Entry)} (h : IsBare fs root entries)
include h

theorem scan_eq : fs.scan root = .ok entries := by
  have hroom := h.room
  have hlong : FileSystem.isOverlong root = false := by
    simp only [FileSystem.isOverlong, decide_eq_false_iff_not, not_lt]
    omega
  rw [FileSystem.scan, h.opened, if_neg Bool.false_ne_true, FileSystem.entriesOf,
    h.straight.stat_eq hlong h.short h.at?_eq]
  rfl

theorem isListable : fs.IsListable root := by
  refine ⟨⟨entries, ?_⟩, entries, h.scan_eq⟩
  exact FileSystem.probe_of_stat (h.permitted _ _) h.straight.clean
    (FileSystem.stat_of_scan h.scan_eq)

theorem fits (first second : String)
    (hsize : first.utf8ByteSize + second.utf8ByteSize + 1 ≤ FileSystem.maxNameBytes) :
    FileSystem.isOverlong (root.child first) = false ∧
      FileSystem.isOverlong ((root.child first).child second) = false := by
  have hroot : ¬ (root.root = "" ∧ root.parts = []) := by simp [h.root_eq]
  have hfirst := Path.utf8ByteSize_text_child hroot first
  have hsecond := Path.utf8ByteSize_text_child (p := root.child first) (by simp [Path.child]) second
  have hroom := h.room
  simp only [FileSystem.isOverlong, decide_eq_false_iff_not, not_lt]
  omega

theorem look_missing {name : String}
    (hname : name ∈ [".devctx", ".github"] ++ Settings.fileNames ++ Profile.markerNames) :
    fs.look (root.child name) = .error .missing := by
  have hnames : ∀ name ∈ [".devctx", ".github"] ++ Settings.fileNames ++ Profile.markerNames,
      ProperName name ∧ name.utf8ByteSize ≤ 100 := by
    decide
  obtain ⟨hproper, hsize⟩ := hnames name hname
  have hshort : name.utf8ByteSize ≤ FileSystem.maxNameBytes := hsize.trans (by decide)
  have hsizes : name.utf8ByteSize + "".utf8ByteSize + 1 ≤ FileSystem.maxNameBytes :=
    (Nat.add_le_add_right (Nat.add_le_add_right hsize _) _).trans (by decide)
  rw [FileSystem.look_of_permitted (h.permitted _ _)]
  exact h.straight.stat_missing h.at?_eq (h.absent name hname) h.short hproper hshort
    (h.fits name "" hsizes).1

theorem load_eq {yaml : Data.Reader} : Settings.load yaml fs root = .ok ({}, []) := by
  refine Settings.load_default fun file hfile ↦ h.look_missing ?_
  exact List.mem_append_left _ (List.mem_append_right _ hfile)

theorem not_profileHazard (hfs : fs.WellFormed) (yaml : Data.Reader) (known : Option Profile) :
    ¬ ProfileHazard yaml fs root known := by
  have hworkflows : fs.look ((root.child ".github").child "workflows") = .error .missing := by
    rw [FileSystem.look_of_permitted (h.permitted _ _), Path.child, Path.child, List.append_assoc]
    refine h.straight.stat_missing h.at?_eq (h.absent ".github" (by decide)) h.short (by decide)
      (by decide) ?_
    simpa [Path.child] using (h.fits ".github" "workflows" (by decide)).2
  have hresolve : fs.resolve root = .ok root := by
    rw [h.straight.resolve_eq, ← h.root_eq]
  obtain ⟨profile, hdetect⟩ := Profile.exists_detect_of_missing
    (fun name hname ↦ h.look_missing (List.mem_append_right _ hname)) hresolve hworkflows
  rintro ⟨-, hhazard⟩
  rw [← Profile.fails_detect hfs, hdetect] at hhazard
  exact not_fails_ok _ hhazard

theorem not_walkHazard (ignored : List String) : ¬ WalkHazard fs ignored root := by
  rintro ⟨listed, hscan, place, hasked, hsilent⟩
  obtain rfl := Except.ok.inj (h.scan_eq.symm.trans hscan)
  obtain ⟨e, hfound, -⟩ := hasked.found
  rcases hsilent with hlong | hforbidden
  · exact Bool.noConfusion ((h.held place e hfound).symm.trans hlong)
  · exact Bool.noConfusion ((h.permitted _ _).symm.trans hforbidden)

theorem not_notesHazard : ¬ NotesHazard fs root ".devctx/knowledge" := by
  have hdir : root.join (Path.ofText ".devctx/knowledge") =
      ⟨root.root, root.parts ++ [".devctx", "knowledge"]⟩ := by
    rw [show Path.ofText ".devctx/knowledge" = ⟨"", [".devctx", "knowledge"]⟩ by decide]
    exact root.join_relative _
  have hlookup := h.absent ".devctx" (by decide)
  have hfits := (h.fits ".devctx" "knowledge" (by decide)).2
  have hmissing : fs.look ⟨root.root, root.parts ++ [".devctx", "knowledge"]⟩ = .error .missing := by
    rw [FileSystem.look_of_permitted (h.permitted _ _)]
    exact h.straight.stat_missing h.at?_eq hlookup h.short (by decide) (by decide)
      (by simpa [Path.child] using hfits)
  have hstraight : fs.IsStraight ⟨root.root, root.parts ++ [".devctx", "knowledge"]⟩ :=
    h.straight.missing h.at?_eq hlookup (by decide)
  rw [NotesHazard, hdir, h.straight.resolve_eq, hstraight.resolve_eq]
  rintro (h | h | ⟨-, h⟩)
  · exact not_fails_ok _ h
  · exact not_fails_ok _ h
  · exact FileSystem.not_refuses_of_missing hmissing h

theorem not_runHazard (hfs : fs.WellFormed)
    (hparse : ∀ language source, services.parse language source = none) (t : Budget.Tokenizer)
    (request : Request) : ¬ RunHazard fs services t request root := by
  rintro (hload | ⟨settings, warnings, hload, h'⟩)
  · obtain ⟨f, hf⟩ := Settings.fails_load.mpr hload
    rw [h.load_eq] at hf
    cases hf
  obtain ⟨rfl, -⟩ := Prod.mk.inj (Except.ok.inj (h.load_eq.symm.trans hload))
  rcases h' with (hprofile | hwalk | hsources) | ⟨found, -, hkey | hflaw | hnotes⟩
  · exact h.not_profileHazard hfs _ _ hprofile
  · exact h.not_walkHazard _ hwalk
  · obtain ⟨inventory, -, path, -, hsource⟩ := hsources
    exact not_sourceHazard h.plain hparse _ hsource
  · exact not_excerptsHazard h.plain hkey
  · exact Bool.noConfusion hflaw
  · exact h.not_notesHazard hnotes

/-- A bare project has a document. -/
theorem returns (hfs : fs.WellFormed) (hdistinct : fs.Distinct)
    (hparse : ∀ language source, services.parse language source = none) (t : Budget.Tokenizer)
    (hroot : request.root = root) (hdry : request.dryRun = true) :
    ∃ compiled, (compile fs services t request).1 = .ok (compiled, fs) := by
  refine (returns_iff hfs hdistinct hdry).mpr ⟨root, ?_, h.isListable, ?_⟩
  · rw [hroot, h.straight.resolve_eq, ← h.root_eq]
  · exact h.not_runHazard hfs hparse t request

end IsBare

/-! ## Small projects -/

/-- The bytes of a short source. -/
def goSource : ByteArray :=
  ⟨#[102, 117, 110, 99, 32, 82, 117, 110, 40, 41, 32, 123, 125]⟩

/-- A project with one file. -/
def projectWith (name : String) (bytes : ByteArray) : FileSystem where
  entries := [("p", .directory [(name, .file bytes)])]

/-- A request for the document of that project. -/
def dryRequest (known : Option Profile) : Request where
  root := ⟨"/", ["p"]⟩
  dryRun := true
  outRoot := ⟨"/", ["out"]⟩
  profile := known

/-- Sources are outlined line by line, there is no encoding, and no manifest says anything. -/
def bareServices : Services where
  parse := fun _ _ ↦ none
  load := .error "RuntimeError"
  yaml := fun _ ↦ .ok .null

/-- No source has a tree. -/
theorem bareServices_parse (language : Language) (source : String) :
    bareServices.parse language source = none :=
  rfl

theorem projectWith_wellFormed {name : String} (hname : ProperName name) (bytes : ByteArray) :
    (projectWith name bytes).WellFormed := by
  have hp : ProperName "p" := by decide
  refine .directory (List.forall_mem_singleton.mpr hp) (List.forall_mem_singleton.mpr ?_)
  refine .directory (List.forall_mem_singleton.mpr hname) (List.forall_mem_singleton.mpr ?_)
  exact .file bytes

theorem projectWith_distinct (name : String) (bytes : ByteArray) :
    (projectWith name bytes).Distinct := by
  refine .directory (List.nodup_singleton _) (List.forall_mem_singleton.mpr ?_)
  exact .directory (List.nodup_singleton _) (List.forall_mem_singleton.mpr (.file bytes))

theorem projectWith_isPlain (name : String) (bytes : ByteArray) :
    (projectWith name bytes).top.IsPlain :=
  .directory (List.forall_mem_singleton.mpr (.directory (List.forall_mem_singleton.mpr (.file bytes))))

theorem source_wellFormed : (projectWith "run.go" goSource).WellFormed :=
  projectWith_wellFormed (by decide) goSource

/-- In a directory with one file there are two places. -/
theorem held_single {name : String} {bytes : ByteArray}
    (hroot : FileSystem.isOverlong (root.join ⟨"", []⟩) = false)
    (hfile : FileSystem.isOverlong (root.join ⟨"", [name]⟩) = false) (place : Location) (e : Entry)
    (hfound : (Entry.directory [(name, .file bytes)]).find? place = some e) :
    FileSystem.isOverlong (root.join ⟨"", place⟩) = false := by
  rcases place with _ | ⟨first, rest⟩
  · exact hroot
  · rw [Entry.find?_directory_cons] at hfound
    obtain ⟨found, hlookup, hfound⟩ := Option.bind_eq_some_iff.mp hfound
    obtain ⟨rfl, rfl⟩ := Prod.mk.inj (List.mem_singleton.mp (mem_of_lookup_eq_some hlookup))
    cases rest with
    | nil => exact hfile
    | cons second rest => simp [Entry.find?] at hfound

/-! Look-ups in a project with one file. -/

section projectWith

variable {name other : String} {bytes : ByteArray}

theorem at?_top :
    (projectWith name bytes).at? [] = some (.directory (projectWith name bytes).entries) :=
  rfl

theorem at?_project :
    (projectWith name bytes).at? ["p"] = some (.directory [(name, .file bytes)]) := by
  simp [FileSystem.at?, FileSystem.top, Entry.find?, projectWith]

theorem lookup_missing (hne : other ≠ name) :
    List.lookup other [(name, Entry.file bytes)] = none := by
  rw [List.lookup_cons, beq_eq_false_iff_ne.mpr hne]
  rfl

theorem walk_project {rest : List String} :
    (projectWith name bytes).walk .follow FileSystem.maxLinks [] ("p" :: rest) =
      (projectWith name bytes).walk .follow FileSystem.maxLinks ["p"] rest := by
  have hshort : ¬ FileSystem.maxNameBytes < "p".utf8ByteSize := by decide
  rw [FileSystem.walk, at?_top]
  simp [projectWith, hshort]

theorem stat_project :
    (projectWith name bytes).stat ⟨"/", ["p"]⟩ = .ok (.directory [(name, .file bytes)]) := by
  have hlong : FileSystem.isOverlong ⟨"/", ["p"]⟩ = false := by decide
  rw [FileSystem.stat, FileSystem.locate, FileSystem.locateAs, hlong, if_neg Bool.false_ne_true,
    walk_project, FileSystem.walk]
  simp [bind, Except.bind, at?_project]

theorem stat_file (hlong : FileSystem.isOverlong ⟨"/", ["p", name]⟩ = false)
    (hname : ProperName name) (hshort : name.utf8ByteSize ≤ FileSystem.maxNameBytes) :
    (projectWith name bytes).stat ⟨"/", ["p", name]⟩ = .ok (.file bytes) := by
  have hlookup : List.lookup name [(name, Entry.file bytes)] = some (.file bytes) :=
    List.lookup_cons_self
  rw [FileSystem.stat, FileSystem.locate, FileSystem.locateAs, hlong, if_neg Bool.false_ne_true,
    walk_project, FileSystem.walk, at?_project]
  dsimp only
  rw [if_neg hname.ne_dot, if_neg hname.ne_dots, if_neg (Nat.not_lt.mpr hshort), hlookup]
  simp [FileSystem.walk, bind, Except.bind, FileSystem.at?, FileSystem.top, Entry.find?,
    projectWith]

theorem stat_missing {rest : List String}
    (hlong : FileSystem.isOverlong ⟨"/", "p" :: other :: rest⟩ = false) (hother : ProperName other)
    (hshort : other.utf8ByteSize ≤ FileSystem.maxNameBytes) (hne : other ≠ name) :
    (projectWith name bytes).stat ⟨"/", "p" :: other :: rest⟩ = .error .missing := by
  rw [FileSystem.stat, FileSystem.locate, FileSystem.locateAs, hlong, if_neg Bool.false_ne_true,
    walk_project, FileSystem.walk, at?_project]
  dsimp only
  rw [if_neg hother.ne_dot, if_neg hother.ne_dots, if_neg (Nat.not_lt.mpr hshort),
    lookup_missing hne]
  simp [bind, Except.bind]

theorem resolve_projectWith (name : String) (bytes : ByteArray) :
    (projectWith name bytes).resolve ⟨"/", ["p"]⟩ = .ok ⟨"/", ["p"]⟩ := by
  rw [FileSystem.resolve, if_neg (by decide)]
  simp [FileSystem.resolveFrom, at?_project]

theorem projectWith_listable (name : String) (bytes : ByteArray) :
    (projectWith name bytes).IsListable ⟨"/", ["p"]⟩ := by
  refine ⟨⟨[(name, .file bytes)], ?_⟩, [(name, .file bytes)], ?_⟩
  · exact FileSystem.probe_of_stat rfl (by decide) stat_project
  · rw [FileSystem.scan, if_neg (by simp [projectWith]), FileSystem.entriesOf, stat_project]
    rfl

/-- A project whose one file is no settings file has the settings that hold by default. -/
theorem load_projectWith {yaml : Data.Reader} (hname : name ∉ Settings.fileNames) :
    Settings.load yaml (projectWith name bytes) ⟨"/", ["p"]⟩ = .ok ({}, []) := by
  apply Settings.load_default
  have hproper : ∀ file ∈ Settings.fileNames, ProperName file ∧
      file.utf8ByteSize ≤ FileSystem.maxNameBytes ∧
      FileSystem.isOverlong ⟨"/", ["p", file]⟩ = false := by
    decide
  intro file hfile
  obtain ⟨hfile', hshort, hlong⟩ := hproper file hfile
  exact stat_missing hlong hfile' hshort fun h ↦ hname (h ▸ hfile)

theorem projectWith_isBare (hlong : FileSystem.isOverlong ⟨"/", ["p", name]⟩ = false)
    (hname : name ∉ [".devctx", ".github"] ++ Settings.fileNames ++ Profile.markerNames) :
    IsBare (projectWith name bytes) ⟨"/", ["p"]⟩ [(name, .file bytes)] where
  root_eq := rfl
  straight := FileSystem.isStraight_of_at? (by decide) (by decide) at?_project
  at?_eq := at?_project
  short := by decide
  room := by decide
  opened := rfl
  permitted access p := rfl
  plain := projectWith_isPlain name bytes
  held := held_single (by decide) hlong
  absent other hother := lookup_missing fun h ↦ hname (h ▸ hother)

end projectWith

theorem source_isBare :
    IsBare (projectWith "run.go" goSource) ⟨"/", ["p"]⟩ [("run.go", .file goSource)] :=
  projectWith_isBare (by decide) (by decide)

/-- A project with one source has a document. -/
theorem source_returns (profile : Profile) : ∃ compiled t',
    compile (projectWith "run.go" goSource) bareServices {} (dryRequest (some profile)) =
      (.ok (compiled, projectWith "run.go" goSource), t') := by
  obtain ⟨compiled, hcompiled⟩ : ∃ compiled,
      (compile (projectWith "run.go" goSource) bareServices {} (dryRequest (some profile))).1 =
        .ok (compiled, projectWith "run.go" goSource) :=
    source_isBare.returns source_wellFormed (projectWith_distinct _ _) bareServices_parse {} rfl rfl
  exact ⟨compiled, _, Prod.ext hcompiled rfl⟩

/-- The byte 255 begins no character. -/
theorem undecodable_tomlHazard : Profile.TomlHazard (projectWith "pyproject.toml" ⟨#[255]⟩)
    ((Path.mk "/" ["p"]).child "pyproject.toml") := by
  have hfile : (projectWith "pyproject.toml" ⟨#[255]⟩).stat
      ((Path.mk "/" ["p"]).child "pyproject.toml") = .ok (.file ⟨#[255]⟩) :=
    stat_file (by decide) (by decide) (by decide)
  have hlook : (projectWith "pyproject.toml" ⟨#[255]⟩).look
      ((Path.mk "/" ["p"]).child "pyproject.toml") = .ok (.file ⟨#[255]⟩) :=
    FileSystem.look_eq_ok.mpr ⟨rfl, hfile⟩
  refine .inr ⟨FileSystem.leadsTo_of_look (by decide) hlook Entry.isFile, ⟨#[255]⟩, ?_, ?_⟩
  · exact FileSystem.readBytes_of_stat rfl hfile
  · exact .inl ⟨_, rfl⟩

theorem undecodable_runHazard :
    RunHazard (projectWith "pyproject.toml" ⟨#[255]⟩) bareServices {} (dryRequest none)
      ⟨"/", ["p"]⟩ := by
  have hload : Settings.load bareServices.yaml (projectWith "pyproject.toml" ⟨#[255]⟩)
      ⟨"/", ["p"]⟩ = .ok ({}, []) :=
    load_projectWith (by decide)
  have hpackage : Profile.readJson (projectWith "pyproject.toml" ⟨#[255]⟩)
      ((Path.mk "/" ["p"]).child "package.json") = .ok [] := by
    apply Profile.readTable_of_missing
    exact stat_missing (by decide) (by decide) (by decide) (by decide)
  have hidentity : Profile.IdentityHazard (projectWith "pyproject.toml" ⟨#[255]⟩) ⟨"/", ["p"]⟩ :=
    .inr ⟨[], hpackage, rfl, .inl undecodable_tomlHazard⟩
  exact .inr ⟨{}, [], hload, .inl (.inl ⟨rfl, .inr ⟨_, resolve_projectWith .., .inl hidentity⟩⟩)⟩

/-! ## The exact condition -/

end Document

end Dossier

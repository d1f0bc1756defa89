import Dossier.Proofs.Document.Run
import Dossier.Proofs.Inventory.Exact
import Dossier.Proofs.Profile.Workspaces
import Dossier.Proofs.Settings

/-!
# What ends the building of a document

Of all that is read for a document its profile and the directory of its notes can end a run, a source or
a key file that is not read to its end, and a place of the project of which the system does not say
whether there is a link. The directory tree never does.
-/

namespace Dossier

open Steps

namespace Document

variable {fs : FileSystem} {measure : Measure} {root : Path}

/-! ## Excerpts -/

theorem fails_offer {budget : Int} {done : Excerpts} (hroot : root.IsClean) {path : String}
    (hpath : IsNamed path) : Fails (offer fs measure root budget done path) ↔
      fs.readText (root.join (Path.ofText path)) = .error .endless := by
  obtain ⟨parts, hjoin, hclean⟩ := hpath.isNormal.join_root hroot
  rw [offer, hjoin]
  dsimp only
  rw [if_neg (ne_true_of_eq_false hclean)]
  cases fs.readText ⟨root.root, root.parts ++ parts⟩ with
  | error e => cases e <;> simp
  | ok text =>
      refine iff_of_false ?_ (by simp)
      exact not_fails_ite (not_fails_ok _) (not_fails_ite (not_fails_ok _) (not_fails_ok _))

/-- Reading one of the files never ends, and each file before it leaves room for another one. -/
def ExcerptsHazard (fs : FileSystem) (measure : Measure) (root : Path) (budget : Int) :
    Excerpts → List String → Prop
  | _, [] => False
  | done, path :: rest => fs.readText (root.join (Path.ofText path)) = .error .endless ∨
      ∃ next, offer fs measure root budget done path = .ok (next, true) ∧
        ExcerptsHazard fs measure root budget next rest

theorem fails_addExcerpts {budget : Int} {done : Excerpts} (hroot : root.IsClean)
    {paths : List String} (hpaths : ∀ path ∈ paths, IsNamed path) :
    Fails (addExcerpts fs measure root budget done paths) ↔
      ExcerptsHazard fs measure root budget done paths := by
  induction paths generalizing done with
  | nil => simp [addExcerpts, ExcerptsHazard]
  | cons path rest ih =>
      obtain ⟨hpath, hrest⟩ := List.forall_mem_cons.mp hpaths
      rw [addExcerpts, fails_bind, fails_offer hroot hpath, ExcerptsHazard]
      refine or_congr_right ⟨?_, fun ⟨next, hoffer, h⟩ ↦ ⟨(next, true), hoffer, ?_⟩⟩
      · rintro ⟨⟨next, more⟩, hoffer, h⟩
        cases more with
        | true => exact ⟨next, hoffer, (ih hrest).mp h⟩
        | false => exact absurd h (not_fails_pure next)
      · exact (ih hrest).mpr h

/-- One of the key files ends the run. -/
def KeyFilesHazard (fs : FileSystem) (measure : Measure) (root : Path) (files patterns : List String)
    (budget : Int) : Prop :=
  ExcerptsHazard fs measure root budget {} (Glob.select (some patterns) [] files)

theorem fails_keyFiles {files patterns : List String} {budget : Int} (hroot : root.IsClean)
    (hfiles : ∀ path ∈ files, IsNamed path) :
    Fails (keyFiles fs measure root files patterns budget) ↔
      KeyFilesHazard fs measure root files patterns budget :=
  fails_addExcerpts hroot fun path hpath ↦ hfiles path (List.mem_of_mem_filter hpath)

theorem sparesRoot_addExcerpts {budget : Int} {done : Excerpts} {paths : List String} :
    SparesRoot (addExcerpts fs measure root budget done paths) := by
  have hoffer (done : Excerpts) (path : String) :
      SparesRoot (offer fs measure root budget done path) := by
    rw [offer]
    refine .ite (by simp [Failure.isAboutRoot]) ?_
    split
    · simp [Failure.isAboutRoot]
    · simp
    · exact .ite (sparesRoot_ok _) (.ite (sparesRoot_ok _) (sparesRoot_ok _))
  induction paths generalizing done with
  | nil => simp [addExcerpts]
  | cons path rest ih => exact (hoffer done path).bind fun next ↦ .ite ih (sparesRoot_pure _)

/-! ## Notes -/

/-- The directory of the written notes ends the run: it or the root has no canonical form, or it lies
in the project and the system refuses to look it up. -/
def NotesHazard (fs : FileSystem) (root : Path) (dir : String) : Prop :=
  Fails (fs.resolve root) ∨ Fails (fs.resolve (root.join (Path.ofText dir))) ∨
    leadsWithin fs root (root.join (Path.ofText dir)) = .ok true ∧
      fs.Refuses (root.join (Path.ofText dir))

theorem fails_leadsWithin {base p : Path} :
    Fails (leadsWithin fs base p) ↔ Fails (fs.resolve base) ∨ Fails (fs.resolve p) := by
  simp only [leadsWithin, fails_bind, not_fails_pure, and_false, exists_false, or_false,
    fails_or_exists]

/-- The notes in what the path of their directory leads to. -/
def notesIn (fs : FileSystem) (p : Path) (dir : String) : Option Entry → List Note × List String
  | some (.directory _) => match noteNames fs p with
    | .error e => ([], [unreadableNotes dir e])
    | .ok names =>
      ((names.map (readNote fs p)).filterMap (·.1), (names.map (readNote fs p)).flatMap (·.2))
  | _ => ([], [])

/-- Written notes are looked for where their directory leads, if that lies in the project. -/
theorem writtenNotes_eq (dir : String) : writtenNotes fs root dir = (do
    if !(← leadsWithin fs root (root.join (Path.ofText dir))) then
      return ([], ["Ignoring knowledge_dir " ++ Text.quoted dir ++ ": outside the project"])
    return notesIn fs (root.join (Path.ofText dir)) dir
      (← fs.probed (root.join (Path.ofText dir)))) := by
  rw [writtenNotes, FileSystem.probed_eq]
  refine bind_congr fun within ↦ ?_
  cases within with
  | false => rfl
  | true =>
      cases fs.probe (root.join (Path.ofText dir)) with
      | error e => rfl
      | ok found =>
          rcases found with _ | e
          · rfl
          cases e with
          | file | link | special => rfl
          | directory entries =>
              simp only [Except.mapError, notesIn]
              cases noteNames fs (root.join (Path.ofText dir)) <;> rfl

theorem fails_writtenNotes {dir : String} :
    Fails (writtenNotes fs root dir) ↔ NotesHazard fs root dir := by
  simp only [writtenNotes_eq, fails_bind, fails_leadsWithin, NotesHazard, or_assoc]
  refine or_congr_right (or_congr_right ⟨?_, fun ⟨hwithin, hrefuses⟩ ↦ ⟨true, hwithin, ?_⟩⟩)
  · rintro ⟨within, hwithin, h⟩
    cases within with
    | false => simp at h
    | true => exact ⟨hwithin, by simpa [FileSystem.fails_probed] using h⟩
  · simpa [FileSystem.fails_probed] using hrefuses

theorem fails_knowledge {dir : String} {budget : Int} {generate? : Option Sources} :
    Fails (knowledge fs measure root dir budget generate?) ↔ NotesHazard fs root dir := by
  rw [knowledge, fails_bind_left, fails_writtenNotes]
  intro written _
  exact not_fails_pure _

theorem sparesRoot_knowledge {dir : String} {budget : Int} {generate? : Option Sources} :
    SparesRoot (knowledge fs measure root dir budget generate?) := by
  have hwithin (p : Path) : SparesRoot (leadsWithin fs root p) :=
    Profile.sparesRoot_resolve.bind fun _ ↦ Profile.sparesRoot_resolve.bind fun _ ↦
      sparesRoot_pure _
  have hwritten : SparesRoot (writtenNotes fs root dir) := by
    rw [writtenNotes_eq]
    refine (hwithin _).bind fun within ↦ .ite (sparesRoot_pure _) ?_
    exact FileSystem.sparesRoot_probed.bind fun _ ↦ sparesRoot_pure _
  exact hwritten.bind fun _ ↦ sparesRoot_pure _

/-! ## Contents -/

theorem fails_fitting {style : DirectoryTree.Style} {paths : List String} {budget : Int} :
    Fails (DirectoryTree.fitting fs style paths root budget) ↔ Fails (fs.resolve root) := by
  have htitle : Fails (DirectoryTree.titleOf fs root) ↔ Fails (fs.resolve root) := by
    apply fails_bind_left
    intro p _
    exact not_fails_pure _
  rw [DirectoryTree.fitting, fails_bind_left, htitle]
  intro title _
  exact not_fails_pure _

/-- Building the contents within their shares ends the run: a key file does, or the directory of the
notes does, or its name has no form in a path. -/
def ContentsHazard (fs : FileSystem) (measure : Measure) (root : Path) (settings : Settings)
    (found : Findings) (allocation : Budget.Shares Topic) : Prop :=
  KeyFilesHazard fs measure root found.files settings.keyFiles (allocation.get .keyFiles) ∨
    settings.knowledgeFlaw.isSome = true ∨ NotesHazard fs root settings.knowledgeDir

theorem fails_contentsOf {settings : Settings} {found : Findings} {allocation : Budget.Shares Topic}
    (hroot : root.IsClean)
    (hfiles : ∀ path ∈ found.files, IsNamed path) :
    Fails (contentsOf fs measure root settings found allocation) ↔
      ContentsHazard fs measure root settings found allocation := by
  have htree : Fails (fs.resolve root) →
      ContentsHazard fs measure root settings found allocation := fun h ↦ .inr (.inr (.inl h))
  rw [← or_iff_right_of_imp htree, contentsOf, fails_bind, fails_fitting]
  refine or_congr_right' fun hresolve ↦ ?_
  obtain ⟨tree, htree⟩ := not_fails_iff.mp (mt fails_fitting.mp hresolve)
  rw [htree, ContentsHazard, ← fails_keyFiles hroot hfiles, ← fails_or_exists]
  simp only [Except.ok.injEq, exists_eq_left', fails_bind]
  refine or_congr_right (exists_congr fun excerpts ↦ and_congr_right fun _ ↦ ?_)
  cases settings.knowledgeFlaw with
  | some code => simp [fails_bind]
  | none => simp [fails_knowledge]

theorem sparesRoot_contentsOf {settings : Settings} {found : Findings}
    {allocation : Budget.Shares Topic} :
    SparesRoot (contentsOf fs measure root settings found allocation) := by
  have htitle : SparesRoot (DirectoryTree.titleOf fs root) :=
    Profile.sparesRoot_resolve.bind fun _ ↦ sparesRoot_pure _
  refine (htitle.bind fun _ ↦ sparesRoot_pure _).bind fun tree ↦ ?_
  refine sparesRoot_addExcerpts.bind fun excerpts ↦ ?_
  have hnotes : SparesRoot (knowledge fs measure root settings.knowledgeDir
      (allocation.get .knowledge) (if settings.autoKnowledge then
        some ⟨found.profile, found.outlines, found.files⟩ else none)) := sparesRoot_knowledge
  cases settings.knowledgeFlaw with
  | some code => exact (sparesRoot_throw.mpr rfl).bind fun _ ↦ hnotes.bind fun _ ↦ sparesRoot_pure _
  | none => exact hnotes.bind fun _ ↦ sparesRoot_pure _

/-! ## Surveys -/

/-- The profile of a project ends the run, unless it is known already. -/
def ProfileHazard (yaml : Data.Reader) (fs : FileSystem) (root : Path) (known : Option Profile) :
    Prop :=
  known = none ∧ Profile.DetectHazard yaml fs root

/-- The walk comes to a place of which it is not said whether there is a link. -/
def WalkHazard (fs : FileSystem) (ignored : List String) (root : Path) : Prop :=
  ∃ entries, fs.scan root = .ok entries ∧
    ∃ place, Inventory.IsAsked fs ignored root entries place ∧ fs.IsSilent (root.join ⟨"", place⟩)

/-- One of the sources ends the run. -/
def SourcesHazard (fs : FileSystem) (parse : Parser) (ignored exclude : List String) (root : Path) :
    Prop :=
  ∃ inventory, Inventory.take fs ignored root = .ok inventory ∧
    ∃ path ∈ Inventory.sources exclude inventory.files,
      Outline.SourceHazard fs parse (root.join (Path.ofText path))

/-- Reading what the sections are made from ends the run. -/
def SurveyHazard (fs : FileSystem) (services : Services) (root : Path) (settings : Settings)
    (known : Option Profile) : Prop :=
  ProfileHazard services.yaml fs root known ∨ WalkHazard fs (treeStyle settings).ignored root ∨
    SourcesHazard fs services.parse (treeStyle settings).ignored settings.excludeSignatures root

theorem fails_profileOf {yaml : Data.Reader} (hfs : fs.WellFormed) {known : Option Profile} :
    Fails (profileOf yaml fs root known) ↔ ProfileHazard yaml fs root known := by
  cases known with
  | none => simp [profileOf, ProfileHazard, Profile.fails_detect hfs]
  | some profile => simp [profileOf, ProfileHazard]

theorem fails_take {ignored : List String} (hdistinct : fs.Distinct) (hroot : fs.IsListable root) :
    Fails (Inventory.take fs ignored root) ↔ WalkHazard fs ignored root := by
  obtain ⟨entries, hscan⟩ := hroot.2
  rw [Inventory.fails_take_iff ignored hdistinct hroot hscan, WalkHazard]
  simp [hscan]

/-- The extraction of outlines from the sources among the files of a project. -/
theorem fails_collect_sources (hfs : fs.WellFormed) (habsolute : root.isAbsolute = true)
    (hroot : fs.IsListable root) {parse : Parser} {ignored exclude : List String}
    {inventory : Inventory} (htake : Inventory.take fs ignored root = .ok inventory) :
    Fails (Outline.collect fs parse root (Inventory.sources exclude inventory.files)) ↔
      ∃ path ∈ Inventory.sources exclude inventory.files,
        Outline.SourceHazard fs parse (root.join (Path.ofText path)) :=
  Outline.fails_collect habsolute hroot.isClean fun path hpath ↦
    (Inventory.isNamed_of_mem_files hfs htake path (List.mem_of_mem_filter hpath)).isNormal

variable {services : Services} {settings : Settings} {known : Option Profile}

theorem fails_survey (hfs : fs.WellFormed) (hdistinct : fs.Distinct)
    (habsolute : root.isAbsolute = true) (hroot : fs.IsListable root) :
    Fails (survey fs services root settings known) ↔
      SurveyHazard fs services root settings known := by
  have hrest : (Fails (Inventory.take fs (treeStyle settings).ignored root) ∨ ∃ inventory,
      Inventory.take fs (treeStyle settings).ignored root = .ok inventory ∧
        Fails (Outline.collect fs services.parse root
          (Inventory.sources settings.excludeSignatures inventory.files))) ↔
      WalkHazard fs (treeStyle settings).ignored root ∨
        SourcesHazard fs services.parse (treeStyle settings).ignored settings.excludeSignatures
          root := by
    rw [fails_take hdistinct hroot, SourcesHazard]
    refine or_congr_right (exists_congr fun inventory ↦ and_congr_right fun htake ↦ ?_)
    exact fails_collect_sources hfs habsolute hroot htake
  rw [survey, fails_bind, SurveyHazard, ← hrest, ← fails_profileOf hfs]
  simp only [fails_bind, not_fails_pure, and_false, exists_false, or_false]
  exact fails_or_exists

theorem sparesRoot_take {ignored : List String} (hroot : fs.IsListable root) :
    SparesRoot (Inventory.take fs ignored root) := by
  rw [Inventory.take, FileSystem.ensureReadable_eq_ok.mpr hroot]
  exact (SparesRoot.forM (fun _ ↦ FileSystem.sparesRoot_askLink) _).bind fun _ ↦ sparesRoot_pure _

theorem sparesRoot_survey (hroot : fs.IsListable root) :
    SparesRoot (survey fs services root settings known) := by
  have hprofile : SparesRoot (profileOf services.yaml fs root known) := by
    cases known with
    | none => exact Profile.sparesRoot_detect
    | some profile => exact sparesRoot_ok profile
  refine hprofile.bind fun profile ↦ (sparesRoot_take hroot).bind fun inventory ↦ ?_
  exact Outline.sparesRoot_collect.bind fun _ ↦ sparesRoot_pure _

end Document

end Dossier

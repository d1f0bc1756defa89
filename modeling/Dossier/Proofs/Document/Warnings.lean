import Dossier.Proofs.DirectoryTree.Reports
import Dossier.Proofs.Document.Excerpts
import Dossier.Proofs.Document.Reordered
import Dossier.Proofs.Document.Run
import Dossier.Proofs.Inventory.Denied
import Dossier.Proofs.Settings.Fields

/-!
# Warnings about directories

A run lists the directories of a project twice: for the files, and for the tree that is shown. Both
report what they cannot list, and the reports of the one do not keep those of the other back. So a
directory that cannot be listed is reported by the walk for the files, once, and by the tree once more
if the tree gets to it. The directory of the notes is read once more, and has a report of its own.
-/

namespace Dossier.Document

open Budget (Tokenizer)
open Steps

/-! ## Which warnings are about directories -/

/-- How reports about directories begin. -/
def reportHeads : List String := ["Unreadable directory ", "Unreadable knowledge directory "]

/-- Whether a warning reports a directory. -/
def isReport (warning : String) : Bool :=
  reportHeads.any (Text.startsWith warning)

theorem isReport_append {head : String} (h : head ∈ reportHeads) (rest : String) :
    isReport (head ++ rest) = true := by
  refine List.any_eq_true.mpr ⟨head, h, ?_⟩
  rw [Text.startsWith, List.isPrefixOf_iff_prefix, String.toList_append]
  exact List.prefix_append _ _

theorem isReport_unreadableDirectory (shown : String) (e : FileError) :
    isReport (unreadableDirectory shown e) = true := by
  unfold unreadableDirectory
  rw [String.append_assoc, String.append_assoc]
  exact isReport_append (by decide) _

theorem isReport_unreadableNotes (dir : String) (e : FileError) :
    isReport (unreadableNotes dir e) = true := by
  unfold unreadableNotes
  rw [String.append_assoc, String.append_assoc]
  exact isReport_append (by decide) _

/-- Two texts neither of which begins with the other. -/
def Parted (head head' : String) : Prop :=
  ¬ head.toList <+: head'.toList ∧ ¬ head'.toList <+: head.toList

instance (head head' : String) : Decidable (Parted head head') :=
  inferInstanceAs (Decidable (_ ∧ _))

theorem Parted.not_startsWith {head head' rest : String} (h : Parted head head') :
    Text.startsWith (head ++ rest) head' = false := by
  rw [Text.startsWith, Bool.eq_false_iff, ne_eq, List.isPrefixOf_iff_prefix, String.toList_append]
  intro hstarts
  rcases List.prefix_or_prefix_of_prefix hstarts (List.prefix_append head.toList _) with hlong | hshort
  · exact h.2 hlong
  · exact h.1 hshort

/-- A warning that begins in another way is no report. -/
theorem not_isReport {head rest : String} (h : ∀ other ∈ reportHeads, Parted head other) :
    isReport (head ++ rest) = false :=
  List.any_eq_false.mpr fun other hother ↦ ne_true_of_eq_false (h other hother).not_startsWith

theorem unreadableNotes_inj (dir : String) : Function.Injective (unreadableNotes dir) := by
  have hreason : Function.Injective FileError.reason := by
    intro e e'
    cases e <;> cases e' <;> decide
  intro e e' heq
  unfold unreadableNotes at heq
  exact hreason ((String.append_right_inj _).mp heq)

/-- The directory of the notes is reported in words of its own. -/
theorem unreadableDirectory_ne_unreadableNotes (shown dir : String) (e e' : FileError) :
    unreadableDirectory shown e ≠ unreadableNotes dir e' := by
  intro heq
  have hstarts : Text.startsWith (unreadableNotes dir e') "Unreadable directory " = true := by
    rw [← heq]
    unfold unreadableDirectory
    rw [String.append_assoc, String.append_assoc, Text.startsWith, List.isPrefixOf_iff_prefix,
      String.toList_append]
    exact List.prefix_append _ _
  have hparted : Parted "Unreadable knowledge directory " "Unreadable directory " := by decide
  unfold unreadableNotes at hstarts
  rw [String.append_assoc, String.append_assoc, hparted.not_startsWith] at hstarts
  exact Bool.noConfusion hstarts

/-! ## What is said about settings -/

section

variable {yaml : Data.Reader} {fs : FileSystem} {root : Path} {file : String} {settings : Settings}
  {notices : List String}

theorem not_isReport_unusable (hfile : file ∈ Settings.fileNames) (field : Settings.Field)
    (value : Data.Datum) : isReport (Settings.unusable file field value) = false := by
  have hnames : ∀ file ∈ Settings.fileNames, ∀ other ∈ reportHeads, Parted file other := by
    decide
  simp only [Settings.unusable, String.append_assoc]
  exact not_isReport (hnames file hfile)

theorem not_isReport_unreadable (file reason : String) :
    isReport (Settings.unreadable file reason) = false := by
  unfold Settings.unreadable
  rw [String.append_assoc, String.append_assoc, String.append_assoc]
  exact not_isReport (by decide)

theorem not_isReport_ofEntries (hfile : file ∈ Settings.fileNames)
    {entries : List (Data.Datum × Data.Datum)}
    (h : Settings.ofEntries file entries = .ok (settings, notices)) :
    ∀ w ∈ notices, isReport w = false := by
  have hwarnings : notices = _ := (Settings.isReadOf_ofEntries h).warnings
  rw [hwarnings]
  intro w hw
  obtain ⟨field, -, hfield⟩ := List.mem_filterMap.mp hw
  obtain ⟨value, -, hvalue⟩ := Option.bind_eq_some_iff.mp hfield
  split at hvalue
  · obtain rfl := Option.some_inj.mp hvalue
    exact not_isReport_unusable hfile field value
  · cases hvalue

theorem not_isReport_inFile (hfile : file ∈ Settings.fileNames)
    (h : Settings.inFile yaml fs root file = .ok (settings, notices)) :
    ∀ w ∈ notices, isReport w = false := by
  have hplain {said : List String} (hsaid : ∀ w ∈ said, isReport w = false)
      (heq : (Except.ok ({ source := some file }, said) : Except Failure (Settings × List String)) =
        .ok (settings, notices)) : ∀ w ∈ notices, isReport w = false := by
    obtain ⟨-, rfl⟩ := Prod.mk.inj (Except.ok.inj heq)
    exact hsaid
  have hunreadable (reason : String) :
      ∀ w ∈ [Settings.unreadable file reason], isReport w = false :=
    List.forall_mem_singleton.mpr (not_isReport_unreadable file reason)
  have hinvalid : ∀ w ∈ ["Invalid " ++ file ++ ": expected a mapping; using defaults"],
      isReport w = false := by
    refine List.forall_mem_singleton.mpr ?_
    rw [String.append_assoc]
    exact not_isReport (by decide)
  unfold Settings.inFile at h
  dsimp only at h
  split at h
  · exact hplain (hunreadable _) h
  · split at h
    case h_1 => exact hplain (hunreadable _) h
    case h_2 => cases h
    case h_3 => exact hplain (by simp) h
    case h_4 => exact not_isReport_ofEntries hfile h
    case h_5 => exact hplain hinvalid h

theorem not_isReport_settings (h : Settings.load yaml fs root = .ok (settings, notices)) :
    ∀ w ∈ notices, isReport w = false := by
  obtain ⟨file?, hfile, h⟩ := bind_eq_ok.mp h
  cases file? with
  | none =>
      obtain ⟨-, rfl⟩ := Prod.mk.inj (pure_eq_ok.mp h)
      simp
  | some file => exact not_isReport_inFile (mem_of_findM?_eq_ok hfile) h

end

theorem not_isReport_configure (t : Tokenizer) (load : Except String Measure) (precise : Bool) :
    ∀ w ∈ (t.configure load precise).2, isReport w = false := by
  have hunavailable (kind : String) : isReport (Tokenizer.unavailable kind) = false := by
    unfold Tokenizer.unavailable
    rw [String.append_assoc]
    exact not_isReport (by decide)
  unfold Tokenizer.configure
  split
  · split
    · simp
    · unfold Tokenizer.attempt
      split
      · simp
      · exact List.forall_mem_singleton.mpr (hunavailable _)
  · simp

/-! ## What is said about sources -/

theorem head?_of_isReport {w : String} (h : isReport w = true) : w.toList.head? = some 'U' := by
  obtain ⟨head, hhead, hstarts⟩ := List.any_eq_true.mp h
  obtain ⟨rest, hrest⟩ := List.isPrefixOf_iff_prefix.mp hstarts
  have hfirst : ∀ head ∈ reportHeads, head.toList.head? = some 'U' := by decide
  rw [← hrest, List.head?_append, hfirst head hhead]
  rfl

/-- A warning that begins with a number is no report. -/
theorem not_isReport_ofNat (n : Nat) (rest : String) :
    isReport (Text.ofNat n ++ rest) = false := by
  refine Bool.eq_false_iff.mpr fun h ↦ ?_
  obtain ⟨c, cs, hcs⟩ := List.exists_cons_of_ne_nil (Nat.toDigits_ne_nil (n := n) (b := 10))
  have hdigit : c.isDigit = true :=
    Nat.isDigit_of_mem_toDigits (by decide) (by decide) (hcs ▸ List.mem_cons_self)
  have hfirst := head?_of_isReport h
  rw [Text.ofNat, String.toList_append, String.toList_ofList, hcs] at hfirst
  obtain rfl : c = 'U' := by simpa using hfirst
  exact absurd hdigit (by decide)

theorem not_isReport_skipping (path reason : String) :
    isReport (Outline.skipping path reason) = false := by
  unfold Outline.skipping
  rw [String.append_assoc, String.append_assoc]
  exact not_isReport (by decide)

theorem not_isReport_outlineOf {fs : FileSystem} {parse : Parser} {language : Language}
    {shown : String} {target : Path} {outcome : Option Outline.File × List String}
    (h : Outline.outlineOf fs parse language shown target = .ok outcome) :
    ∀ w ∈ outcome.2, isReport w = false := by
  have hskipping {reason : String} (heq : (none, [Outline.skipping shown reason]) = outcome) :
      ∀ w ∈ outcome.2, isReport w = false := by
    obtain rfl := heq
    exact List.forall_mem_singleton.mpr (not_isReport_skipping shown reason)
  unfold Outline.outlineOf at h
  split at h
  · exact hskipping (Except.ok.inj h)
  · split at h
    · exact hskipping (Except.ok.inj h)
    · split at h
      · cases h
      · exact hskipping (Except.ok.inj h)
      · exact hskipping (Except.ok.inj h)
      · split at h
        · cases h
        · obtain rfl := Except.ok.inj h
          simp

theorem not_isReport_outlineAt {fs : FileSystem} {parse : Parser} {root path : Path}
    {outcome : Option Outline.File × List String}
    (h : Outline.outlineAt fs parse root path = .ok outcome) :
    ∀ w ∈ outcome.2, isReport w = false := by
  unfold Outline.outlineAt at h
  split at h
  · obtain rfl := Except.ok.inj h
    simp
  · split at h
    · cases h
    · split at h
      · cases h
      · exact not_isReport_outlineOf h

theorem not_isReport_collect {fs : FileSystem} {parse : Parser} {root : Path} {paths : List String}
    {outlines : List Outline.File} {warnings : List String} {progress : List Progress}
    (h : Outline.collect fs parse root paths = .ok (outlines, warnings, progress)) :
    ∀ w ∈ warnings, isReport w = false := by
  obtain ⟨outcomes, houtcomes, h⟩ := bind_eq_ok.mp h
  obtain ⟨-, hsaid⟩ := Prod.mk.inj (pure_eq_ok.mp h)
  obtain ⟨rfl, -⟩ := Prod.mk.inj hsaid
  intro w hw
  rcases List.mem_append.mp hw with hw | hw
  · obtain ⟨outcome, houtcome, hw⟩ := List.mem_flatMap.mp hw
    obtain ⟨path, -, hpath⟩ := exists_of_mem_right (mapM_eq_ok.mp houtcomes) houtcome
    exact not_isReport_outlineAt hpath w hw
  · unfold Outline.heuristicWarning at hw
    split at hw
    · simp at hw
    · rw [List.mem_singleton.mp hw]
      exact not_isReport_ofNat _ _

/-! ## What is said about key files and notes -/

section

variable {fs : FileSystem} {measure : Measure} {root : Path} {budget : Int}
  {done next excerpts : Excerpts} {path : String} {paths : List String}

theorem not_isReport_skippedKeyFile (path reason : String) :
    isReport (skippedKeyFile path reason) = false := by
  unfold skippedKeyFile
  rw [String.append_assoc, String.append_assoc]
  exact not_isReport (by decide)

theorem not_isReport_offer {more : Bool} (hdone : ∀ w ∈ done.warnings, isReport w = false)
    (h : offer fs measure root budget done path = .ok (next, more)) :
    ∀ w ∈ next.warnings, isReport w = false := by
  rw [offer] at h
  split at h
  · cases h
  · split at h
    · cases h
    · obtain ⟨rfl, -⟩ := Prod.mk.inj (Except.ok.inj h)
      exact List.forall_mem_append.mpr
        ⟨hdone, List.forall_mem_singleton.mpr (not_isReport_skippedKeyFile path _)⟩
    · dsimp only at h
      split at h
      · obtain ⟨rfl, -⟩ := Prod.mk.inj (Except.ok.inj h)
        exact hdone
      · split at h <;> obtain ⟨rfl, -⟩ := Prod.mk.inj (Except.ok.inj h) <;> exact hdone

theorem not_isReport_addExcerpts (hdone : ∀ w ∈ done.warnings, isReport w = false)
    (h : addExcerpts fs measure root budget done paths = .ok excerpts) :
    ∀ w ∈ excerpts.warnings, isReport w = false := by
  induction paths generalizing done with
  | nil =>
      obtain rfl := Except.ok.inj h
      exact hdone
  | cons path rest ih =>
      obtain ⟨⟨next, more⟩, hnext, h⟩ := bind_eq_ok.mp h
      cases more with
      | true => exact ih (not_isReport_offer hdone hnext) h
      | false =>
          obtain rfl := pure_eq_ok.mp h
          exact not_isReport_offer hdone hnext

end

theorem not_isReport_readNote (fs : FileSystem) (dir : Path) (name : String) :
    ∀ w ∈ (readNote fs dir name).2, isReport w = false := by
  unfold readNote
  dsimp only
  split
  · refine List.forall_mem_singleton.mpr ?_
    rw [String.append_assoc, String.append_assoc]
    exact not_isReport (by decide)
  · split <;> simp

/-- The directory of the notes lies in the project, and the system refuses to list it or to look up
one of its names. -/
def NotesRefused (fs : FileSystem) (root : Path) (dir : String) (e : FileError) : Prop :=
  leadsWithin fs root (root.join (Path.ofText dir)) = .ok true ∧
    (∃ entries, fs.probe (root.join (Path.ofText dir)) = .ok (some (.directory entries))) ∧
    noteNames fs (root.join (Path.ofText dir)) = .error e

theorem filter_isReport_eq_nil {said : List String} (h : ∀ w ∈ said, isReport w = false) :
    said.filter isReport = [] :=
  List.filter_eq_nil_iff.mpr fun w hw ↦ ne_true_of_eq_false (h w hw)

/-- The reports of the notes in a directory: one if the directory is refused. -/
theorem filter_isReport_notesIn (fs : FileSystem) (p : Path) (dir : String) (found : Option Entry) :
    ∃ refused : Option FileError,
      (∀ e, refused = some e ↔
        (∃ entries, found = some (.directory entries)) ∧ noteNames fs p = .error e) ∧
      (notesIn fs p dir found).2.filter isReport = refused.toList.map (unreadableNotes dir) := by
  rcases found with _ | e
  · exact ⟨none, by simp, rfl⟩
  cases e with
  | file | link | special => exact ⟨none, by simp, rfl⟩
  | directory entries =>
      rw [notesIn]
      cases hnames : noteNames fs p with
      | error e => exact ⟨some e, by simp, by simp [isReport_unreadableNotes]⟩
      | ok names =>
          refine ⟨none, by simp, filter_isReport_eq_nil fun w hw ↦ ?_⟩
          obtain ⟨outcome, houtcome, hw⟩ := List.mem_flatMap.mp hw
          obtain ⟨name, -, rfl⟩ := List.mem_map.mp houtcome
          exact not_isReport_readNote _ _ name w hw

/-- The reports of the notes: one if their directory is refused. -/
theorem filter_isReport_writtenNotes {fs : FileSystem} {root : Path} {dir : String}
    {notes : List Note} {warnings : List String}
    (h : writtenNotes fs root dir = .ok (notes, warnings)) :
    ∃ refused : Option FileError, (∀ e, refused = some e ↔ NotesRefused fs root dir e) ∧
      warnings.filter isReport = refused.toList.map (unreadableNotes dir) := by
  rw [writtenNotes_eq] at h
  obtain ⟨within, hwithin, h⟩ := bind_eq_ok.mp h
  cases within with
  | false =>
      obtain ⟨-, rfl⟩ := Prod.mk.inj (pure_eq_ok.mp h)
      refine ⟨none, fun e ↦ iff_of_false (by simp) fun hrefused ↦ ?_, ?_⟩
      · rw [hrefused.1] at hwithin
        cases hwithin
      · refine filter_isReport_eq_nil (List.forall_mem_singleton.mpr ?_)
        rw [String.append_assoc]
        exact not_isReport (by decide)
  | true =>
      obtain ⟨found, hprobed, h⟩ := bind_eq_ok.mp h
      obtain ⟨refused, hrefused, hsaid⟩ :=
        filter_isReport_notesIn fs (root.join (Path.ofText dir)) dir found
      refine ⟨refused, fun e ↦ (hrefused e).trans ?_, ?_⟩
      · rw [NotesRefused, FileSystem.probed_eq_ok.mp hprobed]
        simp [hwithin]
      · rwa [pure_eq_ok.mp h] at hsaid

/-! ## What a run reports -/

section

variable {fs fs' : FileSystem} {services : Services} {t t' : Tokenizer} {request : Request}
  {compiled : Compiled} {root : Path} {settings : Settings} {found : Findings}

theorem isReport_of_mem_map {places : List Location} :
    ∀ w ∈ places.map Location.report, isReport w = true :=
  List.forall_mem_map.mpr fun _ _ ↦ isReport_unreadableDirectory _ _

/-- The reports of a survey are those of the walk for the files. -/
theorem filter_isReport_survey {known : Option Profile}
    (h : survey fs services root settings known = .ok found) :
    ∃ inventory, Inventory.take fs (treeStyle settings).ignored root = .ok inventory ∧
      found.warnings.filter isReport = inventory.warnings.filter isReport := by
  simp only [survey, bind_eq_ok, pure_eq_ok] at h
  obtain ⟨profile, -, inventory, hinventory, ⟨outlines, warnings, progress⟩, hcollect, rfl⟩ := h
  refine ⟨inventory, hinventory, ?_⟩
  rw [List.filter_append, filter_isReport_eq_nil (not_isReport_collect hcollect), List.append_nil]

/-- The reports of the contents are those of the tree and that of the notes. -/
theorem filter_isReport_contents {measure : Measure} {allocation : Budget.Shares Topic}
    {contents : Contents} (h : contentsOf fs measure root settings found allocation = .ok contents) :
    ∃ tree warnings refused,
      DirectoryTree.fitting fs (treeStyle settings) (significantPaths settings found) root
        (allocation.get .tree) = .ok (tree, warnings) ∧
      (∀ e, refused = some e ↔ NotesRefused fs root settings.knowledgeDir e) ∧
      contents.warnings.filter isReport = warnings.filter isReport ++
        refused.toList.map (unreadableNotes settings.knowledgeDir) := by
  obtain ⟨-, excerpts, warnings, said, generate?, htree, hexcerpts, hnotes, -, hwarnings⟩ :=
    contentsOf_ok h
  obtain ⟨⟨notes, said'⟩, hwritten, hknowledge⟩ := bind_eq_ok.mp hnotes
  obtain ⟨-, rfl⟩ := Prod.mk.inj (pure_eq_ok.mp hknowledge)
  obtain ⟨refused, hrefused, hsaid⟩ := filter_isReport_writtenNotes hwritten
  refine ⟨contents.tree, warnings, refused, htree, hrefused, ?_⟩
  rw [hwarnings, List.filter_append, List.filter_append,
    filter_isReport_eq_nil (not_isReport_addExcerpts (by simp) hexcerpts), List.append_nil, hsaid]

/-- The reports of a run are those of the walk for the files, those of the tree and that of the
notes. -/
theorem filter_isReport_compile (h : compile fs services t request = (.ok (compiled, fs'), t')) :
    ∃ root settings notices found inventory tree warnings refused,
      prepare services.yaml fs request.root = .ok (root, settings, notices) ∧
      survey fs services root settings request.profile = .ok found ∧
      Inventory.take fs (treeStyle settings).ignored root = .ok inventory ∧
      DirectoryTree.fitting fs (treeStyle settings) (significantPaths settings found) root
        ((split t'.measure found.profile.name (request.budget.getD settings.budget)).get .tree) =
          .ok (tree, warnings) ∧
      (∀ e, refused = some e ↔ NotesRefused fs root settings.knowledgeDir e) ∧
      compiled.warnings.filter isReport =
        inventory.warnings.filter isReport ++ warnings.filter isReport ++
          refused.toList.map (unreadableNotes settings.knowledgeDir) := by
  obtain ⟨-, root, settings, notices, found, contents, remarks, hprepare, hsurvey, hcontents, rfl,
    hremarks⟩ := compile_said h
  obtain ⟨-, -, hload⟩ := prepare_ok hprepare
  obtain ⟨inventory, htake, hwalk⟩ := filter_isReport_survey hsurvey
  obtain ⟨tree, warnings, refused, htree, hrefused, hshown⟩ := filter_isReport_contents hcontents
  refine ⟨root, settings, notices, found, inventory, tree, warnings, refused, hprepare, hsurvey,
    htake, htree, hrefused, ?_⟩
  rw [Compiled.withRemarks, hremarks, List.filter_append, List.filter_append, List.filter_append,
    filter_isReport_eq_nil (not_isReport_settings hload),
    filter_isReport_eq_nil (not_isReport_configure t _ _), hwalk, hshown, List.nil_append,
    List.nil_append, List.append_assoc]

/-- The reports of a run: `walked` are the directories that the walk for the files gets to and cannot
list, `shown` those that the tree with a number of levels gets to and cannot list, and `refused` says
why the notes in a directory are not read. -/
structure ReportsTwice (fs : FileSystem) (style : DirectoryTree.Style) (paths : List String)
    (root : Path) (dir : String) (entries : List (String × Entry)) (levels : Nat)
    (walked shown : List Location) (refused : Option FileError) (warnings : List String) : Prop where
  reports_eq : warnings.filter isReport =
    (walked ++ shown).map Location.report ++ refused.toList.map (unreadableNotes dir)
  ordered : walked.Pairwise (· < ·)
  mem_walked : ∀ place, place ∈ walked ↔
    Inventory.IsMet fs style.ignored root entries place ∧ root.join ⟨"", place⟩ ∈ fs.denied
  sublist : shown.Sublist walked
  mem_shown : ∀ place, place ∈ shown ↔
    DirectoryTree.IsUnreadable fs style paths root entries levels place
  mem_refused : ∀ e, refused = some e ↔ NotesRefused fs root dir e

section

variable {dir : String} {refused : Option FileError} {style : DirectoryTree.Style} {paths : List String} {entries : List (String × Entry)}
  {levels : Nat} {walked shown : List Location} {warnings : List String}

theorem ReportsTwice.plain
    (h : ReportsTwice fs style paths root dir entries levels walked shown refused warnings)
    (hentries : (Entry.directory entries).WellFormed) :
    ∀ place ∈ walked, ∀ name ∈ place, PlainName name := by
  intro place hplace
  obtain ⟨⟨inner, hinner⟩, -⟩ := ((h.mem_walked place).mp hplace).1
  exact hentries.plainName_of_find? hinner

theorem report_ne_of_mem_refused {place : Location} :
    ∀ w ∈ refused.toList.map (unreadableNotes dir), place.report ≠ w :=
  List.forall_mem_map.mpr fun e _ ↦ unreadableDirectory_ne_unreadableNotes _ dir .denied e

/-- A directory that cannot be listed is reported twice if the tree gets to it, and once if not. -/
theorem ReportsTwice.count_eq
    (h : ReportsTwice fs style paths root dir entries levels walked shown refused warnings)
    (hentries : (Entry.directory entries).WellFormed) {place : Location} (hplace : place ∈ walked) :
    warnings.count place.report = if place ∈ shown then 2 else 1 := by
  have hplain := h.plain hentries
  have hwalked : (walked.map Location.report).count place.report = 1 :=
    List.count_eq_one_of_mem (DirectoryTree.nodup_map_report h.ordered hplain)
      (List.mem_map_of_mem hplace)
  have hplain' : ∀ other ∈ shown, ∀ name ∈ other, PlainName name :=
    fun other hother ↦ hplain other (h.sublist.subset hother)
  have hshown : (shown.map Location.report).count place.report = if place ∈ shown then 1 else 0 := by
    split
    · next hmem =>
      exact List.count_eq_one_of_mem
        (DirectoryTree.nodup_map_report (h.ordered.sublist h.sublist) hplain')
        (List.mem_map_of_mem hmem)
    · next hnot =>
      refine List.count_eq_zero.mpr fun hmem ↦ hnot ?_
      obtain ⟨other, hother, heq⟩ := List.mem_map.mp hmem
      rwa [← DirectoryTree.report_inj (hplain' other hother) (hplain place hplace) heq]
  have hreport : isReport place.report = true := isReport_unreadableDirectory _ _
  have hnotes : (refused.toList.map (unreadableNotes dir)).count place.report = 0 :=
    List.count_eq_zero.mpr fun hmem ↦ report_ne_of_mem_refused _ hmem rfl
  rw [← List.count_filter hreport, h.reports_eq, List.count_append, List.map_append,
    List.count_append, hwalked, hshown, hnotes]
  split <;> rfl

/-- The reason why the notes are not read is given once. -/
theorem ReportsTwice.count_notes
    (h : ReportsTwice fs style paths root dir entries levels walked shown refused warnings)
    (e : FileError) : warnings.count (unreadableNotes dir e) = if refused = some e then 1 else 0 := by
  have hdirectories : ((walked ++ shown).map Location.report).count (unreadableNotes dir e) = 0 := by
    refine List.count_eq_zero.mpr fun hmem ↦ ?_
    obtain ⟨place, -, heq⟩ := List.mem_map.mp hmem
    exact unreadableDirectory_ne_unreadableNotes _ dir .denied e heq
  rw [← List.count_filter (isReport_unreadableNotes dir e), h.reports_eq, List.count_append,
    hdirectories, Nat.zero_add]
  cases refused with
  | none => rfl
  | some e' =>
      simp only [Option.toList_some, List.map_cons, List.map_nil, List.count_singleton, beq_iff_eq,
        Option.some.injEq, (unreadableNotes_inj dir).eq_iff]

/-- No directory is reported twice exactly if the tree gets to none that cannot be listed. -/
theorem ReportsTwice.nodup_iff
    (h : ReportsTwice fs style paths root dir entries levels walked shown refused warnings)
    (hentries : (Entry.directory entries).WellFormed) :
    (warnings.filter isReport).Nodup ↔ shown = [] := by
  constructor
  · intro hnodup
    refine List.eq_nil_iff_forall_not_mem.mpr fun place hplace ↦ ?_
    have htwice := h.count_eq hentries (h.sublist.subset hplace)
    have honce := List.nodup_iff_count_le_one.mp hnodup place.report
    have hreport : isReport place.report = true := isReport_unreadableDirectory _ _
    rw [List.count_filter hreport, htwice, if_pos hplace] at honce
    omega
  · rintro rfl
    rw [h.reports_eq, List.append_nil]
    refine List.nodup_append.mpr
      ⟨DirectoryTree.nodup_map_report h.ordered (h.plain hentries), ?_, ?_⟩
    · cases refused <;> simp
    · exact List.forall_mem_map.mpr fun place _ ↦ report_ne_of_mem_refused

end

/-- The tree of a document has few levels, so it gets to no directory that the walk does not get to. -/
theorem isMet_of_isVisited {paths : List String} {entries : List (String × Entry)} {levels : Nat}
    (hlevels : levels ≤ 4) {place : Location}
    (h : DirectoryTree.IsVisited fs (treeStyle settings) paths root entries levels place) :
    Inventory.IsMet fs (treeStyle settings).ignored root entries place := by
  have hdepth := h.depth
  refine ⟨h.directory, h.below, ?_, h.passable⟩
  rw [Inventory.maxDepth]
  omega

theorem reportsTwice_compile (hdistinct : fs.Distinct)
    (h : compile fs services t request = (.ok (compiled, fs'), t')) :
    ∃ root settings notices found entries title walked shown refused,
      prepare services.yaml fs request.root = .ok (root, settings, notices) ∧
      survey fs services root settings request.profile = .ok found ∧
      fs.scan root = .ok entries ∧ DirectoryTree.titleOf fs root = .ok title ∧
      ReportsTwice fs (treeStyle settings) (significantPaths settings found) root
        settings.knowledgeDir entries
        (DirectoryTree.depthWithin fs (treeStyle settings) (significantPaths settings found) root title
          ((split t'.measure found.profile.name (request.budget.getD settings.budget)).get .tree))
        walked shown refused compiled.warnings := by
  obtain ⟨root, settings, notices, found, inventory, tree, warnings, refused, hprepare, hsurvey,
    htake, htree, hrefused, hreports⟩ := filter_isReport_compile h
  obtain ⟨entries, walked, hscan, hexact⟩ := Inventory.take_isExact hdistinct htake
  obtain ⟨title, htitle, heq⟩ := DirectoryTree.fitting_ok htree
  obtain ⟨-, hwarnings⟩ := Prod.mk.inj heq
  obtain ⟨levels, hlevels⟩ : ∃ levels, levels = DirectoryTree.depthWithin fs (treeStyle settings)
      (significantPaths settings found) root title
      ((split t'.measure found.profile.name (request.budget.getD settings.budget)).get .tree) :=
    ⟨_, rfl⟩
  rw [← hlevels] at hwarnings
  have hle : levels ≤ 4 := hlevels ▸ (DirectoryTree.isDeepest_depthWithin ..).le
  have hpos : levels ≠ 0 := hlevels ▸ DirectoryTree.depthWithin_ne_zero _ _ _ _ _ _
  obtain ⟨shown, hordered, hmem, hshown⟩ :=
    (DirectoryTree.reports_build _ _ root hdistinct hpos).of_scan hscan
  refine ⟨root, settings, notices, found, entries, title, walked, shown, refused, hprepare, hsurvey,
    hscan, htitle, hlevels ▸ ?_⟩
  refine ⟨?_, hexact.depth_first, hexact.mem_reported, ?_, hmem, hrefused⟩
  · rw [hreports, hwarnings, hshown, hexact.warnings_eq, List.map_append]
    exact congrArg (· ++ _) (congrArg₂ (· ++ ·) (List.filter_eq_self.mpr isReport_of_mem_map)
      (List.filter_eq_self.mpr isReport_of_mem_map))
  · have hfilter : shown = walked.filter (· ∈ shown) := by
      refine hordered.eq_of_mem_iff (hexact.depth_first.sublist List.filter_sublist) fun place ↦ ?_
      rw [List.mem_filter, decide_eq_true_iff, iff_and_self, hmem, hexact.mem_reported]
      exact fun ⟨hvisited, hdenied⟩ ↦ ⟨isMet_of_isVisited hle hvisited, hdenied⟩
    rw [hfilter]
    exact List.filter_sublist

/-! ## Who reports a directory -/

/-- The tree that is shown within a budget has one warning about each directory that it gets to and
cannot list. In a document these are second warnings: the walk for the files has one about each
directory that it gets to and cannot list, and the tree gets to no other. If the notes cannot be read,
their directory has one more warning, in other words. -/
theorem unreadable_reported_by_walk_and_tree (hfs : fs.WellFormed) (hdistinct : fs.Distinct) :
    (∀ style paths root title budget, DirectoryTree.titleOf fs root = .ok title →
      ∃ depth warnings,
        DirectoryTree.fitting fs style paths root budget =
          .ok (DirectoryTree.textAt fs style paths root title depth, warnings) ∧
        DirectoryTree.IsDeepest (DirectoryTree.Fits fs style paths root title budget)
          (max 1 style.maxDepth.toNat) depth ∧
        DirectoryTree.Reports fs style paths root depth warnings ∧ warnings.Nodup) ∧
    ∀ services t request compiled fs' t',
      compile fs services t request = (.ok (compiled, fs'), t') →
      ∃ root settings notices found entries title walked shown refused,
        prepare services.yaml fs request.root = .ok (root, settings, notices) ∧
        survey fs services root settings request.profile = .ok found ∧
        fs.scan root = .ok entries ∧ DirectoryTree.titleOf fs root = .ok title ∧
        ReportsTwice fs (treeStyle settings) (significantPaths settings found) root
          settings.knowledgeDir entries
          (DirectoryTree.depthWithin fs (treeStyle settings) (significantPaths settings found) root
            title
            ((split t'.measure found.profile.name (request.budget.getD settings.budget)).get .tree))
          walked shown refused compiled.warnings ∧
        (∀ place ∈ walked,
          compiled.warnings.count place.report = if place ∈ shown then 2 else 1) ∧
        (∀ e, compiled.warnings.count (unreadableNotes settings.knowledgeDir e) =
          if refused = some e then 1 else 0) ∧
        ((compiled.warnings.filter isReport).Nodup ↔ shown = []) := by
  constructor
  · intro style paths root title budget htitle
    have hreports := DirectoryTree.reports_build style paths root hdistinct
      (DirectoryTree.depthWithin_ne_zero fs style paths root title budget)
    exact ⟨_, _, DirectoryTree.fitting_eq htitle style paths budget,
      DirectoryTree.isDeepest_depthWithin fs style paths root title budget, hreports,
      hreports.nodup hfs⟩
  · intro services t request compiled fs' t' h
    obtain ⟨root, settings, notices, found, entries, title, walked, shown, refused, hprepare, hsurvey,
      hscan, htitle, htwice⟩ := reportsTwice_compile hdistinct h
    have hentries : (Entry.directory entries).WellFormed := hfs.of_scan hscan
    exact ⟨root, settings, notices, found, entries, title, walked, shown, refused, hprepare, hsurvey,
      hscan, htitle, htwice, fun place hplace ↦ htwice.count_eq hentries hplace, htwice.count_notes,
      htwice.nodup_iff hentries⟩

end

/-- The small project, and its directory may not be listed. -/
def locked : FileSystem :=
  FileSystem.nested.deny ⟨"/", ["p", "a"]⟩

theorem locked_isBare : IsBare locked ⟨"/", ["p"]⟩ FileSystem.nestedEntries where
  root_eq := rfl
  straight := FileSystem.isStraight_of_at? (by decide) (by decide) rfl
  at?_eq := rfl
  short := nested_isBare.short
  room := nested_isBare.room
  opened := by decide
  permitted access p := rfl
  plain := nested_isBare.plain
  held := nested_isBare.held
  absent := nested_isBare.absent

theorem locked_scan : locked.scan ⟨"/", ["p"]⟩ = .ok FileSystem.nestedEntries := by
  rw [locked, FileSystem.scan_deny_of_ne (by decide), FileSystem.nested_scan]

/-- The tree of the project, whatever is significant in it. -/
theorem locked_textAt (paths : List String) :
    DirectoryTree.textAt locked (treeStyle {}) paths ⟨"/", ["p"]⟩ "p" 2 = "p/\n└── b" := by
  obtain ⟨scope, hscope⟩ : ∃ scope, scope = DirectoryTree.Scope.below locked (treeStyle {})
      (DirectoryTree.significant paths) ⟨"/", ["p"]⟩ := ⟨_, rfl⟩
  have hdenied : scope.denied ["a"] = true := by
    subst hscope
    show locked.denied.contains ((Path.mk "/" ["p"]).join ⟨"", ["a"]⟩) = true
    decide
  have hdirectories : Entry.subdirectories scope.hidden FileSystem.nestedEntries =
      [("a", [("x", .file ⟨#[]⟩)])] := by
    have hshown : Text.isIgnored (treeStyle {}).ignored "a" = false := by decide +kernel
    simp [hscope, DirectoryTree.Scope.below, Entry.subdirectories, FileSystem.nestedEntries, hshown,
      Entry.sortedByName]
  have hleaves : DirectoryTree.leaves scope FileSystem.nestedEntries = ["b"] := by
    have hshown : Text.isIgnored (treeStyle {}).ignored "b" = false ∧
        Text.isIgnored (treeStyle {}).noise "b" = false := by
      decide +kernel
    simp [hscope, DirectoryTree.Scope.below, DirectoryTree.leaves, FileSystem.nestedEntries, hshown,
      Entry.isDirectory, Text.sorted]
  have hremark : scope.remark "b" "b" = none := by
    subst hscope
    show DirectoryTree.annotationFor (treeStyle {}).annotations "b" "b" = none
    decide +kernel
  have hleaf : DirectoryTree.leaf scope [] "b" = .file "b" "b" none :=
    congrArg (TreeNode.file "b" "b") hremark
  rw [DirectoryTree.textAt, DirectoryTree.build_of_scan locked_scan, ← hscope, DirectoryTree.nodes,
    hdirectories, hleaves]
  simp only [List.filterMap_cons, List.nil_append, hdenied, Bool.or_true, if_true,
    List.filterMap_nil, List.map_cons, List.map_nil, hleaf]
  decide +kernel

theorem one_lt_locked_depth (paths : List String) :
    1 < DirectoryTree.depthWithin locked (treeStyle {}) paths ⟨"/", ["p"]⟩ "p"
      ((split Budget.estimate "p" ({} : Settings).budget).get .tree) := by
  by_contra hle
  refine (DirectoryTree.isDeepest_depthWithin ..).greatest 2
    (Nat.lt_succ_iff.mpr (Nat.not_lt.mp hle)) (by decide) ?_
  rw [DirectoryTree.Fits, locked_textAt]
  decide +kernel

theorem locked_isUnreadable {paths : List String} {levels : Nat} (hlevels : 1 < levels) :
    DirectoryTree.IsUnreadable locked (treeStyle {}) paths ⟨"/", ["p"]⟩ FileSystem.nestedEntries
      levels ["a"] := by
  have hshown : Text.isIgnored (treeStyle {}).ignored "a" = false := by decide +kernel
  have habove : ∀ above : Location, above <+: [] → above = [] := fun _ ↦ List.prefix_nil.mp
  refine ⟨⟨⟨_, rfl⟩, by simp, hlevels, ?_, fun above h hne ↦ absurd (habove above h) hne⟩, by decide⟩
  exact Inventory.passable_concat.mpr ⟨by simp, hshown, fun above h hne ↦ absurd (habove above h) hne⟩

/-- The directory that cannot be listed is reported twice in the document of the project, and no more
than once by its tree alone. -/
theorem unreadable_reported_by_walk_and_tree_locked :
    (∃ text warnings, DirectoryTree.fitting locked {} [] ⟨"/", ["p"]⟩ 100 = .ok (text, warnings) ∧
      warnings.Nodup) ∧
    ∃ compiled t', compile locked bareServices {} (dryRequest (some { name := "p" })) =
        (.ok (compiled, locked), t') ∧
      compiled.warnings.count (Location.report ["a"]) = 2 := by
  have hfs : locked.WellFormed := FileSystem.nested_wellFormed
  have hdistinct : locked.Distinct := FileSystem.nested_distinct.deny _
  obtain ⟨compiled, hcompiled⟩ : ∃ compiled,
      (compile locked bareServices {} (dryRequest (some { name := "p" }))).1 =
        .ok (compiled, locked) :=
    locked_isBare.returns hfs hdistinct (fun _ _ ↦ rfl) {} rfl rfl
  obtain ⟨t', hrun⟩ : ∃ t', compile locked bareServices {} (dryRequest (some { name := "p" })) =
      (.ok (compiled, locked), t') :=
    ⟨_, Prod.ext hcompiled rfl⟩
  obtain ⟨htrees, hruns⟩ := unreadable_reported_by_walk_and_tree hfs hdistinct
  have hself : DirectoryTree.titleOf locked ⟨"/", ["p"]⟩ = .ok "p" := by
    rw [DirectoryTree.titleOf, locked_isBare.straight.resolve_eq]
    rfl
  obtain ⟨depth, warnings, hfitting, -, -, hnodup⟩ := htrees {} [] _ "p" 100 hself
  refine ⟨⟨_, _, hfitting, hnodup⟩, compiled, t', hrun, ?_⟩
  obtain ⟨root, settings, notices, found, entries, title, walked, shown, refused, hprepare, hsurvey,
    hscan, htitle, htwice, hcount, -⟩ := hruns _ _ _ _ _ _ hrun
  -- What the run has read of the project is known, up to what is significant in it.
  obtain ⟨rfl, -⟩ := compile_said hrun
  obtain ⟨hresolve, -, hload⟩ := prepare_ok hprepare
  rw [show (dryRequest (some { name := "p" })).root = ⟨"/", ["p"]⟩ from rfl,
    locked_isBare.straight.resolve_eq] at hresolve
  obtain rfl : ⟨"/", ["p"]⟩ = root := Except.ok.inj hresolve
  rw [locked_isBare.load_eq] at hload
  obtain ⟨rfl, rfl⟩ := Prod.mk.inj (Except.ok.inj hload)
  obtain rfl := Except.ok.inj (locked_scan.symm.trans hscan)
  obtain rfl := Except.ok.inj (hself.symm.trans htitle)
  have hprofile : { name := "p" } = found.profile := Except.ok.inj (survey_ok hsurvey).1
  rw [← hprofile] at htwice
  have hshown : ["a"] ∈ shown :=
    (htwice.mem_shown _).mpr (locked_isUnreadable (one_lt_locked_depth _))
  rw [hcount ["a"] (htwice.sublist.subset hshown), if_pos hshown]

end Dossier.Document

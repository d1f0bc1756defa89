import Dossier.Proofs.Document.Returns
import Dossier.Proofs.Inventory.Counterparts
import Dossier.Proofs.Settings

/-!
# Documents of counterparts

Two projects whose roots answer alike have the same document, if the files that are read for it have
the same bytes: the settings file, the manifests, the files of the inventory and the written notes.
-/

namespace Dossier

open FileSystem (Counterparts Reach SameFile SameFiles SameText)
open Steps

variable {fs fs' : FileSystem} {base base' : Path} {reach : Reach} {place : Location}

/-! ## Settings -/

namespace Settings

/-- The settings files below two directories have the same bytes, and the directories are at one path
or the settings files do not refuse to be read. -/
structure SameSettings (fs fs' : FileSystem) (base base' : Path) : Prop where
  text : ∀ file ∈ fileNames, SameText fs fs' (base.child file) (base'.child file)
  silent : base = base' ∨ ∀ file ∈ fileNames, ∀ bytes,
    fs.stat (base.child file) = .ok (.file bytes) →
      ∀ e, fs.readText (base.child file) ≠ .error (.refused e)

theorem load_together {yaml : Data.Reader} (h : Counterparts fs fs' base base' reach)
    (hentered : reach.entered []) (hsame : SameSettings fs fs' base base') :
    Together Eq (load yaml fs base) (load yaml fs' base') := by
  have hproper : ∀ file ∈ fileNames, ProperName file := by decide
  have hlooked (file : String) (hfile : file ∈ fileNames) : reach.looked [file] :=
    h.child [] file hentered (h.proper file (hproper file hfile))
  rw [load, load]
  refine Agree.bind_of_ok (r := Eq) (Together.findM? fun file hfile ↦
    h.leadsToFile (hlooked file hfile)) ?_
  rintro found _ hfound - rfl
  cases found with
  | none => exact .pure rfl
  | some file =>
      have hmem := mem_of_findM?_eq_ok hfound
      have hask := ask_of_findM?_eq_ok hfound
      obtain ⟨e, hstat, he⟩ := FileSystem.exists_stat_of_leadsTo hask
      obtain ⟨bytes, rfl⟩ : ∃ bytes, e = .file bytes := by
        cases e with
        | file bytes => exact ⟨bytes, rfl⟩
        | link | directory | special => simp [Entry.isFile] at he
      have hfile : fs.SameFile fs' base base' reach [file] :=
        ⟨hlooked file hmem, hsame.text file hmem,
          hsame.silent.imp_right fun hsilent ↦ hsilent file hmem bytes hstat⟩
      dsimp only
      rw [inFile, inFile, Path.child_eq_down, Path.child_eq_down,
        ← h.readText_eq hfile.looked hfile.text]
      cases hread : fs.readText (base.down [file]) with
      | ok text => exact Together.self _
      | error e =>
          rw [Path.child_eq_down] at hstat
          exact .ok (by rw [h.readText_message_of_stat hfile hstat hread])

end Settings

namespace Document

variable {measure : Measure}

/-! ## Key files -/

theorem addExcerpts_together (h : Counterparts fs fs' base base' reach) {budget : Int}
    {done : Excerpts} {paths : List String} (hpaths : fs.SameFiles fs' base base' reach paths) :
    Together Eq (addExcerpts fs measure base budget done paths)
      (addExcerpts fs' measure base' budget done paths) := by
  induction paths generalizing done with
  | nil => exact .ok rfl
  | cons path rest ih =>
      obtain ⟨⟨place, hplain, rfl, hfile⟩, hrest⟩ := List.forall_mem_cons.mp hpaths
      have hoffer : Together Eq (offer fs measure base budget done (Path.relativeText place))
          (offer fs' measure base' budget done (Path.relativeText place)) := by
        rw [offer, offer, Path.ofText_relativeText hplain, Path.join_eq_down, Path.join_eq_down]
        refine Agree.ite ?_ (fun _ ↦ .error trivial) fun _ ↦ ?_
        · rw [← Bool.not_eq_false, ← Bool.not_eq_false]
          exact not_congr (h.isClean_iff place)
        · rw [← h.readText_eq hfile.looked hfile.text]
          cases hread : fs.readText (base.down place) with
          | ok text => exact Together.self _
          | error e =>
              cases e with
              | endless => exact .error trivial
              | refused | undecodable =>
                  exact .ok (by rw [h.readText_message hfile hread (by simp)])
      rw [addExcerpts, addExcerpts]
      refine hoffer.bind ?_
      rintro ⟨next, more⟩ _ rfl
      cases more with
      | true => exact ih hrest
      | false => exact .pure rfl

theorem keyFiles_together (h : Counterparts fs fs' base base' reach) {files patterns : List String}
    {budget : Int} (hfiles : fs.SameFiles fs' base base' reach files) :
    Together Eq (keyFiles fs measure base files patterns budget)
      (keyFiles fs' measure base' files patterns budget) :=
  addExcerpts_together h fun path hpath ↦ hfiles path (List.mem_of_mem_filter hpath)

/-! ## Notes -/

theorem nameTooLong_of_seek {p : Path} {e : FileError} (h : fs.seek p = .error e) :
    e = .nameTooLong := by
  rw [FileSystem.seek] at h
  split at h
  · cases h
  · split at h
    · cases h
    · exact (Except.error.inj h).symm
    · cases h

/-- Asking of some names whether they lead to files fails only if one of them is too long. -/
theorem nameTooLong_of_filterM {fs : FileSystem} {p : Path} {names : List String} {e : FileError}
    (h : (names.filterM fun name ↦ do return (← fs.seek (p.child name)).any Entry.isFile) =
      .error e) : e = .nameTooLong := by
  obtain ⟨name, -, hask⟩ := exists_error_of_filterM h
  cases hseek : fs.seek (p.child name) with
  | ok found => simp [hseek, bind, Except.bind, pure, Except.pure] at hask
  | error f =>
      rw [hseek] at hask
      obtain rfl := Except.error.inj hask
      exact nameTooLong_of_seek hseek

/-- The same names lead to files in both directories, or it is not said of one of them. -/
theorem filterM_isFile_agree (h : Counterparts fs fs' base base' reach)
    (hentered : reach.entered []) {names names' : List String} (hperm : names.Perm names')
    (hproper : ∀ name ∈ names, ProperName name) :
    Agree Eq List.Perm
      (names.filterM fun name ↦ do return (← fs.seek (base.child name)).any Entry.isFile)
      (names'.filterM fun name ↦ do return (← fs'.seek (base'.child name)).any Entry.isFile) := by
  have hasks (name : String) (hname : name ∈ names) :
      Together Eq (do return (← fs.seek (base.child name)).any Entry.isFile)
        (do return (← fs'.seek (base'.child name)).any Entry.isFile) := by
    have hseek : Agree Eq (Option.Rel Entry.SameShape) (fs.seek (base.child name))
        (fs'.seek (base'.child name)) :=
      h.seek (h.child [] name hentered (h.proper _ (hproper name hname)))
    refine hseek.together.bind fun found found' hfound ↦ ?_
    cases hfound with
    | none => exact .pure rfl
    | some he => exact .pure he.sameKind.isFile_eq
  rcases (Together.filterM hperm hasks).outcomes with
    ⟨e, e', hfiles, hfiles', -⟩ | ⟨files, files', hfiles, hfiles', hperm⟩
  · obtain rfl := nameTooLong_of_filterM hfiles
    obtain rfl := nameTooLong_of_filterM hfiles'
    rw [hfiles, hfiles']
    exact .error rfl
  · rw [hfiles, hfiles']
    exact .ok hperm

/-- The same files are notes in both directories. -/
theorem noteNames_agree (h : Counterparts fs fs' base base' reach) {entries : List (String × Entry)}
    (hself : reach.looked []) (hstat : fs.stat base = .ok (.directory entries)) :
    Agree Eq Eq (noteNames fs base) (noteNames fs' base') := by
  have hentered : reach.entered [] := h.enter [] entries hself (by rwa [Path.down_nil])
  have hstats := h.stat [] hself
  rw [Path.down_nil, Path.down_nil] at hstats
  obtain ⟨e', hstat', he⟩ := hstats.exists_ok hstat
  obtain ⟨entries', rfl⟩ := he.exists_directory
  have hlist : fs.entriesOf base = .ok entries := by
    rw [FileSystem.entriesOf, hstat]
    rfl
  have hlist' : fs'.entriesOf base' = .ok entries' := by
    rw [FileSystem.entriesOf, hstat']
    rfl
  have hforbidden : fs.forbidden .read base = fs'.forbidden .read base' := by
    simpa using h.forbidden .read []
  have hany : (entries.map (·.1)).any (fun name ↦ fs.forbidden .follow (base.child name)) =
      (entries'.map (·.1)).any (fun name ↦ fs'.forbidden .follow (base'.child name)) := by
    rw [← he.names.any_eq]
    exact congrArg _ (funext fun name ↦ h.forbidden .follow [name])
  rw [noteNames, noteNames]
  refine Agree.bind (r := fun names names' ↦
    names = entries.map (·.1) ∧ names' = entries'.map (·.1)) (q := Eq) ?_ ?_
  · rw [FileSystem.namesIn, FileSystem.namesIn, hforbidden, hlist, hlist']
    exact .ite .rfl (fun _ ↦ .error rfl) fun _ ↦ .ok ⟨rfl, rfl⟩
  rintro _ _ ⟨rfl, rfl⟩
  refine .ite (by rw [hany]) (fun _ ↦ .error rfl) fun _ ↦ ?_
  refine (filterM_isFile_agree h hentered he.names fun name hname ↦ ?_).bind
    fun files files' hperm ↦ .pure ?_
  · obtain ⟨x, hx, rfl⟩ := List.mem_map.mp hname
    exact (h.sound.wellFormed.of_stat hstat).names x hx
  · exact Text.sorted_eq_of_perm (hperm.filter _)

/-- A note is a file that the directory lists. -/
theorem mem_noteNames {p : Path} {entries : List (String × Entry)} {names : List String}
    (hstat : fs.stat p = .ok (.directory entries)) (h : noteNames fs p = .ok names) {name : String}
    (hname : name ∈ names) :
    name ∈ entries.map (·.1) ∧ ∃ bytes, fs.stat (p.child name) = .ok (.file bytes) := by
  obtain ⟨listed, hlisted, h⟩ := bind_eq_ok.mp h
  obtain rfl : entries.map (·.1) = listed := by
    rw [FileSystem.namesIn, FileSystem.entriesOf, hstat] at hlisted
    split at hlisted
    · cases hlisted
    · exact Except.ok.inj hlisted
  split at h
  · cases h
  obtain ⟨files, hfiles, h⟩ := bind_eq_ok.mp h
  obtain rfl := pure_eq_ok.mp h
  obtain ⟨hall, rfl⟩ := filterM_eq_ok.mp hfiles
  obtain ⟨hmem, hpicks⟩ :=
    List.mem_filter.mp (List.mem_of_mem_filter (Text.mem_sorted.mp hname))
  refine ⟨hmem, ?_⟩
  cases hseek : fs.seek (p.child name) with
  | error e => simp [picks, hseek, bind, Except.bind, Except.toOption] at hpicks
  | ok found =>
      cases found with
      | none => simp [picks, hseek, bind, Except.bind, pure, Except.pure, Except.toOption] at hpicks
      | some e =>
          cases e with
          | file bytes => exact ⟨bytes, FileSystem.stat_of_seek hseek⟩
          | link | directory | special =>
              simp [picks, hseek, bind, Except.bind, pure, Except.pure, Except.toOption,
                Entry.isFile] at hpicks

/-- The directories of written notes answer alike, and their files have the same bytes. They are at one
path or their files do not refuse to be read. -/
structure SameNotes (fs fs' : FileSystem) (p p' : Path) : Prop where
  counterparts : ∃ reach, Counterparts fs fs' p p' reach ∧ reach.looked []
  text : ∀ entries, fs.stat p = .ok (.directory entries) → ∀ name, ProperName name →
    SameText fs fs' (p.child name) (p'.child name)
  silent : p = p' ∨ ∀ name bytes, ProperName name → fs.stat (p.child name) = .ok (.file bytes) →
    ∀ e, fs.readText (p.child name) ≠ .error (.refused e)

theorem readNote_congr (h : Counterparts fs fs' base base' reach) {name : String}
    {bytes : ByteArray} (hstat : fs.stat (base.child name) = .ok (.file bytes))
    (hfile : fs.SameFile fs' base base' reach [name]) :
    readNote fs base name = readNote fs' base' name := by
  rw [Path.child_eq_down] at hstat
  rw [readNote, readNote, Path.child_eq_down, Path.child_eq_down,
    ← h.readText_eq hfile.looked hfile.text]
  cases hread : fs.readText (base.down [name]) with
  | ok text => rfl
  | error e =>
      dsimp only
      rw [h.readText_message_of_stat hfile hstat hread]

/-- The notes are the same in what the paths of their directories lead to. -/
theorem notesIn_eq {p p' : Path} {dir : String} {found found' : Option Entry}
    (hnotes : SameNotes fs fs' p p') (hprobe : fs.probe p = .ok found)
    (hfound : Option.Rel Entry.SameShape found found') :
    notesIn fs p dir found = notesIn fs' p' dir found' := by
  obtain ⟨⟨reach, h, hself⟩, htext, hsilent⟩ := hnotes
  cases hfound with
  | none => rfl
  | some he =>
      cases he.sameKind with
      | file | link | special => rfl
      | @directory entries entries' _ =>
          have hstat := FileSystem.stat_of_probe hprobe
          have hentered : reach.entered [] := h.enter [] entries hself (by rwa [Path.down_nil])
          have hproper := (h.sound.wellFormed.of_stat hstat).names
          rw [notesIn, notesIn]
          rcases (noteNames_agree h hself hstat).outcomes with
            ⟨e, _, hnames, hnames', rfl⟩ | ⟨names, _, hnames, hnames', rfl⟩
          · rw [hnames, hnames']
          · have hread : ∀ name ∈ names, readNote fs p name = readNote fs' p' name := by
              intro name hname
              obtain ⟨hlisted, bytes, hfile⟩ := mem_noteNames hstat hnames hname
              obtain ⟨x, hx, rfl⟩ := List.mem_map.mp hlisted
              exact readNote_congr h hfile
                ⟨h.child [] x.1 hentered (h.proper _ (hproper x hx)),
                  htext entries hstat _ (hproper x hx),
                  hsilent.imp_right fun hlegible ↦ hlegible _ bytes (hproper x hx) hfile⟩
            rw [hnames, hnames']
            dsimp only
            rw [List.map_congr_left hread]

theorem writtenNotes_together {dir : String}
    (hwithin : Together Eq (leadsWithin fs base (base.join (Path.ofText dir)))
      (leadsWithin fs' base' (base'.join (Path.ofText dir))))
    (hnotes : leadsWithin fs base (base.join (Path.ofText dir)) = .ok true →
      SameNotes fs fs' (base.join (Path.ofText dir)) (base'.join (Path.ofText dir))) :
    Together Eq (writtenNotes fs base dir) (writtenNotes fs' base' dir) := by
  rw [writtenNotes_eq, writtenNotes_eq]
  refine hwithin.bind_of_ok ?_
  rintro answer _ hanswer - rfl
  cases answer with
  | false => exact .pure rfl
  | true =>
      obtain ⟨reach, h, hself⟩ := (hnotes hanswer).counterparts
      have hprobed := h.probed hself
      rw [Path.down_nil, Path.down_nil] at hprobed
      refine hprobed.bind_of_ok fun found found' hfound _ he ↦ .pure ?_
      exact notesIn_eq (hnotes hanswer) (FileSystem.probed_eq_ok.mp hfound) he

/-! ## Documents -/

/-- All that is read for the documents of two projects is the same, once their settings are known. -/
structure SameSources (yaml : Data.Reader) (fs fs' : FileSystem) (base base' : Path) (reach : Reach)
    (known : Option Profile) (settings : Settings) : Prop where
  counterparts : Counterparts fs fs' base base' reach
  self : reach.looked []
  absolute : base.isAbsolute = true
  absolute' : base'.isAbsolute = true
  name : base.name = base'.name
  title : Together Eq (DirectoryTree.titleOf fs base) (DirectoryTree.titleOf fs' base')
  profile : Together Eq (profileOf yaml fs base known) (profileOf yaml fs' base' known)
  files : ∀ inventory, Inventory.take fs (treeStyle settings).ignored base = .ok inventory →
    fs.SameFiles fs' base base' reach inventory.files
  within : Together Eq (leadsWithin fs base (base.join (Path.ofText settings.knowledgeDir)))
    (leadsWithin fs' base' (base'.join (Path.ofText settings.knowledgeDir)))
  notes : leadsWithin fs base (base.join (Path.ofText settings.knowledgeDir)) = .ok true →
    SameNotes fs fs' (base.join (Path.ofText settings.knowledgeDir))
      (base'.join (Path.ofText settings.knowledgeDir))

section

variable {services : Services} {settings : Settings} {known : Option Profile}
  (h : SameSources services.yaml fs fs' base base' reach known settings)
include h

theorem survey_together : Together (fun found found' ↦ found = found' ∧
    fs.SameFiles fs' base base' reach found.files)
      (survey fs services base settings known) (survey fs' services base' settings known) := by
  rw [survey, survey]
  refine h.profile.bind ?_
  rintro profile _ rfl
  refine (Inventory.take_together h.counterparts h.self _).bind_of_ok ?_
  rintro inventory _ htake - rfl
  have hfiles := h.files inventory htake
  refine (Outline.collect_together h.counterparts h.absolute h.absolute' h.name fun path hpath ↦
    hfiles path (List.mem_of_mem_filter hpath)).bind ?_
  rintro outlines _ rfl
  exact .pure ⟨rfl, hfiles⟩

theorem contentsOf_together {found : Findings} {allocation : Budget.Shares Topic}
    (hfiles : fs.SameFiles fs' base base' reach found.files) :
    Together Eq (contentsOf fs measure base settings found allocation)
      (contentsOf fs' measure base' settings found allocation) := by
  rw [contentsOf, contentsOf]
  refine (DirectoryTree.fitting_together h.counterparts h.self h.title _ _ _).bind ?_
  rintro tree _ rfl
  refine (keyFiles_together h.counterparts hfiles).bind ?_
  rintro excerpts _ rfl
  have hnotes : Together Eq
      (knowledge fs measure base settings.knowledgeDir (allocation.get .knowledge)
        (if settings.autoKnowledge then some ⟨found.profile, found.outlines, found.files⟩ else none))
      (knowledge fs' measure base' settings.knowledgeDir (allocation.get .knowledge)
        (if settings.autoKnowledge then some ⟨found.profile, found.outlines, found.files⟩
          else none)) := by
    refine (writtenNotes_together h.within h.notes).bind ?_
    rintro notes _ rfl
    exact .pure rfl
  cases settings.knowledgeFlaw with
  | some code => exact .error trivial
  | none =>
      refine hnotes.bind ?_
      rintro notes _ rfl
      exact .pure rfl

theorem build_together {t : Budget.Tokenizer} {request request' : Request}
    (hbudget : request.budget = request'.budget) (hknown : request.profile = known)
    (hknown' : request'.profile = known) {warnings : List String} :
    Together Eq (build fs services t request base settings warnings)
      (build fs' services t request' base' settings warnings) := by
  rw [build, build, hknown, hknown', hbudget]
  refine (survey_together h).bind ?_
  rintro found _ ⟨rfl, hfiles⟩
  refine Agree.bind (r := Eq) ?_ ?_
  · refine (contentsOf_together h hfiles).bind ?_
    rintro contents _ rfl
    exact .pure rfl
  · rintro compiled _ rfl
    exact .pure rfl

end

/-- Two runs on roots that answer alike go together, if what they read is the same and they publish
what they have built in the same way. -/
theorem compile_together {services : Services} {t : Budget.Tokenizer} {request request' : Request}
    {q : Compiled × FileSystem → Compiled × FileSystem → Prop}
    (h : Counterparts fs fs' base base' reach) (hself : reach.looked [])
    (hresolve : fs.resolve request.root = .ok base)
    (hresolve' : fs'.resolve request'.root = .ok base')
    (hrequest : { request with root := request'.root } = request')
    (hsettings : Settings.SameSettings fs fs' base base')
    (hsources : ∀ settings notices, Settings.load services.yaml fs base = .ok (settings, notices) →
      SameSources services.yaml fs fs' base base' reach request.profile settings)
    (hpublish : ∀ compiled,
      Together q (publish fs request base compiled) (publish fs' request' base' compiled)) :
    Together q (compile fs services t request).1 (compile fs' services t request').1 := by
  rw [fst_compile, fst_compile, ← hrequest]
  have hprepare : Together (fun x y ↦ x.1 = base ∧ y.1 = base' ∧ x.2 = y.2 ∧
      Settings.load services.yaml fs base = .ok x.2)
      (prepare services.yaml fs request.root) (prepare services.yaml fs' request'.root) := by
    rw [prepare, prepare, hresolve, hresolve']
    refine (h.ensureReadable hself).bind_of_ok ?_
    rintro ⟨⟩ ⟨⟩ hreadable - -
    obtain ⟨-, entries, hscan⟩ := FileSystem.ensureReadable_eq_ok.mp hreadable
    have hentered : reach.entered [] := h.enter [] entries hself (by
      rw [Path.down_nil]
      exact FileSystem.stat_of_scan hscan)
    refine (Settings.load_together h hentered hsettings).bind_of_ok ?_
    rintro ⟨settings, warnings⟩ _ hload - rfl
    exact .pure ⟨rfl, rfl, rfl, hload⟩
  refine hprepare.bind ?_
  rintro ⟨_, settings, warnings⟩ ⟨_, _, _⟩ ⟨rfl, rfl, heq, hload⟩
  obtain ⟨rfl, rfl⟩ := Prod.mk.inj heq
  dsimp only
  refine (build_together (hsources settings warnings hload) rfl rfl rfl).bind ?_
  rintro compiled _ rfl
  rw [hrequest]
  exact hpublish compiled

end Document

end Dossier

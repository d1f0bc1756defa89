import Dossier.Proofs.Document.Reordered
import Dossier.Proofs.FileSystem.Relocated
import Dossier.Proofs.Inventory.Exact

/-!
# Documents of one project at two places

The document of a project does not depend on where the project lies, nor on what is outside of it, as
long as nothing that the project asks for leads out of it: no pattern for its members goes up, and
neither does the directory of its notes, or it is outside of both places.
-/

namespace Dossier.Document

open FileSystem (Downward HasRoom Reach Relocated SameFile nested nestedEntries)
open Steps

variable {fs fs' : FileSystem} {top top' : Location} {known : Option Profile} {settings : Settings}

/-- The directory of the notes lies in the project by its name alone, or it lies outside of the
project at both places. -/
inductive NotesConfined (fs fs' : FileSystem) (root root' : Path) (dir : String) : Prop where
  | inside (relative : (Path.ofText dir).isAbsolute = false)
      (no_dots : ".." ∉ (Path.ofText dir).parts)
      (fits : FileSystem.isOverlong (root.join (Path.ofText dir)) = false)
      (fits' : FileSystem.isOverlong (root'.join (Path.ofText dir)) = false)
  | outside (h : leadsWithin fs root (root.join (Path.ofText dir)) = .ok false)
      (h' : leadsWithin fs' root' (root'.join (Path.ofText dir)) = .ok false)

/-- What a project asks for does not lead out of it. -/
structure Confined (yaml : Data.Reader) (fs fs' : FileSystem) (root root' : Path)
    (known : Option Profile) : Prop where
  members : known = none → ∀ membership, Profile.membershipOf yaml fs root = .ok membership →
    ∀ pattern ∈ membership.patterns, ∀ cleaned, Profile.cleanPattern? pattern = some cleaned →
      ".." ∉ (Path.ofText cleaned).parts
  modules : known = none → ("node_modules" ∈ root.parts ↔ "node_modules" ∈ root'.parts)
  notes : ∀ settings notices, Settings.load yaml fs root = .ok (settings, notices) →
    NotesConfined fs fs' root root' settings.knowledgeDir

/-- A text that is a relative path without double dots leads down. -/
theorem downward_ofText {s : String} (hdots : ".." ∉ (Path.ofText s).parts) :
    Downward (Path.ofText s).parts := by
  intro name hname
  exact ⟨Path.plainName_of_mem_ofText hname, fun h ↦ hdots (h ▸ hname)⟩

theorem join_of_relative {p q : Path} (h : q.isAbsolute = false) : p.join q = p.down q.parts := by
  rw [Path.join, if_neg (ne_true_of_eq_false h)]
  rfl

section

variable (h : Relocated fs fs' top top') (hroom : fs.HasRoom top) (hroom' : fs'.HasRoom top')
include h hroom hroom'

theorem sameFile_of_listed {ignored : List String} {place : Location}
    {entries : List (String × Entry)}
    (hscan : fs.scan ⟨"/", top⟩ = .ok entries)
    (hlisted : Inventory.IsListed fs ignored ⟨"/", top⟩ entries place) :
    SameFile fs fs' ⟨"/", top⟩ ⟨"/", top'⟩ (Reach.inside fs top top') place := by
  obtain ⟨e, hfound, hdata⟩ := hlisted.data
  have hat : fs.at? (top ++ place) = some e := by
    rw [FileSystem.at?_append, h.straight.at?_of_scan hscan, Option.bind_some, hfound]
  have hdirectory : e.isDirectory = false := by
    rw [Entry.isData, Bool.and_eq_true] at hdata
    exact (Bool.not_eq_true' _).mp hdata.1
  have hlooked := h.looked_of_at? hroom hroom' hat
  exact ⟨hlooked, h.sameText hlooked.1,
    .inr (h.readText_ne_refused hlooked.1 (h.stat_of_at? hroom hat) hdirectory)⟩

omit hroom hroom' in
/-- The settings files have the same bytes, and they do not refuse to be read. -/
theorem sameSettings : Settings.SameSettings fs fs' ⟨"/", top⟩ ⟨"/", top'⟩ := by
  have hproper : ∀ file ∈ Settings.fileNames, PlainName file ∧ file ≠ ".." := by decide
  have hdown (file : String) (hfile : file ∈ Settings.fileNames) : Downward [file] :=
    List.forall_mem_singleton.mpr (hproper file hfile)
  exact ⟨fun file hfile ↦ h.sameText (hdown file hfile),
    .inr fun file hfile bytes hstat ↦ h.readText_ne_refused (hdown file hfile) hstat rfl⟩

theorem looked_workflows : (Reach.inside fs top top').looked [".github", "workflows"] := by
  have hfits {fs fs' : FileSystem} {top top' : Location} (h : Relocated fs fs' top top')
      (hroom : fs.HasRoom top) :
      FileSystem.isOverlong ((Path.mk "/" top).down [".github", "workflows"]) = false := by
    obtain ⟨entries, hat⟩ := h.directory
    have hsize := hroom.room [] entries (by rwa [List.append_nil])
    have hfirst := Path.utf8ByteSize_text_child (p := ⟨"/", top⟩) (by simp) ".github"
    have hsecond := Path.utf8ByteSize_text_child (p := (Path.mk "/" top).child ".github")
      (by simp [Path.child]) "workflows"
    have hsizes : ".github".utf8ByteSize + "workflows".utf8ByteSize + 2 ≤
        FileSystem.maxNameBytes := by decide
    rw [List.append_nil] at hsize
    simp only [FileSystem.isOverlong, decide_eq_false_iff_not, not_lt]
    rw [show (Path.mk "/" top).down [".github", "workflows"] =
      ((Path.mk "/" top).child ".github").child "workflows" by simp [Path.child, Path.down]]
    omega
  refine ⟨?_, .inl ⟨hfits h hroom, hfits h.symm hroom'⟩⟩
  show ∀ name ∈ [".github", "workflows"], PlainName name ∧ name ≠ ".."
  decide

/-- The profile of a project whose members are found below its root. -/
theorem profileOf_together {yaml : Data.Reader}
    (hname : (Path.mk "/" top).name = (Path.mk "/" top').name)
    (hconfined : Confined yaml fs fs' ⟨"/", top⟩ ⟨"/", top'⟩ known) :
    Together Eq (profileOf yaml fs ⟨"/", top⟩ known) (profileOf yaml fs' ⟨"/", top'⟩ known) := by
  cases known with
  | some profile => exact .ok rfl
  | none =>
      refine Profile.detect_together (h.counterparts hroom hroom') ?_ hname ?_
        h.straight.resolve_eq h.symm.straight.resolve_eq h.entered_nil
        (looked_workflows h hroom hroom') ?_
      · intro place name hplace hname
        have hproper : ∀ name ∈ Profile.manifestNames, ProperName name := by decide
        obtain ⟨e, hat, -⟩ := Option.map_eq_some_iff.mp hplace
        refine h.sameText ?_
        exact (FileSystem.downward_of_at? h.sound.wellFormed hat).concat
          (hproper name hname).toPlainName (hproper name hname).ne_dots
      · rw [Bool.eq_iff_iff, List.contains_iff_mem, List.contains_iff_mem]
        exact hconfined.modules rfl
      · intro membership hmembership pattern hpattern cleaned hcleaned
        exact downward_ofText (hconfined.members rfl membership hmembership pattern hpattern cleaned
          hcleaned)

omit hroom hroom' in
theorem titleOf_together (hname : (Path.mk "/" top).name = (Path.mk "/" top').name) :
    Together Eq (DirectoryTree.titleOf fs ⟨"/", top⟩) (DirectoryTree.titleOf fs' ⟨"/", top'⟩) := by
  have htop {fs fs' : FileSystem} {top top' : Location} (h : Relocated fs fs' top top')
      (hempty : (Path.mk "/" top).name = "") : top = [] := by
    obtain ⟨entries, hat⟩ := h.directory
    rcases List.eq_nil_or_concat top with rfl | ⟨above, name, rfl⟩
    · rfl
    · have hproper := h.sound.wellFormed.properName_of_find? hat name (by simp)
      exact absurd (by simpa [Path.name] using hempty) hproper.ne_empty
  rw [DirectoryTree.titleOf, DirectoryTree.titleOf, h.straight.resolve_eq,
    h.symm.straight.resolve_eq]
  refine .pure ?_
  rw [← hname]
  split
  next hempty => rw [htop h hempty, htop h.symm (hname ▸ hempty)]
  next => rfl

omit hroom hroom' in
theorem leadsWithin_together {dir : String}
    (hnotes : NotesConfined fs fs' ⟨"/", top⟩ ⟨"/", top'⟩ dir) :
    Together Eq (leadsWithin fs ⟨"/", top⟩ ((Path.mk "/" top).join (Path.ofText dir)))
      (leadsWithin fs' ⟨"/", top'⟩ ((Path.mk "/" top').join (Path.ofText dir))) := by
  cases hnotes with
  | outside hanswer hanswer' =>
      rw [hanswer, hanswer']
      exact .ok rfl
  | inside relative no_dots _ _ =>
      rw [join_of_relative relative, join_of_relative relative, leadsWithin, leadsWithin,
        h.straight.resolve_eq, h.symm.straight.resolve_eq]
      refine (h.resolve_together (downward_ofText no_dots)).bind ?_
      rintro _ _ ⟨rfl, rfl⟩
      exact .pure (by simp [Path.isWithin, Path.below?, Path.down])

theorem sameNotes {dir : String} (hnotes : NotesConfined fs fs' ⟨"/", top⟩ ⟨"/", top'⟩ dir)
    (hwithin : leadsWithin fs ⟨"/", top⟩ ((Path.mk "/" top).join (Path.ofText dir)) = .ok true) :
    SameNotes fs fs' ((Path.mk "/" top).join (Path.ofText dir))
      ((Path.mk "/" top').join (Path.ofText dir)) := by
  cases hnotes with
  | outside hanswer _ => simp [hanswer] at hwithin
  | inside relative no_dots fits fits' =>
      have hdown := downward_ofText no_dots
      rw [join_of_relative relative] at fits fits' ⊢
      rw [join_of_relative relative]
      refine ⟨⟨_, (h.counterparts hroom hroom').down _, ?_⟩, fun _ _ name hname ↦ ?_, .inr ?_⟩
      · show (Reach.inside fs top top').looked _
        rw [List.append_nil]
        exact ⟨hdown, .inl ⟨fits, fits'⟩⟩
      · rw [Path.child_down, Path.child_down]
        exact h.sameText (hdown.concat hname.toPlainName hname.ne_dots)
      · intro name bytes hname hstat
        rw [Path.child_down] at hstat ⊢
        exact h.readText_ne_refused (hdown.concat hname.toPlainName hname.ne_dots) hstat rfl

end

/-- A project whose document needs nothing from outside has the same document wherever it lies, under
one name, and whatever else there is. -/
theorem compile_relocated {services : Services} {t : Budget.Tokenizer} {request : Request}
    {root' : Path}
    (h : Relocated fs fs' top top') (hroom : fs.HasRoom top) (hroom' : fs'.HasRoom top')
    (hname : (Path.mk "/" top).name = (Path.mk "/" top').name)
    (hresolve : fs.resolve request.root = .ok ⟨"/", top⟩)
    (hresolve' : fs'.resolve root' = .ok ⟨"/", top'⟩)
    (hdry : request.dryRun = true)
    (hconfined : Confined services.yaml fs fs' ⟨"/", top⟩ ⟨"/", top'⟩ request.profile) :
    Together (fun x y ↦ x.1 = y.1) (compile fs services t request).1
      (compile fs' services t { request with root := root' }).1 := by
  have hcounterparts := h.counterparts hroom hroom'
  have hself := hcounterparts.self [] h.entered_nil
  refine compile_together hcounterparts hself hresolve hresolve' rfl
    (sameSettings h) (fun settings notices hload ↦ ?_) fun compiled ↦ ?_
  · have hnotes := hconfined.notes settings notices hload
    exact {
      counterparts := hcounterparts
      self := hself
      absolute := rfl
      absolute' := rfl
      name := hname
      title := titleOf_together h hname
      profile := profileOf_together h hroom hroom' hname hconfined
      files := fun inventory htake path hpath ↦ by
        obtain ⟨entries, place, hscan, rfl, hlisted⟩ :=
          Inventory.isListed_of_mem_files h.sound.distinct htake hpath
        have hfile := sameFile_of_listed h hroom hroom' hscan hlisted
        exact ⟨place, fun name hname ↦ (hfile.looked.1 name hname).1, rfl, hfile⟩
      within := leadsWithin_together h hnotes
      notes := sameNotes h hroom hroom' hnotes }
  · have hpublish : publish fs' { request with root := root' } ⟨"/", top'⟩ compiled =
        .ok (compiled, fs') := publish_dry hdry compiled
    rw [publish_dry hdry, hpublish]
    exact .ok rfl

/-- The file system `nested` with its project moved one level down and something new beside it. -/
def nestedBelow : FileSystem where
  entries := [("lib", .file ⟨#[]⟩), ("q", .directory [("p", .directory nestedEntries)])]

theorem nestedEntries_named {asked : List String → Prop} (htop : asked ["a", "b"])
    (ha : asked ["x"]) :
    (Entry.directory nestedEntries).Named asked := by
  refine .directory htop (List.forall_mem_cons.mpr ⟨?_, List.forall_mem_singleton.mpr (.file _)⟩)
  exact .directory ha (List.forall_mem_singleton.mpr (.file _))

theorem nestedBelow_isSound : nestedBelow.IsSound := by
  have hnamed : nestedBelow.top.Named ProperNames := by
    refine .directory ⟨by decide, by decide⟩
      (List.forall_mem_cons.mpr ⟨.file _, List.forall_mem_singleton.mpr ?_⟩)
    refine .directory ⟨by decide, by decide⟩ (List.forall_mem_singleton.mpr ?_)
    exact nestedEntries_named ⟨by decide, by decide⟩ ⟨by decide, by decide⟩
  obtain ⟨hwellFormed, hdistinct⟩ := Entry.named_properNames_iff.mp hnamed
  exact ⟨hwellFormed, hdistinct⟩

theorem nested_relocated : Relocated nested nestedBelow ["p"] ["q", "p"] where
  sound := ⟨FileSystem.nested_wellFormed, FileSystem.nested_distinct⟩
  sound' := nestedBelow_isSound
  directory := ⟨nestedEntries, rfl⟩
  same place := by
    rw [FileSystem.at?_append, FileSystem.at?_append]
    exact Entry.Corresponds.refl (fun _ _ ↦ rfl) (.directory nestedEntries) place
  unlinked place target := by
    rw [FileSystem.at?_append]
    exact nestedEntries_isPlain.ne_link place target
  denied place := by simp [nested, nestedBelow]
  forbidden access place := rfl
  legible place e hat _ := by
    refine ⟨rfl, fun refusal heq ↦ ?_⟩
    rw [FileSystem.at?_append] at hat
    exact nestedEntries_isPlain.ne_special place _ (heq ▸ hat)

theorem nestedEntries_directories {place : Location} {entries : List (String × Entry)}
    (h : (Entry.directory nestedEntries).find? place = some (.directory entries)) :
    place = [] ∨ place = ["a"] := by
  have hplaces := FileSystem.mem_nestedEntries_places h
  simp only [List.mem_cons, List.not_mem_nil, or_false] at hplaces
  rcases hplaces with rfl | rfl | rfl | rfl
  · exact .inl rfl
  · exact .inr rfl
  all_goals simp [nestedEntries, Entry.find?, List.lookup_cons] at h

theorem nestedEntries_hasRoom {fs : FileSystem} {top : Location}
    (hat : fs.at? top = some (.directory nestedEntries))
    (htop : ∀ name ∈ top, name.utf8ByteSize ≤ FileSystem.maxNameBytes)
    (hroom : ∀ place ∈ [[], ["a"]], (Path.mk "/" (top ++ place)).text.utf8ByteSize + 1 +
      FileSystem.maxNameBytes ≤ FileSystem.maxPathBytes) : fs.HasRoom top where
  short place e hfound := by
    have hnames : (Entry.directory nestedEntries).Named fun names ↦
        ∀ name ∈ names, name.utf8ByteSize ≤ FileSystem.maxNameBytes :=
      nestedEntries_named (by decide) (by decide)
    rw [FileSystem.at?_append, hat, Option.bind_some] at hfound
    exact List.forall_mem_append.mpr ⟨htop, hnames.of_mem_location hfound⟩
  room place entries hfound := by
    rw [FileSystem.at?_append, hat, Option.bind_some] at hfound
    exact hroom place (by simpa using nestedEntries_directories hfound)

/-- The project of `nested` has the same document one level further down. -/
theorem compile_relocated_nested : ∃ compiled,
    (compile nested bareServices {} (dryRequest none)).1 = .ok (compiled, nested) ∧
    (compile nestedBelow bareServices {} { dryRequest none with root := ⟨"/", ["q", "p"]⟩ }).1 =
      .ok (compiled, nestedBelow) := by
  have hresolve : nested.resolve ⟨"/", ["p"]⟩ = .ok ⟨"/", ["p"]⟩ :=
    nested_relocated.straight.resolve_eq
  have hresolve' : nestedBelow.resolve ⟨"/", ["q", "p"]⟩ = .ok ⟨"/", ["q", "p"]⟩ :=
    nested_relocated.symm.straight.resolve_eq
  have hconfined : Confined bareServices.yaml nested nestedBelow ⟨"/", ["p"]⟩ ⟨"/", ["q", "p"]⟩
      (dryRequest none).profile := by
    refine ⟨fun _ membership hmembership ↦ ?_, by decide, fun settings notices hload ↦ ?_⟩
    · rw [Profile.membershipOf_of_missing] at hmembership
      · obtain rfl := Except.ok.inj hmembership
        simp
      · exact fun name hname ↦ nested_isBare.look_missing (List.mem_append_right _ hname)
    · rw [nested_isBare.load_eq] at hload
      obtain ⟨rfl, -⟩ := Prod.mk.inj (Except.ok.inj hload)
      exact .inside (by decide) (by decide) (by decide) (by decide)
  have hroot : (dryRequest none).root = ⟨"/", ["p"]⟩ := rfl
  obtain ⟨compiled, hrun⟩ :=
    nested_isBare.returns FileSystem.nested_wellFormed FileSystem.nested_distinct
      bareServices_parse {} hroot rfl
  have hroom : nested.HasRoom ["p"] := nestedEntries_hasRoom rfl (by decide) (by decide)
  have hroom' : nestedBelow.HasRoom ["q", "p"] :=
    nestedEntries_hasRoom rfl (by decide) (by decide)
  obtain ⟨⟨_, fs'⟩, hrun', rfl⟩ := (compile_relocated nested_relocated hroom hroom' rfl hresolve
    hresolve' rfl hconfined).exists_ok hrun
  refine ⟨_, hrun, ?_⟩
  obtain rfl := unchanged_of_compile rfl hrun'
  exact hrun'

end Dossier.Document

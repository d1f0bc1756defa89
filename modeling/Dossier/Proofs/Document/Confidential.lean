import Dossier.Proofs.Document.Reordered
import Dossier.Proofs.FileSystem.Straight
import Dossier.Proofs.Inventory.Exact

/-!
# Ignored files are confidential

Nothing of what is in an ignored file gets into a document. Ignored files are not listed, so they are
neither outlined nor shown, whatever the patterns for key files say. What else is read is read under a
fixed name or in the directory of the notes, and a path leads to a file of another name only through a
link.
-/

namespace Dossier.Document

open FileSystem (Corresponds HasLinkTo SameText)
open Steps

variable {yaml : Data.Reader} {fs fs' : FileSystem} {request : Request} {root : Path} {settings : Settings}
  {location : Location} {notices : List String}

/-- A file below the root of a project with an ignored name on the way, that has neither the name of a
manifest nor of a settings file, does not lie directly in the directory of the notes, and that no link
leads to. -/
structure Confidential (fs : FileSystem) (root : Path) (settings : Settings) (location : Location) :
    Prop where
  ignored : ∃ top place name, fs.locate root = .ok top ∧ location = top ++ place ∧ name ∈ place ∧
    Text.isIgnored (defaultIgnored ++ settings.ignore) name = true
  unnamed : ∀ above name, location = above ++ [name] →
    name ∉ Profile.manifestNames ∧ name ∉ Settings.fileNames
  no_note : ∀ above name, fs.locate (root.join (Path.ofText settings.knowledgeDir)) = .ok above →
    location ≠ above ++ [name]
  unlinked : ¬ fs.HasLinkTo location

/-- The bytes of a file in two projects: the same, unless the project that is asked for keeps the file
confidential. -/
def SameUnlessConfidential (yaml : Data.Reader) (fs : FileSystem) (request : Request)
    (location : Location) (bytes bytes' : ByteArray) : Prop :=
  bytes = bytes' ∨ ∃ root settings notices, fs.resolve request.root = .ok root ∧
    Settings.load yaml fs root = .ok (settings, notices) ∧ Confidential fs root settings location

theorem sameText_of_not_confidential (h : Corresponds (SameUnlessConfidential yaml fs request) fs fs')
    (hresolve : fs.resolve request.root = .ok root) {p : Path}
    (hnot : ∀ location settings notices, fs.locate p = .ok location →
      fs.kind? location = some .file → Settings.load yaml fs root = .ok (settings, notices) →
        ¬ Confidential fs root settings location) : SameText fs fs' p p := by
  refine h.sameText fun location hlocate hfile bytes bytes' hsame ↦ ?_
  rcases hsame with heq | ⟨root', settings, notices, hresolve', hload, hconfidential⟩
  · exact heq
  · obtain rfl : root = root' := Except.ok.inj (hresolve.symm.trans hresolve')
    exact absurd hconfidential (hnot location settings notices hlocate hfile hload)

theorem not_confidential_of_name {p : Path} {name : String}
    (hlocate : fs.locate (p.child name) = .ok location) (hfile : fs.kind? location = some .file)
    (hname : name ∈ Profile.manifestNames ∨ name ∈ Settings.fileNames) :
    ¬ Confidential fs root settings location := by
  intro h
  obtain ⟨above, -, heq⟩ := FileSystem.eq_concat_of_locate_child hlocate hfile h.unlinked
  exact hname.elim (h.unnamed above name heq).1 (h.unnamed above name heq).2

theorem not_confidential_of_note {name : String}
    (hlocate : fs.locate ((root.join (Path.ofText settings.knowledgeDir)).child name) = .ok location)
    (hfile : fs.kind? location = some .file) : ¬ Confidential fs root settings location := by
  intro h
  obtain ⟨above, habove, heq⟩ := FileSystem.eq_concat_of_locate_child hlocate hfile h.unlinked
  exact h.no_note above name habove heq

/-- A listed file is not confidential: it is found without a link where it is listed, and no name on
the way there is ignored. -/
theorem not_confidential_of_listed (hfs : fs.WellFormed) {place : Location}
    {entries : List (String × Entry)} (hscan : fs.scan root = .ok entries)
    (hlisted : Inventory.IsListed fs (treeStyle settings).ignored root entries place)
    (hlocate : fs.locate (root.down place) = .ok location) :
    ¬ Confidential fs root settings location := by
  intro h
  obtain ⟨top, place', name, htop, heq, hname, hignored⟩ := h.ignored
  obtain ⟨e, hfound, hdata⟩ := hlisted.data
  have hproper := (hfs.of_scan hscan).properName_of_find? hfound
  have hat : fs.at? (top ++ place) = some e := by
    rw [FileSystem.at?_append,
      FileSystem.at?_of_locate htop (FileSystem.stat_of_scan hscan), Option.bind_some, hfound]
  have hlink : e.isLink = false := by
    rw [Entry.isData, Bool.and_eq_true] at hdata
    exact (Bool.not_eq_true' _).mp hdata.2
  have hclear : fs.Clear top place := by
    refine .of_at? (fun name hname ↦ ?_) hat hlink
    exact ⟨(hproper name hname).ne_dot, (hproper name hname).ne_dots⟩
  -- No link stands on the way, so the path leads to the listed place and nowhere else.
  obtain ⟨left, hwalk⟩ := FileSystem.exists_walk_of_locate htop hlocate
  obtain rfl : place = place' :=
    List.append_cancel_left ((hclear.eq_append_of_walk hwalk).symm.trans heq)
  have hshown := hlisted.passable.shown name hname
  rw [treeStyle] at hshown
  exact Bool.false_ne_true (hshown.symm.trans hignored)

theorem sameReads (hfs : fs.IsSound) (h : Corresponds (SameUnlessConfidential yaml fs request) fs fs')
    (hresolve : fs.resolve request.root = .ok root)
    (hload : Settings.load yaml fs root = .ok (settings, notices)) :
    SameReads fs fs' root request.profile settings where
  manifests _ dir _ place name _ hname :=
    sameText_of_not_confidential h hresolve fun location settings' _ hlocate hfile _ ↦ by
      rw [← Path.child_down] at hlocate
      exact not_confidential_of_name hlocate hfile (.inl hname)
  files inventory htake place hplain hpath :=
    sameText_of_not_confidential h hresolve fun location settings' _ hlocate hfile hload' ↦ by
      obtain ⟨rfl, -⟩ := Prod.mk.inj (Except.ok.inj (hload.symm.trans hload'))
      obtain ⟨entries, place', hscan, heq, hlisted⟩ :=
        Inventory.isListed_of_mem_files hfs.distinct htake hpath
      obtain ⟨e, hfound, -⟩ := hlisted.data
      obtain rfl : place = place' := by
        refine Path.relativeText_inj hplain (fun name hname ↦ ?_) heq
        exact ((hfs.wellFormed.of_scan hscan).properName_of_find? hfound name hname).toPlainName
      exact not_confidential_of_listed hfs.wellFormed hscan hlisted hlocate
  notes entries name _ _ :=
    sameText_of_not_confidential h hresolve fun location settings' _ hlocate hfile hload' ↦ by
      obtain ⟨rfl, -⟩ := Prod.mk.inj (Except.ok.inj (hload.symm.trans hload'))
      exact not_confidential_of_note hlocate hfile

/-- Ignored files are confidential: in two file systems that differ only in what is in them, the runs
of one request fail both or answer with the same document, whichever patterns the settings have. -/
theorem compile_confidential {services : Services} {t : Budget.Tokenizer} (hfs : fs.WellFormed)
    (hdistinct : fs.Distinct)
    (h : Corresponds (SameUnlessConfidential services.yaml fs request) fs fs') :
    Together (fun x y ↦ x.1 = y.1 ∧
        Corresponds (SameUnlessConfidential services.yaml fs request) x.2 y.2)
      (compile fs services t request).1 (compile fs' services t request).1 := by
  refine compile_corresponds (fun _ _ ↦ .inl rfl) h ⟨hfs, hdistinct⟩
    (fun root hresolve ↦ ⟨fun file hfile ↦ ?_, .inl rfl⟩)
    fun _ _ _ hresolve hload ↦ sameReads ⟨hfs, hdistinct⟩ h hresolve hload
  exact sameText_of_not_confidential h hresolve fun _ _ _ hlocate hkind _ ↦
    not_confidential_of_name hlocate hkind (.inr hfile)

theorem env_confidential (bytes : ByteArray) :
    Confidential (projectWith ".env" bytes) ⟨"/", ["p"]⟩ {} ["p", ".env"] where
  ignored := by
    refine ⟨["p"], [".env"], ".env", ?_, rfl, List.mem_singleton_self _, ?_⟩
    · rw [FileSystem.locate, FileSystem.locateAs, if_neg (by decide), walk_project, FileSystem.walk]
    · exact List.any_eq_true.mpr ⟨".env", by decide, by decide⟩
  unnamed above name h := by
    obtain rfl : name = ".env" := by simpa using (congrArg List.getLast? h).symm
    decide
  no_note above name habove h := by
    have hdir : (Path.mk "/" ["p"]).join (Path.ofText ".devctx/knowledge") =
        ⟨"/", ["p", ".devctx", "knowledge"]⟩ := by decide
    have hmissing : (projectWith ".env" bytes).stat ⟨"/", ["p", ".devctx", "knowledge"]⟩ =
        .error .missing :=
      stat_missing (by decide) (by decide) (by decide) (by decide)
    obtain rfl : above = ["p"] := by simpa using (congrArg List.dropLast h).symm
    rw [hdir] at habove
    rw [FileSystem.stat, habove] at hmissing
    simp [bind, Except.bind, at?_project] at hmissing
  unlinked := FileSystem.not_hasLinkTo (projectWith_isPlain ".env" bytes)

/-- A project has the same document whether there is anything in its `.env` or not. -/
theorem compile_confidential_env : ∃ compiled,
    (compile (projectWith ".env" ⟨#[]⟩) bareServices {} (dryRequest none)).1 =
      .ok (compiled, projectWith ".env" ⟨#[]⟩) ∧
    (compile (projectWith ".env" goSource) bareServices {} (dryRequest none)).1 =
      .ok (compiled, projectWith ".env" goSource) := by
  have hfs : (projectWith ".env" ⟨#[]⟩).WellFormed := projectWith_wellFormed (by decide) ⟨#[]⟩
  have hdistinct : (projectWith ".env" ⟨#[]⟩).Distinct := projectWith_distinct ".env" ⟨#[]⟩
  have hsame : Corresponds
      (SameUnlessConfidential bareServices.yaml (projectWith ".env" ⟨#[]⟩) (dryRequest none))
      (projectWith ".env" ⟨#[]⟩) (projectWith ".env" goSource) := by
    refine ⟨.single (.single (.file (.inr ?_))), fun _ ↦ .rfl, fun _ _ ↦ rfl⟩
    exact ⟨_, _, _, resolve_projectWith .., load_projectWith (by decide), env_confidential _⟩
  have hroot : (dryRequest none).root = ⟨"/", ["p"]⟩ := rfl
  have hbare : IsBare (projectWith ".env" ⟨#[]⟩) ⟨"/", ["p"]⟩ [(".env", .file ⟨#[]⟩)] :=
    projectWith_isBare (by decide) (by decide)
  obtain ⟨compiled, hrun⟩ :=
    hbare.returns hfs hdistinct bareServices_parse {} hroot rfl
  obtain ⟨⟨_, fs'⟩, hrun', rfl, -⟩ := (compile_confidential hfs hdistinct hsame).exists_ok hrun
  refine ⟨_, hrun, ?_⟩
  obtain rfl := unchanged_of_compile rfl hrun'
  exact hrun'

end Dossier.Document

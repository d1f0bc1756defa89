import Dossier.Proofs.Document.Counterparts
import Dossier.Proofs.FileSystem.Writing

/-!
# Documents in file systems of one shape

In two file systems of one shape a project has the same document, if the files that are read for it
have the same bytes. In particular, the order in which the directories list what they hold does not
show in a document.
-/

namespace Dossier.Document

open FileSystem (Corresponds Reach SameText)
open Steps

variable {fs fs' : FileSystem} {asked : Location → ByteArray → ByteArray → Prop} {root : Path}
  {known : Option Profile} {settings : Settings}

/-- The files that are read for the document of a project, apart from its settings, have the same
bytes. -/
structure SameReads (fs fs' : FileSystem) (root : Path) (known : Option Profile)
    (settings : Settings) : Prop where
  manifests : known = none → ∀ dir, fs.resolve root = .ok dir →
    Profile.SameManifests fs fs' dir dir .everywhere
  files : ∀ inventory, Inventory.take fs (treeStyle settings).ignored root = .ok inventory →
    ∀ place, (∀ name ∈ place, PlainName name) → Path.relativeText place ∈ inventory.files →
      SameText fs fs' (root.down place) (root.down place)
  notes : ∀ entries name, ProperName name →
    fs.stat (root.join (Path.ofText settings.knowledgeDir)) = .ok (.directory entries) →
      SameText fs fs' ((root.join (Path.ofText settings.knowledgeDir)).child name)
        ((root.join (Path.ofText settings.knowledgeDir)).child name)

theorem sameSources {yaml : Data.Reader} (h : Corresponds asked fs fs') (hfs : fs.IsSound)
    (habsolute : root.isAbsolute = true) (hreads : SameReads fs fs' root known settings) :
    SameSources yaml fs fs' root root .everywhere known settings where
  counterparts := h.counterparts hfs root
  self := by simp [Reach.everywhere]
  absolute := habsolute
  absolute' := habsolute
  name := rfl
  title := by
    rw [DirectoryTree.titleOf, DirectoryTree.titleOf, h.resolve_eq]
    exact Together.self _
  profile := by
    cases hknown : known with
    | some profile => exact .ok rfl
    | none =>
        cases hresolve : fs.resolve root with
        | error f =>
            rw [profileOf, profileOf, Profile.detect, Profile.detect, ← h.resolve_eq, hresolve]
            exact .error trivial
        | ok dir =>
            refine Profile.detect_together (h.counterparts hfs dir)
              (hreads.manifests hknown dir hresolve) rfl rfl hresolve
              (by rw [← h.resolve_eq, hresolve]) (by simp [Reach.everywhere]) ?_ ?_
            · show ∀ name ∈ [".github", "workflows"], PlainName name
              decide
            · exact fun _ _ _ _ _ _ name hname ↦ Path.plainName_of_mem_ofText hname
  files inventory htake path hpath := by
    obtain ⟨place, -, hproper, rfl⟩ := Inventory.isNamed_of_mem_files hfs.wellFormed htake path hpath
    have hplain : ∀ name ∈ place, PlainName name := fun name hname ↦ (hproper name hname).toPlainName
    exact ⟨place, hplain, rfl, hplain, hreads.files inventory htake place hplain hpath, .inl rfl⟩
  within := by
    rw [leadsWithin, leadsWithin, h.resolve_eq, h.resolve_eq]
    exact Together.self _
  notes _ :=
    ⟨⟨.everywhere, h.counterparts hfs _, by simp [Reach.everywhere]⟩,
      fun entries hstat name hname ↦ hreads.notes entries name hname hstat, .inl rfl⟩

theorem publish_together (hrefl : ∀ location bytes, asked location bytes bytes)
    (h : Corresponds asked fs fs') (request : Request) (root : Path) (compiled : Compiled) :
    Together (fun x y ↦ x.1 = y.1 ∧ Corresponds asked x.2 y.2) (publish fs request root compiled)
      (publish fs' request root compiled) := by
  rw [publish, publish]
  refine .ite .rfl (fun _ ↦ .pure ⟨rfl, h⟩) fun _ ↦ ?_
  refine (h.writeText hrefl _ _).bind fun written written' hwritten ↦ ?_
  exact .pure ⟨rfl, hwritten⟩

/-- Two runs in file systems of one shape go together if what they read is the same, and leave file
systems of one shape behind. -/
theorem compile_corresponds {services : Services} {t : Budget.Tokenizer} {request : Request}
    (hrefl : ∀ location bytes, asked location bytes bytes) (h : Corresponds asked fs fs')
    (hfs : fs.IsSound)
    (hsettings : ∀ root, fs.resolve request.root = .ok root →
      Settings.SameSettings fs fs' root root)
    (hreads : ∀ root settings notices, fs.resolve request.root = .ok root →
      Settings.load services.yaml fs root = .ok (settings, notices) →
        SameReads fs fs' root request.profile settings) :
    Together (fun x y ↦ x.1 = y.1 ∧ Corresponds asked x.2 y.2) (compile fs services t request).1
      (compile fs' services t request).1 := by
  cases hresolve : fs.resolve request.root with
  | error f =>
      rw [fst_compile, fst_compile, prepare, prepare, ← h.resolve_eq, hresolve]
      exact .error trivial
  | ok root =>
      refine compile_together (h.counterparts hfs root) (by simp [Reach.everywhere]) hresolve
        (by rw [← h.resolve_eq, hresolve]) rfl (hsettings root hresolve) ?_
        (publish_together hrefl h request root)
      intro settings notices hload
      exact sameSources h hfs (isAbsolute_of_resolve hresolve)
        (hreads root settings notices hresolve hload)

/-! ## The order of entries -/

/-- The file system `nested` with the entries of its project the other way round. -/
def nestedReversed : FileSystem where
  entries := [("p", .directory FileSystem.nestedEntries.reverse)]

theorem nested_reordered : FileSystem.nested.Reordered nestedReversed := by
  refine ⟨.single (.of_perm (fun _ _ ↦ rfl) (by decide) ?_), fun _ ↦ .rfl, fun _ _ ↦ rfl⟩
  exact (List.reverse_perm FileSystem.nestedEntries).symm

theorem nestedEntries_isPlain : (Entry.directory FileSystem.nestedEntries).IsPlain := by
  refine .directory (List.forall_mem_cons.mpr ⟨?_, List.forall_mem_singleton.mpr (.file _)⟩)
  exact .directory (List.forall_mem_singleton.mpr (.file _))

theorem nestedEntries_held {place : Location} {e : Entry}
    (hfound : (Entry.directory FileSystem.nestedEntries).find? place = some e) :
    FileSystem.isOverlong ((Path.mk "/" ["p"]).join ⟨"", place⟩) = false := by
  have hfits : ∀ place ∈ [[], ["a"], ["a", "x"], ["b"]],
      FileSystem.isOverlong ((Path.mk "/" ["p"]).join ⟨"", place⟩) = false := by decide
  exact hfits place (FileSystem.mem_nestedEntries_places hfound)

theorem nested_isBare : IsBare FileSystem.nested ⟨"/", ["p"]⟩ FileSystem.nestedEntries where
  root_eq := rfl
  straight := FileSystem.nested_isStraight
  at?_eq := rfl
  short := by decide
  room := by decide
  opened := by decide
  permitted access p := rfl
  plain := .directory (List.forall_mem_singleton.mpr nestedEntries_isPlain)
  held place e := nestedEntries_held
  absent := by decide

end Dossier.Document

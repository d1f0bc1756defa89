import Dossier.DirectoryTree.Render
import Dossier.Proofs.FileSystem.Counterparts
import Dossier.Proofs.Inventory.Correspondence
import Dossier.Proofs.Profile.Counterparts

/-!
# Inventories of counterparts

Directories that answer alike have the same inventory and the same directory tree, whatever is in
their files. Their outlines are the same if the sources have the same bytes.
-/

namespace Dossier

open FileSystem (Counterparts Reach SameText)
open Steps

variable {fs fs' : FileSystem} {base base' : Path} {reach : Reach} {place : Location}

/-- A path that leads to a file of the same bytes on both sides. Where the paths of the two
directories differ, the file does not refuse to be read, so that nothing is said about its path. -/
structure FileSystem.SameFile (fs fs' : FileSystem) (base base' : Path) (reach : Reach)
    (place : Location) : Prop where
  looked : reach.looked place
  text : SameText fs fs' (base.down place) (base'.down place)
  silent : base = base' ∨ ∀ e, fs.readText (base.down place) ≠ .error (.refused e)

/-- All files of a list are the same on both sides. -/
def FileSystem.SameFiles (fs fs' : FileSystem) (base base' : Path) (reach : Reach)
    (files : List String) : Prop :=
  ∀ path ∈ files, ∃ place, (∀ name ∈ place, PlainName name) ∧ path = Path.relativeText place ∧
    fs.SameFile fs' base base' reach place

namespace FileSystem.Counterparts

variable (h : Counterparts fs fs' base base' reach)
include h

theorem isDirectory_eq (hplace : reach.looked place) :
    fs.isDirectory (base.down place) = fs'.isDirectory (base'.down place) := by
  rw [isDirectory, isDirectory]
  rcases (h.look hplace).outcomes with
    ⟨e, _, hlook, hlook', rfl⟩ | ⟨e, e', hlook, hlook', he⟩
  · rw [hlook, hlook']
  · rw [hlook, hlook']
    exact he.sameKind.isDirectory_eq

theorem ensureReadable (hself : reach.looked []) :
    Together Eq (fs.ensureReadable base) (fs'.ensureReadable base') := by
  have hprobe := h.probe hself
  have hscan := h.scan hself
  rw [Path.down_nil, Path.down_nil] at hprobe hscan
  rw [FileSystem.ensureReadable, FileSystem.ensureReadable]
  rcases hprobe.outcomes with ⟨e, _, hprobe, hprobe', rfl⟩ | ⟨found, found', hprobe, hprobe', he⟩
  · rw [hprobe, hprobe']
    exact .error trivial
  · rw [hprobe, hprobe']
    cases he with
    | none => exact .error trivial
    | some he =>
        cases he.sameKind with
        | file | link | special => exact .error trivial
        | directory =>
            rcases hscan.outcomes with
              ⟨e, _, hscan, hscan', rfl⟩ | ⟨entries, entries', hscan, hscan', -⟩
            · rw [hscan, hscan']
              exact .error trivial
            · rw [hscan, hscan']
              exact .ok rfl

/-- What is said about a file, or its text, is the same on both sides. -/
theorem readText_message (hfile : fs.SameFile fs' base base' reach place) {e : ReadError}
    (hread : fs.readText (base.down place) = .error e) (hends : e ≠ .endless) :
    e.message (base.down place) = e.message (base'.down place) := by
  rcases hfile.silent with rfl | hsilent
  · rfl
  · cases e with
    | refused e => exact absurd hread (hsilent e)
    | endless => exact absurd rfl hends
    | undecodable e => rfl

/-- Reading a file that holds bytes comes to its end, so what is said about it is the same. -/
theorem readText_message_of_stat (hfile : fs.SameFile fs' base base' reach place)
    {bytes : ByteArray} (hstat : fs.stat (base.down place) = .ok (.file bytes)) {e : ReadError}
    (hread : fs.readText (base.down place) = .error e) :
    e.message (base.down place) = e.message (base'.down place) := by
  refine h.readText_message hfile hread ?_
  rintro rfl
  exact readText_ne_endless_of_stat (by simp [hstat]) hread

/-- A file may be as long as its bytes say on both sides. -/
theorem size_eq (hplace : reach.looked place)
    (hsame : SameText fs fs' (base.down place) (base'.down place)) {e e' : Entry}
    (hlook : fs.look (base.down place) = .ok e) (hlook' : fs'.look (base'.down place) = .ok e') :
    e.size = e'.size := by
  have he := (h.look hplace).eq_of_ok hlook hlook'
  cases he.sameKind with
  | file => rw [hsame _ _ (look_eq_ok.mp hlook).2 (look_eq_ok.mp hlook').2]
  | link | directory | special => rfl

/-- Whether there is a link is said of the same places that are found below a directory. -/
theorem isSilent_iff {rest : Location} {e found : Entry} (hplace : reach.entered place)
    (hstat : fs.stat (base.down place) = .ok e) (hfound : e.find? rest = some found) :
    fs.IsSilent (base.down (place ++ rest)) ↔ fs'.IsSilent (base'.down (place ++ rest)) := by
  rw [IsSilent, IsSilent, h.overlong place rest e found hplace hstat hfound, h.forbidden]

end FileSystem.Counterparts

/-! ## The inventory -/

namespace Inventory

theorem scope_below (h : Counterparts fs fs' base base' reach) (ignored : List String) :
    Scope.below fs ignored base = Scope.below fs' ignored base' := by
  rw [Scope.below, Scope.below]
  congr 1
  funext here
  rw [Path.join_eq_down, Path.join_eq_down]
  exact h.denied here

/-- Which files are told, and not in which order, decides what is listed. -/
theorem sorted_eraseDups {files files' : List String} (h : files.Perm files') :
    Text.sorted files.eraseDups = Text.sorted files'.eraseDups := by
  refine Text.sorted_eq_of_perm ((List.perm_ext_iff_of_nodup (nodup_eraseDups _)
    (nodup_eraseDups _)).mpr fun path ↦ ?_)
  rw [List.mem_eraseDups, List.mem_eraseDups, h.mem_iff]

theorem take_together (h : Counterparts fs fs' base base' reach) (hself : reach.looked [])
    (ignored : List String) : Together Eq (take fs ignored base) (take fs' ignored base') := by
  refine (h.ensureReadable hself).bind_of_ok ?_
  rintro ⟨⟩ ⟨⟩ hreadable - -
  obtain ⟨-, entries, hscan⟩ := FileSystem.ensureReadable_eq_ok.mp hreadable
  have hstat : fs.stat (base.down []) = .ok (.directory entries) := by
    rw [Path.down_nil]
    exact FileSystem.stat_of_scan hscan
  have hscans := h.scan hself
  rw [Path.down_nil, Path.down_nil] at hscans
  obtain ⟨entries', hscan', hentries⟩ := hscans.exists_ok hscan
  have hlinks (place : Location) (target : String)
      (hfound : (Entry.directory entries).find? place = some (.link target)) :
      fs.isDirectory (base.join ⟨"", [] ++ place⟩) =
        fs'.isDirectory (base'.join ⟨"", [] ++ place⟩) := by
    rw [Path.join_eq_down, Path.join_eq_down]
    exact h.isDirectory_eq (h.looked_of_find? (h.enter [] entries hself hstat) hstat hfound)
  have hfiles : (filesBelow (Scope.below fs' ignored base') maxDepth [] entries).Perm
      (filesBelow (Scope.below fs' ignored base') maxDepth [] entries') := filesBelow_perm hentries
  have hasked : (askedBelow (Scope.below fs ignored base)
        (fun here ↦ fs.isDirectory (base.join ⟨"", here⟩)) maxDepth [] entries).Perm
      (askedBelow (Scope.below fs ignored base)
        (fun here ↦ fs'.isDirectory (base'.join ⟨"", here⟩)) maxDepth [] entries') :=
    askedBelow_perm _ hentries hlinks
  rw [hscan, hscan']
  simp only [Except.toOption, Option.getD_some]
  refine (Together.of_fails_iff ?_).bind fun _ _ _ ↦ .pure ?_
  · rw [fails_forM, fails_forM, ← scope_below h]
    simp only [← hasked.mem_iff, FileSystem.fails_askLink]
    refine exists_congr fun here ↦ and_congr_right fun hhere ↦ ?_
    have hdistinct := FileSystem.named_of_stat h.sound.distinct hstat
    obtain ⟨e, hfound, -⟩ := ((mem_askedBelow_iff hdistinct).mp hhere).found
    rw [Path.join_eq_down, Path.join_eq_down]
    exact h.isSilent_iff (h.enter [] entries hself hstat) hstat hfound
  rw [scope_below h, deniedBelow_congr hentries, hfiles.length_eq, sorted_eraseDups hfiles,
    linksBelow_congr (fun here ↦ fs'.isDirectory (base'.join ⟨"", here⟩)) hentries hlinks]

end Inventory

/-! ## Outlines -/

namespace Outline

theorem outlineOf_together (h : Counterparts fs fs' base base' reach) {parse : Parser}
    {language : Language} {shown : String} (hplace : reach.looked place)
    (hsame : SameText fs fs' (base.down place) (base'.down place)) :
    Together Eq (outlineOf fs parse language shown (base.down place))
      (outlineOf fs' parse language shown (base'.down place)) := by
  rw [outlineOf, outlineOf, h.readText_eq hplace hsame]
  rcases (h.look hplace).outcomes with ⟨e, _, hlook, hlook', rfl⟩ | ⟨e, e', hlook, hlook', -⟩
  · rw [hlook, hlook']
    exact .ok rfl
  · rw [hlook, hlook']
    dsimp only
    rw [h.size_eq hplace hsame hlook hlook']
    refine .ite .rfl (fun _ ↦ .ok rfl) fun _ ↦ ?_
    cases fs'.readText (base'.down place) with
    | error e =>
        cases e with
        | refused | undecodable => exact .ok rfl
        | endless => exact .error trivial
    | ok source => exact .ite .rfl (fun _ ↦ .error trivial) fun _ ↦ .ok rfl

theorem outlineAt_together (h : Counterparts fs fs' base base' reach) {parse : Parser}
    (habsolute : base.isAbsolute = true) (habsolute' : base'.isAbsolute = true)
    (hname : base.name = base'.name) (hplace : reach.looked place)
    (hsame : SameText fs fs' (base.down place) (base'.down place)) :
    Together Eq (outlineAt fs parse base (base.down place))
      (outlineAt fs' parse base' (base'.down place)) := by
  have hjoin {p : Path} (hp : p.isAbsolute = true) : p.join (p.down place) = p.down place :=
    if_pos hp
  have hreported {p : Path} (hp : p.isAbsolute = true) :
      reportedPath p (p.down place) = .ok (Path.relativeText place) :=
    reportedPath_below hp place
  unfold outlineAt
  rw [Path.name_down hname place]
  cases Language.ofPath? (base'.down place).name with
  | none => exact .ok rfl
  | some language =>
      rw [hreported habsolute, hreported habsolute', hjoin habsolute, hjoin habsolute']
      refine Agree.ite ?_ (fun _ ↦ .error trivial) fun _ ↦ ?_
      · rw [← Bool.not_eq_false, ← Bool.not_eq_false]
        exact not_congr (h.isClean_iff place)
      · exact outlineOf_together h hplace hsame

theorem collect_together (h : Counterparts fs fs' base base' reach) {parse : Parser}
    (habsolute : base.isAbsolute = true) (habsolute' : base'.isAbsolute = true)
    (hname : base.name = base'.name) {paths : List String}
    (hpaths : fs.SameFiles fs' base base' reach paths) :
    Together Eq (collect fs parse base paths) (collect fs' parse base' paths) := by
  refine (Together.mapM (r := Eq) (List.forall₂_same.mpr fun path hpath ↦ ?_)).bind ?_
  · obtain ⟨place, hplain, rfl, hfile⟩ := hpaths path hpath
    rw [Path.ofText_relativeText hplain, Path.join_eq_down, Path.join_eq_down]
    exact outlineAt_together h habsolute habsolute' hname hfile.looked hfile.text
  · rintro outcomes outcomes' heq
    obtain rfl := List.forall₂_eq_eq_eq ▸ heq
    exact .pure rfl

end Outline

/-! ## The directory tree -/

namespace DirectoryTree

theorem build_congr (h : Counterparts fs fs' base base' reach) (hself : reach.looked [])
    (style : Style) (paths : List String) (levels : Nat) :
    build fs style paths base levels = build fs' style paths base' levels := by
  have hscope : Scope.below fs style (significant paths) base =
      Scope.below fs' style (significant paths) base' := by
    rw [Scope.below, Scope.below]
    congr 1
    funext here
    rw [Path.join_eq_down, Path.join_eq_down]
    exact h.denied here
  have hscan := h.scan hself
  rw [Path.down_nil, Path.down_nil] at hscan
  rw [build, build]
  split
  · rfl
  · rcases hscan.outcomes with ⟨e, _, hscan, hscan', rfl⟩ | ⟨entries, entries', hscan, hscan', he⟩
    · rw [hscan, hscan']
    · rw [hscan, hscan']
      dsimp only
      rw [hscope, nodes_congr he, unreadable_congr he]

/-- What is shown of two roots of one name is the same. -/
theorem fitting_together (h : Counterparts fs fs' base base' reach) (hself : reach.looked [])
    (htitle : Together Eq (titleOf fs base) (titleOf fs' base')) (style : Style)
    (paths : List String) (budget : Int) :
    Together Eq (fitting fs style paths base budget) (fitting fs' style paths base' budget) := by
  rw [fitting, fitting]
  refine htitle.bind ?_
  rintro title _ rfl
  simp only [build_congr h hself]
  exact .pure rfl

end DirectoryTree

end Dossier

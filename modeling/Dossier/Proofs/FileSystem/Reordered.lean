import Dossier.Proofs.FileSystem.Counterparts
import Dossier.Proofs.FileSystem.Kinds

/-!
# File systems of one shape

Two file systems of one shape look paths up alike: they follow the same links to the same places and
refuse the same paths. So every path is a counterpart of itself.
-/

namespace Dossier

namespace Entry

theorem SameKind.kind_eq {asked : ByteArray → ByteArray → Prop} {e e' : Entry}
    (h : SameKind asked e e') : e.kind = e'.kind := by
  cases h <;> rfl

end Entry

namespace FileSystem

open Entry (SameShape)
open Steps

variable {fs fs' : FileSystem}

/-- Every place below a path is asked about. -/
def Reach.everywhere : Reach where
  looked place := ∀ name ∈ place, PlainName name
  entered place := ∀ name ∈ place, PlainName name
  named := PlainName

/-- Two file systems of one shape, with bytes as asked for the place, where the same is refused. -/
structure Corresponds (asked : Location → ByteArray → ByteArray → Prop) (fs fs' : FileSystem) :
    Prop where
  top : Entry.Corresponds asked fs.top fs'.top
  denied : ∀ p, p ∈ fs.denied ↔ p ∈ fs'.denied
  forbidden : ∀ access p, fs.forbidden access p = fs'.forbidden access p

namespace Corresponds

variable {asked : Location → ByteArray → ByteArray → Prop} (h : Corresponds asked fs fs')
include h

theorem kind?_eq (location : Location) : fs.kind? location = fs'.kind? location := by
  have hplace := h.top location
  rw [kind?, kind?, at?, at?]
  revert hplace
  generalize fs.top.find? location = found, fs'.top.find? location = found'
  rintro (hkind | _)
  · exact congrArg some hkind.kind_eq
  · rfl

theorem locate_eq (p : Path) : fs.locate p = fs'.locate p :=
  locateAs_congr h.kind?_eq .follow p

/-- Every path leads to things of one kind, with bytes as asked for the place that it leads to. -/
theorem stat_agree (p : Path) : Agree Eq (fun e e' ↦ ∃ location, fs.locate p = .ok location ∧
    Entry.Corresponds (fun rest ↦ asked (location ++ rest)) e e') (fs.stat p) (fs'.stat p) := by
  rw [stat, stat, ← h.locate_eq p]
  cases hlocate : fs.locate p with
  | error e => exact .error rfl
  | ok location =>
      have hplace := h.top.find? location
      simp only [bind, Except.bind, at?]
      revert hplace
      generalize fs.top.find? location = found, fs'.top.find? location = found'
      rintro (he | _)
      · exact .ok ⟨location, rfl, he⟩
      · exact .error rfl

theorem look_eq_error_iff (p : Path) (e : FileError) :
    fs.look p = .error e ↔ fs'.look p = .error e := by
  rw [look, look, h.forbidden .follow p]
  split
  · rfl
  · rcases (h.stat_agree p).outcomes with ⟨e, _, hstat, hstat', rfl⟩ | ⟨e, e', hstat, hstat', -⟩
    · rw [hstat, hstat']
    · simp [hstat, hstat']

theorem resolve_eq (p : Path) : fs.resolve p = fs'.resolve p := by
  rw [resolve, resolve, resolveFrom_congr h.kind?_eq (h.forbidden .stay)]
  split
  · rfl
  · cases fs'.resolveFrom maxNestedLinks [] [] p.parts with
    | ok location => rfl
    | error obstacle =>
        cases obstacle with
        | depth => rfl
        | circle left =>
            dsimp only
            have hloop := h.look_eq_error_iff ⟨"/", Path.cancelDots (left.filter (· != "."))⟩ .loop
            split
            next hlook => rw [hloop.mp hlook]
            next hlook =>
              split
              next hlook' => exact absurd (hloop.mpr hlook') hlook
              next => rfl

/-- Two files at one path have the same bytes if what is asked of the bytes says so. -/
theorem sameText {p : Path} (hsame : ∀ location, fs.locate p = .ok location →
    fs.kind? location = some .file → ∀ b b', asked location b b' → b = b') : SameText fs fs' p p := by
  intro bytes bytes' hstat hstat'
  obtain ⟨location, hlocate, he⟩ := (h.stat_agree p).eq_of_ok hstat hstat'
  have hfile : fs.kind? location = some .file := by
    rw [kind?, at?_of_locate hlocate hstat]
    rfl
  cases he.sameKind with
  | file hasked => exact hsame location hlocate hfile _ _ (by simpa using hasked)

theorem counterparts (hfs : fs.IsSound) (p : Path) : Counterparts fs fs' p p .everywhere where
  sound := hfs
  stat place _ := (h.stat_agree _).mono (fun _ _ he ↦ he) fun _ _ ⟨_, _, he⟩ ↦ he.sameShape
  denied place := by
    rw [Bool.eq_iff_iff, List.contains_iff_mem, List.contains_iff_mem]
    exact h.denied _
  forbidden access place := h.forbidden access _
  clean := .rfl
  proper name hname := hname.toPlainName
  self place hplace := hplace
  child _ _ hplace hname := List.forall_mem_append.mpr ⟨hplace, List.forall_mem_singleton.mpr hname⟩
  enter place entries hplace _ := hplace
  below place rest e inner hplace hstat hinner :=
    List.forall_mem_append.mpr ⟨hplace, (hfs.wellFormed.of_stat hstat).plainName_of_find? hinner⟩
  overlong _ _ _ _ _ _ _ := rfl

end Corresponds

/-- Two file systems that differ only in the order in which their directories list what they hold. -/
abbrev Reordered : FileSystem → FileSystem → Prop :=
  Corresponds fun _ bytes bytes' ↦ bytes = bytes'

end FileSystem

end Dossier

import Dossier.Proofs.Profile.Manifest
import Dossier.Settings

/-!
# Settings that end a run

A field with an unusable value keeps its default, and whether a value is usable does not depend on the
other fields. What ends a run is a file that cannot be looked up, a value that does not exist, or an
unusable value that no warning can show.
-/

namespace Dossier.Settings

open Data (Datum)
open FileSystem (fails_leadsToFile sparesRoot_leadsTo)
open Profile (IsFatal)
open Steps

variable {yaml : Data.Reader} {fs : FileSystem} {root : Path} {file : String} {entries : List (Datum × Datum)}

/-! ## Fields -/

theorem set?_isNone (settings settings' : Settings) (field : Field) (value : Datum) :
    (settings.set? field value).isNone = (settings'.set? field value).isNone := by
  cases field <;> simp [set?, Option.isNone_map]

/-- A value stands under the key of a field that is neither usable nor can be shown. -/
def FieldHazard (entries : List (Datum × Datum)) (field : Field) : Prop :=
  ∃ value, Datum.lookup field.key entries = some value ∧
    (({} : Settings).set? field value).isNone = true ∧ value.isShowable = false

theorem fails_take {state : Settings × List String} {field : Field} :
    Fails (take file entries state field) ↔ FieldHazard entries field := by
  rw [take, FieldHazard]
  cases Datum.lookup field.key entries with
  | none => simp
  | some value =>
      simp only [Option.some.injEq, exists_eq_left']
      rw [set?_isNone {} state.1]
      cases state.1.set? field value with
      | some settings => simp
      | none => cases h : value.hidden? <;> simp [Datum.isShowable, h]

theorem fails_ofEntries :
    Fails (ofEntries file entries) ↔ ∃ field ∈ Field.all, FieldHazard entries field := by
  refine fails_foldlM (fun _ ↦ True) ?_ ?_ trivial
  · intro field _ state _ state' _
    trivial
  · intro field _ state _
    exact fails_take

theorem sparesRoot_take (state : Settings × List String) (field : Field) :
    SparesRoot (take file entries state field) := by
  unfold take
  split
  · simp
  · split
    · simp
    · split
      · simp
      · next hindrance _ => cases hindrance <;> simp [Datum.Hindrance.failure, Failure.isAboutRoot]

/-! ## Files -/

/-- The text of a settings file ends the run. -/
def FileHazard (yaml : Data.Reader) (fs : FileSystem) (p : Path) : Prop :=
  ∃ s, fs.readText p = .ok s ∧ (IsFatal (yaml s) ∨
    ∃ entries, yaml s = .ok (.map entries) ∧
      ∃ field ∈ Field.all, FieldHazard (relevant entries) field)

theorem fails_inFile : Fails (inFile yaml fs root file) ↔ FileHazard yaml fs (root.child file) := by
  rw [inFile, FileHazard]
  cases fs.readText (root.child file) with
  | error e => simp
  | ok s =>
      simp only [Except.ok.injEq, exists_eq_left', IsFatal]
      cases yaml s with
      | error fault =>
          cases fault with
          | malformed reason => simp
          | fatal f notRoot => simp [notRoot]
      | ok d =>
          cases d with
          | map entries => simp [fails_ofEntries]
          | _ => simp

/-- The settings of the project at a root end the run: the system refuses to look up one of the names
of a settings file before one is found, or the file that is found ends it. -/
def LoadHazard (yaml : Data.Reader) (fs : FileSystem) (root : Path) : Prop :=
  FailsFirst (fun file ↦ fs.leadsToFile (root.child file)) fileNames ∨
    ∃ file, fileNames.findM? (fun file ↦ fs.leadsToFile (root.child file)) = .ok (some file) ∧
      FileHazard yaml fs (root.child file)

theorem fails_load : Fails (load yaml fs root) ↔ LoadHazard yaml fs root := by
  rw [load, fails_bind, fails_findM?, LoadHazard]
  refine or_congr_right ⟨?_, fun ⟨file, hfound, h⟩ ↦ ⟨some file, hfound, fails_inFile.mpr h⟩⟩
  rintro ⟨found, hfound, h⟩
  cases found with
  | none => simp at h
  | some file => exact ⟨file, hfound, fails_inFile.mp h⟩

theorem sparesRoot_inFile : SparesRoot (inFile yaml fs root file) := by
  unfold inFile
  dsimp only
  split
  · simp
  · split
    case h_2 f notRoot _ => simpa using notRoot
    case h_4 entries _ => exact .foldlM sparesRoot_take Field.all _
    all_goals simp

theorem sparesRoot_load : SparesRoot (load yaml fs root) := by
  refine (SparesRoot.findM? (fun _ ↦ sparesRoot_leadsTo) fileNames).bind fun found ↦ ?_
  cases found with
  | none => simp
  | some file => exact sparesRoot_inFile

/-- A project without a settings file has the default settings. -/
theorem load_default (h : ∀ file ∈ fileNames, fs.look (root.child file) = .error .missing) :
    load yaml fs root = .ok ({}, []) := by
  have hfound : fileNames.findM? (fun file ↦ fs.leadsToFile (root.child file)) = .ok none :=
    findM?_eq_ok_none fun file hfile ↦
      FileSystem.leadsTo_of_missing (h file hfile) Entry.isFile
  rw [load, hfound]
  rfl

end Dossier.Settings

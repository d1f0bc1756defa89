import Dossier.FileSystem.Probe
import Dossier.Proofs.Failure
import Dossier.Proofs.Path.Names

/-!
# When a path may not be asked about

Asking what a path leads to fails in two cases only: the program has no permission to look the path up,
or the system refuses to, because the path or a name on the way is too long.
-/

namespace Dossier.FileSystem

open Steps (Fails bind_eq_ok fails_bind pure_eq_ok)

variable {fs : FileSystem} {p : Path}

/-- A path or a name on its way is too long for the system. -/
def IsTooLong (fs : FileSystem) (p : Path) : Prop :=
  p.IsClean ∧ fs.stat p = .error .nameTooLong

/-- A path may not be looked up. -/
def Refuses (fs : FileSystem) (p : Path) : Prop :=
  fs.forbidden .follow p = true ∨ fs.IsTooLong p

theorem fails_seek : Fails (fs.seek p) ↔ fs.IsTooLong p := by
  rw [seek, IsTooLong, Path.IsClean]
  cases p.parts.any (·.toList.contains '\x00') with
  | true => simp
  | false =>
      cases fs.stat p with
      | ok e => simp
      | error e => cases e <;> simp

theorem fails_probe : Fails (fs.probe p) ↔ fs.Refuses p := by
  rw [probe, Refuses, ← fails_seek]
  cases fs.forbidden .follow p <;> simp

theorem fails_sought : Fails (fs.sought p) ↔ fs.IsTooLong p := by
  rw [← fails_seek, sought]
  cases fs.seek p <;> simp

/-- A look-up that is refused tells the path. -/
theorem probed_eq (fs : FileSystem) (p : Path) :
    fs.probed p = (fs.probe p).mapError (.refused · p) := by
  rw [probed, probe, sought]
  split
  · rfl
  · cases fs.seek p <;> rfl

theorem probed_eq_ok {found : Option Entry} : fs.probed p = .ok found ↔ fs.probe p = .ok found := by
  rw [probed_eq]
  cases fs.probe p <;> simp [Except.mapError]

theorem fails_probed : Fails (fs.probed p) ↔ fs.Refuses p := by
  rw [← fails_probe, probed_eq]
  cases fs.probe p <;> simp [Except.mapError]

theorem fails_leadsTo {asked : Entry → Bool} : Fails (fs.leadsTo asked p) ↔ fs.Refuses p := by
  rw [leadsTo, fails_bind, fails_probed]
  simp

theorem fails_leadsAnywhere : Fails (fs.leadsAnywhere p) ↔ fs.Refuses p :=
  fails_leadsTo

theorem fails_leadsToFile : Fails (fs.leadsToFile p) ↔ fs.Refuses p :=
  fails_leadsTo

theorem fails_leadsToDirectory : Fails (fs.leadsToDirectory p) ↔ fs.Refuses p :=
  fails_leadsTo

theorem sparesRoot_sought : SparesRoot (fs.sought p) := by
  rw [sought]
  cases fs.seek p <;> simp [Failure.isAboutRoot]

theorem sparesRoot_probed : SparesRoot (fs.probed p) := by
  rw [probed_eq]
  cases fs.probe p <;> simp [Except.mapError, Failure.isAboutRoot]

theorem sparesRoot_leadsTo {asked : Entry → Bool} : SparesRoot (fs.leadsTo asked p) :=
  sparesRoot_probed.bind fun found ↦ sparesRoot_pure (found.any asked)

theorem sparesRoot_askLink : SparesRoot (fs.askLink p) := by
  rw [askLink]
  split <;> simp [Failure.isAboutRoot]

/-! ## Answers -/

theorem look_of_permitted (h : fs.forbidden .follow p = false) : fs.look p = fs.stat p :=
  if_neg (ne_true_of_eq_false h)

theorem look_eq_ok {e : Entry} :
    fs.look p = .ok e ↔ fs.forbidden .follow p = false ∧ fs.stat p = .ok e := by
  rw [look]
  cases fs.forbidden .follow p <;> simp

theorem seek_of_stat_error {e : FileError} (h : fs.stat p = .error e) (he : e ≠ .nameTooLong) :
    fs.seek p = .ok none := by
  rw [seek, h]
  split
  · rfl
  · cases e <;> simp_all

theorem seek_of_stat {e : Entry} (hclean : p.IsClean) (h : fs.stat p = .ok e) :
    fs.seek p = .ok (some e) := by
  rw [seek, if_neg (ne_true_of_eq_false hclean), h]

theorem probe_of_stat {e : Entry} (hpermitted : fs.forbidden .follow p = false) (hclean : p.IsClean)
    (h : fs.stat p = .ok e) : fs.probe p = .ok (some e) := by
  rw [probe, if_neg (ne_true_of_eq_false hpermitted), seek_of_stat hclean h]

theorem stat_of_seek {e : Entry} (h : fs.seek p = .ok (some e)) : fs.stat p = .ok e := by
  rw [seek] at h
  split at h
  · simp at h
  · cases hstat : fs.stat p with
    | ok found => simpa [hstat] using h
    | error refusal => cases refusal <;> simp [hstat] at h

theorem look_of_probe {e : Entry} (h : fs.probe p = .ok (some e)) : fs.look p = .ok e := by
  rw [probe] at h
  split at h
  next => cases h
  next hpermitted => exact look_eq_ok.mpr ⟨eq_false_of_ne_true hpermitted, stat_of_seek h⟩

theorem stat_of_probe {e : Entry} (h : fs.probe p = .ok (some e)) : fs.stat p = .ok e :=
  (look_eq_ok.mp (look_of_probe h)).2

theorem leadsTo_of_seek {found : Option Entry} (hpermitted : fs.forbidden .follow p = false)
    (h : fs.seek p = .ok found) (asked : Entry → Bool) :
    fs.leadsTo asked p = .ok (found.any asked) := by
  rw [leadsTo, probed, if_neg (ne_true_of_eq_false hpermitted), sought, h]
  rfl

theorem look_eq_missing :
    fs.look p = .error .missing ↔ fs.forbidden .follow p = false ∧ fs.stat p = .error .missing := by
  rw [look]
  cases fs.forbidden .follow p <;> simp

theorem leadsTo_of_missing (h : fs.look p = .error .missing) (asked : Entry → Bool) :
    fs.leadsTo asked p = .ok false := by
  obtain ⟨hpermitted, hstat⟩ := look_eq_missing.mp h
  exact leadsTo_of_seek hpermitted (seek_of_stat_error hstat (by decide)) asked

theorem leadsTo_of_look {e : Entry} (hclean : p.IsClean) (h : fs.look p = .ok e)
    (asked : Entry → Bool) : fs.leadsTo asked p = .ok (asked e) := by
  obtain ⟨hpermitted, hstat⟩ := look_eq_ok.mp h
  exact leadsTo_of_seek hpermitted (seek_of_stat hclean hstat) asked

theorem exists_look_of_leadsTo {asked : Entry → Bool} (h : fs.leadsTo asked p = .ok true) :
    ∃ e, fs.look p = .ok e ∧ asked e = true := by
  obtain ⟨found, hprobed, h⟩ := bind_eq_ok.mp h
  obtain ⟨e, rfl, hasked⟩ := (Option.any_eq_true asked found).mp (pure_eq_ok.mp h)
  exact ⟨e, look_of_probe (probed_eq_ok.mp hprobed), hasked⟩

theorem exists_stat_of_leadsTo {asked : Entry → Bool} (h : fs.leadsTo asked p = .ok true) :
    ∃ e, fs.stat p = .ok e ∧ asked e = true := by
  obtain ⟨e, hlook, hasked⟩ := exists_look_of_leadsTo h
  exact ⟨e, (look_eq_ok.mp hlook).2, hasked⟩

theorem not_refuses_of_missing (h : fs.look p = .error .missing) : ¬ fs.Refuses p := by
  obtain ⟨hpermitted, hstat⟩ := look_eq_missing.mp h
  rintro (hforbidden | ⟨-, hlong⟩)
  · rw [hpermitted] at hforbidden
    exact Bool.noConfusion hforbidden
  · simp [hstat] at hlong

/-! ## Links -/

/-- The system does not say whether what stands at a path is a link. -/
def IsSilent (fs : FileSystem) (p : Path) : Prop :=
  isOverlong p = true ∨ fs.forbidden .stay p = true

theorem fails_askLink : Fails (fs.askLink p) ↔ fs.IsSilent p := by
  rw [askLink, silence?, IsSilent]
  cases isOverlong p <;> cases fs.forbidden .stay p <;> simp

/-! ## Contents -/

theorem readBytes_of_stat {bytes : ByteArray} (hpermitted : fs.forbidden .read p = false)
    (h : fs.stat p = .ok (.file bytes)) : fs.readBytes p = .ok bytes := by
  rw [readBytes, if_neg (ne_true_of_eq_false hpermitted), h]

theorem readText_ne_endless_of_stat (h : fs.stat p ≠ .ok (.special none)) :
    fs.readText p ≠ .error .endless := by
  rw [readText, readBytes]
  grind

theorem decode_toUTF8 (s : String) : Text.Utf8.decode s.toUTF8 = .ok s := by
  rw [Text.Utf8.decode, String.fromUTF8?, String.toUTF8_eq_toByteArray, dif_pos s.isValidUTF8]
  rfl

/-- A file that holds a text is read as that text, apart from its line breaks. -/
theorem readText_of_stat {s : String} (hpermitted : fs.forbidden .read p = false)
    (h : fs.stat p = .ok (.file s.toUTF8)) : fs.readText p = .ok (Text.unifyNewlines s) := by
  rw [readText, readBytes_of_stat hpermitted h]
  dsimp only
  rw [decode_toUTF8]

end Dossier.FileSystem

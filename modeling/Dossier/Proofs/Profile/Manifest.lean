import Dossier.Profile.Dependencies
import Dossier.Proofs.FileSystem.Probe

/-!
# Manifests that end a run

A manifest that is malformed counts as empty, but not every manifest that cannot be used is caught:
the values in it may not exist, and a TOML file has to be UTF-8. Each reader fails exactly if it
meets one of the hazards named here.
-/

namespace Dossier.Profile

open Data (Datum Fault)
open FileSystem (fails_leadsToFile fails_leadsAnywhere fails_leadsToDirectory
  sparesRoot_leadsTo)
open Steps

variable {fs : FileSystem} {p dir : Path}

/-! ## Single files -/

/-- A text holds a value that does not exist. -/
def IsFatal (parsed : Except Fault Datum) : Prop :=
  ∃ f notRoot, parsed = .error (.fatal f notRoot)

theorem fails_tableOf {parsed : Except Fault Datum} : Fails (tableOf parsed) ↔ IsFatal parsed := by
  rw [tableOf.eq_def, IsFatal]
  split <;> simp_all

/-- A file that is read as text ends the run: the system refuses to look it up, or it holds a value
that does not exist. -/
def TextHazard (fs : FileSystem) (parse : Data.Reader) (p : Path) : Prop :=
  fs.Refuses p ∨ fs.leadsToFile p = .ok true ∧ ∃ s, fs.readText p = .ok s ∧ IsFatal (parse s)

/-- A TOML file ends the run also if it is not UTF-8. -/
def TomlHazard (fs : FileSystem) (p : Path) : Prop :=
  fs.Refuses p ∨ fs.leadsToFile p = .ok true ∧ ∃ bytes, fs.readBytes p = .ok bytes ∧
    ((∃ e, Text.Utf8.decode bytes = .error e) ∨
      ∃ s, Text.Utf8.decode bytes = .ok s ∧ IsFatal (Data.Toml.parse s))

theorem fails_readTable {parse : Data.Reader} :
    Fails (readTable fs parse p) ↔ TextHazard fs parse p := by
  rw [readTable, fails_bind, fails_leadsToFile, TextHazard]
  refine or_congr_right ⟨?_, ?_⟩
  · rintro ⟨there, hthere, h⟩
    cases there with
    | false => simp at h
    | true =>
        cases htext : fs.readText p with
        | error e => simp [htext] at h
        | ok s =>
            rw [htext] at h
            exact ⟨hthere, s, rfl, fails_tableOf.mp h⟩
  · rintro ⟨hthere, s, htext, hfatal⟩
    exact ⟨true, hthere, by simpa [htext] using fails_tableOf.mpr hfatal⟩

theorem fails_readToml : Fails (readToml fs p) ↔ TomlHazard fs p := by
  rw [readToml, fails_bind, fails_leadsToFile, TomlHazard]
  refine or_congr_right ⟨?_, ?_⟩
  · rintro ⟨there, hthere, h⟩
    cases there with
    | false => simp at h
    | true =>
        cases hbytes : fs.readBytes p with
        | error e => simp [hbytes] at h
        | ok bytes =>
            refine ⟨hthere, bytes, rfl, ?_⟩
            cases hdecoded : Text.Utf8.decode bytes with
            | error e => exact .inl ⟨e, rfl⟩
            | ok s =>
                simp only [hbytes, hdecoded] at h
                exact .inr ⟨s, rfl, fails_tableOf.mp h⟩
  · rintro ⟨hthere, bytes, hbytes, h⟩
    refine ⟨true, hthere, ?_⟩
    rcases h with ⟨e, hdecoded⟩ | ⟨s, hdecoded, hfatal⟩
    · simp [hbytes, hdecoded]
    · simpa [hbytes, hdecoded] using fails_tableOf.mpr hfatal

theorem fails_readPlain : Fails (readPlain fs p) ↔ fs.Refuses p := by
  rw [readPlain, fails_bind, fails_leadsToFile]
  simp

theorem readTable_of_missing {parse : Data.Reader}
    (h : fs.look p = .error .missing) : readTable fs parse p = .ok [] := by
  have hthere : fs.leadsToFile p = .ok false :=
    FileSystem.leadsTo_of_missing h Entry.isFile
  rw [readTable, hthere]
  rfl

theorem readToml_of_missing (h : fs.look p = .error .missing) : readToml fs p = .ok [] := by
  have hthere : fs.leadsToFile p = .ok false :=
    FileSystem.leadsTo_of_missing h Entry.isFile
  rw [readToml, hthere]
  rfl

/-- A TOML file that holds a text is read as that text, with all its line breaks. -/
theorem readToml_of_look {s : String} (hclean : p.IsClean) (hread : fs.forbidden .read p = false)
    (h : fs.look p = .ok (.file s.toUTF8)) : readToml fs p = tableOf (Data.Toml.parse s) := by
  have hthere : fs.leadsToFile p = .ok true := FileSystem.leadsTo_of_look hclean h Entry.isFile
  rw [readToml, hthere, FileSystem.readBytes_of_stat hread (FileSystem.look_eq_ok.mp h).2]
  simp only [bind, Except.bind]
  rw [FileSystem.decode_toUTF8]
  rfl

theorem readPlain_of_missing (h : fs.look p = .error .missing) : readPlain fs p = .ok "" := by
  have hthere : fs.leadsToFile p = .ok false :=
    FileSystem.leadsTo_of_missing h Entry.isFile
  rw [readPlain, hthere]
  rfl

theorem sparesRoot_tableOf {parsed : Except Fault Datum} : SparesRoot (tableOf parsed) := by
  rw [tableOf.eq_def]
  split <;> simp_all

theorem sparesRoot_readTable {parse : Data.Reader} :
    SparesRoot (readTable fs parse p) := by
  refine sparesRoot_leadsTo.bind fun there ↦ .ite (sparesRoot_pure _) ?_
  split
  · exact sparesRoot_tableOf
  · simp

theorem sparesRoot_readToml : SparesRoot (readToml fs p) := by
  refine sparesRoot_leadsTo.bind fun there ↦ .ite (sparesRoot_pure _) ?_
  split
  · split
    · exact sparesRoot_tableOf
    · simp [Failure.isAboutRoot]
  · simp

theorem sparesRoot_readPlain : SparesRoot (readPlain fs p) :=
  sparesRoot_leadsTo.bind fun _ ↦ sparesRoot_pure _

/-! ## Identity -/

/-- The identity that a `pyproject.toml` gives. -/
def pythonIdentity? (pyproject : Table) : Option Identity :=
  named? ((section? pyproject "project").getD []) <|>
    named? (((section? pyproject "tool").bind (section? · "poetry")).getD [])

/-- One of the manifests ends the run, and no manifest before it gives an identity. -/
def IdentityHazard (fs : FileSystem) (dir : Path) : Prop :=
  TextHazard fs Data.Json.parse (dir.child "package.json") ∨
    ∃ package, readJson fs (dir.child "package.json") = .ok package ∧ package = [] ∧
      (TomlHazard fs (dir.child "pyproject.toml") ∨
        ∃ pyproject, readToml fs (dir.child "pyproject.toml") = .ok pyproject ∧
          pythonIdentity? pyproject = none ∧
          (TomlHazard fs (dir.child "Cargo.toml") ∨
            ∃ cargo, readToml fs (dir.child "Cargo.toml") = .ok cargo ∧
              named? ((section? cargo "package").getD []) = none ∧
              (TextHazard fs Data.Json.parse (dir.child "composer.json") ∨
                ∃ composer, readJson fs (dir.child "composer.json") = .ok composer ∧
                  named? composer = none ∧ fs.Refuses (dir.child "go.mod"))))

theorem fails_readJson : Fails (readJson fs p) ↔ TextHazard fs Data.Json.parse p :=
  fails_readTable

theorem fails_identify : Fails (identify fs dir) ↔ IdentityHazard fs dir := by
  rw [identify, fails_bind, fails_readJson, IdentityHazard]
  refine or_congr_right (exists_congr fun package ↦ and_congr_right fun _ ↦ ?_)
  cases package with
  | cons entry rest => simp
  | nil =>
      simp only [List.isEmpty_nil, Bool.not_true, Bool.false_eq_true, if_false, true_and,
        fails_bind, fails_readToml]
      refine or_congr_right (exists_congr fun pyproject ↦ and_congr_right fun _ ↦ ?_)
      rw [pythonIdentity?]
      cases named? ((section? pyproject "project").getD []) with
      | some identity => simp
      | none =>
          cases named? (((section? pyproject "tool").bind (section? · "poetry")).getD []) with
          | some identity => simp
          | none =>
              have hnone : ((none : Option Identity) <|> none) = none := rfl
              simp only [hnone, true_and, fails_bind, fails_readToml]
              refine or_congr_right (exists_congr fun cargo ↦ and_congr_right fun _ ↦ ?_)
              cases named? ((section? cargo "package").getD []) with
              | some identity => simp
              | none =>
                  simp only [true_and, fails_bind, fails_readJson]
                  refine or_congr_right (exists_congr fun composer ↦ and_congr_right fun _ ↦ ?_)
                  cases named? composer with
                  | some identity => simp
                  | none =>
                      simp only [true_and, fails_bind, fails_readPlain, not_fails_pure, and_false,
                        exists_false, or_false]

theorem sparesRoot_identify : SparesRoot (identify fs dir) := by
  refine sparesRoot_readTable.bind fun package ↦ .ite (sparesRoot_pure _) ?_
  refine sparesRoot_readToml.bind fun pyproject ↦ ?_
  split
  · simp
  · dsimp only
    split
    · simp
    · refine sparesRoot_readToml.bind fun cargo ↦ ?_
      split
      · simp
      · refine sparesRoot_readTable.bind fun composer ↦ ?_
        split
        · simp
        · exact sparesRoot_readPlain.bind fun _ ↦ sparesRoot_pure _

/-! ## Markers -/

/-- The system refuses to look up one of several files before another one is found. -/
def MarkerHazard (fs : FileSystem) (dir : Path) (markers : List String) : Prop :=
  FailsFirst (fun marker ↦ fs.leadsAnywhere (dir.child marker)) markers

theorem fails_firstMarked {table : List (String × List String)} :
    Fails (firstMarked fs dir table) ↔ MarkerHazard fs dir (table.flatMap (·.2)) := by
  rw [firstMarked, fails_bind, fails_findM?, MarkerHazard]
  simp only [not_fails_pure, and_false, exists_false, or_false]
  induction table with
  | nil => simp
  | cons entry rest ih =>
      rw [failsFirst_cons, List.flatMap_cons, failsFirst_append, fails_anyM, anyM_eq_ok_false, ih]

/-- The system refuses to look up a marker of a runtime before another one is found. -/
def RuntimeHazard (fs : FileSystem) (dir : Path) : Prop :=
  MarkerHazard fs dir (runtimeMarkers.flatMap (·.2))

theorem fails_runtimeOf : Fails (runtimeOf fs dir) ↔ RuntimeHazard fs dir := by
  rw [runtimeOf, fails_bind_left, fails_firstMarked, RuntimeHazard]
  intro found _
  cases found with
  | some runtime => exact not_fails_pure _
  | none => exact not_fails_pure _

theorem sparesRoot_firstMarked {table : List (String × List String)} :
    SparesRoot (firstMarked fs dir table) := by
  have hfind : SparesRoot (table.findM? fun x ↦
      x.2.anyM fun marker ↦ fs.leadsAnywhere (dir.child marker)) :=
    .findM? (fun x ↦ .anyM (fun _ ↦ sparesRoot_leadsTo) x.2) table
  exact hfind.bind fun _ ↦ sparesRoot_pure _

theorem sparesRoot_runtimeOf : SparesRoot (runtimeOf fs dir) := by
  refine sparesRoot_firstMarked.bind fun found ↦ ?_
  cases found with
  | some runtime => simp
  | none => simp

/-! ## Frameworks and tools -/

/-- A value stands where a list is needed that cannot be gone through. -/
def NotIterable (d? : Option Datum) : Prop :=
  ∃ d, d? = some d ∧ d.isEmpty = false ∧ Fails d.elements

theorem fails_elementsOrNone {d? : Option Datum} :
    Fails (Datum.elementsOrNone d?) ↔ NotIterable d? := by
  cases d? with
  | none => simp [Datum.elementsOrNone, NotIterable]
  | some d => cases hempty : d.isEmpty <;> simp [Datum.elementsOrNone, NotIterable, hempty]

theorem sparesRoot_elementsOrNone {d? : Option Datum} :
    SparesRoot (Datum.elementsOrNone d?) := by
  unfold Datum.elementsOrNone
  split
  · simp
  · refine .ite (sparesRoot_ok []) ?_
    unfold Datum.elements
    split <;> simp [Failure.isAboutRoot]

/-- One of the files that tell what a project depends on ends the run. -/
def StackHazard (fs : FileSystem) (dir : Path) : Prop :=
  TextHazard fs Data.Json.parse (dir.child "package.json") ∨
    TomlHazard fs (dir.child "pyproject.toml") ∨
    (∃ pyproject, readToml fs (dir.child "pyproject.toml") = .ok pyproject ∧
      NotIterable (Datum.lookup "dependencies" ((section? pyproject "project").getD []))) ∨
    TomlHazard fs (dir.child "Cargo.toml") ∨ fs.Refuses (dir.child "go.mod") ∨
    FailsFirst (fun name ↦ fs.leadsToFile (dir.child name)) ["Dockerfile", "docker-compose.yml"] ∨
    fs.Refuses ((dir.child ".github").child "workflows")

theorem fails_pythonDependencies {pyproject : Table} : Fails (pythonDependencies pyproject) ↔
    NotIterable (Datum.lookup "dependencies" ((section? pyproject "project").getD [])) := by
  rw [pythonDependencies, fails_bind, fails_elementsOrNone]
  simp

theorem fails_stackOf : Fails (stackOf fs dir) ↔ StackHazard fs dir := by
  simp only [stackOf, fails_bind, not_fails_pure, and_false, exists_false, or_false,
    fails_or_exists, fails_or_exists_or]
  rw [fails_readJson, fails_readToml, fails_readToml, fails_readPlain, fails_anyM,
    fails_leadsToDirectory, StackHazard]
  simp only [fails_pythonDependencies]

theorem sparesRoot_stackOf : SparesRoot (stackOf fs dir) := by
  refine sparesRoot_readTable.bind fun package ↦ sparesRoot_readToml.bind fun pyproject ↦ ?_
  have hpython : SparesRoot (pythonDependencies pyproject) :=
    sparesRoot_elementsOrNone.bind fun _ ↦ sparesRoot_pure _
  refine hpython.bind fun python ↦ sparesRoot_readToml.bind fun cargo ↦ ?_
  refine sparesRoot_readPlain.bind fun go ↦ ?_
  refine (SparesRoot.anyM (fun _ ↦ sparesRoot_leadsTo) _).bind fun docker ↦ ?_
  exact sparesRoot_leadsTo.bind fun _ ↦ sparesRoot_pure _

end Dossier.Profile

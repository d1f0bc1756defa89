import Dossier.FileSystem.Basic
import Dossier.Proofs.Keyed
import Dossier.Proofs.Path.Names
import Dossier.Proofs.Steps

/-!
# Well-formed file systems

A system gives proper names to what its directories hold, and no name twice in one directory. Every
look-up in such a file system leads to something that is well formed again.
-/

namespace Dossier

open Steps (bind_eq_ok)

/-- Everything in a directory has a proper name, at all depths. -/
inductive Entry.WellFormed : Entry → Prop where
  | file (bytes : ByteArray) : WellFormed (.file bytes)
  | link (target : String) : WellFormed (.link target)
  | special (reading : Option (Except FileError ByteArray)) : WellFormed (.special reading)
  | directory {entries : List (String × Entry)} (names : ∀ x ∈ entries, ProperName x.1)
      (inner : ∀ x ∈ entries, WellFormed x.2) : WellFormed (.directory entries)

/-- Everything in a file system has a proper name. -/
def FileSystem.WellFormed (fs : FileSystem) : Prop :=
  fs.top.WellFormed

/-- The names in every directory are together as asked, at all depths. -/
inductive Entry.Named (asked : List String → Prop) : Entry → Prop where
  | file (bytes : ByteArray) : Named asked (.file bytes)
  | link (target : String) : Named asked (.link target)
  | special (reading : Option (Except FileError ByteArray)) : Named asked (.special reading)
  | directory {entries : List (String × Entry)} (names : asked (entries.map (·.1)))
      (inner : ∀ x ∈ entries, Named asked x.2) : Named asked (.directory entries)

/-- No directory holds two things under one name. -/
def FileSystem.Distinct (fs : FileSystem) : Prop :=
  fs.top.Named List.Nodup

namespace Entry

/-! ## Looking down -/

@[simp] theorem find?_nil (e : Entry) : e.find? [] = some e := by
  rw [find?]

theorem find?_directory_cons (entries : List (String × Entry)) (name : String) (rest : Location) :
    (directory entries).find? (name :: rest) = (entries.lookup name).bind (·.find? rest) := by
  rw [find?]
  cases entries.lookup name <;> rfl

theorem find?_append (e : Entry) (here rest : Location) :
    e.find? (here ++ rest) = (e.find? here).bind (·.find? rest) := by
  induction here generalizing e with
  | nil => simp
  | cons name here ih =>
      cases e with
      | file | link | special => simp [find?]
      | directory entries =>
          rw [List.cons_append, find?_directory_cons, find?_directory_cons, Option.bind_assoc]
          simp only [ih]

theorem find?_concat_iff {entries : List (String × Entry)} {dir : Location} {name : String}
    {e : Entry} : (directory entries).find? (dir ++ [name]) = some e ↔
      ∃ held, (directory entries).find? dir = some (.directory held) ∧
        held.lookup name = some e := by
  rw [find?_append, Option.bind_eq_some_iff]
  constructor
  · rintro ⟨found, hfound, h⟩
    cases found with
    | directory held => exact ⟨held, hfound, by simpa [find?_directory_cons] using h⟩
    | file | link | special => simp [find?] at h
  · rintro ⟨held, hheld, h⟩
    exact ⟨_, hheld, by simpa [find?_directory_cons] using h⟩

/-- What lies above a directory are directories. -/
theorem exists_directory_of_prefix {e : Entry} {dir above : Location}
    {held : List (String × Entry)} (h : e.find? dir = some (.directory held))
    (habove : above <+: dir) : ∃ inner, e.find? above = some (.directory inner) := by
  obtain ⟨rest, rfl⟩ := habove
  rw [find?_append] at h
  obtain ⟨found, hfound, h⟩ := Option.bind_eq_some_iff.mp h
  cases found with
  | directory inner => exact ⟨inner, hfound⟩
  | file | link | special => cases rest <;> simp [find?] at h

namespace Named

variable {asked : List String → Prop}

theorem names {entries : List (String × Entry)} (h : (Entry.directory entries).Named asked) :
    asked (entries.map (·.1)) := by
  cases h with
  | directory names => exact names

theorem inner {entries : List (String × Entry)} (h : (Entry.directory entries).Named asked) :
    ∀ x ∈ entries, x.2.Named asked := by
  cases h with
  | directory _ inner => exact inner

theorem of_find? {location : Location} {e found : Entry} (h : e.Named asked)
    (hfound : e.find? location = some found) : found.Named asked := by
  induction location generalizing e with
  | nil =>
      rw [Entry.find?_nil] at hfound
      obtain rfl := Option.some_inj.mp hfound
      exact h
  | cons name rest ih =>
      cases e with
      | file | link | special => simp [find?] at hfound
      | directory entries =>
          rw [find?_directory_cons] at hfound
          obtain ⟨below, hlookup, hfound⟩ := Option.bind_eq_some_iff.mp hfound
          exact ih (h.inner _ (mem_of_lookup_eq_some hlookup)) hfound

/-- If every name in a tree is as asked, so are the names on the way to what is found in it. -/
theorem of_mem_location {good : String → Prop} {location : Location} {e found : Entry}
    (h : e.Named fun names ↦ ∀ name ∈ names, good name) (hfound : e.find? location = some found) :
    ∀ name ∈ location, good name := by
  induction location generalizing e with
  | nil => simp
  | cons name rest ih =>
      cases e with
      | file | link | special => simp [find?] at hfound
      | directory entries =>
          rw [find?_directory_cons] at hfound
          obtain ⟨below, hlookup, hfound⟩ := Option.bind_eq_some_iff.mp hfound
          have hmem := mem_of_lookup_eq_some hlookup
          have hname : good name := h.names name (List.mem_map.mpr ⟨_, hmem, rfl⟩)
          exact List.forall_mem_cons.mpr ⟨hname, ih (h.inner _ hmem) hfound⟩

end Named

theorem wellFormed_iff_named {e : Entry} :
    e.WellFormed ↔ e.Named fun names ↦ ∀ name ∈ names, ProperName name := by
  constructor
  · intro h
    induction h with
    | file bytes => exact .file bytes
    | link target => exact .link target
    | special reading => exact .special reading
    | directory names _ ih => exact .directory (by simpa using names) ih
  · intro h
    induction h with
    | file bytes => exact .file bytes
    | link target => exact .link target
    | special reading => exact .special reading
    | directory names _ ih => exact .directory (by simpa using names) ih

namespace WellFormed

theorem names {entries : List (String × Entry)} (h : (Entry.directory entries).WellFormed) :
    ∀ x ∈ entries, ProperName x.1 := by
  cases h with
  | directory names => exact names

theorem inner {entries : List (String × Entry)} (h : (Entry.directory entries).WellFormed) :
    ∀ x ∈ entries, x.2.WellFormed := by
  cases h with
  | directory _ inner => exact inner

theorem of_find? {e found : Entry} {location : Location} (h : e.WellFormed)
    (hfound : e.find? location = some found) : found.WellFormed :=
  wellFormed_iff_named.mpr ((wellFormed_iff_named.mp h).of_find? hfound)

theorem properName_of_find? {e found : Entry} {location : Location} (h : e.WellFormed)
    (hfound : e.find? location = some found) : ∀ name ∈ location, ProperName name :=
  (wellFormed_iff_named.mp h).of_mem_location hfound

theorem plainName_of_find? {e found : Entry} {location : Location} (h : e.WellFormed)
    (hfound : e.find? location = some found) : ∀ name ∈ location, PlainName name :=
  fun name hname ↦ (h.properName_of_find? hfound name hname).toPlainName

end WellFormed

end Entry

namespace FileSystem

variable {fs : FileSystem} {asked : List String → Prop}

theorem at?_append (fs : FileSystem) (here rest : Location) :
    fs.at? (here ++ rest) = (fs.at? here).bind (·.find? rest) := by
  rw [at?, Entry.find?_append, ← at?]

theorem named_of_stat (h : fs.top.Named asked) {p : Path} {e : Entry} (hstat : fs.stat p = .ok e) :
    e.Named asked := by
  obtain ⟨location, -, hstat⟩ := bind_eq_ok.mp hstat
  cases hat : fs.at? location with
  | none => simp [hat] at hstat
  | some found =>
      rw [hat] at hstat
      obtain rfl := Except.ok.inj hstat
      exact h.of_find? hat

theorem stat_of_scan {p : Path} {entries : List (String × Entry)}
    (hscan : fs.scan p = .ok entries) : fs.stat p = .ok (.directory entries) := by
  rw [scan] at hscan
  split at hscan
  · simp at hscan
  · obtain ⟨e, hstat, he⟩ := bind_eq_ok.mp hscan
    cases e with
    | file | link | special => simp at he
    | directory listed =>
        obtain rfl := Except.ok.inj he
        exact hstat

theorem named_of_scan (h : fs.top.Named asked) {p : Path} {entries : List (String × Entry)}
    (hscan : fs.scan p = .ok entries) : (Entry.directory entries).Named asked :=
  named_of_stat h (stat_of_scan hscan)

/-- If every name is as asked, so is every name on a path that leads somewhere, dots apart. -/
theorem names_of_walk {good : String → Prop}
    (h : fs.top.Named fun names ↦ ∀ name ∈ names, good name) {links : Nat}
    {here rest location : Location} (hwalk : fs.walk .follow links here rest = .ok location) :
    ∀ name ∈ rest, name = "." ∨ name = ".." ∨ good name := by
  have hheld {entries : List (String × Entry)} {here : Location} {name : String} {e : Entry}
      (hat : fs.at? here = some (.directory entries)) (hlookup : entries.lookup name = some e) :
      name = "." ∨ name = ".." ∨ good name := by
    have hmem := mem_of_lookup_eq_some hlookup
    exact .inr (.inr ((h.of_find? hat).names name (List.mem_map.mpr ⟨_, hmem, rfl⟩)))
  generalize hending : Ending.follow = ending at hwalk
  fun_induction walk fs ending links here rest
  case case1 => simp
  case case2 ih => exact List.forall_mem_cons.mpr ⟨.inl rfl, ih hwalk⟩
  case case3 ih => exact List.forall_mem_cons.mpr ⟨.inr (.inl rfl), ih hwalk⟩
  case case9 hat _ _ _ _ hlookup _ _ _ ih =>
    exact List.forall_mem_cons.mpr ⟨hheld hat hlookup,
      fun name hname ↦ ih hwalk name (List.mem_append_right _ hname)⟩
  case case10 hat _ _ _ _ _ hlookup ih =>
    exact List.forall_mem_cons.mpr ⟨hheld hat hlookup, ih hwalk⟩
  -- A look-up that follows links ends nowhere else.
  all_goals simp_all

theorem names_of_stat {good : String → Prop}
    (h : fs.top.Named fun names ↦ ∀ name ∈ names, good name) {p : Path} {e : Entry}
    (hstat : fs.stat p = .ok e) : ∀ name ∈ p.parts, name = "." ∨ name = ".." ∨ good name := by
  obtain ⟨location, hlocate, -⟩ := bind_eq_ok.mp hstat
  rw [locate, locateAs] at hlocate
  split at hlocate
  · simp at hlocate
  · exact names_of_walk h hlocate
theorem WellFormed.of_stat (h : fs.WellFormed) {p : Path} {e : Entry} (hstat : fs.stat p = .ok e) :
    e.WellFormed :=
  Entry.wellFormed_iff_named.mpr (named_of_stat (Entry.wellFormed_iff_named.mp h) hstat)

theorem WellFormed.of_scan (h : fs.WellFormed) {p : Path} {entries : List (String × Entry)}
    (hscan : fs.scan p = .ok entries) : (Entry.directory entries).WellFormed :=
  Entry.wellFormed_iff_named.mpr (named_of_scan (Entry.wellFormed_iff_named.mp h) hscan)

end FileSystem

end Dossier

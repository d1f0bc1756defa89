import Dossier.FileSystem.Resolve
import Dossier.Proofs.Inventory

/-!
# Paths without links

A path with no link and no dots on the way is its own canonical form, and it leads to what lies at its
components.
-/

namespace Dossier.FileSystem

open Steps (bind_eq_ok)

variable {fs : FileSystem} {p : Path} {here rest : Location} {name : String} {e : Entry}

/-- Neither dots nor links on the way from a place along `rest`. -/
structure Clear (fs : FileSystem) (here rest : Location) : Prop where
  no_dots : ∀ name ∈ rest, name ≠ "." ∧ name ≠ ".."
  no_links : ∀ above, above <+: rest → ∀ target, fs.at? (here ++ above) ≠ some (.link target)

/-- A path with neither dots nor links on the way. -/
structure IsStraight (fs : FileSystem) (p : Path) : Prop where
  clean : p.IsClean
  clear : fs.Clear [] p.parts

namespace Clear

theorem head (h : fs.Clear here (name :: rest)) :
    name ≠ "." ∧ name ≠ ".." ∧ ∀ target, fs.at? (here ++ [name]) ≠ some (.link target) := by
  obtain ⟨hdot, hdots⟩ := h.no_dots name List.mem_cons_self
  exact ⟨hdot, hdots, h.no_links [name] ((List.prefix_cons_inj name).mpr List.nil_prefix)⟩

theorem tail (h : fs.Clear here (name :: rest)) : fs.Clear (here ++ [name]) rest := by
  refine ⟨fun n hn ↦ h.no_dots n (List.mem_cons_of_mem name hn), fun above habove ↦ ?_⟩
  rw [List.append_assoc]
  exact h.no_links (name :: above) ((List.prefix_cons_inj name).mpr habove)

theorem append {beyond : Location} (h : fs.Clear here rest) (h' : fs.Clear (here ++ rest) beyond) :
    fs.Clear here (rest ++ beyond) := by
  refine ⟨List.forall_mem_append.mpr ⟨h.no_dots, h'.no_dots⟩, fun above habove target hlink ↦ ?_⟩
  rcases List.prefix_or_prefix_of_prefix habove (List.prefix_append rest beyond) with
    habove | ⟨below, rfl⟩
  · exact h.no_links above habove target hlink
  · refine h'.no_links below ((List.prefix_append_right_inj _).mp habove) target ?_
    rwa [List.append_assoc]

/-- Nothing but a link itself is found behind a link. -/
theorem of_at? (hdots : ∀ name ∈ rest, name ≠ "." ∧ name ≠ "..")
    (hat : fs.at? (here ++ rest) = some e) (hlink : e.isLink = false) : fs.Clear here rest := by
  refine ⟨hdots, fun above ⟨below, hbelow⟩ target hfound ↦ ?_⟩
  rw [← hbelow, ← List.append_assoc, at?_append, hfound, Option.bind_some] at hat
  cases below with
  | nil =>
      obtain rfl := Option.some_inj.mp hat
      simp [Entry.isLink] at hlink
  | cons name below => simp [Entry.find?] at hat

/-- A look-up that meets no link follows the names. -/
theorem eq_append_of_walk {ending : Ending} {links : Nat} {location : Location}
    (h : fs.Clear here rest) (hwalk : fs.walk ending links here rest = .ok location) :
    location = here ++ rest := by
  induction rest generalizing here with
  | nil =>
      rw [walk] at hwalk
      simpa using (Except.ok.inj hwalk).symm
  | cons name rest ih =>
      obtain ⟨hdot, hdots, hlink⟩ := h.head
      rw [walk] at hwalk
      split at hwalk
      next entries hat =>
        rw [if_neg hdot, if_neg hdots] at hwalk
        split at hwalk
        · simp at hwalk
        · split at hwalk
          next =>
            split at hwalk
            next hend =>
              rw [hend.1]
              exact (Except.ok.inj hwalk).symm
            next => simp at hwalk
          next target hlookup =>
            refine absurd ?_ (hlink target)
            rw [at?_append, hat]
            simp [Entry.find?_directory_cons, hlookup]
          next => simpa using ih h.tail hwalk
      next => simp at hwalk
      next => simp at hwalk

/-- A look-up that meets no link goes on from what it comes to. -/
theorem walk_append {ending : Ending} {links : Nat} (h : fs.Clear here rest)
    (hshort : ∀ name ∈ rest, name.utf8ByteSize ≤ maxNameBytes)
    (hat : fs.at? (here ++ rest) = some e) (beyond : List String) :
    fs.walk ending links here (rest ++ beyond) = fs.walk ending links (here ++ rest) beyond := by
  induction rest generalizing here with
  | nil => rw [List.nil_append, List.append_nil]
  | cons name rest ih =>
      obtain ⟨hdot, hdots, hlink⟩ := h.head
      have hname := hshort name List.mem_cons_self
      have hbelow := ih h.tail (fun n hn ↦ hshort n (List.mem_cons_of_mem name hn)) (by simpa)
      rw [at?_append] at hat
      obtain ⟨found, hhere, hat⟩ := Option.bind_eq_some_iff.mp hat
      cases found with
      | file | link | special => simp [Entry.find?] at hat
      | directory entries =>
          rw [Entry.find?_directory_cons] at hat
          obtain ⟨inner, hlookup, -⟩ := Option.bind_eq_some_iff.mp hat
          rw [List.cons_append, walk, hhere]
          dsimp only
          rw [if_neg hdot, if_neg hdots, if_neg (Nat.not_lt.mpr hname), hlookup]
          cases inner with
          | file | directory | special => simpa using hbelow
          | link target =>
              refine absurd ?_ (hlink target)
              rw [at?_append, hhere]
              simp [Entry.find?_directory_cons, hlookup]

theorem walk_eq {ending : Ending} {links : Nat} (h : fs.Clear here rest)
    (hshort : ∀ name ∈ rest, name.utf8ByteSize ≤ maxNameBytes)
    (hat : fs.at? (here ++ rest) = some e) :
    fs.walk ending links here rest = .ok (here ++ rest) := by
  have hwalk : fs.walk ending links here (rest ++ []) = fs.walk ending links (here ++ rest) [] :=
    h.walk_append hshort hat []
  rwa [List.append_nil, walk] at hwalk

theorem resolveFrom_eq {depth : Nat} {busy : List Location} (h : fs.Clear here rest) :
    fs.resolveFrom depth busy here rest = .ok (here ++ rest) := by
  induction rest generalizing here with
  | nil => rw [resolveFrom, List.append_nil]
  | cons name rest ih =>
      obtain ⟨hdot, hdots, hlink⟩ := h.head
      rw [resolveFrom, if_neg hdot, if_neg hdots]
      dsimp only
      split
      next target hat => exact absurd hat (hlink target)
      next => simpa using ih h.tail

end Clear

theorem Clear.at?_of_stat (hclear : fs.Clear [] p.parts) (h : fs.stat p = .ok e) :
    fs.at? p.parts = some e := by
  obtain ⟨location, hlocate, h⟩ := bind_eq_ok.mp h
  rw [locate, locateAs] at hlocate
  split at hlocate
  · simp at hlocate
  · obtain rfl := hclear.eq_append_of_walk hlocate
    rw [List.nil_append] at h
    cases hat : fs.at? p.parts with
    | none => simp [hat] at h
    | some found =>
        rw [hat] at h
        exact congrArg some (Except.ok.inj h)

namespace IsStraight

/-- What is listed under a path without links is what the directory itself holds. -/
theorem at?_of_scan (hp : fs.IsStraight p) {entries : List (String × Entry)}
    (h : fs.scan p = .ok entries) : fs.at? p.parts = some (.directory entries) :=
  hp.clear.at?_of_stat (stat_of_scan h)

theorem stat_eq (hp : fs.IsStraight p) (hlong : isOverlong p = false)
    (hshort : ∀ name ∈ p.parts, name.utf8ByteSize ≤ maxNameBytes)
    (hat : fs.at? p.parts = some e) : fs.stat p = .ok e := by
  rw [stat, locate, locateAs, hlong, if_neg Bool.false_ne_true, hp.clear.walk_eq hshort hat]
  simp [bind, Except.bind, hat]

theorem resolve_eq (hp : fs.IsStraight p) : fs.resolve p = .ok ⟨"/", p.parts⟩ := by
  rw [resolve, if_neg (ne_true_of_eq_false hp.clean), hp.clear.resolveFrom_eq]
  rfl

section

variable {entries : List (String × Entry)} (hp : fs.IsStraight p)
  (hat : fs.at? p.parts = some (.directory entries)) (hlookup : entries.lookup name = none)
include hp hat hlookup

/-- No link is met on the way through a name that a directory does not hold. -/
theorem missing (hproper : ∀ part ∈ name :: rest, ProperName part) :
    fs.IsStraight ⟨p.root, p.parts ++ name :: rest⟩ := by
  have hnone (above : Location) : fs.at? (p.parts ++ name :: above) = none := by
    rw [at?_append, hat, Option.bind_some, Entry.find?_directory_cons, hlookup,
      Option.bind_none]
  have hclean : (Path.mk p.root (p.parts ++ name :: rest)).IsClean := by
    have hparts := hp.clean
    rw [Path.IsClean, List.any_eq_false] at hparts ⊢
    intro part hpart
    rcases List.mem_append.mp hpart with hpart | hpart
    · exact hparts part hpart
    · simpa using (hproper part hpart).no_nul
  refine ⟨hclean, hp.clear.append ⟨fun part hpart ↦ ?_, fun above habove target hlink ↦ ?_⟩⟩
  · exact ⟨(hproper part hpart).ne_dot, (hproper part hpart).ne_dots⟩
  · cases above with
    | nil => exact hp.clear.no_links p.parts List.prefix_rfl target (by simpa using hlink)
    | cons first above =>
        obtain rfl := (List.cons_prefix_cons.mp habove).1
        rw [List.nil_append, hnone above] at hlink
        simp at hlink

theorem stat_missing (hshort : ∀ part ∈ p.parts, part.utf8ByteSize ≤ maxNameBytes)
    (hproper : ProperName name) (hsize : name.utf8ByteSize ≤ maxNameBytes)
    (hlong : isOverlong ⟨p.root, p.parts ++ name :: rest⟩ = false) :
    fs.stat ⟨p.root, p.parts ++ name :: rest⟩ = .error .missing := by
  rw [stat, locate, locateAs, hlong, if_neg Bool.false_ne_true,
    hp.clear.walk_append hshort hat, List.nil_append, walk, hat]
  dsimp only
  rw [if_neg hproper.ne_dot, if_neg hproper.ne_dots, if_neg (Nat.not_lt.mpr hsize), hlookup]
  simp [bind, Except.bind]

end

end IsStraight

/-- Whatever is found at the components of a path without dots is found without a link. -/
theorem isStraight_of_at? (hclean : p.IsClean) (hdots : ∀ name ∈ p.parts, name ≠ "." ∧ name ≠ "..")
    {entries : List (String × Entry)} (hat : fs.at? p.parts = some (.directory entries)) :
    fs.IsStraight p := by
  exact ⟨hclean, .of_at? hdots hat rfl⟩

/-! ## A small project -/

/-- One file in a directory and one beside it. -/
def nestedEntries : List (String × Entry) :=
  [("a", .directory [("x", .file ⟨#[]⟩)]), ("b", .file ⟨#[]⟩)]

theorem mem_nestedEntries_places {place : Location} {e : Entry}
    (h : (Entry.directory nestedEntries).find? place = some e) :
    place ∈ [[], ["a"], ["a", "x"], ["b"]] := by
  rcases place with _ | ⟨first, rest⟩
  · simp
  rw [nestedEntries, Entry.find?_directory_cons, List.lookup_cons] at h
  split at h
  next hfirst =>
    obtain rfl := beq_iff_eq.mp hfirst
    rcases rest with _ | ⟨second, rest⟩
    · simp
    · rw [Option.bind_some, Entry.find?_directory_cons, List.lookup_cons] at h
      split at h
      next hsecond =>
        obtain rfl := beq_iff_eq.mp hsecond
        cases rest <;> simp [Entry.find?] at h ⊢
      next => simp at h
  next =>
    rw [List.lookup_cons] at h
    split at h
    next hfirst =>
      obtain rfl := beq_iff_eq.mp hfirst
      cases rest <;> simp [Entry.find?] at h ⊢
    next => simp at h

/-- A file system with one project. -/
def nested : FileSystem where
  entries := [("p", .directory nestedEntries)]

theorem nested_isStraight : nested.IsStraight ⟨"/", ["p"]⟩ :=
  isStraight_of_at? (by decide) (by decide) rfl

theorem nested_stat : nested.stat ⟨"/", ["p"]⟩ = .ok (.directory nestedEntries) :=
  nested_isStraight.stat_eq (by decide) (by decide) rfl

theorem nested_scan : nested.scan ⟨"/", ["p"]⟩ = .ok nestedEntries := by
  rw [scan, entriesOf, nested_stat]
  rfl

theorem nested_isListable : nested.IsListable ⟨"/", ["p"]⟩ :=
   ⟨⟨nestedEntries, probe_of_stat rfl (by decide) nested_stat⟩, nestedEntries, nested_scan⟩

theorem nested_wellFormed : nested.WellFormed := by
  have hnames : ProperName "p" ∧ ProperName "a" ∧ ProperName "b" ∧ ProperName "x" := by decide
  obtain ⟨hp, ha, hb, hx⟩ := hnames
  refine .directory (List.forall_mem_singleton.mpr hp) (List.forall_mem_singleton.mpr ?_)
  refine .directory (List.forall_mem_cons.mpr ⟨ha, List.forall_mem_singleton.mpr hb⟩) ?_
  refine List.forall_mem_cons.mpr ⟨?_, List.forall_mem_singleton.mpr (.file _)⟩
  exact .directory (List.forall_mem_singleton.mpr hx) (List.forall_mem_singleton.mpr (.file _))

theorem nested_distinct : nested.Distinct := by
  refine .directory (by decide) (List.forall_mem_singleton.mpr ?_)
  refine .directory (by decide) ?_
  refine List.forall_mem_cons.mpr ⟨?_, List.forall_mem_singleton.mpr (.file _)⟩
  exact .directory (by decide) (List.forall_mem_singleton.mpr (.file _))

end Dossier.FileSystem

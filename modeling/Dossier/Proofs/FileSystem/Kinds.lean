import Dossier.FileSystem.Resolve
import Dossier.Proofs.FileSystem.Probe
import Dossier.Proofs.FileSystem.WellFormed

/-!
# What a look-up asks for

A look-up asks of the places on its way only whether there is a file, a link, a directory or
none of these. So two file systems with things of one kind at every place look all paths up alike.
-/

namespace Dossier

namespace Entry

/-- What something is, without what is in it. -/
inductive Kind where
  | file
  | link (target : String)
  | directory
  | special
deriving DecidableEq

/-- The kind of an entry. -/
def kind : Entry → Kind
  | .file _ => .file
  | .link target => .link target
  | .directory _ => .directory
  | .special _ => .special

/-- A tree of files and directories. -/
def IsPlain (e : Entry) : Prop :=
  ∀ place found, e.find? place = some found → found.isFile = true ∨ found.isDirectory = true

namespace IsPlain

theorem file (bytes : ByteArray) : (Entry.file bytes).IsPlain := by
  rintro (_ | ⟨name, rest⟩) found hfound
  · obtain rfl : Entry.file bytes = found := by simpa using hfound
    exact .inl rfl
  · simp [find?] at hfound

theorem directory {entries : List (String × Entry)} (h : ∀ x ∈ entries, x.2.IsPlain) :
    (Entry.directory entries).IsPlain := by
  rintro (_ | ⟨name, rest⟩) found hfound
  · obtain rfl : Entry.directory entries = found := by simpa using hfound
    exact .inr rfl
  · rw [find?_directory_cons] at hfound
    obtain ⟨e, hlookup, hfound⟩ := Option.bind_eq_some_iff.mp hfound
    exact h _ (mem_of_lookup_eq_some hlookup) rest found hfound

theorem ne_link {e : Entry} (h : e.IsPlain) (place : Location) (target : String) :
    e.find? place ≠ some (.link target) := fun hlink ↦ by
  simpa [isFile, isDirectory] using h place _ hlink

theorem ne_special {e : Entry} (h : e.IsPlain) (place : Location)
    (reading : Option (Except FileError ByteArray)) : e.find? place ≠ some (.special reading) :=
  fun hspecial ↦ by simpa [isFile, isDirectory] using h place _ hspecial

end IsPlain

end Entry

namespace FileSystem

variable {fs fs' : FileSystem}

/-- The kind of what lies at a canonical location. -/
def kind? (fs : FileSystem) (location : Location) : Option Entry.Kind :=
  (fs.at? location).map Entry.kind

theorem at?_concat {here : Location} {entries : List (String × Entry)}
    (hat : fs.at? here = some (.directory entries)) (name : String) :
    fs.at? (here ++ [name]) = entries.lookup name := by
  rw [at?_append, hat, Option.bind_some, Entry.find?_directory_cons]
  simp

theorem kind?_of_at? {here : Location} {e : Entry} (hat : fs.at? here = some e) :
    fs.kind? here = some e.kind := by
  rw [kind?, hat]
  rfl

theorem exists_at?_of_kind? {here : Location} (h : fs.kind? here = some .directory) :
    ∃ entries, fs.at? here = some (.directory entries) := by
  obtain ⟨e, hat, he⟩ := Option.map_eq_some_iff.mp h
  cases e with
  | file | link | special => simp [Entry.kind] at he
  | directory entries => exact ⟨entries, hat⟩

/-- What lies above a directory are directories. -/
theorem kind?_above {here above : Location} (h : fs.kind? here = some .directory)
    (habove : above <+: here) : fs.kind? above = some .directory := by
  obtain ⟨entries, hat⟩ := exists_at?_of_kind? h
  obtain ⟨inner, hinner⟩ := Entry.exists_directory_of_prefix hat habove
  exact kind?_of_at? hinner

/-- Only a directory has anything below it. -/
theorem kind?_of_at?_concat {above : Location} {name : String} {e : Entry}
    (hat : fs.at? (above ++ [name]) = some e) : fs.kind? above = some .directory := by
  rw [at?_append] at hat
  obtain ⟨found, hfound, hat⟩ := Option.bind_eq_some_iff.mp hat
  cases found with
  | file | link | special => simp [Entry.find?] at hat
  | directory entries =>
      rw [kind?, hfound]
      rfl

/-- A look-up asks for kinds only. -/
theorem walk_cons (fs : FileSystem) (ending : Ending) (links : Nat) (here : Location) (name : String)
    (rest : List String) : fs.walk ending links here (name :: rest) =
      match fs.kind? here with
      | some .directory =>
        if name = "." then fs.walk ending links here rest
        else if name = ".." then fs.walk ending links here.dropLast rest
        else if maxNameBytes < name.utf8ByteSize then .error .nameTooLong
        else match fs.kind? (here ++ [name]) with
          | none => if rest = [] ∧ ending = .create then .ok (here ++ [name]) else .error .missing
          | some (.link target) =>
            if rest = [] ∧ ending = .stay then .ok (here ++ [name])
            else match links with
              | 0 => .error .loop
              | links + 1 =>
                let start := if Text.startsWith target "/" then [] else here
                fs.walk ending links start (targetParts target ++ rest)
          | some _ => fs.walk ending links (here ++ [name]) rest
      | some _ => .error .notDirectory
      | none => .error .missing := by
  rw [walk, kind?]
  cases hat : fs.at? here with
  | none => rfl
  | some e =>
      cases e with
      | file | link | special => rfl
      | directory entries =>
          simp only [Option.map_some, Entry.kind, kind?, at?_concat hat name]
          cases entries.lookup name with
          | none => rfl
          | some e => cases e <;> rfl

theorem walk_congr (h : ∀ location, fs.kind? location = fs'.kind? location) (ending : Ending)
    (links : Nat) (here : Location) (rest : List String) :
    fs.walk ending links here rest = fs'.walk ending links here rest := by
  induction links using Nat.strong_induction_on generalizing here rest with
  | _ links ihlinks =>
      induction rest generalizing here with
      | nil => rw [walk, walk]
      | cons name rest ih =>
          rw [walk_cons, walk_cons, h here, h (here ++ [name])]
          simp only [ih]
          cases links with
          | zero => rfl
          | succ links =>
              simp only [ihlinks links (Nat.lt_succ_self links)]

theorem locateAs_congr (h : ∀ location, fs.kind? location = fs'.kind? location) (ending : Ending)
    (p : Path) : fs.locateAs ending p = fs'.locateAs ending p := by
  rw [locateAs, locateAs, walk_congr h]

/-- So does the search for a canonical form. -/
theorem resolveFrom_cons (fs : FileSystem) (depth : Nat) (busy : List Location) (here : Location)
    (name : String) (rest : List String) : fs.resolveFrom depth busy here (name :: rest) =
      if name = "." then fs.resolveFrom depth busy here rest
      else if name = ".." then fs.resolveFrom depth busy here.dropLast rest
      else match fs.kind? (here ++ [name]) with
        | some (.link target) =>
          if busy.contains (here ++ [name]) then .error (.circle (here ++ [name] ++ rest))
          else if isOverlong ⟨"/", here ++ [name]⟩ || fs.forbidden .stay ⟨"/", here ++ [name]⟩ then
            fs.resolveFrom depth busy (here ++ [name]) rest
          else match depth with
            | 0 => .error .depth
            | depth + 1 =>
              let start := if Text.startsWith target "/" then [] else here
              match fs.resolveFrom depth ((here ++ [name]) :: busy) start (targetParts target) with
              | .error obstacle => .error (obstacle.before rest)
              | .ok there => fs.resolveFrom (depth + 1) busy there rest
        | _ => fs.resolveFrom depth busy (here ++ [name]) rest := by
  rw [resolveFrom]
  simp only [kind?]
  cases fs.at? (here ++ [name]) with
  | none => rfl
  | some e => cases e <;> rfl

theorem resolveFrom_congr (h : ∀ location, fs.kind? location = fs'.kind? location)
    (hstay : ∀ p, fs.forbidden .stay p = fs'.forbidden .stay p) (depth : Nat)
    (busy : List Location) (here : Location) (rest : List String) :
    fs.resolveFrom depth busy here rest = fs'.resolveFrom depth busy here rest := by
  induction depth generalizing busy here rest with
  | zero =>
      induction rest generalizing busy here with
      | nil => rw [resolveFrom, resolveFrom]
      | cons name rest ih =>
          rw [resolveFrom_cons, resolveFrom_cons, h (here ++ [name]), hstay]
          simp only [ih]
  | succ depth ihdepth =>
      induction rest generalizing busy here with
      | nil => rw [resolveFrom, resolveFrom]
      | cons name rest ih =>
          rw [resolveFrom_cons, resolveFrom_cons, h (here ++ [name]), hstay]
          simp only [ih, ihdepth]

/-! ## The end of a look-up -/

variable {here rest : Location} {location : Location} {name : String} {bytes : ByteArray}

/-- A look-up along two parts of a path is one along the first part and then, with the links that are
left, one along the second. -/
theorem exists_walk_of_append {links : Nat} {beyond : List String}
    (h : fs.walk .follow links here (rest ++ beyond) = .ok location) :
    ∃ left middle, fs.walk .follow links here rest = .ok middle ∧
      fs.walk .follow left middle beyond = .ok location := by
  -- A link puts its target in front of the names that are left, so these alone do not get fewer.
  induction links using Nat.strong_induction_on generalizing here rest with
  | _ links ihlinks =>
      induction rest generalizing here with
      | nil => exact ⟨links, here, by rw [walk], h⟩
      | cons name rest ih =>
          rw [List.cons_append, walk_cons] at h
          rw [walk_cons]
          cases hhere : fs.kind? here with
          | none => simp [hhere] at h
          | some kind =>
              rw [hhere] at h
              cases kind with
              | file | link | special => simp at h
              | directory =>
                  dsimp only at h ⊢
                  split
                  next hdot => exact ih (by rwa [if_pos hdot] at h)
                  next hdot =>
                    rw [if_neg hdot] at h
                    split
                    next hdots => exact ih (by rwa [if_pos hdots] at h)
                    next hdots =>
                      rw [if_neg hdots] at h
                      split
                      next hlong => simp [hlong] at h
                      next hlong =>
                        rw [if_neg hlong] at h
                        cases hnext : fs.kind? (here ++ [name]) with
                        | none => simp [hnext] at h
                        | some kind =>
                            rw [hnext] at h
                            cases kind with
                            | file | directory | special => exact ih h
                            | link target =>
                                simp only [reduceCtorEq, and_false, if_false] at h ⊢
                                cases links with
                                | zero => simp at h
                                | succ links =>
                                    refine ihlinks links (Nat.lt_succ_self links) ?_
                                    rwa [List.append_assoc]

theorem at?_of_locate {p : Path} {e : Entry} (hlocate : fs.locate p = .ok location)
    (hstat : fs.stat p = .ok e) : fs.at? location = some e := by
  rw [stat, hlocate] at hstat
  simp only [bind, Except.bind] at hstat
  cases hat : fs.at? location with
  | none => simp [hat] at hstat
  | some found =>
      rw [hat] at hstat
      exact congrArg some (Except.ok.inj hstat)

/-- Some link leads to a location. -/
def HasLinkTo (fs : FileSystem) (location : Location) : Prop :=
  ∃ here name target, fs.kind? (here ++ [name]) = some (.link target) ∧
    ∃ links, fs.walk .follow links here [name] = .ok location

theorem kind?_ne_link (h : fs.top.IsPlain) (target : String) :
    fs.kind? location ≠ some (.link target) := by
  intro hlink
  obtain ⟨e, hat, he⟩ := Option.map_eq_some_iff.mp hlink
  cases e with
  | file | directory | special => simp [Entry.kind] at he
  | link target => exact h.ne_link _ _ hat

/-- Among files and directories reading comes to an end. -/
theorem readText_ne_endless (h : fs.top.IsPlain) (p : Path) : fs.readText p ≠ .error .endless := by
  refine readText_ne_endless_of_stat fun hstat ↦ ?_
  obtain ⟨location, -, hat⟩ := Steps.bind_eq_ok.mp hstat
  cases hat' : fs.at? location with
  | none => simp [hat'] at hat
  | some found =>
      rw [hat'] at hat
      obtain rfl := Except.ok.inj hat
      exact h.ne_special _ _ hat'

theorem not_hasLinkTo (h : fs.top.IsPlain) : ¬ fs.HasLinkTo location := by
  rintro ⟨here, name, target, hlink, -⟩
  exact kind?_ne_link h target hlink

/-- What lies below a path is looked up from where the path leads to. -/
theorem exists_walk_of_locate {p : Path} {top place : Location} (htop : fs.locate p = .ok top)
    (h : fs.locate ⟨p.root, p.parts ++ place⟩ = .ok location) :
    ∃ left, fs.walk .follow left top place = .ok location := by
  rw [locate, locateAs] at h htop
  split at h
  · simp at h
  split at htop
  · simp at htop
  obtain ⟨left, middle, hmiddle, hwalk⟩ := exists_walk_of_append h
  obtain rfl : middle = top := Except.ok.inj (hmiddle.symm.trans htop)
  exact ⟨left, hwalk⟩

theorem isOverlong_of_child {p : Path} (h : isOverlong (p.child name) = false) :
    isOverlong p = false := by
  by_cases hempty : p.root = "" ∧ p.parts = []
  · obtain ⟨root, parts⟩ := p
    obtain ⟨rfl, rfl⟩ := hempty
    decide
  · have hsize := Path.utf8ByteSize_text_child hempty name
    simp only [isOverlong, decide_eq_false_iff_not, not_lt] at h ⊢
    omega

theorem kind?_dropLast (h : fs.kind? here = some .directory) :
    fs.kind? here.dropLast = some .directory :=
  kind?_above h (List.dropLast_prefix here)

/-- The last step of a look-up that ends at a file goes to the name, unless there is a link under the
name. -/
theorem eq_concat_or_link {links : Nat} (h : fs.walk .follow links here [name] = .ok location)
    (hfile : fs.kind? location = some .file) :
    location = here ++ [name] ∨ ∃ target, fs.kind? (here ++ [name]) = some (.link target) := by
  rw [walk_cons] at h
  cases hhere : fs.kind? here with
  | none => simp [hhere] at h
  | some kind =>
      rw [hhere] at h
      cases kind with
      | file | link | special => simp at h
      | directory =>
          dsimp only at h
          -- Dots lead to directories.
          split at h
          · rw [walk] at h
            obtain rfl := Except.ok.inj h
            simp [hhere] at hfile
          · split at h
            · rw [walk] at h
              obtain rfl := Except.ok.inj h
              simp [kind?_dropLast hhere] at hfile
            · split at h
              · simp at h
              · cases hnext : fs.kind? (here ++ [name]) with
                | none => simp [hnext] at h
                | some kind =>
                    rw [hnext] at h
                    cases kind with
                    | file | directory | special =>
                        rw [walk] at h
                        exact .inl (Except.ok.inj h).symm
                    | link target => exact .inr ⟨target, rfl⟩

/-- A path that leads somewhere leads there from where its parent leads to. -/
theorem exists_locate_of_child {p : Path} (h : fs.locate (p.child name) = .ok location) :
    ∃ above left, fs.locate p = .ok above ∧ fs.walk .follow left above [name] = .ok location := by
  rw [locate, locateAs] at h
  split at h
  · simp at h
  next hlong =>
    have hparent : isOverlong p = false := isOverlong_of_child (eq_false_of_ne_true hlong)
    obtain ⟨left, above, habove, hlast⟩ := exists_walk_of_append h
    exact ⟨above, left, by rwa [locate, locateAs, hparent, if_neg Bool.false_ne_true], hlast⟩

/-- A path that leads to a file ends in the name of the file, unless a link leads there. -/
theorem eq_concat_of_locate_child {p : Path} (h : fs.locate (p.child name) = .ok location)
    (hfile : fs.kind? location = some .file) (hlink : ¬ fs.HasLinkTo location) :
    ∃ above, fs.locate p = .ok above ∧ location = above ++ [name] := by
  obtain ⟨above, left, habove, hlast⟩ := exists_locate_of_child h
  refine ⟨above, habove, (eq_concat_or_link hlast hfile).resolve_right ?_⟩
  rintro ⟨target, htarget⟩
  exact hlink ⟨above, name, target, htarget, left, hlast⟩

end FileSystem

end Dossier

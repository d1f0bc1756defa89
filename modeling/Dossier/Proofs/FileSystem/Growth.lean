import Dossier.Proofs.FileSystem.Straight
import Dossier.Proofs.FileSystem.Writing

/-!
# File systems that grow

A write makes directories where nothing was and puts one file where nothing or a file was. All else
stays, so a path that led to some place leads there still, and the files in other places are as they
were.
-/

namespace Dossier

namespace Entry

variable {new : Entry} {location other rest : Location} {name : String}
  {entries : List (String × Entry)}

theorem find?_insert_append (hne : location ≠ []) :
    (directory (new.insert location entries)).find? (location ++ rest) = new.find? rest := by
  induction location generalizing entries with
  | nil => contradiction
  | cons name below ih =>
      cases below with
      | nil =>
          rw [insert, List.singleton_append, find?_directory_cons, Keyed.lookup_put_self,
            Option.bind_some]
      | cons next below =>
          rw [insert_cons_cons, List.cons_append, find?_directory_cons, Keyed.lookup_put_self,
            Option.bind_some]
          exact ih (List.cons_ne_nil next below)

/-- Everything above a new entry is a directory. -/
theorem exists_find?_insert (habove : other <+: location) (hne : other ≠ location) :
    ∃ held, (directory (new.insert location entries)).find? other = some (.directory held) := by
  induction other generalizing location entries with
  | nil => exact ⟨_, find?_nil _⟩
  | cons name other ih =>
      obtain ⟨below, rfl⟩ := habove
      rw [List.cons_append] at hne ⊢
      cases hbelow : other ++ below with
      | nil => simp_all
      | cons next rest =>
          rw [insert_cons_cons, find?_directory_cons, Keyed.lookup_put_self, Option.bind_some,
            ← hbelow]
          apply ih (List.prefix_append other below)
          simpa using hne

theorem find?_heldUnder (hne : rest ≠ []) :
    (directory (heldUnder name entries)).find? rest =
      (entries.lookup name).bind (·.find? rest) := by
  obtain ⟨first, rest, rfl⟩ := List.exists_cons_of_ne_nil hne
  rw [heldUnder]
  cases entries.lookup name with
  | none => simp [find?]
  | some e => cases e <;> simp [find?]

/-- Nothing is new beside a new entry. -/
theorem find?_insert_beside (hbelow : ¬ location <+: other) (habove : ¬ other <+: location) :
    (directory (new.insert location entries)).find? other = (directory entries).find? other := by
  induction location generalizing other entries with
  | nil => exact absurd List.nil_prefix hbelow
  | cons name location ih =>
      cases other with
      | nil => exact absurd List.nil_prefix habove
      | cons first other =>
          rw [find?_directory_cons, find?_directory_cons]
          by_cases hfirst : first = name
          · subst hfirst
            rw [List.prefix_cons_inj] at hbelow habove
            cases location with
            | nil => exact absurd List.nil_prefix hbelow
            | cons next location =>
                rw [insert_cons_cons, Keyed.lookup_put_self, Option.bind_some, ih hbelow habove]
                apply find?_heldUnder
                rintro rfl
                exact habove List.nil_prefix
          · cases location with
            | nil => rw [insert, Keyed.lookup_put_of_ne hfirst]
            | cons next location => rw [insert_cons_cons, Keyed.lookup_put_of_ne hfirst]

/-- An entry without contents that is no link. -/
structure IsLeaf (e : Entry) : Prop where
  not_link : e.isLink = false
  find?_eq_none : ∀ rest, rest ≠ [] → e.find? rest = none

theorem isLeaf_file (bytes : ByteArray) : (file bytes).IsLeaf := by
  refine ⟨rfl, ?_⟩
  intro rest hne
  obtain ⟨first, rest, rfl⟩ := List.exists_cons_of_ne_nil hne
  rfl

theorem isLeaf_directory : (directory []).IsLeaf := by
  refine ⟨rfl, ?_⟩
  intro rest hne
  obtain ⟨first, rest, rfl⟩ := List.exists_cons_of_ne_nil hne
  simp [find?]

end Entry

namespace FileSystem

open Steps (bind_eq_ok)

variable {fs fs' fs'' : FileSystem} {changed : Location → Prop} {here rest location : Location}
  {name : String} {new : Entry} {p : Path}

theorem at?_place_append (hne : location ≠ []) (rest : Location) :
    (fs.place location new).at? (location ++ rest) = new.find? rest :=
  Entry.find?_insert_append hne

theorem at?_place_self (hne : location ≠ []) : (fs.place location new).at? location = some new := by
  have hself : (fs.place location new).at? (location ++ []) = new.find? [] :=
    at?_place_append hne []
  simpa using hself

/-- Nothing is below what is no directory. -/
theorem at?_append_eq_none (hhere : fs.kind? here ≠ some .directory) (hne : rest ≠ []) :
    fs.at? (here ++ rest) = none := by
  obtain ⟨first, rest, rfl⟩ := List.exists_cons_of_ne_nil hne
  rw [at?_append]
  cases hat : fs.at? here with
  | none => rfl
  | some e =>
      cases e with
      | file | link | special => simp [Entry.find?]
      | directory entries => simp [kind?, hat, Entry.kind] at hhere

/-- All that putting a leaf into a directory can do to a place. -/
theorem at?_place_cases (hhere : fs.kind? here = some .directory)
    (hold : fs.kind? (here ++ [name]) ≠ some .directory)
    (hleaf : new.IsLeaf) (x : Location) :
    x = here ++ [name] ∧ (fs.place (here ++ [name]) new).at? x = some new ∨
      fs.kind? x = some .directory ∧
        (fs.place (here ++ [name]) new).kind? x = some .directory ∨
      x ≠ here ++ [name] ∧ (fs.place (here ++ [name]) new).at? x = fs.at? x := by
  have hne : here ++ [name] ≠ [] := by simp
  by_cases hx : x = here ++ [name]
  · left
    subst hx
    exact ⟨rfl, at?_place_self hne⟩
  right
  by_cases hbelow : here ++ [name] <+: x
  · right
    refine ⟨hx, ?_⟩
    obtain ⟨rest, rfl⟩ := hbelow
    have hrest : rest ≠ [] := by
      rintro rfl
      simp at hx
    rw [at?_place_append hne, hleaf.find?_eq_none rest hrest, at?_append_eq_none hold hrest]
  · by_cases habove : x <+: here ++ [name]
    · left
      refine ⟨kind?_above hhere ((List.prefix_concat_iff.mp habove).resolve_left hx), ?_⟩
      obtain ⟨held, hheld⟩ : ∃ held,
          (fs.place (here ++ [name]) new).at? x = some (.directory held) :=
        Entry.exists_find?_insert habove hx
      exact kind?_of_at? hheld
    · right
      exact ⟨hx, Entry.find?_insert_beside hbelow habove⟩

/-- A file system after directories have been made where nothing was, and files written where nothing
or a file was. Only the files in the changed places are others. -/
structure Grown (changed : Location → Prop) (fs fs' : FileSystem) : Prop where
  kept : ∀ {x kind}, fs.kind? x = some kind → fs'.kind? x = some kind
  links : ∀ {x target}, fs'.kind? x = some (.link target) → fs.kind? x = some (.link target)
  files : ∀ {x bytes}, ¬ changed x → fs.at? x = some (.file bytes) → fs'.at? x = some (.file bytes)

namespace Grown

theorem refl (fs : FileSystem) : Grown changed fs fs :=
  ⟨id, id, fun _ ↦ id⟩

theorem trans (h : Grown changed fs fs') (h' : Grown changed fs' fs'') : Grown changed fs fs'' :=
  ⟨h'.kept ∘ h.kept, h.links ∘ h'.links, fun hx ↦ h'.files hx ∘ h.files hx⟩

/-- A leaf is put where nothing was, or a file where a file was. -/
theorem place (hhere : fs.kind? here = some .directory)
    (hold : fs.kind? (here ++ [name]) = none ∨
      fs.kind? (here ++ [name]) = some .file ∧ new.kind = .file ∧ changed (here ++ [name]))
    (hleaf : new.IsLeaf) : Grown changed fs (fs.place (here ++ [name]) new) := by
  have hne : fs.kind? (here ++ [name]) ≠ some .directory := by
    rcases hold with hold | ⟨hold, -⟩ <;> simp [hold]
  have hcases := at?_place_cases hhere hne hleaf
  constructor
  · intro x kind hx
    rcases hcases x with ⟨rfl, hat⟩ | ⟨hbefore, hafter⟩ | ⟨-, hat⟩
    · rcases hold with hold | ⟨hold, hnew, -⟩
      · simp [hold] at hx
      · obtain rfl := Option.some_inj.mp (hold.symm.trans hx)
        rw [kind?, hat, Option.map_some, hnew]
    · rw [hafter, ← hbefore, hx]
    · rwa [kind?, hat]
  · intro x target hx
    rcases hcases x with ⟨rfl, hat⟩ | ⟨-, hafter⟩ | ⟨-, hat⟩
    · rw [kind?, hat, Option.map_some, Option.some_inj] at hx
      cases new with
      | file | directory | special => simp [Entry.kind] at hx
      | link => exact absurd hleaf.not_link (by simp [Entry.isLink])
    · simp [hafter] at hx
    · rwa [kind?, hat] at hx
  · intro x bytes hx hfile
    rcases hcases x with ⟨rfl, -⟩ | ⟨hbefore, -⟩ | ⟨-, hat⟩
    · rcases hold with hold | ⟨-, -, hchanged⟩
      · simp [kind?, hfile] at hold
      · exact absurd hchanged hx
    · simp [kind?, hfile, Entry.kind] at hbefore
    · rwa [hat]

/-! ## Look-ups -/

/-- A path that led somewhere leads there still. So does a path at whose end a file was to be made,
once there is one. -/
theorem walk_follow (h : Grown changed fs fs') {ending : Ending} {links : Nat}
    (hwalk : fs.walk ending links here rest = .ok location) (hending : ending ≠ .stay)
    (hthere : ending = .create → fs'.kind? location ≠ none) :
    fs'.walk .follow links here rest = .ok location := by
  fun_induction walk fs ending links here rest
  case case1 => rwa [walk]
  case case2 hat ih =>
    rw [walk_cons, h.kept (kind?_of_at? hat)]
    exact ih hwalk
  case case3 hat _ ih =>
    rw [walk_cons, h.kept (kind?_of_at? hat)]
    exact ih hwalk
  case case5 hat hdot hdots hshort hlookup hend =>
    obtain ⟨rfl, rfl⟩ := hend
    obtain rfl := Except.ok.inj hwalk
    rw [walk_cons, h.kept (kind?_of_at? hat)]
    dsimp only [Entry.kind]
    rw [if_neg hdot, if_neg hdots, if_neg hshort]
    cases hnext : fs'.kind? _ with
    | none => exact absurd hnext (hthere rfl)
    | some kind =>
        cases kind with
        | file | directory | special => exact walk.eq_1 ..
        | link target =>
            have hlink := h.links hnext
            rw [kind?, at?_concat hat, hlookup] at hlink
            contradiction
  case case9 hat hdot hdots hshort target hlookup _ links _ ih =>
    have hnext := h.kept (kind?_of_at? ((at?_concat hat _).trans hlookup))
    rw [walk_cons, h.kept (kind?_of_at? hat)]
    dsimp only [Entry.kind] at hnext ⊢
    rw [if_neg hdot, if_neg hdots, if_neg hshort, hnext]
    simp only [reduceCtorEq, and_false, if_false]
    exact ih hwalk
  case case10 hat hdot hdots hshort e he hlookup ih =>
    have hnext := h.kept (kind?_of_at? ((at?_concat hat _).trans hlookup))
    rw [walk_cons, h.kept (kind?_of_at? hat)]
    dsimp only [Entry.kind] at hnext ⊢
    rw [if_neg hdot, if_neg hdots, if_neg hshort, hnext]
    cases e with
    | file | directory | special => exact ih hwalk
    | link target => exact absurd rfl (he target)
  -- The other look-ups lead nowhere, or stay at a link.
  all_goals simp_all

theorem locate_eq (h : Grown changed fs fs') (hlocate : fs.locate p = .ok location) :
    fs'.locate p = .ok location := by
  rw [locate, locateAs] at hlocate ⊢
  split at hlocate
  · simp at hlocate
  · rw [if_neg ‹_›]
    exact h.walk_follow hlocate (by decide) (by simp)

/-- A path that led to a file in an unchanged place leads to it still. -/
theorem stat_eq (h : Grown changed fs fs') {bytes : ByteArray} (hstat : fs.stat p = .ok (.file bytes))
    (hunchanged : ∀ location, fs.locate p = .ok location → ¬ changed location) :
    fs'.stat p = .ok (.file bytes) := by
  obtain ⟨location, hlocate, -⟩ := bind_eq_ok.mp hstat
  have hat := h.files (hunchanged location hlocate) (at?_of_locate hlocate hstat)
  rw [stat, h.locate_eq hlocate]
  simp [bind, Except.bind, hat]

end Grown

/-- A way ends at what is no directory and no link. -/
theorem eq_of_walk_leaf {ending : Ending} {links : Nat} {e : Entry}
    (hkind : fs.kind? here = some e.kind) (hleaf : e.kind = .file ∨ e.kind = .special)
    (hwalk : fs.walk ending links here rest = .ok location) : location = here := by
  cases rest with
  | nil =>
      rw [walk] at hwalk
      exact (Except.ok.inj hwalk).symm
  | cons next rest =>
      rw [walk_cons, hkind] at hwalk
      rcases hleaf with hleaf | hleaf <;> simp [hleaf] at hwalk

/-- What a file is made at: a place where a directory or a device is, or one in a directory where nothing
or a file is. -/
theorem kind?_of_walk_create {links : Nat} (hwalk : fs.walk .create links here rest = .ok location)
    (hhere : fs.kind? here = some .directory) :
    fs.kind? location = some .directory ∨ fs.kind? location = some .special ∨
      ∃ above name, location = above ++ [name] ∧ fs.kind? above = some .directory ∧
        (fs.kind? location = none ∨ fs.kind? location = some .file) := by
  generalize hending : Ending.create = ending at hwalk
  fun_induction walk fs ending links here rest
  case case1 =>
    obtain rfl := Except.ok.inj hwalk
    exact .inl hhere
  case case2 ih => exact ih hhere hwalk
  case case3 ih => exact ih (kind?_dropLast hhere) hwalk
  case case5 here name _ _ hat _ _ _ hlookup _ =>
    obtain rfl := Except.ok.inj hwalk
    refine .inr (.inr ⟨here, name, rfl, hhere, .inl ?_⟩)
    rw [kind?, at?_concat hat, hlookup]
    rfl
  case case9 start ih =>
    apply ih _ hwalk
    simp only [start]
    split
    · rfl
    · exact hhere
  case case10 here name rest _ hat _ _ _ e he hlookup ih =>
    have hnext := kind?_of_at? ((at?_concat hat name).trans hlookup)
    cases e with
    | directory => exact ih hnext hwalk
    | link target => exact absurd rfl (he target)
    | file bytes =>
        obtain rfl := eq_of_walk_leaf hnext (.inl rfl) hwalk
        exact .inr (.inr ⟨here, name, rfl, hhere, .inr hnext⟩)
    | special reading =>
        obtain rfl := eq_of_walk_leaf hnext (.inr rfl) hwalk
        exact .inr (.inl hnext)
  all_goals simp_all

/-! ## Changes -/

namespace Grown

theorem of_makeDirectory (h : fs.makeDirectory p = .ok fs') : Grown changed fs fs' := by
  rw [makeDirectory] at h
  split at h
  · simp at h
  split at h
  · simp at h
  obtain ⟨parent, -, h⟩ := bind_eq_ok.mp h
  split at h
  next entries hat =>
    split at h
    · simp at h
    split at h
    · simp at h
    split at h
    · simp at h
    next hlookup =>
      obtain rfl := Except.ok.inj h
      refine place (kind?_of_at? hat) (.inl ?_) Entry.isLeaf_directory
      rw [kind?, at?_concat hat, Option.not_isSome_iff_eq_none.mp hlookup]
      rfl
  next => simp at h

/-- A directory that cannot be made changes nothing if it is there. -/
theorem eq_of_settled {failure : Failure}
    (h : (if fs.isDirectory p then .ok fs else .error failure) = Except.ok fs') : fs = fs' := by
  split at h
  · exact Except.ok.inj h
  · simp at h

theorem of_makeDirectories {root : String} {reversed : List String}
    (h : fs.makeDirectories root reversed = .ok fs') : Grown changed fs fs' := by
  induction reversed generalizing fs' with
  | nil =>
      obtain rfl := Except.ok.inj h
      exact .refl fs
  | cons name above ih =>
      rw [makeDirectories] at h
      split at h
      next made hmade =>
        obtain rfl := Except.ok.inj h
        exact of_makeDirectory hmade
      next =>
        obtain ⟨lower, hlower, h⟩ := bind_eq_ok.mp h
        split at h
        next made hagain =>
          obtain rfl := Except.ok.inj h
          exact (ih hlower).trans (of_makeDirectory hagain)
        next =>
          obtain rfl := eq_of_settled h
          exact ih hlower
      next =>
        obtain rfl := eq_of_settled h
        exact .refl _

end Grown

/-- A text that has been written is in the place its path leads to, and all else stays. -/
theorem exists_grown_of_writeText {s : String} (h : fs.writeText p s = .ok fs') :
    ∃ location, Grown (· = location) fs fs' ∧ fs'.locate p = .ok location ∧
      fs'.at? location = some (.file s.toUTF8) := by
  obtain ⟨made, hmade, h⟩ := bind_eq_ok.mp h
  cases hlocate : made.locateAs .create p with
  | error e => simp [hlocate] at h
  | ok location =>
      simp only [hlocate] at h
      split at h
      · simp at h
      · simp at h
      next hdirectory hspecial =>
        obtain rfl := Except.ok.inj h
        rw [locateAs] at hlocate
        split at hlocate
        · simp at hlocate
        next hlong =>
          rcases kind?_of_walk_create hlocate rfl with hkind | hkind | ⟨above, name, rfl, habove, hold⟩
          · obtain ⟨entries, hat⟩ := exists_at?_of_kind? hkind
            exact absurd hat (hdirectory entries)
          · obtain ⟨e, hat, he⟩ := Option.map_eq_some_iff.mp hkind
            cases e with
            | special reading => exact absurd hat (hspecial reading)
            | file | link | directory => simp [Entry.kind] at he
          have hplaced : Grown (· = above ++ [name]) made
              (made.place (above ++ [name]) (.file s.toUTF8)) :=
            .place habove (hold.imp_right fun hfile ↦ ⟨hfile, rfl, rfl⟩) (Entry.isLeaf_file _)
          have hat : (made.place (above ++ [name]) (.file s.toUTF8)).at? (above ++ [name]) =
              some (.file s.toUTF8) :=
            at?_place_self (by simp)
          refine ⟨_, (Grown.of_makeDirectories hmade).trans hplaced, ?_, hat⟩
          rw [locate, locateAs, if_neg hlong]
          apply hplaced.walk_follow hlocate (by decide)
          rw [kind?_of_at? hat]
          simp

/-! ## A new directory -/

section

variable {entries : List (String × Entry)} {last : String} (hp : fs.IsStraight p)
  (hshort : ∀ part ∈ p.parts, part.utf8ByteSize ≤ maxNameBytes)
  (hat : fs.at? p.parts = some (.directory entries)) (hlookup : entries.lookup name = none)
  (hname : ProperName name) (hsize : name.utf8ByteSize ≤ maxNameBytes)
include hp hshort hat hlookup hname hsize

theorem makeDirectory_child (hlong : isOverlong (p.child name) = false) :
    fs.makeDirectory (p.child name) = .ok (fs.place (p.parts ++ [name]) (.directory [])) := by
  have hparent : fs.locate p = .ok p.parts := by
    rw [locate, locateAs, isOverlong_of_child hlong, if_neg Bool.false_ne_true]
    exact hp.clear.walk_eq hshort hat
  have hlast : (p.child name).name = name := by simp [Path.child, Path.name]
  have habove : { p.child name with parts := (p.child name).parts.dropLast } = p := by
    simp [Path.child]
  rw [makeDirectory, hlong, if_neg Bool.false_ne_true, if_neg (by simp [Path.child]), habove,
    hparent, hlast]
  simp only [bind, Except.bind, hat, hlookup]
  rw [if_neg hname.ne_dots, if_neg (Nat.not_lt.mpr hsize)]
  rfl

/-- A file can be written in a directory that is made for it. -/
theorem exists_writeText (hlast : ProperName last) (hlastsize : last.utf8ByteSize ≤ maxNameBytes)
    (hlong : isOverlong ((p.child name).child last) = false) (s : String) :
    ∃ fs', fs.writeText ((p.child name).child last) s = .ok fs' := by
  have hmade := makeDirectory_child hp hshort hat hlookup hname hsize (isOverlong_of_child hlong)
  have hparents : fs.makeParents ((p.child name).child last) =
      .ok (fs.place (p.parts ++ [name]) (.directory [])) := by
    have hreverse : ((p.child name).child last).parts.dropLast.reverse =
        name :: p.parts.reverse := by
      simp [Path.child]
    have hpath : (⟨p.root, (name :: p.parts.reverse).reverse⟩ : Path) = p.child name := by
      simp [Path.child]
    have hroot : ((p.child name).child last).root = p.root := rfl
    rw [makeParents, hreverse, hroot, makeDirectories]
    simp only [hpath, hmade]
  have hdirectory : (fs.place (p.parts ++ [name]) (.directory [])).at? (p.parts ++ [name]) =
      some (.directory []) :=
    at?_place_self (by simp)
  have hdots : ∀ part ∈ p.parts ++ [name], part ≠ "." ∧ part ≠ ".." := by
    refine List.forall_mem_append.mpr ⟨hp.clear.no_dots, ?_⟩
    exact List.forall_mem_singleton.mpr ⟨hname.ne_dot, hname.ne_dots⟩
  have hclear : (fs.place (p.parts ++ [name]) (.directory [])).Clear [] (p.parts ++ [name]) :=
    .of_at? hdots hdirectory rfl
  have hsizes : ∀ part ∈ p.parts ++ [name], part.utf8ByteSize ≤ maxNameBytes :=
    List.forall_mem_append.mpr ⟨hshort, List.forall_mem_singleton.mpr hsize⟩
  have hlocate : (fs.place (p.parts ++ [name]) (.directory [])).locateAs .create
      ((p.child name).child last) = .ok (p.parts ++ [name] ++ [last]) := by
    rw [locateAs, hlong, if_neg Bool.false_ne_true, Path.child, Path.child,
      hclear.walk_append hsizes hdirectory, List.nil_append, walk, hdirectory]
    dsimp only
    rw [if_neg hlast.ne_dot, if_neg hlast.ne_dots, if_neg (Nat.not_lt.mpr hlastsize)]
    simp
  have hfresh : (fs.place (p.parts ++ [name]) (.directory [])).at?
      (p.parts ++ [name] ++ [last]) = none := by
    rw [at?_concat hdirectory]
    rfl
  rw [writeText, writeBytes, hparents]
  simp only [bind, Except.bind, hlocate, hfresh]
  exact ⟨_, rfl⟩

end

end FileSystem

end Dossier

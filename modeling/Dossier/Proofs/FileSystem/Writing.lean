import Dossier.FileSystem.Edit
import Dossier.Proofs.FileSystem.Reordered

/-!
# Writing to file systems of one shape

What is written to one of two file systems of one shape can be written to the other one, and they have
one shape again.
-/

namespace Dossier

/-- What is in the directory under a name; nothing if there is no directory. -/
def Entry.heldUnder (name : String) (entries : List (String × Entry)) : List (String × Entry) :=
  match entries.lookup name with
  | some (.directory inner) => inner
  | _ => []

theorem Entry.insert_cons_cons (new : Entry) (name next : String) (rest : Location)
    (entries : List (String × Entry)) : new.insert (name :: next :: rest) entries =
      Keyed.put name (.directory (new.insert (next :: rest) (heldUnder name entries))) entries := by
  rw [Entry.insert]
  · rfl
  · simp

namespace Entry.Corresponds

variable {asked : Location → ByteArray → ByteArray → Prop} {new new' : Entry}
  {entries entries' : List (String × Entry)}

theorem put (h : Corresponds asked (.directory entries) (.directory entries')) {name : String}
    (hnew : Corresponds (fun rest ↦ asked (name :: rest)) new new') :
    Corresponds asked (.directory (Keyed.put name new entries))
      (.directory (Keyed.put name new' entries')) := by
  refine .directory ?_ fun other ↦ ?_
  · rw [Keyed.map_fst_put, Keyed.map_fst_put]
    simp only [h.names.mem_iff]
    split
    · exact h.names
    · exact h.names.append_right [name]
  · by_cases hother : other = name
    · subst hother
      rw [Keyed.lookup_put_self, Keyed.lookup_put_self]
      exact .some hnew
    · rw [Keyed.lookup_put_of_ne hother, Keyed.lookup_put_of_ne hother]
      exact h.lookup other

theorem file {bytes bytes' : ByteArray} (h : asked [] bytes bytes') :
    Corresponds asked (.file bytes) (.file bytes') := by
  rintro (_ | ⟨name, rest⟩)
  · rw [find?_nil, find?_nil]
    exact .some (.file h)
  · exact .none

theorem empty : Corresponds asked (.directory []) (.directory []) :=
  .directory (.refl _) fun _ ↦ .none

theorem heldUnder (h : Corresponds asked (.directory entries) (.directory entries'))
    (name : String) : Corresponds (fun rest ↦ asked (name :: rest))
      (.directory (heldUnder name entries)) (.directory (heldUnder name entries')) := by
  have hname := h.lookup name
  rw [Entry.heldUnder, Entry.heldUnder]
  revert hname
  generalize entries.lookup name = found, entries'.lookup name = found'
  rintro (he | _)
  · cases he.sameKind with
    | file | link | special => exact empty
    | directory => exact he
  · exact empty

/-- Putting corresponding entries under one location keeps two trees corresponding. -/
theorem insert {location : Location}
    (h : Corresponds asked (.directory entries) (.directory entries'))
    (hnew : Corresponds (fun rest ↦ asked (location ++ rest)) new new') :
    Corresponds asked (.directory (new.insert location entries))
      (.directory (new'.insert location entries')) := by
  induction location generalizing asked entries entries' with
  | nil => exact h
  | cons name rest ih =>
      cases rest with
      | nil => exact h.put hnew
      | cons next rest =>
          rw [insert_cons_cons, insert_cons_cons]
          exact h.put (ih (h.heldUnder name) hnew)

end Entry.Corresponds

namespace FileSystem

open Steps

namespace Corresponds

variable {asked : Location → ByteArray → ByteArray → Prop} {fs fs' : FileSystem}

theorem place (h : Corresponds asked fs fs') {location : Location} {new new' : Entry}
    (hnew : Entry.Corresponds (fun rest ↦ asked (location ++ rest)) new new') :
    Corresponds asked (fs.place location new) (fs'.place location new') :=
  ⟨h.top.insert hnew, h.denied, h.forbidden⟩

theorem place_empty (h : Corresponds asked fs fs') (location : Location) :
    Corresponds asked (fs.place location (.directory [])) (fs'.place location (.directory [])) :=
  h.place .empty

/-- Corresponding entries lie at each location. -/
theorem at?_rel (h : Corresponds asked fs fs') (location : Location) :
    Option.Rel (Entry.Corresponds fun rest ↦ asked (location ++ rest)) (fs.at? location)
      (fs'.at? location) :=
  h.top.find? location

theorem makeDirectory (h : Corresponds asked fs fs') (p : Path) :
    Agree Eq (Corresponds asked) (fs.makeDirectory p) (fs'.makeDirectory p) := by
  rw [FileSystem.makeDirectory, FileSystem.makeDirectory]
  refine .ite .rfl (fun _ ↦ .error rfl) fun _ ↦ .ite .rfl (fun _ ↦ .error rfl) fun _ ↦ ?_
  rw [h.locate_eq]
  cases fs'.locate { p with parts := p.parts.dropLast } with
  | error e => exact .error rfl
  | ok parent =>
      have hparent := h.at?_rel parent
      dsimp only [bind, Except.bind]
      revert hparent
      generalize fs.at? parent = found, fs'.at? parent = found'
      rintro (he | _)
      · cases he.sameKind with
        | file | link | special => exact .error rfl
        | @directory entries entries' _ =>
            have hsome : (entries.lookup p.name).isSome ↔ (entries'.lookup p.name).isSome := by
              have hname := he.lookup p.name
              revert hname
              generalize entries.lookup p.name = found, entries'.lookup p.name = found'
              rintro (_ | _) <;> rfl
            refine .ite .rfl (fun _ ↦ .error rfl) fun _ ↦ .ite .rfl (fun _ ↦ .error rfl) fun _ ↦ ?_
            exact .ite hsome (fun _ ↦ .error rfl) fun _ ↦ .ok (h.place_empty _)
      · exact .error rfl

theorem isDirectory_eq (h : Corresponds asked fs fs') (p : Path) :
    fs.isDirectory p = fs'.isDirectory p := by
  rw [isDirectory, isDirectory, look, look, h.forbidden .follow p]
  split
  · rfl
  · rcases (h.stat_agree p).outcomes with
      ⟨e, _, hstat, hstat', rfl⟩ | ⟨e, e', hstat, hstat', _, _, he⟩
    · rw [hstat, hstat']
    · rw [hstat, hstat']
      exact he.sameKind.isDirectory_eq

/-- A directory that cannot be made does no harm if it is there. -/
theorem settle (h : Corresponds asked fs fs') (p : Path) (e : FileError) :
    Together (Corresponds asked) (if fs.isDirectory p then .ok fs else .error (Failure.refused e p))
      (if fs'.isDirectory p then .ok fs' else .error (Failure.refused e p)) :=
  .ite (by rw [h.isDirectory_eq]) (fun _ ↦ .ok h) fun _ ↦ .error trivial

theorem makeDirectories (h : Corresponds asked fs fs') (root : String) (reversed : List String) :
    Together (Corresponds asked) (fs.makeDirectories root reversed)
      (fs'.makeDirectories root reversed) := by
  induction reversed with
  | nil => exact .ok h
  | cons name above ih =>
      rw [FileSystem.makeDirectories, FileSystem.makeDirectories]
      generalize (⟨root, (name :: above).reverse⟩ : Path) = p
      rcases (h.makeDirectory p).outcomes with
        ⟨e, _, hmade, hmade', rfl⟩ | ⟨made, made', hmade, hmade', hboth⟩
      · rw [hmade, hmade']
        cases e with
        | missing =>
            refine ih.bind fun above above' habove ↦ ?_
            rcases (habove.makeDirectory p).outcomes with
              ⟨e, _, hmade, hmade', rfl⟩ | ⟨made, made', hmade, hmade', hboth⟩
            · rw [hmade, hmade']
              exact habove.settle p e
            · rw [hmade, hmade']
              exact .ok hboth
        | _ => exact h.settle p _
      · rw [hmade, hmade']
        exact .ok hboth

/-- What is written to one of the file systems can be written to the other one. -/
theorem writeText (h : Corresponds asked fs fs') (hself : ∀ place b, asked place b b) (p : Path)
    (s : String) : Together (Corresponds asked) (fs.writeText p s) (fs'.writeText p s) := by
  refine (h.makeDirectories p.root p.parts.dropLast.reverse).bind fun made made' hmade ↦ ?_
  rw [locateAs_congr hmade.kind?_eq]
  cases made'.locateAs .create p with
  | error e => exact .error trivial
  | ok location =>
      have hwritten : Corresponds asked (made.place location (.file s.toUTF8))
          (made'.place location (.file s.toUTF8)) :=
        hmade.place (.file (hself _ _))
      have hplace := hmade.at?_rel location
      dsimp only
      revert hplace
      generalize made.at? location = found, made'.at? location = found'
      rintro (he | _)
      · cases he.sameKind with
        | directory | special => exact .error trivial
        | file | link => exact .ok hwritten
      · exact .ok hwritten

end Corresponds

end FileSystem

end Dossier

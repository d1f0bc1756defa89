import Dossier.Proofs.FileSystem.Counterparts
import Dossier.Proofs.FileSystem.Kinds
import Dossier.Proofs.FileSystem.Straight

/-!
# One project at two places

A project without links that lies at two places answers alike at both of them, whatever is outside, as
long as no question goes up with a double dot and no path gets too long at one of the places only.
-/

namespace Dossier.FileSystem

open Entry (SameKind)
open Steps

variable {fs fs' : FileSystem} {top top' here rest place above : Location} {name : String}

/-- Below a location, names can be looked up, and behind every directory there is room for one more of
them. -/
structure HasRoom (fs : FileSystem) (top : Location) : Prop where
  short : ∀ place e, fs.at? (top ++ place) = some e →
    ∀ name ∈ top ++ place, name.utf8ByteSize ≤ maxNameBytes
  room : ∀ place entries, fs.at? (top ++ place) = some (.directory entries) →
    (Path.mk "/" (top ++ place)).text.utf8ByteSize + 1 + maxNameBytes ≤ maxPathBytes

/-- A directory without links at two locations: the same names, the same bytes in the files, and the
same refused at both. No file refuses to be read, since such a refusal names the whole path. -/
structure Relocated (fs fs' : FileSystem) (top top' : Location) : Prop where
  sound : fs.IsSound
  sound' : fs'.IsSound
  directory : ∃ entries, fs.at? top = some (.directory entries)
  same : ∀ place, Option.Rel (SameKind fun bytes bytes' ↦ bytes = bytes') (fs.at? (top ++ place))
    (fs'.at? (top' ++ place))
  unlinked : ∀ place target, fs.at? (top ++ place) ≠ some (.link target)
  denied : ∀ place, Path.mk "/" (top ++ place) ∈ fs.denied ↔ Path.mk "/" (top' ++ place) ∈ fs'.denied
  forbidden : ∀ access place,
    fs.forbidden access ⟨"/", top ++ place⟩ = fs'.forbidden access ⟨"/", top' ++ place⟩
  legible : ∀ place e, fs.at? (top ++ place) = some e → e.isDirectory = false →
    fs.forbidden .read ⟨"/", top ++ place⟩ = false ∧ ∀ refusal, e ≠ .special (some (.error refusal))

/-- Names that do not lead up. -/
def Downward (place : Location) : Prop :=
  ∀ name ∈ place, PlainName name ∧ name ≠ ".."

theorem Downward.concat (h : Downward place) (hname : PlainName name) (hdots : name ≠ "..") :
    Downward (place ++ [name]) :=
  List.forall_mem_append.mpr ⟨h, List.forall_mem_singleton.mpr ⟨hname, hdots⟩⟩

theorem downward_of_at? (hfs : fs.WellFormed) {e : Entry} (hat : fs.at? (top ++ place) = some e) :
    Downward place := by
  intro name hname
  have hproper := hfs.properName_of_find? hat name (List.mem_append_right _ hname)
  exact ⟨hproper.toPlainName, hproper.ne_dots⟩

/-- Nothing but a link is found behind a link. -/
theorem straight_of_at? (hfs : fs.WellFormed) {e : Entry} (hat : fs.at? top = some e)
    (hlink : e.isLink = false) : fs.IsStraight ⟨"/", top⟩ := by
  have hproper := hfs.properName_of_find? hat
  refine ⟨?_, .of_at? (fun name hname ↦ ?_) hat hlink⟩
  · rw [Path.IsClean, List.any_eq_false]
    intro name hname
    simpa using (hproper name hname).no_nul
  · exact ⟨(hproper name hname).ne_dot, (hproper name hname).ne_dots⟩

namespace Relocated

variable (h : Relocated fs fs' top top')
include h

theorem exists_found' {e : Entry} (hat : fs.at? (top ++ place) = some e) :
    ∃ e', fs'.at? (top' ++ place) = some e' ∧ SameKind (fun bytes bytes' ↦ bytes = bytes') e e' := by
  have hsame := h.same place
  rw [hat] at hsame
  generalize fs'.at? (top' ++ place) = found' at hsame
  rcases hsame with hkind | _
  exact ⟨_, rfl, hkind⟩

theorem symm : Relocated fs' fs top' top where
  sound := h.sound'
  sound' := h.sound
  directory := by
    obtain ⟨entries, hat⟩ := h.directory
    rw [← List.append_nil top] at hat
    obtain ⟨e', hat', hkind⟩ := h.exists_found' hat
    rw [List.append_nil] at hat'
    cases hkind with
    | directory names => exact ⟨_, hat'⟩
  same place := by
    have hsame := h.same place
    revert hsame
    generalize fs.at? (top ++ place) = found, fs'.at? (top' ++ place) = found'
    rintro (hkind | _)
    · exact .some (hkind.symm fun _ _ heq ↦ heq.symm)
    · exact .none
  unlinked place target hlink := by
    have hsame := h.same place
    rw [hlink] at hsame
    generalize hat : fs.at? (top ++ place) = found at hsame
    rcases hsame with hkind | _
    cases hkind with
    | link target => exact h.unlinked place target hat
  denied place := (h.denied place).symm
  forbidden access place := (h.forbidden access place).symm
  legible place e' hat' he' := by
    have hsame := h.same place
    rw [hat'] at hsame
    generalize hat : fs.at? (top ++ place) = found at hsame
    rcases hsame with hkind | _
    obtain ⟨hread, hrefusal⟩ := h.legible place _ hat (hkind.isDirectory_eq.trans he')
    refine ⟨h.forbidden .read place ▸ hread, fun refusal heq ↦ ?_⟩
    subst heq
    cases hkind with
    | special => exact hrefusal refusal rfl

theorem kind?_eq (place : Location) : fs.kind? (top ++ place) = fs'.kind? (top' ++ place) := by
  have hsame := h.same place
  rw [kind?, kind?]
  revert hsame
  generalize fs.at? (top ++ place) = found, fs'.at? (top' ++ place) = found'
  rintro (hkind | _)
  · cases hkind <;> rfl
  · rfl

theorem corresponds {e e' : Entry} (hat : fs.at? (top ++ place) = some e)
    (hat' : fs'.at? (top' ++ place) = some e') :
    Entry.Corresponds (fun _ bytes bytes' ↦ bytes = bytes') e e' := by
  intro rest
  have hsame := h.same (place ++ rest)
  rwa [← List.append_assoc, ← List.append_assoc, at?_append _ _ rest, at?_append _ _ rest, hat,
    hat'] at hsame

/-- Names that do not lead up take both look-ups to one place. -/
theorem walk_agree {links links' : Nat} (hrest : Downward rest) :
    Agree Eq (fun location location' ↦
        location = top ++ (here ++ rest) ∧ location' = top' ++ (here ++ rest))
      (fs.walk .follow links (top ++ here) rest) (fs'.walk .follow links' (top' ++ here) rest) := by
  induction rest generalizing here with
  | nil =>
      rw [walk, walk]
      exact .ok ⟨by rw [List.append_nil], by rw [List.append_nil]⟩
  | cons name rest ih =>
      obtain ⟨⟨hname, hdots⟩, hrest⟩ := List.forall_mem_cons.mp hrest
      have hnext := @ih (here ++ [name]) hrest
      have hlink (target : String) : fs.kind? (top ++ (here ++ [name])) ≠ some (.link target) := by
        intro hlink
        obtain ⟨e, hat, he⟩ := Option.map_eq_some_iff.mp hlink
        cases e with
        | file | directory | special => simp [Entry.kind] at he
        | link target => exact h.unlinked _ target hat
      simp only [List.append_assoc, List.singleton_append] at hnext
      -- From here on both look-ups ask the same questions about kinds, and none is about a link.
      rw [walk_cons, walk_cons, List.append_assoc, List.append_assoc, ← h.kind?_eq here,
        ← h.kind?_eq (here ++ [name]), if_neg hname.ne_dot, if_neg hname.ne_dot, if_neg hdots,
        if_neg hdots]
      cases fs.kind? (top ++ here) with
      | none => exact .error rfl
      | some kind =>
          cases kind with
          | file | link | special => exact .error rfl
          | directory =>
              refine .ite .rfl (fun _ ↦ .error rfl) fun _ ↦ ?_
              cases hkind : fs.kind? (top ++ (here ++ [name])) with
              | none => simpa using .error rfl
              | some kind =>
                  cases kind with
                  | file | directory | special => exact hnext
                  | link target => exact absurd hkind (hlink target)

theorem straight : fs.IsStraight ⟨"/", top⟩ := by
  obtain ⟨entries, hat⟩ := h.directory
  exact straight_of_at? h.sound.wellFormed hat rfl

theorem clear_down (hplace : Downward place) : fs.Clear [] ((Path.mk "/" top).down place).parts := by
  refine h.straight.clear.append ⟨fun name hname ↦ ?_, fun above _ ↦ h.unlinked above⟩
  exact ⟨(hplace name hname).1.ne_dot, (hplace name hname).2⟩

/-- Every path that leads to something leads to what is found at its place. -/
theorem at?_of_stat (hplace : Downward place) {e : Entry}
    (hstat : fs.stat ((Path.mk "/" top).down place) = .ok e) : fs.at? (top ++ place) = some e :=
  (h.clear_down hplace).at?_of_stat hstat

/-- The files at one place have the same bytes. -/
theorem sameText (hplace : Downward place) :
    SameText fs fs' ((Path.mk "/" top).down place) ((Path.mk "/" top').down place) := by
  intro bytes bytes' hstat hstat'
  have hat := h.at?_of_stat hplace hstat
  have hat' := h.symm.at?_of_stat hplace hstat'
  cases (h.corresponds hat hat').sameKind with
  | file heq => exact heq

/-- Nothing but a directory refuses to be read. -/
theorem readText_ne_refused (hplace : Downward place) {e : Entry}
    (hstat : fs.stat ((Path.mk "/" top).down place) = .ok e) (he : e.isDirectory = false)
    (refusal : FileError) :
    fs.readText ((Path.mk "/" top).down place) ≠ .error (.refused refusal) := by
  have hat := h.at?_of_stat hplace hstat
  obtain ⟨hread, hrefusal⟩ := h.legible place e hat he
  have hbytes : fs.readBytes ((Path.mk "/" top).down place) ≠ .error (.refused refusal) := by
    rw [readBytes, Path.down, if_neg (ne_true_of_eq_false hread), ← Path.down, hstat]
    cases e with
    | file bytes => simp
    | directory entries => simp [Entry.isDirectory] at he
    | link target => exact absurd hat (h.unlinked place target)
    | special reading =>
        rcases reading with _ | ⟨e⟩ | bytes
        · simp
        · simpa using fun heq ↦ hrefusal e rfl
        · simp
  intro htext
  rw [readText] at htext
  split at htext
  next herror => exact hbytes (herror.trans (congrArg _ (Except.error.inj htext)))
  next => split at htext <;> simp at htext

/-- A path that does not lead up has its own form as its canonical form. -/
theorem resolve_together (hplace : Downward place) : Together (fun p p' ↦
    p = (Path.mk "/" top).down place ∧ p' = (Path.mk "/" top').down place)
      (fs.resolve ((Path.mk "/" top).down place)) (fs'.resolve ((Path.mk "/" top').down place)) := by
  have hdown {fs fs' : FileSystem} {top top' : Location} (h : Relocated fs fs' top top') :
      fs.resolve ((Path.mk "/" top).down place) =
        if place.any (·.toList.contains '\x00') then .error .nulInPath
        else .ok ((Path.mk "/" top).down place) := by
    by_cases hclean : place.any (·.toList.contains '\x00') = true
    · rw [if_pos hclean, resolve, if_pos]
      rw [Path.down, List.any_append, hclean, Bool.or_true]
    · rw [if_neg hclean]
      have hstraight : fs.IsStraight ((Path.mk "/" top).down place) :=
        ⟨Path.isClean_down.mpr ⟨h.straight.clean, eq_false_of_ne_true hclean⟩, h.clear_down hplace⟩
      exact hstraight.resolve_eq
  rw [hdown h, hdown h.symm]
  exact .ite .rfl (fun _ ↦ .error trivial) fun _ ↦ .ok ⟨rfl, rfl⟩

theorem stat_agree (hroom : fs.HasRoom top) (hroom' : fs'.HasRoom top') (hplace : Downward place)
    (hfits : isOverlong ((Path.mk "/" top).down place) = false)
    (hfits' : isOverlong ((Path.mk "/" top').down place) = false) :
    Agree Eq (fun e e' ↦ fs.at? (top ++ place) = some e ∧ fs'.at? (top' ++ place) = some e')
      (fs.stat ((Path.mk "/" top).down place)) (fs'.stat ((Path.mk "/" top').down place)) := by
  have hdown {fs : FileSystem} {fs' : FileSystem} {top top' : Location}
      (h : Relocated fs fs' top top') (hroom : fs.HasRoom top)
      (hfits : isOverlong ((Path.mk "/" top).down place) = false) :
      fs.locate ((Path.mk "/" top).down place) = fs.walk .follow maxLinks (top ++ []) place := by
    obtain ⟨entries, hat⟩ := h.directory
    have hshort := hroom.short [] (.directory entries) (by rwa [List.append_nil])
    rw [List.append_nil] at hshort ⊢
    rw [locate, locateAs, hfits, if_neg Bool.false_ne_true, Path.down,
      h.straight.clear.walk_append hshort hat, List.nil_append]
  rw [stat, stat, hdown h hroom hfits, hdown h.symm hroom' hfits']
  refine (h.walk_agree hplace).bind ?_
  rintro _ _ ⟨rfl, rfl⟩
  rw [List.nil_append]
  cases hat : fs.at? (top ++ place) with
  | none =>
      cases hat' : fs'.at? (top' ++ place) with
      | none => exact .error rfl
      | some e' =>
          obtain ⟨e, he, -⟩ := h.symm.exists_found' hat'
          simp [hat] at he
  | some e =>
      obtain ⟨e', hat', -⟩ := h.exists_found' hat
      rw [hat']
      exact .ok ⟨rfl, rfl⟩

/-- A name that is too long is refused wherever its directory lies. -/
theorem stat_long (hroom : fs.HasRoom top) (habove : fs.kind? (top ++ above) = some .directory)
    (hname : PlainName name) (hdots : name ≠ "..") (hlong : maxNameBytes < name.utf8ByteSize) :
    fs.stat ((Path.mk "/" top).down (above ++ [name])) = .error .nameTooLong := by
  obtain ⟨e, hat, he⟩ := Option.map_eq_some_iff.mp habove
  cases e with
  | file | link | special => simp [Entry.kind] at he
  | directory entries =>
      have hclear := (straight_of_at? h.sound.wellFormed hat rfl).clear
      rw [stat, locate, locateAs]
      split
      · rfl
      · rw [Path.down, ← List.append_assoc, hclear.walk_append (hroom.short above _ hat) hat,
          List.nil_append, walk_cons, habove]
        dsimp only
        rw [if_neg hname.ne_dot, if_neg hdots, if_pos hlong]
        rfl

end Relocated

/-- A name behind a directory that has room for it is not too long a path. -/
theorem HasRoom.fits (hroom : fs.HasRoom top) (habove : fs.kind? (top ++ above) = some .directory)
    (hshort : name.utf8ByteSize ≤ maxNameBytes) :
    isOverlong ((Path.mk "/" top).down above) = false ∧
      isOverlong ((Path.mk "/" top).down (above ++ [name])) = false := by
  obtain ⟨e, hat, he⟩ := Option.map_eq_some_iff.mp habove
  cases e with
  | file | link | special => simp [Entry.kind] at he
  | directory entries =>
      have hsize := hroom.room above entries hat
      have hchild := Path.utf8ByteSize_text_child (p := ⟨"/", top ++ above⟩) (by simp) name
      simp only [isOverlong, decide_eq_false_iff_not, not_lt]
      rw [← Path.child_down]
      dsimp only [Path.down] at hchild ⊢
      omega

/-- What is asked about a project at two places: from directories on to names that do not lead up, and
beyond only where the paths are not too long at either place. -/
def Reach.inside (fs : FileSystem) (top top' : Location) : Reach where
  looked place := Downward place ∧
    ((isOverlong ((Path.mk "/" top).down place) = false ∧
        isOverlong ((Path.mk "/" top').down place) = false) ∨
      ∃ above name, place = above ++ [name] ∧ fs.kind? (top ++ above) = some .directory ∧
        maxNameBytes < name.utf8ByteSize)
  entered place := fs.kind? (top ++ place) = some .directory
  named name := PlainName name ∧ name ≠ ".."

namespace Relocated

variable (h : Relocated fs fs' top top')
include h

theorem entered_nil : (Reach.inside fs top top').entered [] := by
  obtain ⟨entries, hat⟩ := h.directory
  show fs.kind? (top ++ []) = _
  rw [List.append_nil, kind?, hat]
  rfl

variable (hroom : fs.HasRoom top) (hroom' : fs'.HasRoom top')
include hroom hroom'

theorem looked_child (hplace : (Reach.inside fs top top').entered place) (hname : PlainName name)
    (hdots : name ≠ "..") : (Reach.inside fs top top').looked (place ++ [name]) := by
  obtain ⟨e, hat, -⟩ := Option.map_eq_some_iff.mp hplace
  refine ⟨(downward_of_at? h.sound.wellFormed hat).concat hname hdots, ?_⟩
  rcases Nat.lt_or_ge maxNameBytes name.utf8ByteSize with hlong | hshort
  · exact .inr ⟨place, name, rfl, hplace, hlong⟩
  · exact .inl ⟨(hroom.fits hplace hshort).2, (hroom'.fits (h.kind?_eq place ▸ hplace) hshort).2⟩

omit hroom' in
theorem fits_of_at? {e : Entry} (hat : fs.at? (top ++ place) = some e) :
    isOverlong ((Path.mk "/" top).down place) = false := by
  rcases List.eq_nil_or_concat place with rfl | ⟨above, name, rfl⟩
  · have hshort : "".utf8ByteSize ≤ maxNameBytes := by decide
    exact (hroom.fits h.entered_nil hshort).1
  · rw [List.concat_eq_append] at hat ⊢
    rw [← List.append_assoc] at hat
    refine (hroom.fits (kind?_of_at?_concat hat) ?_).2
    rw [List.append_assoc] at hat
    exact hroom.short _ e hat name (by simp)

theorem looked_of_at? {e : Entry} (hat : fs.at? (top ++ place) = some e) :
    (Reach.inside fs top top').looked place := by
  obtain ⟨e', hat', -⟩ := h.exists_found' hat
  exact ⟨downward_of_at? h.sound.wellFormed hat,
    .inl ⟨h.fits_of_at? hroom hat, h.symm.fits_of_at? hroom' hat'⟩⟩

theorem looked_self (hplace : (Reach.inside fs top top').entered place) :
    (Reach.inside fs top top').looked place := by
  obtain ⟨e, hat, -⟩ := Option.map_eq_some_iff.mp hplace
  exact h.looked_of_at? hroom hroom' hat

omit hroom' in
/-- Whatever is in the project is found under its path. -/
theorem stat_of_at? {e : Entry} (hat : fs.at? (top ++ place) = some e) :
    fs.stat ((Path.mk "/" top).down place) = .ok e := by
  have hlink : e.isLink = false := by
    cases e with
    | file | directory | special => rfl
    | link target => exact absurd hat (h.unlinked place target)
  exact (straight_of_at? h.sound.wellFormed hat hlink).stat_eq (h.fits_of_at? hroom hat)
    (hroom.short place e hat) hat

theorem looked_agree (hplace : (Reach.inside fs top top').looked place) :
    Agree Eq (fun e e' ↦ fs.at? (top ++ place) = some e ∧ fs'.at? (top' ++ place) = some e')
      (fs.stat ((Path.mk "/" top).down place)) (fs'.stat ((Path.mk "/" top').down place)) := by
  obtain ⟨hdownward, ⟨hfits, hfits'⟩ | ⟨above, name, rfl, habove, hlong⟩⟩ := hplace
  · exact h.stat_agree hroom hroom' hdownward hfits hfits'
  · obtain ⟨hname, hdots⟩ := hdownward name (by simp)
    rw [h.stat_long hroom habove hname hdots hlong,
      h.symm.stat_long hroom' (h.kind?_eq above ▸ habove) hname hdots hlong]
    exact .error rfl

theorem counterparts :
    Counterparts fs fs' ⟨"/", top⟩ ⟨"/", top'⟩ (Reach.inside fs top top') where
  sound := h.sound
  stat place hplace := (h.looked_agree hroom hroom' hplace).mono (fun _ _ he ↦ he)
    fun e e' ⟨hat, hat'⟩ ↦ (h.corresponds hat hat').sameShape
  denied place := by
    rw [Bool.eq_iff_iff, List.contains_iff_mem, List.contains_iff_mem]
    exact h.denied place
  forbidden := h.forbidden
  clean := iff_of_true h.straight.clean h.symm.straight.clean
  proper name hname := ⟨hname.toPlainName, hname.ne_dots⟩
  self place := h.looked_self hroom hroom'
  child place name hplace hname := h.looked_child hroom hroom' hplace hname.1 hname.2
  enter place entries hplace hstat := by
    have hat := h.at?_of_stat hplace.1 hstat
    show fs.kind? _ = _
    rw [kind?, hat]
    rfl
  below place rest e inner hplace hstat hinner := by
    have hat := h.at?_of_stat (h.looked_self hroom hroom' hplace).1 hstat
    show fs.kind? _ = _
    rw [kind?, ← List.append_assoc, at?_append, hat, Option.bind_some, hinner]
    rfl
  overlong place rest e found hplace hstat hfound := by
    have hat := h.at?_of_stat (h.looked_self hroom hroom' hplace).1 hstat
    have hthere : fs.at? (top ++ (place ++ rest)) = some found := by
      rw [← List.append_assoc, at?_append, hat, Option.bind_some, hfound]
    obtain ⟨found', hthere', -⟩ := h.exists_found' hthere
    rw [h.fits_of_at? hroom hthere, h.symm.fits_of_at? hroom' hthere']

end Relocated

end Dossier.FileSystem

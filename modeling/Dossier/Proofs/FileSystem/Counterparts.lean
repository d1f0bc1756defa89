import Dossier.Proofs.FileSystem.Correspondence
import Dossier.Proofs.FileSystem.Expand
import Dossier.Proofs.Together

/-!
# Directories that answer alike

Two directories, each in a file system of its own, are counterparts if every question that is asked
about a place below the one has the same answer below the other. Which places are asked about is part
of the comparison: from a place that is a directory on to its entries and to names that patterns
give, but no further. Whatever is put together from such questions has the same outcome for both
directories, up to the paths under which they lie.
-/

namespace Dossier

/-! ## Places below a path -/

/-- The path of a place below another path. -/
def Path.down (p : Path) (place : Location) : Path :=
  ⟨p.root, p.parts ++ place⟩

namespace Path

variable {p : Path} {place : Location}

@[simp] theorem down_nil : p.down [] = p := by
  rw [down, List.append_nil]

@[simp] theorem child_down (name : String) :
    (p.down place).child name = p.down (place ++ [name]) := by
  rw [down, child, down, List.append_assoc]

theorem child_eq_down (p : Path) (name : String) : p.child name = p.down [name] :=
  rfl

theorem join_eq_down (p : Path) (place : Location) : p.join ⟨"", place⟩ = p.down place :=
  join_relative p place

@[simp] theorem down_down (place' : Location) :
    (p.down place).down place' = p.down (place ++ place') := by
  rw [down, down, down, List.append_assoc]

theorem isClean_down : (p.down place).IsClean ↔
    p.IsClean ∧ place.any (·.toList.contains '\x00') = false := by
  rw [IsClean, down, List.any_append, Bool.or_eq_false_iff]

end Path

namespace FileSystem

open Entry (SameListing SameShape)
open Steps

variable {fs fs' : FileSystem} {base base' : Path} {place : Location} {name : String}

/-- What is asked about below a directory: the places that are looked up, the directories that are
gone into, and the names that are put behind these. -/
structure Reach where
  looked : Location → Prop
  entered : Location → Prop
  named : String → Prop

/-- Two directories that cannot be told apart by what is asked about below them. -/
structure Counterparts (fs fs' : FileSystem) (base base' : Path) (reach : Reach) : Prop where
  sound : fs.IsSound
  stat : ∀ place, reach.looked place →
    Agree Eq SameShape (fs.stat (base.down place)) (fs'.stat (base'.down place))
  denied : ∀ place, fs.denied.contains (base.down place) = fs'.denied.contains (base'.down place)
  forbidden : ∀ access place,
    fs.forbidden access (base.down place) = fs'.forbidden access (base'.down place)
  clean : base.IsClean ↔ base'.IsClean
  proper : ∀ name, ProperName name → reach.named name
  self : ∀ place, reach.entered place → reach.looked place
  child : ∀ place name, reach.entered place → reach.named name → reach.looked (place ++ [name])
  /-- A directory that was looked up may be gone into. -/
  enter : ∀ place entries, reach.looked place →
    fs.stat (base.down place) = .ok (.directory entries) → reach.entered place
  /-- And so may the directories that are found in it without a further look-up. -/
  below : ∀ place rest e inner, reach.entered place → fs.stat (base.down place) = .ok e →
    e.find? rest = some (.directory inner) → reach.entered (place ++ rest)
  /-- What is found in it has a path that is too long on both sides, or on neither. -/
  overlong : ∀ place rest e found, reach.entered place → fs.stat (base.down place) = .ok e →
    e.find? rest = some found →
      isOverlong (base.down (place ++ rest)) = isOverlong (base'.down (place ++ rest))

/-- What is asked about below a place. -/
def Reach.below (reach : Reach) (dir : Location) : Reach where
  looked place := reach.looked (dir ++ place)
  entered place := reach.entered (dir ++ place)
  named := reach.named

/-- The same place below two counterparts makes counterparts again. -/
theorem Counterparts.down {reach : Reach} (h : Counterparts fs fs' base base' reach)
    (dir : Location) :
    Counterparts fs fs' (base.down dir) (base'.down dir) (reach.below dir) where
  sound := h.sound
  stat place hplace := by
    rw [Path.down_down, Path.down_down]
    exact h.stat _ hplace
  denied place := by
    rw [Path.down_down, Path.down_down]
    exact h.denied _
  forbidden access place := by
    rw [Path.down_down, Path.down_down]
    exact h.forbidden access _
  clean := by rw [Path.isClean_down, Path.isClean_down, h.clean]
  proper := h.proper
  self place := h.self _
  child place name hplace hname := by
    show reach.looked (dir ++ (place ++ [name]))
    rw [← List.append_assoc]
    exact h.child _ _ hplace hname
  enter place entries hplace hstat := h.enter _ entries hplace (by rwa [← Path.down_down])
  below place rest e inner hplace hstat hinner := by
    show reach.entered (dir ++ (place ++ rest))
    rw [← List.append_assoc]
    exact h.below _ rest e inner hplace (by rwa [← Path.down_down]) hinner
  overlong place rest e found hplace hstat hfound := by
    rw [Path.down_down, Path.down_down, ← List.append_assoc]
    exact h.overlong _ rest e found hplace (by rwa [← Path.down_down]) hfound

theorem notAfter_down (p : Path) (x y : Location) :
    notAfter (p.down x) (p.down y) = !decide (y < x) := by
  have hlt : p.parts ++ y < p.parts ++ x ↔ y < x := by
    refine ⟨fun h ↦ ?_, List.append_left_lt⟩
    rcases lt_trichotomy y x with hlt | rfl | hlt
    · exact hlt
    · exact absurd h (lt_irrefl _)
    · exact absurd h (lt_asymm (List.append_left_lt hlt))
  rw [notAfter, Path.down, Path.down, decide_eq_decide.mpr hlt]

theorem sorted_places {p : Path} {ps : List Path} {places : List Location}
    (h : ps.Perm (places.map p.down)) :
    ps.mergeSort notAfter = (places.mergeSort fun x y ↦ !decide (y < x)).map p.down := by
  rw [List.map_mergeSort (s := notAfter) fun x _ y _ ↦ (notAfter_down p x y).symm]
  have hle (a b : Path) : notAfter a b = true ↔ a.parts ≤ b.parts := by
    rw [notAfter, Bool.not_eq_true', decide_eq_false_iff_not, not_lt]
  have hsorted (qs : List Path) :
      (qs.mergeSort notAfter).Pairwise fun a b ↦ notAfter a b = true := by
    apply List.pairwise_mergeSort
    · intro a b c hab hbc
      exact (hle a c).mpr (((hle a b).mp hab).trans ((hle b c).mp hbc))
    · intro a b
      rw [Bool.or_eq_true, hle, hle]
      exact le_total a.parts b.parts
  have hperm := (List.mergeSort_perm ps notAfter).trans
    (h.trans (List.mergeSort_perm (places.map p.down) notAfter).symm)
  refine hperm.eq_of_pairwise ?_ (hsorted ps) (hsorted _)
  intro a b ha hb hab hba
  obtain ⟨x, -, rfl⟩ := List.mem_map.mp (h.mem_iff.mp (List.mem_mergeSort.mp ha))
  obtain ⟨y, -, rfl⟩ := List.mem_map.mp (List.mem_mergeSort.mp hb)
  have hparts := le_antisymm ((hle _ _).mp hab) ((hle _ _).mp hba)
  exact congrArg (Path.mk p.root) hparts

/-- Lists of the same places below two paths, in any order. -/
def SamePlaces (base base' : Path) (good : Location → Prop) (ps ps' : List Path) : Prop :=
  ∃ places : List Location, ps.Perm (places.map base.down) ∧ ps'.Perm (places.map base'.down) ∧
    ∀ place ∈ places, good place

namespace SamePlaces

variable {good : Location → Prop} {ps ps' qs qs' : List Path}

theorem nil : SamePlaces base base' good [] [] :=
  ⟨[], .refl _, .refl _, by simp⟩

theorem singleton (h : good place) :
    SamePlaces base base' good [base.down place] [base'.down place] :=
  ⟨[place], .refl _, .refl _, by simpa using h⟩

theorem append (h : SamePlaces base base' good ps ps') (h' : SamePlaces base base' good qs qs') :
    SamePlaces base base' good (ps ++ qs) (ps' ++ qs') := by
  obtain ⟨places, hps, hps', hgood⟩ := h
  obtain ⟨more, hqs, hqs', hmore⟩ := h'
  refine ⟨places ++ more, ?_, ?_, List.forall_mem_append.mpr ⟨hgood, hmore⟩⟩
  · rw [List.map_append]
    exact hps.append hqs
  · rw [List.map_append]
    exact hps'.append hqs'

theorem cons (hplace : good place) (h : SamePlaces base base' good ps ps') :
    SamePlaces base base' good (base.down place :: ps) (base'.down place :: ps') :=
  (singleton hplace).append h

theorem perm_right (h : SamePlaces base base' good ps ps') (hperm : ps'.Perm qs') :
    SamePlaces base base' good ps qs' := by
  obtain ⟨places, hps, hps', hgood⟩ := h
  exact ⟨places, hps, hperm.symm.trans hps', hgood⟩

theorem perm_left (h : SamePlaces base base' good ps ps') (hperm : qs.Perm ps) :
    SamePlaces base base' good qs ps' := by
  obtain ⟨places, hps, hps', hgood⟩ := h
  exact ⟨places, hperm.trans hps, hps', hgood⟩

theorem flatten {found found' : List (List Path)}
    (h : List.Forall₂ (SamePlaces base base' good) found found') :
    SamePlaces base base' good found.flatten found'.flatten := by
  induction h with
  | nil => exact nil
  | cons hps _ ih => exact hps.append ih

theorem flatMap {α : Type} {xs ys : List α} {f g : α → List Path} (hperm : xs.Perm ys)
    (h : ∀ x ∈ xs, SamePlaces base base' good (f x) (g x)) :
    SamePlaces base base' good (xs.flatMap f) (ys.flatMap g) := by
  refine perm_right ?_ (hperm.flatMap_right g)
  rw [List.flatMap_def, List.flatMap_def]
  refine flatten (List.forall₂_map_left_iff.mpr (List.forall₂_map_right_iff.mpr ?_))
  exact List.forall₂_same.mpr h

/-- Sorting puts the same places below both paths in the same order. -/
theorem mergeSort (h : SamePlaces base base' good ps ps') : ∃ places : List Location,
    ps.mergeSort notAfter = places.map base.down ∧ ps'.mergeSort notAfter = places.map base'.down ∧
      ∀ place ∈ places, good place := by
  obtain ⟨places, hps, hps', hgood⟩ := h
  refine ⟨places.mergeSort fun x y ↦ !decide (y < x), sorted_places hps, sorted_places hps', ?_⟩
  intro place hplace
  exact hgood place (List.mem_mergeSort.mp hplace)

end SamePlaces

/-- If two paths lead to files, these have the same bytes. -/
def SameText (fs fs' : FileSystem) (p p' : Path) : Prop :=
  ∀ bytes bytes', fs.stat p = .ok (.file bytes) → fs'.stat p' = .ok (.file bytes') → bytes = bytes'

/-! ## Look-ups -/

namespace Counterparts

variable {reach : Reach} (h : Counterparts fs fs' base base' reach)
include h

theorem isClean_iff (place : Location) : (base.down place).IsClean ↔ (base'.down place).IsClean := by
  rw [Path.isClean_down, Path.isClean_down, h.clean]

theorem look (hplace : reach.looked place) :
    Agree Eq SameShape (fs.look (base.down place)) (fs'.look (base'.down place)) := by
  rw [FileSystem.look, FileSystem.look]
  exact .ite (by rw [h.forbidden _ place]) (fun _ ↦ .error rfl) fun _ ↦ h.stat place hplace

theorem seek (hplace : reach.looked place) :
    Agree Eq (Option.Rel SameShape) (fs.seek (base.down place)) (fs'.seek (base'.down place)) := by
  rw [FileSystem.seek, FileSystem.seek]
  refine .ite ?_ (fun _ ↦ .ok .none) fun _ ↦ ?_
  · rw [← Bool.not_eq_false, ← Bool.not_eq_false]
    exact not_congr (h.isClean_iff place)
  · rcases (h.stat place hplace).outcomes with ⟨e, _, hstat, hstat', rfl⟩ | ⟨e, e', hstat, hstat', he⟩
    · rw [hstat, hstat']
      cases e with
      | nameTooLong => exact .error rfl
      | _ => exact .ok .none
    · rw [hstat, hstat']
      exact .ok (.some he)

theorem probe (hplace : reach.looked place) :
    Agree Eq (Option.Rel SameShape) (fs.probe (base.down place)) (fs'.probe (base'.down place)) := by
  rw [FileSystem.probe, FileSystem.probe]
  exact .ite (by rw [h.forbidden _ place]) (fun _ ↦ .error rfl) fun _ ↦ h.seek hplace

theorem sought (hplace : reach.looked place) : Together (Option.Rel SameShape)
    (fs.sought (base.down place)) (fs'.sought (base'.down place)) := by
  rw [FileSystem.sought, FileSystem.sought]
  rcases (h.seek hplace).outcomes with ⟨e, _, hseek, hseek', -⟩ | ⟨e, e', hseek, hseek', he⟩
  · rw [hseek, hseek']
    exact .error trivial
  · rw [hseek, hseek']
    exact .ok he

theorem probed (hplace : reach.looked place) : Together (Option.Rel SameShape)
    (fs.probed (base.down place)) (fs'.probed (base'.down place)) := by
  rw [FileSystem.probed, FileSystem.probed]
  exact .ite (by rw [h.forbidden _ place]) (fun _ ↦ .error trivial) fun _ ↦ h.sought hplace

theorem leadsTo {asked : Entry → Bool} (hasked : ∀ e e', SameShape e e' → asked e = asked e')
    (hplace : reach.looked place) :
    Together Eq (fs.leadsTo asked (base.down place)) (fs'.leadsTo asked (base'.down place)) := by
  refine (h.probed hplace).bind ?_
  rintro _ _ (he | _)
  · exact .pure (hasked _ _ he)
  · exact .pure rfl

theorem leadsAnywhere (hplace : reach.looked place) : Together Eq
    (fs.leadsAnywhere (base.down place)) (fs'.leadsAnywhere (base'.down place)) :=
  h.leadsTo (fun _ _ _ ↦ rfl) hplace

theorem leadsToFile (hplace : reach.looked place) :
    Together Eq (fs.leadsToFile (base.down place)) (fs'.leadsToFile (base'.down place)) :=
  h.leadsTo (fun _ _ he ↦ he.sameKind.isFile_eq) hplace

theorem leadsToDirectory (hplace : reach.looked place) : Together Eq
    (fs.leadsToDirectory (base.down place)) (fs'.leadsToDirectory (base'.down place)) :=
  h.leadsTo (fun _ _ he ↦ he.sameKind.isDirectory_eq) hplace

theorem reaches (inner : Bool) (hplace : reach.looked place) :
    Together Eq (fs.reaches inner (base.down place)) (fs'.reaches inner (base'.down place)) := by
  refine h.leadsTo (fun e e' he ↦ ?_) hplace
  rw [he.sameKind.isDirectory_eq]

theorem passes (inner : Bool) (hplace : reach.looked place) :
    Together Eq (fs.passes inner (base.down place)) (fs'.passes inner (base'.down place)) := by
  rw [FileSystem.passes, FileSystem.passes]
  exact .ite (by rw [h.forbidden _ place]) (fun _ ↦ .ok rfl) fun _ ↦ h.reaches inner hplace

theorem admits (inner : Bool) (hplace : reach.looked place) :
    Together Eq (fs.admits inner (base.down place)) (fs'.admits inner (base'.down place)) := by
  refine .ite .rfl (fun _ ↦ (h.sought hplace).bind ?_) fun _ ↦ .ok rfl
  rintro _ _ (he | _)
  · exact .pure he.sameKind.isDirectory_eq
  · exact .pure rfl

/-- A place that is found to be a directory may be gone into. -/
theorem entered_of_stat {e : Entry} (hplace : reach.looked place)
    (hstat : fs.stat (base.down place) = .ok e) (he : e.isDirectory = true) :
    reach.entered place := by
  cases e with
  | directory entries => exact h.enter place entries hplace hstat
  | file | link | special => simp [Entry.isDirectory] at he

theorem entered_of_reaches (hplace : reach.looked place)
    (hreaches : fs.reaches true (base.down place) = .ok true) : reach.entered place := by
  obtain ⟨e, hstat, he⟩ := exists_stat_of_leadsTo hreaches
  exact h.entered_of_stat hplace hstat he

theorem entered_of_passes (hplace : reach.looked place)
    (hpasses : fs.passes true (base.down place) = .ok true) : reach.entered place := by
  rw [FileSystem.passes] at hpasses
  split at hpasses
  · simp at hpasses
  · exact h.entered_of_reaches hplace hpasses

theorem entered_of_admits (hplace : reach.looked place)
    (hadmits : fs.admits true (base.down place) = .ok true) : reach.entered place := by
  obtain ⟨found, hsought, hadmits⟩ := bind_eq_ok.mp hadmits
  obtain ⟨e, rfl, he⟩ := (Option.any_eq_true _ found).mp (pure_eq_ok.mp hadmits)
  rw [FileSystem.sought] at hsought
  split at hsought
  next hseek =>
    rw [Except.ok.inj hsought] at hseek
    exact h.entered_of_stat hplace (stat_of_seek hseek) he
  next => simp at hsought

/-- What is listed below the two directories corresponds. -/
theorem scan (hplace : reach.looked place) : Agree Eq SameListing (fs.scan (base.down place))
    (fs'.scan (base'.down place)) := by
  rw [FileSystem.scan, FileSystem.scan]
  refine .ite (by rw [h.denied place]) (fun _ ↦ .error rfl) fun _ ↦ ?_
  refine (h.stat place hplace).bind_of_ok fun e e' hstat _ he ↦ ?_
  have hdistinct := named_of_stat h.sound.distinct hstat
  cases e with
  | directory entries =>
      obtain ⟨entries', rfl⟩ := he.exists_directory
      exact .ok ⟨he, hdistinct⟩
  | file bytes =>
      cases he.sameKind with
      | file => exact .error rfl
  | link target =>
      cases he.sameKind with
      | link => exact .error rfl
  | special reading =>
      cases he.sameKind with
      | special => exact .error rfl

/-- What is found below a directory that may be gone into may be looked up. -/
theorem looked_of_find? {rest : Location} {e found : Entry} (hplace : reach.entered place)
    (hstat : fs.stat (base.down place) = .ok e) (hfound : e.find? rest = some found) :
    reach.looked (place ++ rest) := by
  rcases List.eq_nil_or_concat rest with rfl | ⟨above, name, rfl⟩
  · rw [List.append_nil]
    exact h.self place hplace
  · rw [List.concat_eq_append] at hfound ⊢
    cases e with
    | file | link | special => cases above <;> simp [Entry.find?] at hfound
    | directory entries =>
        obtain ⟨held, hheld, hlookup⟩ := Entry.find?_concat_iff.mp hfound
        have hproper := (h.sound.wellFormed.of_stat hstat).of_find? hheld
        rw [← List.append_assoc]
        exact h.child _ name (h.below place above _ held hplace hstat hheld)
          (h.proper name (hproper.names _ (mem_of_lookup_eq_some hlookup)))

/-! ## Files -/

/-- What is read of a file, or why it is not read, is the same on both sides. -/
theorem readBytes_eq (hplace : reach.looked place)
    (hsame : SameText fs fs' (base.down place) (base'.down place)) :
    fs.readBytes (base.down place) = fs'.readBytes (base'.down place) := by
  rw [readBytes, readBytes, h.forbidden _ place]
  split
  · rfl
  · rcases (h.stat place hplace).outcomes with
      ⟨e, _, hstat, hstat', rfl⟩ | ⟨e, e', hstat, hstat', he⟩
    · rw [hstat, hstat']
    · cases he.sameKind with
      | @file bytes bytes' _ =>
          obtain rfl := hsame bytes bytes' hstat hstat'
          rw [hstat, hstat']
      | link | directory | special => rw [hstat, hstat']

theorem readText_eq (hplace : reach.looked place)
    (hsame : SameText fs fs' (base.down place) (base'.down place)) :
    fs.readText (base.down place) = fs'.readText (base'.down place) := by
  rw [readText, readText, h.readBytes_eq hplace hsame]

/-! ## Patterns -/

/-- The entries of which it is known whether they are directories: the same names on both sides, and the
same links among them. -/
theorem knownEntries_perm (place : List String) {entries entries' : List (String × Entry)}
    (hentries : SameListing entries entries') (keep : Entry → Bool)
    (hkeep : ∀ e e', SameShape e e' → keep e = keep e') :
    (((fs.knownEntries (base.down place) entries).filter fun x ↦ keep x.2).map (·.1)).Perm
      (((fs'.knownEntries (base'.down place) entries').filter fun x ↦ keep x.2).map (·.1)) := by
  have hforbidden (name : String) : fs.forbidden .follow ((base.down place).child name) =
      fs'.forbidden .follow ((base'.down place).child name) := by
    rw [Path.child_down, Path.child_down, h.forbidden]
  simp only [FileSystem.knownEntries, List.filter_filter, hforbidden]
  refine Entry.names_kept_perm hentries.shape hentries.distinct.names
    (fun name e ↦ keep e && !(e.isLink && fs'.forbidden .follow ((base'.down place).child name)))
    fun name e e' he ↦ ?_
  rw [hkeep e e' he, he.sameKind.isLink_eq]

theorem checkEntries {entries entries' : List (String × Entry)} (hplace : reach.entered place)
    (hlinks : ((entries.filter fun x ↦ x.2.isLink).map (·.1)).Perm
      ((entries'.filter fun x ↦ x.2.isLink).map (·.1)))
    (hnames : ∀ x ∈ entries, ProperName x.1) :
    Together Eq (fs.checkEntries (base.down place) entries)
      (fs'.checkEntries (base'.down place) entries') := by
  have hlooked (name : String) (hname : ProperName name) : reach.looked (place ++ [name]) :=
    h.child place name hplace (h.proper name hname)
  have hlong (name : String) (hname : ProperName name) :
      fs.IsTooLong ((base.down place).child name) ↔
        fs'.IsTooLong ((base'.down place).child name) := by
    rw [Path.child_down, Path.child_down, ← fails_sought, ← fails_sought]
    exact (h.sought (hlooked name hname)).fails_iff
  have hexists {entries : List (String × Entry)} (long : String → Prop) :
      (∃ x ∈ entries, x.2.isLink = true ∧ long x.1) ↔
        ∃ name ∈ (entries.filter fun x ↦ x.2.isLink).map (·.1), long name := by
    simp only [List.mem_map, List.mem_filter]
    constructor
    · rintro ⟨x, hx, hlink, hlong⟩
      exact ⟨x.1, ⟨x, ⟨hx, hlink⟩, rfl⟩, hlong⟩
    · rintro ⟨_, ⟨x, ⟨hx, hlink⟩, rfl⟩, hlong⟩
      exact ⟨x, hx, hlink, hlong⟩
  refine .of_fails_iff ?_
  rw [fails_checkEntries, fails_checkEntries, hexists fun name ↦ fs.IsTooLong _,
    hexists fun name ↦ fs'.IsTooLong _]
  simp only [← hlinks.mem_iff]
  refine exists_congr fun name ↦ and_congr_right fun hname ↦ hlong name ?_
  obtain ⟨x, hx, rfl⟩ := List.mem_map.mp hname
  exact hnames x (List.mem_of_mem_filter hx)

theorem fittingNames {inner : Bool} {tokens : List Text.Wildcard.Token}
    (hplace : reach.entered place) : Together List.Perm
      (fs.fittingNames (base.down place) inner tokens)
      (fs'.fittingNames (base'.down place) inner tokens) := by
  rw [FileSystem.fittingNames, FileSystem.fittingNames]
  rcases (h.scan (h.self place hplace)).outcomes with
    ⟨e, _, hscan, hscan', rfl⟩ | ⟨entries, entries', hscan, hscan', hentries⟩
  · rw [hscan, hscan']
    cases e with
    | denied => exact .ok (.refl _)
    | _ => exact .error trivial
  · rw [hscan, hscan']
    cases inner with
    | false =>
        exact .pure (hentries.shape.names.filter fun name ↦
          Text.Wildcard.matchTokens tokens name.toList)
    | true =>
        have hnames := (h.sound.wellFormed.of_scan hscan).names
        have hknown := h.knownEntries_perm place hentries (fun _ ↦ true) fun _ _ _ ↦ rfl
        have hlinks := h.knownEntries_perm place hentries Entry.isLink
          fun _ _ he ↦ he.sameKind.isLink_eq
        rw [List.filter_true, List.filter_true] at hknown
        refine (h.checkEntries hplace hlinks fun x hx ↦ ?_).bind fun _ _ _ ↦ ?_
        · exact hnames x (List.mem_of_mem_filter hx)
        · exact .pure (hknown.filter fun name ↦ Text.Wildcard.matchTokens tokens name.toList)

omit h in
theorem directoriesAmong_eq_flatMap {denied : Path → Bool} {p : Path}
    {entries : List (String × Entry)} (hnodup : (entries.map (·.1)).Nodup) :
    directoriesAmong denied p entries = (entries.map (·.1)).flatMap fun name ↦
      match entries.lookup name with
      | some e => directoriesBelow denied (p.child name) e
      | none => [] := by
  have hflat : directoriesAmong denied p entries =
      entries.flatMap fun x ↦ directoriesBelow denied (p.child x.1) x.2 := by
    clear hnodup
    induction entries with
    | nil => rfl
    | cons x rest ih => rw [directoriesAmong, List.flatMap_cons, ih]
  rw [hflat, List.flatMap_map]
  refine List.flatMap_congr fun x hx ↦ ?_
  rw [lookup_eq_some_of_mem hnodup hx]

/-- The same real directories lie below corresponding entries. -/
theorem directoriesBelow {good : Location → Prop} {e e' : Entry} (hshape : SameShape e e')
    (hdistinct : e.Named List.Nodup)
    (hgood : ∀ rest inner, e.find? rest = some (.directory inner) → good (place ++ rest)) :
    SamePlaces base base' good
      (FileSystem.directoriesBelow fs.denied.contains (base.down place) e)
      (FileSystem.directoriesBelow fs'.denied.contains (base'.down place) e') := by
  induction hdistinct generalizing place e' with
  | file bytes =>
      cases hshape.sameKind with
      | file => exact .nil
  | link target =>
      cases hshape.sameKind with
      | link => exact .nil
  | special reading =>
      cases hshape.sameKind with
      | special => exact .nil
  | @directory entries hnodup _ ih =>
      obtain ⟨entries', rfl⟩ := hshape.exists_directory
      have hnodup' : (entries'.map (·.1)).Nodup := hshape.names.nodup_iff.mp hnodup
      have hself : good place := by
        simpa using hgood [] entries (Entry.find?_nil _)
      rw [FileSystem.directoriesBelow, FileSystem.directoriesBelow, h.denied place]
      refine .cons hself ?_
      split
      · exact .nil
      · rw [directoriesAmong_eq_flatMap hnodup, directoriesAmong_eq_flatMap hnodup']
        refine .flatMap hshape.names fun name _ ↦ ?_
        have hname := hshape.lookup name
        revert hname
        generalize hlookup : entries.lookup name = found, entries'.lookup name = found'
        rintro (he | _)
        · next inner _ =>
          rw [Path.child_down, Path.child_down]
          refine ih (name, inner) (mem_of_lookup_eq_some hlookup) he fun rest held hheld ↦ ?_
          rw [List.append_assoc, List.singleton_append]
          exact hgood (name :: rest) held (by
            rw [Entry.find?_directory_cons, hlookup, Option.bind_some, hheld])
        · exact .nil

theorem directoriesFrom (hplace : reach.entered place) :
    SamePlaces base base'
      (fun dir ↦ reach.entered dir ∧ isOverlong (base.down dir) = isOverlong (base'.down dir))
      (fs.directoriesFrom (base.down place)) (fs'.directoriesFrom (base'.down place)) := by
  rw [FileSystem.directoriesFrom, FileSystem.directoriesFrom]
  rcases (h.stat place (h.self place hplace)).outcomes with
    ⟨e, _, hstat, hstat', rfl⟩ | ⟨e, e', hstat, hstat', he⟩
  · rw [hstat, hstat']
    exact .nil
  · rw [hstat, hstat']
    exact h.directoriesBelow he (named_of_stat h.sound.distinct hstat) fun rest inner hinner ↦
      ⟨h.below place rest e inner hplace hstat hinner,
        h.overlong place rest e _ hplace hstat hinner⟩

omit h in
/-- Steps that lead to the same places, each, lead to the same places together, in whatever order they
are taken. -/
theorem mapM_flatten {α β γ : Type} {good : Location → Prop} {xs : List α} {ys : List β}
    {zs : List γ} {a : γ → α} {b : γ → β} {f : α → Except Failure (List Path)}
    {g : β → Except Failure (List Path)} (hxs : xs.Perm (zs.map a)) (hys : ys.Perm (zs.map b))
    (hfg : ∀ z ∈ zs, Together (SamePlaces base base' good) (f (a z)) (g (b z))) :
    Together (SamePlaces base base' good) (do return (← xs.mapM f).flatten)
      (do return (← ys.mapM g).flatten) := by
  have hpairs : Together (List.Forall₂ (SamePlaces base base' good)) ((zs.map a).mapM f)
      ((zs.map b).mapM g) := by
    refine Together.mapM (List.forall₂_map_left_iff.mpr (List.forall₂_map_right_iff.mpr ?_))
    exact List.forall₂_same.mpr hfg
  refine ((Together.mapM_perm hxs f).trans (hpairs.trans (Together.mapM_perm hys.symm g))).bind ?_
  rintro found found' ⟨first, hfirst, between, hbetween, hfound'⟩
  refine .pure (((SamePlaces.flatten hbetween).perm_left hfirst.flatten).perm_right ?_)
  exact hfound'.flatten

omit h in
/-- A step that is only taken if both sides answer a question with yes. -/
theorem bind_ite {good : Location → Prop} {ask ask' : Except Failure Bool}
    {x y : Except Failure (List Path)} (hask : Together Eq ask ask')
    (hxy : ask = .ok true → Together (SamePlaces base base' good) x y) :
    Together (SamePlaces base base' good) (do if ← ask then x else return [])
      (do if ← ask' then y else return []) := by
  refine hask.bind_of_ok ?_
  rintro answer _ hanswer - rfl
  cases answer with
  | true => exact hxy hanswer
  | false => exact .pure .nil

theorem expandSteps {steps : List Step} (hnames : ∀ name, .exact name ∈ steps → reach.named name)
    (hlooked : reach.looked place) (hentered : steps ≠ [] → reach.entered place) :
    Together (SamePlaces base base' reach.looked) (fs.expandSteps steps (base.down place))
      (fs'.expandSteps steps (base'.down place)) := by
  induction steps generalizing place with
  | nil => exact .ok (.singleton hlooked)
  | cons step rest ih =>
      have hplace := hentered (by simp)
      have hrest : ∀ name, .exact name ∈ rest → reach.named name := fun name hname ↦
        hnames name (List.mem_cons_of_mem step hname)
      cases step with
      | exact name =>
          have hchild := h.child place name hplace (hnames name List.mem_cons_self)
          rw [FileSystem.expandSteps, FileSystem.expandSteps, Path.child_down, Path.child_down]
          refine bind_ite (h.passes _ hchild) fun hpasses ↦ ih hrest hchild fun hne ↦ ?_
          rw [List.isEmpty_eq_false_iff.mpr hne] at hpasses
          exact h.entered_of_passes hchild hpasses
      | wild tokens =>
          rw [FileSystem.expandSteps, FileSystem.expandSteps]
          refine (h.fittingNames hplace).bind_of_ok fun names names' hgiven _ hperm ↦ ?_
          refine mapM_flatten (a := id) (b := id) (by rw [List.map_id])
            (by rw [List.map_id]; exact hperm.symm) fun name hname ↦ ?_
          have hchild := h.child place name hplace
            (h.proper name (properName_of_fittingNames h.sound.wellFormed hgiven hname))
          rw [Path.child_down, Path.child_down]
          refine bind_ite (h.admits _ hchild) fun hadmits ↦ ih hrest hchild fun hne ↦ ?_
          rw [List.isEmpty_eq_false_iff.mpr hne] at hadmits
          exact h.entered_of_admits hchild hadmits
      | anyDepth =>
          rw [FileSystem.expandSteps, FileSystem.expandSteps]
          obtain ⟨dirs, hdirs, hdirs', hbelow⟩ := h.directoriesFrom hplace
          refine mapM_flatten hdirs hdirs' fun dir hdir ↦ ?_
          obtain ⟨hentered, hoverlong⟩ := hbelow dir hdir
          refine .ite (by simp [Path.down, Nat.add_assoc]) (fun _ ↦ .error trivial) fun _ ↦ ?_
          refine (ih hrest (h.self dir hentered) fun _ ↦ hentered).bind fun _ _ hfound ↦ ?_
          exact .ite (by rw [hoverlong]) (fun _ ↦ .error trivial) fun _ ↦ .pure hfound

/-- A pattern stands for the same places below both directories, in the same order. -/
theorem expand {pattern : String} (hself : reach.looked [])
    (hnames : ∀ name ∈ (Path.ofText pattern).parts, reach.named name) :
    Together (fun ps ps' ↦ ∃ places : List Location, ps = places.map base.down ∧
        ps' = places.map base'.down ∧ ∀ place ∈ places, reach.looked place)
      (fs.expand base pattern) (fs'.expand base' pattern) := by
  rw [FileSystem.expand, FileSystem.expand]
  refine (Together.self _).bind_of_ok ?_
  rintro steps _ hsteps - rfl
  have hreaches := h.reaches true hself
  rw [Path.down_nil, Path.down_nil] at hreaches
  refine hreaches.bind_of_ok ?_
  rintro answer _ hanswer - rfl
  cases answer with
  | false => exact .pure ⟨[], rfl, rfl, by simp⟩
  | true =>
      have hentered := h.entered_of_reaches hself (by rwa [Path.down_nil])
      have hexact : ∀ name, .exact name ∈ steps → reach.named name := fun name hname ↦
        hnames name (mem_parts_of_exact_mem hsteps hname)
      have hfound := h.expandSteps hexact hself fun _ ↦ hentered
      rw [Path.down_nil, Path.down_nil] at hfound
      exact hfound.bind fun _ _ hplaces ↦ .pure hplaces.mergeSort

end Counterparts

end FileSystem

end Dossier

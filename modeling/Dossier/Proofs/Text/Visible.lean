import Dossier.Proofs.Text.OneLine
import Dossier.Proofs.Text.Runs
import Dossier.Proofs.Text.Split
import Mathlib.Data.List.Forall2

/-!
# Visible characters

The characters of a text that are not blank. Stripping a text and aligning it to the left take away
blanks only, so its visible characters stay, and its last one stays the last character of all.
-/

namespace Dossier.Text

/-- The characters that are not blank. -/
def visibleChars (cs : List Char) : List Char :=
  cs.filter (!isBlank ·)

/-- The characters of a text that are not blank. -/
def visible (s : String) : List Char :=
  visibleChars s.toList

/-! ## Characters -/

section

variable {cs : List Char} {c : Char}

theorem visibleChars_append (a b : List Char) :
    visibleChars (a ++ b) = visibleChars a ++ visibleChars b :=
  List.filter_append ..

theorem visibleChars_eq_nil_iff : visibleChars cs = [] ↔ ∀ c ∈ cs, isBlank c = true := by
  simp [visibleChars]

/-- Blanks at the start are not visible. -/
theorem visibleChars_dropWhile {p : Char → Bool} (hp : ∀ c, p c = true → isBlank c = true)
    (cs : List Char) : visibleChars (cs.dropWhile p) = visibleChars cs := by
  have hblank : visibleChars (cs.takeWhile p) = [] :=
    visibleChars_eq_nil_iff.mpr fun c hc ↦ hp c (List.mem_takeWhile_imp hc)
  have hsplit := visibleChars_append (cs.takeWhile p) (cs.dropWhile p)
  rw [List.takeWhile_append_dropWhile, hblank] at hsplit
  exact hsplit.symm

theorem visibleChars_trimEndChars (cs : List Char) :
    visibleChars (trimEndChars isBlank cs) = visibleChars cs := by
  have hreverse (ds : List Char) : visibleChars ds.reverse = (visibleChars ds).reverse :=
    List.filter_reverse ..
  rw [trimEndChars, hreverse, visibleChars_dropWhile (fun _ ↦ id), hreverse, List.reverse_reverse]

theorem visibleChars_stripChars (cs : List Char) :
    visibleChars (stripChars cs) = visibleChars cs := by
  rw [stripChars, visibleChars_trimEndChars, visibleChars_dropWhile fun _ ↦ id]

/-- A last character that is visible is the last one that is. -/
theorem getLast?_visibleChars (h : ∀ c ∈ cs.getLast?, isBlank c = false) :
    (visibleChars cs).getLast? = cs.getLast? := by
  rcases List.eq_nil_or_concat cs with rfl | ⟨front, last, rfl⟩
  · rfl
  · rw [List.concat_eq_append] at h ⊢
    have hlast : isBlank last = false := h last (by simp)
    simp [visibleChars, hlast]

theorem getLast?_stripChars (cs : List Char) :
    (stripChars cs).getLast? = (visibleChars cs).getLast? := by
  rw [← visibleChars_stripChars, getLast?_visibleChars]
  intro c hc
  have hne : stripChars cs ≠ [] := by
    rintro hnil
    rw [hnil] at hc
    simp at hc
  have hlast := List.rdropWhile_last_not isBlank (cs.dropWhile isBlank) hne
  rw [List.getLast?_eq_some_getLast hne, Option.mem_some_iff] at hc
  rw [← hc]
  exact Bool.eq_false_iff.mpr hlast

/-- Blanks behind a text are stripped with it. -/
theorem stripChars_append {blanks : List Char} (h : ∀ c ∈ blanks, isBlank c = true) :
    stripChars (cs ++ blanks) = stripChars cs := by
  by_cases hall : ∀ c ∈ cs, isBlank c = true
  · rw [stripChars_eq_nil_iff.mpr hall, stripChars_eq_nil_iff]
    exact List.forall_mem_append.mpr ⟨hall, h⟩
  · have hkept : (cs.dropWhile isBlank).isEmpty = false := by
      rw [List.isEmpty_eq_false_iff, ne_eq, List.dropWhile_eq_nil_iff]
      exact hall
    have hblanks : ∀ c ∈ blanks.reverse, isBlank c = true :=
      fun c hc ↦ h c (List.mem_reverse.mp hc)
    rw [stripChars, stripChars, List.dropWhile_append, hkept, if_neg Bool.false_ne_true,
      trimEndChars, trimEndChars, List.reverse_append, List.dropWhile_append_of_pos hblanks]

end

/-! ## Texts -/

theorem visible_append (a b : String) : visible (a ++ b) = visible a ++ visible b := by
  rw [visible, String.toList_append, visibleChars_append, visible, visible]

theorem visible_eq_nil_iff {s : String} : visible s = [] ↔ allBlank s = true := by
  rw [visible, visibleChars_eq_nil_iff, allBlank, List.all_eq_true]

theorem visible_strip (s : String) : visible (strip s) = visible s := by
  rw [visible, strip, String.toList_ofList, visibleChars_stripChars, visible]

theorem visible_stripEnd (s : String) : visible (stripEnd s) = visible s := by
  rw [visible, stripEnd, trimEnd, String.toList_ofList, visibleChars_trimEndChars, visible]

theorem strip_append {a b : String} (h : allBlank b = true) : strip (a ++ b) = strip a := by
  rw [allBlank, List.all_eq_true] at h
  rw [strip, String.toList_append, stripChars_append h, strip]

theorem visible_joinLines (ls : List String) : visible (joinLines ls) = ls.flatMap visible := by
  induction ls with
  | nil => rfl
  | cons line rest ih =>
      cases rest with
      | nil => simp [joinLines]
      | cons next rest =>
          have hfeed : visible "\n" = [] := rfl
          rw [joinLines, String.intercalate_cons_cons, visible_append, visible_append, hfeed,
            List.append_nil, ← joinLines, ih]
          rfl

/-! ## Alignment -/

/-- A line without some of the blanks at its start. -/
def Aligned (line line' : String) : Prop :=
  ∃ blanks, line.toList = blanks ++ line'.toList ∧ ∀ c ∈ blanks, isBlank c = true

namespace Aligned

variable {line line' : String}

theorem refl (line : String) : Aligned line line :=
  ⟨[], rfl, by simp⟩

theorem drop {n : Nat} (h : n ≤ (line.toList.takeWhile fun c ↦ c == ' ' || c == '\t').length) :
    Aligned line (drop n line) := by
  refine ⟨line.toList.take n, ?_, fun c hc ↦ ?_⟩
  · rw [Text.drop, String.toList_ofList, List.take_append_drop]
  · have hbegins : line.toList.take n <+:
        line.toList.takeWhile fun c ↦ c == ' ' || c == '\t' :=
      List.prefix_of_prefix_length_le (List.take_prefix ..) (List.takeWhile_prefix _)
        ((List.length_take_le ..).trans h)
    have hc' := List.mem_takeWhile_imp (hbegins.subset hc)
    simp only [Bool.or_eq_true, beq_iff_eq] at hc'
    rcases hc' with rfl | rfl <;> decide

theorem visible_eq (h : Aligned line line') : visible line' = visible line := by
  obtain ⟨blanks, hline, hblanks⟩ := h
  rw [visible, visible, hline, visibleChars_append, visibleChars_eq_nil_iff.mpr hblanks,
    List.nil_append]

theorem getLast?_eq (h : Aligned line line')
    (hlast : ∀ c ∈ line.toList.getLast?, isBlank c = false) :
    line'.toList.getLast? = line.toList.getLast? := by
  obtain ⟨blanks, hline, hblanks⟩ := h
  rw [hline, List.getLast?_append] at hlast ⊢
  cases hlast' : line'.toList.getLast? with
  | some c => rfl
  | none =>
      cases hblank : blanks.getLast? with
      | none => rfl
      | some c =>
          have hvisible : isBlank c = false := hlast c (by rw [hlast', hblank]; rfl)
          rw [hblanks c (List.mem_of_getLast? hblank)] at hvisible
          exact absurd hvisible (by decide)

end Aligned

theorem visible_joinLines_aligned {ls ls' : List String} (h : List.Forall₂ Aligned ls ls') :
    visible (joinLines ls') = visible (joinLines ls) := by
  rw [visible_joinLines, visible_joinLines]
  induction h with
  | nil => rfl
  | cons hline _ ih => rw [List.flatMap_cons, List.flatMap_cons, hline.visible_eq, ih]

theorem getLast?_joinLines_cons (line next : String) (rest : List String) :
    (joinLines (line :: next :: rest)).toList.getLast? =
      some ((joinLines (next :: rest)).toList.getLast?.getD '\n') := by
  have hfeed : "\n".toList = ['\n'] := rfl
  rw [joinLines, String.intercalate_cons_cons, String.toList_append, String.toList_append,
    List.append_assoc, hfeed, List.singleton_append, List.getLast?_append, List.getLast?_cons]
  rfl

/-- A last character that is visible stays where it is, since no line has lost it. -/
theorem getLast?_joinLines_aligned {ls ls' : List String} (h : List.Forall₂ Aligned ls ls')
    (hlast : ∀ c ∈ (joinLines ls).toList.getLast?, isBlank c = false) :
    (joinLines ls').toList.getLast? = (joinLines ls).toList.getLast? := by
  induction h with
  | nil => rfl
  | cons hline hrest ih =>
      cases hrest with
      | nil => simpa [joinLines] using hline.getLast?_eq (by simpa [joinLines] using hlast)
      | cons hnext hrest =>
          rw [getLast?_joinLines_cons] at hlast
          rw [getLast?_joinLines_cons, getLast?_joinLines_cons, ih]
          intro c hc
          exact hlast c (by rw [Option.mem_def.mp hc]; rfl)

theorem dedentTail_aligned (column : Nat) (s : String) : ∃ ls ls', joinLines ls = s ∧
    joinLines ls' = dedentTail column s ∧ List.Forall₂ Aligned ls ls' := by
  obtain ⟨head, tail, h⟩ := List.exists_cons_of_ne_nil (physicalLines_ne_nil s)
  have hjoin := joinLines_physicalLines s
  refine ⟨_, _, h ▸ hjoin, (by rw [dedentTail, h]), .cons (.refl head) ?_⟩
  rw [List.forall₂_map_right_iff, List.forall₂_same]
  exact fun line _ ↦ .drop (Nat.min_le_right ..)

theorem visible_dedentTail (column : Nat) (s : String) :
    visible (dedentTail column s) = visible s := by
  obtain ⟨ls, ls', hs, haligned, h⟩ := dedentTail_aligned column s
  rw [← haligned, visible_joinLines_aligned h, hs]

theorem getLast?_dedentTail {s : String} (h : ∀ c ∈ s.toList.getLast?, isBlank c = false)
    (column : Nat) : (dedentTail column s).toList.getLast? = s.toList.getLast? := by
  obtain ⟨ls, ls', hs, haligned, h'⟩ := dedentTail_aligned column s
  rw [← haligned, getLast?_joinLines_aligned h' (by rwa [hs]), hs]

/-- A text that is stripped and aligned ends with its last visible character. -/
theorem getLast?_dedentTail_strip (column : Nat) (s : String) :
    (dedentTail column (strip s)).toList.getLast? = (visible s).getLast? := by
  have hlast : (strip s).toList.getLast? = (visible s).getLast? := by
    rw [strip, String.toList_ofList, getLast?_stripChars, visible]
  rw [getLast?_dedentTail (fun c hc ↦ ?_), hlast]
  rw [hlast] at hc
  simpa using (List.mem_filter.mp (List.mem_of_getLast? hc)).2

end Dossier.Text

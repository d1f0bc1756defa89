import Dossier.Text.Lines
import Mathlib.Data.List.Infix

/-!
# Splitting

A text that is joined with separators has the pieces of its parts, and a text that is cut off has the
pieces it had, the last one cut.
-/

namespace Dossier.Text

/-! ## Characters -/

section

variable {p : Char → Bool}

theorem splitChars_cons (c : Char) (cs : List Char) : ∃ piece rest, splitChars p cs = piece :: rest ∧
    splitChars p (c :: cs) = if p c then [] :: piece :: rest else (c :: piece) :: rest := by
  obtain ⟨piece, rest, h⟩ := List.exists_cons_of_ne_nil (splitChars_ne_nil p cs)
  refine ⟨piece, rest, h, ?_⟩
  rw [splitChars, List.foldr_cons, ← splitChars, h]

theorem splitChars_eq_splitOnP (cs : List Char) : splitChars p cs = cs.splitOnP p := by
  induction cs with
  | nil => rfl
  | cons c cs ih =>
      obtain ⟨piece, rest, hpieces, hcons⟩ := splitChars_cons (p := p) c cs
      rw [hcons, List.splitOnP_cons_eq_if_modifyHead, ← ih, hpieces]
      rfl

theorem splitChars_of_forall_not {cs : List Char} (h : ∀ c ∈ cs, p c = false) :
    splitChars p cs = [cs] := by
  rw [splitChars_eq_splitOnP, List.splitOnP_eq_singleton h]

theorem splitChars_append {sep : Char} (hsep : p sep = true) (a b : List Char) :
    splitChars p (a ++ sep :: b) = splitChars p a ++ splitChars p b := by
  rw [splitChars_eq_splitOnP, splitChars_eq_splitOnP, splitChars_eq_splitOnP,
    List.splitOnP_append_cons a b hsep]

theorem not_mem_of_mem_splitChars {cs piece : List Char} (h : piece ∈ splitChars p cs) :
    ∀ c ∈ piece, p c = false := by
  induction cs generalizing piece with
  | nil =>
      obtain rfl : piece = [] := by simpa using h
      simp
  | cons c cs ih =>
      obtain ⟨first, rest, hpieces, hcons⟩ := splitChars_cons (p := p) c cs
      rw [hpieces] at ih
      rw [hcons] at h
      cases hc : p c with
      | true =>
          rw [hc, if_pos rfl] at h
          rcases List.mem_cons.mp h with rfl | h
          · simp
          · exact ih h
      | false =>
          rw [hc, if_neg Bool.false_ne_true] at h
          rcases List.mem_cons.mp h with rfl | h
          · exact List.forall_mem_cons.mpr ⟨hc, ih List.mem_cons_self⟩
          · exact ih (List.mem_cons_of_mem first h)

theorem isInfix_of_mem_splitChars {cs piece : List Char} (h : piece ∈ splitChars p cs) :
    piece <:+: cs := by
  -- The first piece may still grow to the left, so it has to be known as a beginning of the text.
  suffices hall : (∀ first rest, splitChars p cs = first :: rest → first <+: cs) ∧
      ∀ piece ∈ splitChars p cs, piece <:+: cs from hall.2 piece h
  clear h
  induction cs with
  | nil => simp
  | cons c cs ih =>
      obtain ⟨hfirst, hall⟩ := ih
      obtain ⟨piece, rest, hcs, hcons⟩ := splitChars_cons (p := p) c cs
      have hrest : ∀ other ∈ piece :: rest, other <:+: c :: cs := fun other hother ↦
        (hall other (hcs ▸ hother)).trans (List.suffix_cons c cs).isInfix
      have hbegins : c :: piece <+: c :: cs := (List.prefix_cons_inj c).mpr (hfirst _ _ hcs)
      rw [hcons]
      split
      · refine ⟨?_, List.forall_mem_cons.mpr ⟨List.nil_infix, hrest⟩⟩
        rintro first others h
        obtain ⟨rfl, rfl⟩ := List.cons.inj h
        exact List.nil_prefix
      · refine ⟨?_, List.forall_mem_cons.mpr ⟨hbegins.isInfix, fun other hother ↦
          hrest other (List.mem_cons_of_mem piece hother)⟩⟩
        rintro first others h
        obtain ⟨rfl, rfl⟩ := List.cons.inj h
        exact hbegins

/-- Of the pieces of a text that is cut off, no more are as asked if only the beginning of a piece
counts. -/
theorem countP_splitChars_append_le (asked : List Char → Bool)
    (hasked : ∀ a b, asked a = true → asked (a ++ b) = true) (a b : List Char) :
    (splitChars p a).countP asked ≤ (splitChars p (a ++ b)).countP asked := by
  have hle {first first' : List Char} {rest rest' : List (List Char)} (hbegins : first <+: first')
      (hrest : rest.countP asked ≤ rest'.countP asked) :
      (first :: rest).countP asked ≤ (first' :: rest').countP asked := by
    obtain ⟨more, rfl⟩ := hbegins
    have hfirst := hasked first more
    rw [List.countP_cons, List.countP_cons]
    cases hasks : asked first with
    | false => simpa using Nat.le_add_right_of_le hrest
    | true => simpa [hfirst hasks] using hrest
  -- The first pieces are kept apart: both may still grow, the one as a beginning of the other.
  suffices h : ∃ first rest first' rest', splitChars p a = first :: rest ∧
      splitChars p (a ++ b) = first' :: rest' ∧ first <+: first' ∧
        rest.countP asked ≤ rest'.countP asked by
    obtain ⟨first, rest, first', rest', ha, hb, hbegins, hrest⟩ := h
    rw [ha, hb]
    exact hle hbegins hrest
  induction a with
  | nil =>
      obtain ⟨first, rest, hb⟩ := List.exists_cons_of_ne_nil (splitChars_ne_nil p b)
      exact ⟨[], [], first, rest, rfl, hb, List.nil_prefix, Nat.zero_le _⟩
  | cons c a ih =>
      obtain ⟨first, rest, first', rest', ha, hb, hbegins, hrest⟩ := ih
      obtain ⟨_, _, ha', hcons⟩ := splitChars_cons (p := p) c a
      obtain ⟨_, _, hb', hcons'⟩ := splitChars_cons (p := p) c (a ++ b)
      obtain ⟨rfl, rfl⟩ := List.cons.inj (ha.symm.trans ha')
      obtain ⟨rfl, rfl⟩ := List.cons.inj (hb.symm.trans hb')
      rw [List.cons_append, hcons, hcons']
      split
      · exact ⟨_, _, _, _, rfl, rfl, List.prefix_rfl, hle hbegins hrest⟩
      · exact ⟨_, _, _, _, rfl, rfl, (List.prefix_cons_inj c).mpr hbegins, hrest⟩

end

/-! ## Texts -/

variable {sep : Char}

theorem split_singleton {s : String} (h : sep ∉ s.toList) : split sep s = [s] := by
  have hchars : ∀ c ∈ s.toList, (c == sep) = false := by
    intro c hc
    rw [beq_eq_false_iff_ne]
    rintro rfl
    exact h hc
  rw [split, splitChars_of_forall_not hchars]
  simp

theorem split_append (a b : String) :
    split sep (a ++ String.singleton sep ++ b) = split sep a ++ split sep b := by
  have hchars : (a ++ String.singleton sep ++ b).toList = a.toList ++ sep :: b.toList := by
    simp
  rw [split, hchars, splitChars_append (p := (· == sep)) (beq_self_eq_true sep), List.map_append]
  rfl

theorem split_intercalate {parts : List String} (hne : parts ≠ []) :
    split sep (String.intercalate (String.singleton sep) parts) = parts.flatMap (split sep) := by
  induction parts with
  | nil => exact absurd rfl hne
  | cons s rest ih =>
      cases rest with
      | nil => simp
      | cons next rest =>
          rw [String.intercalate_cons_cons, split_append, ih (List.cons_ne_nil next rest)]
          rfl

theorem not_mem_of_mem_split {s part : String} (h : part ∈ split sep s) : sep ∉ part.toList := by
  obtain ⟨piece, hpiece, rfl⟩ := List.mem_map.mp h
  intro hmem
  have := not_mem_of_mem_splitChars hpiece sep (by simpa using hmem)
  simp at this

/-- Texts without a separator are found again between separators. -/
theorem split_intercalate_of_not_mem {parts : List String} (hne : parts ≠ [])
    (h : ∀ s ∈ parts, sep ∉ s.toList) :
    split sep (String.intercalate (String.singleton sep) parts) = parts := by
  have hpieces : parts.map (split sep) = parts.map fun s ↦ [s] :=
    List.map_congr_left fun s hs ↦ split_singleton (h s hs)
  rw [split_intercalate hne, List.flatMap_def, hpieces, ← List.flatMap_def,
    List.flatMap_singleton']

theorem physicalLines_append (a b : String) :
    physicalLines (a ++ "\n" ++ b) = physicalLines a ++ physicalLines b :=
  split_append a b

theorem physicalLines_joinLines {ls : List String} (hne : ls ≠ []) :
    physicalLines (joinLines ls) = ls.flatMap physicalLines :=
  split_intercalate hne

theorem physicalLines_ne_nil (s : String) : physicalLines s ≠ [] := by
  rw [physicalLines, split, ne_eq, List.map_eq_nil_iff]
  exact splitChars_ne_nil _ _

theorem joinLines_physicalLines (s : String) : joinLines (physicalLines s) = s := by
  have hjoin : ['\n'].intercalate (s.toList.splitOn '\n') = s.toList :=
    List.intercalate_splitOn '\n'
  rw [← String.toList_inj, joinLines, String.toList_intercalate, physicalLines, split,
    splitChars_eq_splitOnP, List.map_map]
  simpa [List.splitOn] using hjoin

theorem physicalLines_indentLines {pad : String} (hpad : '\n' ∉ pad.toList) (s : String) :
    physicalLines (indentLines pad s) = (physicalLines s).map (pad ++ ·) := by
  refine split_intercalate_of_not_mem (by simpa using physicalLines_ne_nil s) fun line hline ↦ ?_
  obtain ⟨part, hpart, rfl⟩ := List.mem_map.mp hline
  rw [String.toList_append, List.mem_append, not_or]
  exact ⟨hpad, not_mem_of_mem_split hpart⟩

end Dossier.Text

import Dossier.Proofs.Text.Lines
import Mathlib.Data.List.TakeWhile

/-!
# Where lines stand in a text

The lines of a text are the stretches between two ends of lines that lie next to each other, and the
number of a line is the number of ends before it.
-/

namespace Dossier.Text

variable {p : Char → Bool} {cs before line : List Char} {c : Char} {k : Nat}

/-- A stretch of a text, behind `before`, that reaches from one end of a line or the start of the text
to the next end of a line or the end of the text. -/
structure IsLineAt (p : Char → Bool) (cs before line : List Char) : Prop where
  begins : ∀ c ∈ before.getLast?, p c = true
  whole : ∀ c ∈ line, p c = false
  stops : ∃ after, cs = before ++ line ++ after ∧ ∀ c ∈ after.head?, p c = true

theorem IsLineAt.cons (h : IsLineAt p cs before line) (hne : before ≠ [] ∨ p c = true) :
    IsLineAt p (c :: cs) (c :: before) line := by
  obtain ⟨hbegins, hwhole, after, rfl, hafter⟩ := h
  refine ⟨fun d hd ↦ ?_, hwhole, after, rfl, hafter⟩
  cases before with
  | nil =>
      obtain rfl : c = d := by simpa using hd
      simpa using hne
  | cons first rest => exact hbegins d (by simpa using hd)

theorem IsLineAt.eq_nil (h : IsLineAt p cs before line) (hcount : before.countP p = 0) :
    before = [] := by
  rw [List.countP_eq_zero] at hcount
  rw [← List.getLast?_eq_none_iff, Option.eq_none_iff_forall_not_mem]
  intro c hc
  exact hcount c (List.mem_of_getLast? hc) (h.begins c hc)

theorem IsLineAt.cons_line (h : IsLineAt p cs [] line) (hc : p c = false) :
    IsLineAt p (c :: cs) [] (c :: line) := by
  obtain ⟨hbegins, hwhole, after, rfl, hafter⟩ := h
  exact ⟨hbegins, List.forall_mem_cons.mpr ⟨hc, hwhole⟩, after, rfl, hafter⟩

theorem exists_isLineAt_of_getElem? (h : (splitChars p cs)[k]? = some line) :
    ∃ before, IsLineAt p cs before line ∧ before.countP p = k := by
  induction cs generalizing k line with
  | nil =>
      obtain ⟨rfl, rfl⟩ : k = 0 ∧ [] = line := by simpa [List.getElem?_singleton] using h
      exact ⟨[], ⟨by simp, by simp, [], rfl, by simp⟩, rfl⟩
  | cons c cs ih =>
      obtain ⟨piece, rest, hpieces, hcons⟩ := splitChars_cons (p := p) c cs
      rw [hpieces] at ih
      rw [hcons] at h
      cases hc : p c with
      | true =>
          rw [hc, if_pos rfl] at h
          cases k with
          | zero =>
              obtain rfl : [] = line := Option.some_inj.mp h
              exact ⟨[], ⟨by simp, by simp, c :: cs, rfl, by simpa using hc⟩, rfl⟩
          | succ k =>
              obtain ⟨before, hline, hcount⟩ := ih h
              exact ⟨c :: before, hline.cons (.inr hc), by rw [List.countP_cons_of_pos hc, hcount]⟩
      | false =>
          rw [hc, if_neg Bool.false_ne_true] at h
          cases k with
          | zero =>
              obtain rfl : c :: piece = line := Option.some_inj.mp h
              obtain ⟨before, hline, hcount⟩ := ih (k := 0) rfl
              obtain rfl := hline.eq_nil hcount
              exact ⟨[], hline.cons_line hc, rfl⟩
          | succ k =>
              obtain ⟨before, hline, hcount⟩ := ih (k := k + 1) h
              refine ⟨c :: before, hline.cons (.inl ?_), ?_⟩
              · rintro rfl
                simp at hcount
              · rw [List.countP_cons_of_neg (by simp [hc]), hcount]

theorem length_splitChars (p : Char → Bool) (cs : List Char) :
    (splitChars p cs).length = cs.countP p + 1 := by
  induction cs with
  | nil => rfl
  | cons c cs ih =>
      obtain ⟨piece, rest, hpieces, hcons⟩ := splitChars_cons (p := p) c cs
      rw [hpieces, List.length_cons] at ih
      rw [hcons, List.countP_cons]
      split <;> simp only [List.length_cons] <;> omega

theorem IsLineAt.getElem?_eq (h : IsLineAt p cs before line) :
    (splitChars p cs)[before.countP p]? = some line := by
  obtain ⟨hbegins, hwhole, after, rfl, hafter⟩ := h
  have hfirst : (splitChars p (line ++ after))[0]? = some line := by
    cases after with
    | nil => rw [List.append_nil, splitChars_of_forall_not hwhole, List.getElem?_cons_zero]
    | cons c after =>
        rw [splitChars_append (hafter c rfl), splitChars_of_forall_not hwhole]
        rfl
  rcases List.eq_nil_or_concat before with rfl | ⟨front, c, rfl⟩
  · exact hfirst
  · have hc : p c = true := hbegins c (by simp)
    rw [List.concat_eq_append, List.countP_append, List.countP_singleton, if_pos hc,
      List.append_assoc, List.append_assoc, List.singleton_append, splitChars_append hc,
      ← length_splitChars, List.getElem?_append_right (Nat.le_refl _), Nat.sub_self, hfirst]

/-- With fewer characters that end lines, a line goes on to the next of those that are left. -/
theorem IsLineAt.exists_longer {q : Char → Bool} (h : IsLineAt p cs before line)
    (hsub : ∀ c, q c = true → p c = true) (hbefore : ∀ c ∈ before, p c = true → q c = true) :
    ∃ longer, line <+: longer ∧ IsLineAt q cs before longer := by
  obtain ⟨hbegins, hwhole, after, rfl, -⟩ := h
  refine ⟨line ++ after.takeWhile fun c ↦ !q c, List.prefix_append .., fun c hc ↦ ?_, fun c hc ↦ ?_,
    after.dropWhile fun c ↦ !q c, ?_, fun c hc ↦ ?_⟩
  · exact hbefore c (List.mem_of_getLast? hc) (hbegins c hc)
  · rcases List.mem_append.mp hc with hc | hc
    · rw [← Bool.not_eq_true]
      exact fun hq ↦ Bool.false_ne_true ((hwhole c hc).symm.trans (hsub c hq))
    · simpa using List.mem_takeWhile_imp hc
  · simp only [List.append_assoc, List.takeWhile_append_dropWhile]
  · have hstops := List.head?_dropWhile_not (fun c ↦ !q c) after
    rw [Option.mem_def.mp hc] at hstops
    simpa using hstops

/-! ## Lines of a text -/

theorem mergeReturns_of_not_mem (h : '\r' ∉ cs) : mergeReturns cs = cs := by
  induction cs with
  | nil => rfl
  | cons c cs ih =>
      rw [List.mem_cons, not_or] at h
      rw [mergeReturns, List.foldr_cons, ← mergeReturns, ih h.2, if_neg (Ne.symm h.1)]

theorem prefix_dropFinalEmpty (pieces : List (List Char)) : dropFinalEmpty pieces <+: pieces := by
  rw [dropFinalEmpty]
  split
  · exact List.dropLast_prefix pieces
  · exact List.prefix_rfl

/-- Without carriage returns, the lines of a text stand where its characters that end lines say. -/
theorem exists_isLineAt_of_lines {s line : String} (h : '\r' ∉ s.toList)
    (hline : (lines s)[k]? = some line) :
    ∃ before, IsLineAt isLineEnd s.toList before line.toList ∧ before.countP isLineEnd = k := by
  rw [lines, linesChars, mergeReturns_of_not_mem h, List.getElem?_map, Option.map_eq_some_iff]
    at hline
  obtain ⟨piece, hpiece, rfl⟩ := hline
  obtain ⟨hk, rfl⟩ := List.getElem?_eq_some_iff.mp hpiece
  rw [String.toList_ofList]
  exact exists_isLineAt_of_getElem? (List.prefix_iff_getElem?.mp (prefix_dropFinalEmpty _) k hk)

theorem IsLineAt.physicalLines_getElem? {s : String}
    (h : IsLineAt (· == '\n') s.toList before line) :
    (physicalLines s)[before.count '\n']? = some (String.ofList line) := by
  rw [physicalLines, split, List.getElem?_map, List.count, h.getElem?_eq, Option.map_some]

end Dossier.Text

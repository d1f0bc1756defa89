import Dossier.Proofs.Text.Split

/-!
# Lines of joined texts

A text whose last character ends no line has its lines on its own when a line feed and another text
come behind it.
-/

namespace Dossier.Text

variable {a b : List Char} {c d : Char} {cs tail : List Char}

theorem mergeReturns_singleton (c : Char) : mergeReturns [c] = [c] := by
  rw [mergeReturns, List.foldr_cons]
  split <;> rfl

theorem mergeReturns_cons_of_eq (h : mergeReturns cs = d :: tail) :
    mergeReturns (c :: cs) = if c = '\r' ∧ d = '\n' then c :: tail else c :: d :: tail := by
  rw [mergeReturns, List.foldr_cons, ← mergeReturns, h]
  by_cases hc : c = '\r'
  · by_cases hd : d = '\n'
    · subst hd
      simp [hc]
    · simp [hc, hd]
  · simp [hc]

theorem exists_mergeReturns_cons (c : Char) (cs : List Char) :
    ∃ tail, mergeReturns (c :: cs) = c :: tail := by
  cases h : mergeReturns cs with
  | nil =>
      refine ⟨[], ?_⟩
      rw [mergeReturns, List.foldr_cons, ← mergeReturns, h]
      split <;> rfl
  | cons d tail =>
      rw [mergeReturns_cons_of_eq h]
      split
      · exact ⟨tail, rfl⟩
      · exact ⟨d :: tail, rfl⟩

/-- Two line ends are merged only if they stand side by side. -/
theorem mergeReturns_append (h : a.getLast? ≠ some '\r' ∨ b.head? ≠ some '\n') :
    mergeReturns (a ++ b) = mergeReturns a ++ mergeReturns b := by
  induction a with
  | nil => rfl
  | cons c rest ih =>
      cases rest with
      | nil =>
          cases b with
          | nil => simp [mergeReturns]
          | cons d b =>
              obtain ⟨tail, htail⟩ := exists_mergeReturns_cons d b
              have hapart : ¬ (c = '\r' ∧ d = '\n') := by
                rintro ⟨rfl, rfl⟩
                simp at h
              rw [List.singleton_append, mergeReturns_cons_of_eq htail, if_neg hapart,
                mergeReturns_singleton, htail, List.singleton_append]
      | cons d rest =>
          obtain ⟨tail, htail⟩ := exists_mergeReturns_cons d rest
          have hrest : mergeReturns (d :: rest ++ b) = d :: (tail ++ mergeReturns b) := by
            rw [ih (by simpa using h), htail, List.cons_append]
          rw [List.cons_append, mergeReturns_cons_of_eq hrest, mergeReturns_cons_of_eq htail]
          split <;> rfl

theorem dropFinalEmpty_append (xs : List (List Char)) {ys : List (List Char)} (hne : ys ≠ []) :
    dropFinalEmpty (xs ++ ys) = xs ++ dropFinalEmpty ys := by
  rw [dropFinalEmpty, dropFinalEmpty, List.getLast?_append_of_ne_nil _ hne,
    List.dropLast_append_of_ne_nil hne]
  split <;> rfl

theorem getLast?_splitChars_ne {p : Char → Bool} (hlast : cs.getLast? = some c) (hc : p c = false) :
    (splitChars p cs).getLast? ≠ some [] := by
  induction cs with
  | nil => simp at hlast
  | cons first rest ih =>
      obtain ⟨piece, others, hrest, hcons⟩ := splitChars_cons (p := p) first rest
      rw [hcons]
      cases rest with
      | nil =>
          obtain rfl : first = c := by simpa using hlast
          obtain ⟨rfl, rfl⟩ := List.cons.inj ((splitChars_nil p).symm.trans hrest)
          simp [hc]
      | cons next rest =>
          have hne := ih (by simpa using hlast)
          rw [hrest] at hne
          split
          · simpa using hne
          · cases others with
            | nil => simp
            | cons other others => simpa using hne

theorem linesChars_of_getLast? (hlast : cs.getLast? = some c) (hc : isLineEnd c = false) :
    linesChars cs = splitChars isLineEnd (mergeReturns cs) := by
  have hfeed : c ≠ '\n' := by
    rintro rfl
    exact absurd hc (by decide)
  have hmerged : (mergeReturns cs).getLast? = some c := by
    obtain ⟨front, rfl⟩ := List.getLast?_eq_some_iff.mp hlast
    rw [mergeReturns_append (.inr (by simpa using hfeed)), mergeReturns_singleton,
      List.getLast?_concat]
  rw [linesChars, dropFinalEmpty]
  split
  next heq => exact absurd heq (getLast?_splitChars_ne hmerged hc)
  next => rfl

/-- A line feed behind a text that does not end a line parts the lines. -/
theorem lines_append {s : String} (t : String) (hlast : s.toList.getLast? = some c)
    (hc : isLineEnd c = false) : lines (s ++ "\n" ++ t) = lines s ++ lines t := by
  have hreturn : c ≠ '\r' := by
    rintro rfl
    exact absurd hc (by decide)
  have hchars : (s ++ "\n" ++ t).toList = s.toList ++ '\n' :: t.toList := by simp
  have hfeed : mergeReturns ('\n' :: t.toList) = '\n' :: mergeReturns t.toList :=
    mergeReturns_append (a := ['\n']) (.inl (by decide))
  have hmerged : mergeReturns (s.toList ++ '\n' :: t.toList) =
      mergeReturns s.toList ++ '\n' :: mergeReturns t.toList := by
    rw [mergeReturns_append (.inl (by simpa [hlast] using hreturn)), hfeed]
  rw [lines, lines, lines, hchars, linesChars_of_getLast? hlast hc, linesChars, hmerged,
    splitChars_append (by decide), dropFinalEmpty_append _ (splitChars_ne_nil _ _), List.map_append]
  rfl

end Dossier.Text

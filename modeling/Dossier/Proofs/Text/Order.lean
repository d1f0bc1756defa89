import Dossier.Inventory
import Mathlib.Data.List.Lex
import Mathlib.Data.List.Pairwise
import Mathlib.Data.String.Basic

/-!
# Sorted names

Sorting puts texts in the order of their code points, and different texts end up in strictly increasing
order. Lists of names are compared name by name, so that a list comes right before the longer ones
that begin with it.
-/

namespace Dossier

/-- What an order tells apart is sorted into one list, whatever order it came in. -/
theorem mergeSort_eq_of_perm {α : Type} {le : α → α → Bool} {xs ys : List α}
    (htrans : ∀ a b c, le a b = true → le b c = true → le a c = true)
    (htotal : ∀ a b, (le a b || le b a) = true) (h : xs.Perm ys)
    (hantisymm : ∀ a ∈ xs, ∀ b ∈ xs, le a b = true → le b a = true → a = b) :
    xs.mergeSort le = ys.mergeSort le := by
  have hperm : (xs.mergeSort le).Perm (ys.mergeSort le) :=
    (List.mergeSort_perm xs le).trans (h.trans (List.mergeSort_perm ys le).symm)
  apply hperm.eq_of_pairwise
  · intro a b ha hb
    exact hantisymm a (List.mem_mergeSort.mp ha) b (h.mem_iff.mpr (List.mem_mergeSort.mp hb))
  · exact List.pairwise_mergeSort htrans htotal xs
  · exact List.pairwise_mergeSort htrans htotal ys

namespace Text

theorem notAfter_iff {a b : String} : notAfter a b = true ↔ a ≤ b := by
  rw [notAfter, Bool.not_eq_true', decide_eq_false_iff_not, not_lt]

theorem notAfter_trans (a b c : String) (hab : notAfter a b = true) (hbc : notAfter b c = true) :
    notAfter a c = true := by
  rw [notAfter_iff] at hab hbc ⊢
  exact hab.trans hbc

theorem notAfter_total (a b : String) : (notAfter a b || notAfter b a) = true := by
  rw [Bool.or_eq_true, notAfter_iff, notAfter_iff]
  exact le_total a b

theorem mem_sorted {s : String} {xs : List String} : s ∈ sorted xs ↔ s ∈ xs :=
  List.mem_mergeSort

/-- Texts are sorted into one list, whatever order they came in. -/
theorem sorted_eq_of_perm {xs ys : List String} (h : xs.Perm ys) : sorted xs = sorted ys := by
  apply mergeSort_eq_of_perm notAfter_trans notAfter_total h
  intro a _ b _ hab hba
  exact le_antisymm (notAfter_iff.mp hab) (notAfter_iff.mp hba)

theorem pairwise_lt_sorted {xs : List String} (h : xs.Nodup) : (sorted xs).Pairwise (· < ·) := by
  have hle : (sorted xs).Pairwise fun a b ↦ notAfter a b = true :=
    List.pairwise_mergeSort notAfter_trans notAfter_total xs
  have hne : (sorted xs).Pairwise (· ≠ ·) := (List.mergeSort_perm xs _).nodup_iff.mpr h
  refine (hle.and hne).imp ?_
  rintro a b ⟨hab, hne⟩
  exact lt_of_le_of_ne (notAfter_iff.mp hab) hne

end Text

namespace Entry

/-- Entries under different names are sorted into strictly increasing order. -/
theorem pairwise_lt_sortedByName {α : Type} {xs : List (String × α)} (h : (xs.map (·.1)).Nodup) :
    (sortedByName xs).Pairwise fun a b ↦ a.1 < b.1 := by
  have hle : (sortedByName xs).Pairwise fun a b ↦ Text.notAfter a.1 b.1 = true := by
    apply List.pairwise_mergeSort
    · intro a b c hab hbc
      exact Text.notAfter_trans a.1 b.1 c.1 hab hbc
    · intro a b
      exact Text.notAfter_total a.1 b.1
  have hnodup : ((sortedByName xs).map (·.1)).Nodup :=
    ((List.mergeSort_perm xs _).map (·.1)).nodup_iff.mpr h
  have hne : (sortedByName xs).Pairwise fun a b ↦ a.1 ≠ b.1 := List.pairwise_map.mp hnodup
  refine (hle.and hne).imp ?_
  rintro a b ⟨hab, hne⟩
  exact lt_of_le_of_ne (Text.notAfter_iff.mp hab) hne

end Entry

/-! ## Lists of names -/

namespace Location

theorem lt_append (here : Location) {rest : Location} (h : rest ≠ []) : here < here ++ rest := by
  obtain ⟨name, rest, rfl⟩ := List.exists_cons_of_ne_nil h
  have hlt : here ++ [] < here ++ name :: rest := List.append_left_lt (List.nil_lt_cons name rest)
  rwa [List.append_nil] at hlt

theorem le_append (dir rest : Location) : dir ≤ dir ++ rest := by
  cases rest with
  | nil => rw [List.append_nil]
  | cons name rest => exact le_of_lt (lt_append dir (by simp))

theorem append_lt_append {here : Location} {a b : String} (h : a < b) (rest rest' : Location) :
    here ++ a :: rest < here ++ b :: rest' :=
  List.append_left_lt (List.cons_lt_cons_iff.mpr (.inl h))

/-- What comes behind a list of names and does not begin with it comes behind all that does. -/
theorem append_lt_of_not_begins {dir other : Location} (hlt : dir < other) (hnot : ¬ dir <+: other)
    (rest : Location) : dir ++ rest < other := by
  induction dir generalizing other with
  | nil => exact absurd List.nil_prefix hnot
  | cons name dir ih =>
      cases other with
      | nil => exact absurd hlt (List.not_lt_nil _)
      | cons name' other =>
          rw [List.cons_append, List.cons_lt_cons_iff]
          rcases List.cons_lt_cons_iff.mp hlt with h | ⟨rfl, h⟩
          · exact .inl h
          · refine .inr ⟨rfl, ih h fun hbegins ↦ hnot ?_⟩
            exact (List.prefix_cons_inj name).mpr hbegins

/-- In a sorted list, those that begin with `dir` stand together where `dir` itself belongs. -/
theorem exists_block {xs : List Location} (h : xs.Pairwise (· < ·)) (dir : Location) :
    ∃ before inside after, xs = before ++ inside ++ after ∧
      (before ++ dir :: after).Pairwise (· < ·) ∧ (∀ d ∈ inside, dir <+: d) ∧
        ∀ d ∈ before ++ after, ¬ dir <+: d := by
  induction xs with
  | nil => exact ⟨[], [], [], rfl, by simp, by simp, by simp⟩
  | cons x rest ih =>
      obtain ⟨hx, hrest⟩ := List.pairwise_cons.mp h
      obtain ⟨before, inside, after, rfl, hsorted, hinside, houtside⟩ := ih hrest
      rcases lt_or_ge x dir with hlt | hle
      · have hnot : ¬ dir <+: x := by
          rintro ⟨below, rfl⟩
          exact absurd hlt (not_lt_of_ge (le_append dir below))
        refine ⟨x :: before, inside, after, rfl, ?_, hinside, ?_⟩
        · refine List.pairwise_cons.mpr ⟨fun d hd ↦ ?_, hsorted⟩
          rcases List.mem_append.mp hd with hd | hd
          · exact hx d (by simp [hd])
          · rcases List.mem_cons.mp hd with rfl | hd
            · exact hlt
            · exact hx d (by simp [hd])
        · exact List.forall_mem_cons.mpr ⟨hnot, houtside⟩
      · obtain rfl : before = [] := by
          refine List.eq_nil_iff_forall_not_mem.mpr fun d hd ↦ ?_
          have hlt : d < dir := (List.pairwise_append.mp hsorted).2.2 d hd dir (by simp)
          exact absurd (hx d (by simp [hd])) (not_lt_of_ge (hlt.le.trans hle))
        by_cases hbegins : dir <+: x
        · exact ⟨[], x :: inside, after, rfl, hsorted, by simpa using ⟨hbegins, hinside⟩, houtside⟩
        · have hlt : dir < x := lt_of_le_of_ne hle fun heq ↦ hbegins (heq ▸ List.prefix_rfl)
          obtain rfl : inside = [] := by
            refine List.eq_nil_iff_forall_not_mem.mpr fun d hd ↦ ?_
            obtain ⟨below, rfl⟩ := hinside d hd
            exact absurd (hx _ (by simp [hd])) (append_lt_of_not_begins hlt hbegins below).not_gt
          refine ⟨[], [], x :: after, rfl, ?_, by simp, ?_⟩
          · obtain ⟨hdir, hafter⟩ := List.pairwise_cons.mp hsorted
            refine List.pairwise_cons.mpr ⟨List.forall_mem_cons.mpr ⟨hlt, hdir⟩, ?_⟩
            exact List.pairwise_cons.mpr ⟨fun d hd ↦ hx d (by simpa using hd), hafter⟩
          · exact List.forall_mem_cons.mpr ⟨hbegins, houtside⟩

end Location

end Dossier

import Dossier.DirectoryTree.Basic
import Dossier.Proofs.Path.Names
import Mathlib.Data.List.Basic

/-!
# Significant directories

A directory is significant if one of the significant paths is the directory or lies below it.
-/

namespace Dossier.DirectoryTree

theorem mem_beginnings {parts place : List String} :
    place ∈ beginnings parts ↔ place ≠ [] ∧ place <+: parts := by
  rw [beginnings, List.mem_map]
  constructor
  · rintro ⟨n, hn, rfl⟩
    rw [List.mem_range] at hn
    refine ⟨?_, List.take_prefix ..⟩
    rw [← List.length_pos_iff, List.length_take]
    omega
  · rintro ⟨hne, hbegins⟩
    have hpos : 0 < place.length := List.length_pos_iff.mpr hne
    have hle : place.length ≤ parts.length := hbegins.length_le
    refine ⟨place.length - 1, List.mem_range.mpr (by omega), ?_⟩
    rw [Nat.sub_add_cancel hpos]
    exact (List.prefix_iff_eq_take.mp hbegins).symm

theorem dropWhile_eq_self {p : Char → Bool} {cs : List Char} (h : ∀ c ∈ cs.head?, p c = false) :
    cs.dropWhile p = cs := by
  cases cs with
  | nil => rfl
  | cons c cs => rw [List.dropWhile_cons, h c rfl, if_neg Bool.false_ne_true]

/-- Names written as a path have no slash at either end. -/
theorem ends_intercalate {parts : List String} (hne : parts ≠ [])
    (h : ∀ name ∈ parts, PlainName name) :
    (String.intercalate "/" parts).toList ≠ [] ∧
      (∀ c ∈ (String.intercalate "/" parts).toList.head?, c ≠ '/') ∧
        ∀ c ∈ (String.intercalate "/" parts).toList.getLast?, c ≠ '/' := by
  induction parts with
  | nil => exact absurd rfl hne
  | cons name rest ih =>
      have hname := h name List.mem_cons_self
      have hchars : name.toList ≠ [] := mt String.toList_eq_nil_iff.mp hname.ne_empty
      have hslash : ∀ c ∈ name.toList, c ≠ '/' := by
        rintro c hc rfl
        exact hname.no_slash hc
      cases rest with
      | nil =>
          rw [String.intercalate_singleton]
          exact ⟨hchars, fun c hc ↦ hslash c (List.mem_of_mem_head? hc),
            fun c hc ↦ hslash c (List.mem_of_getLast? hc)⟩
      | cons next rest =>
          obtain ⟨hne', -, hlast⟩ := ih (by simp) fun n hn ↦ h n (List.mem_cons_of_mem name hn)
          rw [String.intercalate_cons_cons, String.toList_append, String.toList_append]
          refine ⟨by simp, fun c hc ↦ ?_, fun c hc ↦ ?_⟩
          · rw [List.append_assoc, List.head?_append_of_ne_nil _ hchars] at hc
            exact hslash c (List.mem_of_mem_head? hc)
          · rw [List.getLast?_append_of_ne_nil _ hne'] at hc
            exact hlast c hc

theorem trim_relativeText {parts : List String} (hne : parts ≠ [])
    (h : ∀ name ∈ parts, PlainName name) :
    Text.trimEnd (· == '/') (Text.trimStart (· == '/') (Path.relativeText parts)) =
      Path.relativeText parts := by
  obtain ⟨-, hhead, hlast⟩ := ends_intercalate hne h
  rw [Path.relativeText_of_ne_nil hne, Text.trimStart, dropWhile_eq_self, String.ofList_toList,
    Text.trimEnd, Text.trimEndChars, dropWhile_eq_self, List.reverse_reverse, String.ofList_toList]
  · intro c hc
    rw [List.head?_reverse] at hc
    exact beq_eq_false_iff_ne.mpr (hlast c hc)
  · exact fun c hc ↦ beq_eq_false_iff_ne.mpr (hhead c hc)

theorem ancestry_relativeText {parts : List String} (hne : parts ≠ [])
    (h : ∀ name ∈ parts, PlainName name) :
    ancestry (Path.relativeText parts) = (beginnings parts).map Path.relativeText := by
  have htext : (Path.ofText (Path.relativeText parts)).text = Path.relativeText parts := by
    rw [Path.ofText_relativeText h]
    rfl
  have hsplit : Text.split '/' (Path.relativeText parts) = parts := by
    rw [Path.relativeText_of_ne_nil hne]
    exact Text.split_intercalate_of_not_mem hne fun name hname ↦ (h name hname).no_slash
  rw [ancestry, htext, trim_relativeText hne h, hsplit]
  refine List.map_congr_left fun place hplace ↦ ?_
  rw [Path.relativeText_of_ne_nil (mem_beginnings.mp hplace).1]

/-- A place below the root is significant exactly if a significant path begins with it. -/
theorem relativeText_mem_significant {marks : List (List String)} {place : List String}
    (hmarks : ∀ mark ∈ marks, ∀ name ∈ mark, PlainName name) (hne : place ≠ [])
    (hplace : ∀ name ∈ place, PlainName name) :
    Path.relativeText place ∈ significant (marks.map Path.relativeText) ↔
      ∃ mark ∈ marks, place <+: mark := by
  rw [significant, List.mem_eraseDups, List.mem_flatMap]
  constructor
  · rintro ⟨path, hpath, hmem⟩
    obtain ⟨mark, hmark, rfl⟩ := List.mem_map.mp hpath
    by_cases hnil : mark = []
    · -- The path of the root itself stands for nothing below it.
      subst hnil
      have hdot : Path.relativeText place = "." := by
        have hancestry : ancestry (Path.relativeText []) = ["."] := by decide
        simpa [hancestry] using hmem
      have hdot' : Path.relativeText place = Path.relativeText [] := hdot
      exact absurd (Path.relativeText_inj hplace (by simp) hdot') hne
    · rw [ancestry_relativeText hnil (hmarks mark hmark)] at hmem
      obtain ⟨place', hplace', heq⟩ := List.mem_map.mp hmem
      obtain ⟨-, hbegins⟩ := mem_beginnings.mp hplace'
      have hplain : ∀ name ∈ place', PlainName name :=
        fun name hname ↦ hmarks mark hmark name (hbegins.subset hname)
      obtain rfl := Path.relativeText_inj hplain hplace heq
      exact ⟨mark, hmark, hbegins⟩
  · rintro ⟨mark, hmark, hbegins⟩
    have hnil : mark ≠ [] := by
      rintro rfl
      exact hne (List.prefix_nil.mp hbegins)
    refine ⟨_, List.mem_map.mpr ⟨mark, hmark, rfl⟩, ?_⟩
    rw [ancestry_relativeText hnil (hmarks mark hmark)]
    exact List.mem_map.mpr ⟨place, mem_beginnings.mpr ⟨hne, hbegins⟩, rfl⟩

end Dossier.DirectoryTree

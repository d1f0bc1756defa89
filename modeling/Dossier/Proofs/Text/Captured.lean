import Dossier.Proofs.Text.Pattern

/-!
# What groups remember

A group remembers a text that its own pattern takes. So if every text of the groups with one number
is as asked, a search that finds such a group finds what was asked for.
-/

namespace Dossier.Text.Pattern

/-- Every text that is remembered under a number is as asked. -/
def Captures (n : Nat) (asked : List Char → Prop) : Pattern → Prop
  | .seq a b | .alt a b => a.Captures n asked ∧ b.Captures n asked
  | .many a => a.Captures n asked
  | .group m a => (m = n → a.Takes asked) ∧ a.Captures n asked
  | _ => True

variable {p : Pattern} {s t : Reading} {n : Nat} {asked : List Char → Prop}

theorem captures_of_hasGroup_eq_false (h : p.hasGroup n = false) : p.Captures n asked := by
  induction p with
  | empty | one | run | boundary => exact trivial
  | seq a b iha ihb | alt a b iha ihb =>
      obtain ⟨ha, hb⟩ := Bool.or_eq_false_iff.mp h
      exact ⟨iha ha, ihb hb⟩
  | many a ih => exact ih h
  | group m a ih =>
      obtain ⟨hm, ha⟩ := Bool.or_eq_false_iff.mp h
      exact ⟨fun heq ↦ absurd heq (by simpa using hm), ih ha⟩

theorem captures_all {ps : List Pattern} (h : ∀ p ∈ ps, p.Captures n asked) :
    (all ps).Captures n asked := by
  induction ps with
  | nil => exact trivial
  | cons p ps ih =>
      obtain ⟨hp, hps⟩ := List.forall_mem_cons.mp h
      exact ⟨hp, ih hps⟩

/-- A reading adds no group but those that the pattern remembers. -/
theorem Reads.captures (h : Reads p s t) (hp : p.Captures n asked)
    (hs : ∀ g ∈ s.groups, g.1 = n → asked g.2.2) : ∀ g ∈ t.groups, g.1 = n → asked g.2.2 := by
  induction h with
  | empty | boundary | manyNil | one | run => exact hs
  | seq _ _ iha ihb => exact ihb hp.2 (iha hp.1 hs)
  | altLeft _ ih => exact ih hp.1 hs
  | altRight _ ih => exact ih hp.2 hs
  | manyCons _ _ iha ihmany => exact ihmany hp (iha hp hs)
  | group hreads htext ih =>
      refine List.forall_mem_cons.mpr ⟨fun hn ↦ ?_, ih hp.2 hs⟩
      obtain ⟨text, htaken, hasked⟩ := hp.1 hn hreads
      rw [List.append_cancel_left (htext.symm.trans htaken)]
      exact hasked

theorem exists_reads_of_searchFrom {before : Option Char} {text : List Char} {found : Place}
    (h : searchFrom p before text = some found) :
    ∃ s t, s.groups = [] ∧ Reads p s t ∧ t.place = found := by
  have hmatch {before : Option Char} {text : List Char} {place : Place}
      (h : matchThen p some ⟨before, text, []⟩ = some place) :
      ∃ s t, s.groups = [] ∧ Reads p s t ∧ t.place = place := by
    let s : Reading := ⟨before.toList, text, []⟩
    have hplace : s.place = ⟨before, text, []⟩ := by cases before <;> rfl
    rw [← hplace] at h
    obtain ⟨t, ht, heq⟩ := exists_reads_of_matchThen h
    exact ⟨s, t, rfl, ht, Option.some_inj.mp heq⟩
  induction text generalizing before with
  | nil => exact hmatch h
  | cons c text ih =>
      rw [searchFrom] at h
      split at h
      next place hplace =>
        obtain rfl := Option.some_inj.mp h
        exact hmatch hplace
      next => exact ih h

/-- A search remembers nothing but what was asked for. -/
theorem Captures.of_search {s : String} {text : List Char} (hp : p.Captures n asked)
    (h : (p.search s).bind (·.group? n) = some text) : asked text := by
  obtain ⟨found, hfound, hgroup⟩ := Option.bind_eq_some_iff.mp h
  obtain ⟨start, t, hstart, hreads, rfl⟩ := exists_reads_of_searchFrom hfound
  rw [Reading.group?_place, Reading.capture?, Option.map_map] at hgroup
  obtain ⟨g, hg, rfl⟩ := Option.map_eq_some_iff.mp hgroup
  have hnumber : g.1 = n := by simpa using List.find?_some hg
  exact hreads.captures hp (by simp [hstart]) g (List.mem_of_find?_eq_some hg) hnumber

end Dossier.Text.Pattern

import Dossier.Path.Basic
import Dossier.Text.Numeral
import Dossier.Proofs.Path.Names

/-!
# Texts on one line

Texts that are put together from texts without a line feed have none either.
-/

namespace Dossier

namespace Text

/-- A text without a line feed. -/
abbrev OneLine (s : String) : Prop :=
  '\n' ∉ s.toList

namespace OneLine

@[simp] theorem append_iff {a b : String} : OneLine (a ++ b) ↔ OneLine a ∧ OneLine b := by
  rw [OneLine, String.toList_append, List.mem_append, not_or]

theorem append {a b : String} (ha : OneLine a) (hb : OneLine b) : OneLine (a ++ b) :=
  append_iff.mpr ⟨ha, hb⟩

theorem intercalate {sep : String} {parts : List String} (hsep : OneLine sep)
    (h : ∀ s ∈ parts, OneLine s) : OneLine (String.intercalate sep parts) := by
  induction parts with
  | nil =>
      rw [String.intercalate_nil]
      decide
  | cons s rest ih =>
      obtain ⟨hs, hrest⟩ := List.forall_mem_cons.mp h
      cases rest with
      | nil => simpa using hs
      | cons next rest =>
          rw [String.intercalate_cons_cons]
          exact (hs.append hsep).append (ih hrest)

end OneLine

theorem oneLine_ofNat (n : Nat) : OneLine (ofNat n) := by
  rw [OneLine, ofNat, String.toList_ofList]
  intro h
  exact absurd (Nat.isDigit_of_mem_toDigits (by decide) (by decide) h) (by decide)

theorem oneLine_ofInt (n : Int) : OneLine (ofInt n) := by
  cases n with
  | ofNat n => exact oneLine_ofNat n
  | negSucc n => exact .append (by decide) (oneLine_ofNat (n + 1))

end Text

theorem Path.oneLine_relativeText {parts : List String} (h : ∀ name ∈ parts, Text.OneLine name) :
    Text.OneLine (relativeText parts) := by
  by_cases hne : parts = []
  · subst hne
    decide
  · rw [relativeText_of_ne_nil hne]
    exact .intercalate (by decide) h

end Dossier

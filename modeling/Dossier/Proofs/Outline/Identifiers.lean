import Dossier.Outline.Declaration
import Dossier.Proofs.Text.Captured

/-!
# Names found in texts

A name that is looked for in a text is an identifier of that text, or the name of what has none.
-/

namespace Dossier.Outline

open Text (Pattern isIdentStart isIdentRest)
open Text.Pattern (Captures captures_all captures_of_hasGroup_eq_false takes_one takes_run)

/-- Texts that may be the name of something. -/
structure IsIdentifier (text : List Char) : Prop where
  begins : ∃ c ∈ text.head?, isIdentStart c = true
  goesOn : ∀ c ∈ text, isIdentRest c = true

theorem isIdentRest_of_isIdentStart {c : Char} (h : isIdentStart c = true) :
    isIdentRest c = true := by
  simp only [isIdentStart, Bool.or_eq_true] at h
  rcases h with (h | h) | h
  · exact Text.isIdentRest_of_isWord (Text.isWord_of_isAlphanum (by simp [Char.isAlphanum, h]))
  · exact Text.isIdentRest_of_isWord (by simp [Text.isWord, h])
  · simp [isIdentRest, h]

theorem captures_identifierPattern : identifierPattern.Captures 1 IsIdentifier := by
  refine ⟨fun _ ↦ ?_, trivial, trivial⟩
  have hfirst : (Pattern.one isIdentStart).Takes fun text ↦
      ∃ c, text = [c] ∧ isIdentStart c = true :=
    takes_one fun c hc ↦ ⟨c, rfl, hc⟩
  have hrest : (Pattern.run 0 isIdentRest).Takes fun text ↦ ∀ c ∈ text, isIdentRest c = true :=
    takes_run fun _ _ htext ↦ htext
  refine hfirst.seq hrest ?_
  rintro _ text ⟨c, rfl, hc⟩ htext
  exact ⟨⟨c, rfl, hc⟩, List.forall_mem_cons.mpr ⟨isIdentRest_of_isIdentStart hc, htext⟩⟩

theorem captures_declaredPattern : declaredPattern.Captures 1 IsIdentifier := by
  refine captures_all ?_
  simp only [List.forall_mem_cons]
  refine ⟨trivial, captures_of_hasGroup_eq_false ?_, trivial, captures_of_hasGroup_eq_false ?_,
    trivial, captures_identifierPattern, by simp⟩
  · decide +kernel
  · decide +kernel

/-- A name found in a text is an identifier, unless there is none. -/
theorem nameInText_isIdentifier (s : String) :
    nameInText s = anonymous ∨ IsIdentifier (nameInText s).toList := by
  rw [nameInText]
  split
  next name hname =>
    right
    rw [String.toList_ofList]
    exact captures_declaredPattern.of_search hname
  next =>
    split
    next name hname =>
      right
      rw [String.toList_ofList]
      exact captures_identifierPattern.of_search hname
    next => exact .inl rfl

end Dossier.Outline

import Dossier.Document.KeyFiles
import Dossier.Proofs.Path.Names
import Dossier.Proofs.Steps

/-!
# What becomes of the key files

A file that is offered is skipped with a warning, or shown whole within the budget, or cut as the last
one, or it ends the section without a trace. So every excerpt is that of one of the files, whole or
cut, and what the excerpts take is counted excerpt by excerpt.
-/

namespace Dossier.Document

open Steps (bind_eq_ok pure_eq_ok)

variable {fs : FileSystem} {measure : Measure} {root : Path} {budget : Int}

/-- What one more file adds to the excerpts: nothing, its whole text if that is within the budget, or
the beginning of its text, if enough is left for it. No file follows one that is cut. -/
inductive Offered (measure : Measure) (budget : Int) (done : Excerpts) (path : String) :
    Excerpts → Bool → Prop where
  | nothing {next : Excerpts} {more : Bool} (pieces : next.pieces = done.pieces)
      (tokens : next.tokens = done.tokens) : Offered measure budget done path next more
  | whole {next : Excerpts} {more : Bool} (text : String)
      (pieces : next.pieces = done.pieces ++ [excerpt path text])
      (tokens : next.tokens = done.tokens + measure (excerpt path text))
      (within : (next.tokens : Int) ≤ budget) : Offered measure budget done path next more
  | cut {next : Excerpts} (text : String)
      (pieces : next.pieces =
        done.pieces ++ [cutExcerpt measure (budget - done.tokens) path text])
      (tokens : next.tokens =
        done.tokens + measure (cutExcerpt measure (budget - done.tokens) path text))
      (enough : minCutTokens < budget - done.tokens) : Offered measure budget done path next false

theorem offered_of_offer {done next : Excerpts} {path : String} {more : Bool}
    (h : offer fs measure root budget done path = .ok (next, more)) :
    Offered measure budget done path next more := by
  rw [offer] at h
  split at h
  · simp at h
  · split at h
    · simp at h
    · obtain ⟨rfl, -⟩ := Prod.mk.inj (Except.ok.inj h)
      exact .nothing rfl rfl
    · next text _ =>
      dsimp only at h
      split at h
      · next hwithin =>
        obtain ⟨rfl, -⟩ := Prod.mk.inj (Except.ok.inj h)
        exact .whole text rfl rfl hwithin
      · split at h
        · next henough =>
          obtain ⟨rfl, rfl⟩ := Prod.mk.inj (Except.ok.inj h)
          exact .cut text rfl rfl henough
        · obtain ⟨rfl, -⟩ := Prod.mk.inj (Except.ok.inj h)
          exact .nothing rfl rfl

/-- A file that can be read and fits is shown whole. -/
theorem offer_of_readText {done : Excerpts} {path text : String}
    (hclean : (root.join (Path.ofText path)).IsClean)
    (hread : fs.readText (root.join (Path.ofText path)) = .ok text)
    (hfits : (done.tokens + measure (excerpt path text) : Nat) ≤ budget) :
    offer fs measure root budget done path = .ok ({ done with
      pieces := done.pieces ++ [excerpt path text]
      tokens := done.tokens + measure (excerpt path text) }, true) := by
  rw [Path.IsClean] at hclean
  simp only [offer, hclean, hread, if_pos hfits]
  rfl

/-- A property of the excerpts so far that each further file keeps, and that implies what is asked of
the excerpts at the end. Only the last file may break it, as the one that is cut. -/
theorem addExcerpts_induction (kept asked : Excerpts → Prop) {paths : List String}
    {done done' : Excerpts} (hdone : kept done) (hasked : ∀ x, kept x → asked x)
    (hkept : ∀ x path next, path ∈ paths → kept x → Offered measure budget x path next true →
      kept next)
    (hlast : ∀ x path next, path ∈ paths → kept x → Offered measure budget x path next false →
      asked next)
    (h : addExcerpts fs measure root budget done paths = .ok done') : asked done' := by
  induction paths generalizing done with
  | nil =>
      obtain rfl := Except.ok.inj h
      exact hasked done hdone
  | cons path rest ih =>
      rw [addExcerpts] at h
      obtain ⟨⟨next, more⟩, hoffer, h⟩ := bind_eq_ok.mp h
      have hoffered := offered_of_offer hoffer
      cases more with
      | true =>
          refine ih (hkept done path next List.mem_cons_self hdone hoffered) ?_ ?_ h
          · intro x other next hother
            exact hkept x other next (List.mem_cons_of_mem path hother)
          · intro x other next hother
            exact hlast x other next (List.mem_cons_of_mem path hother)
      | false =>
          obtain rfl := pure_eq_ok.mp h
          exact hlast done path next List.mem_cons_self hdone hoffered

/-- An excerpt of a file: its whole text, or the beginning of its text. -/
inductive IsExcerpt (measure : Measure) (path : String) : String → Prop where
  | whole (text : String) : IsExcerpt measure path (excerpt path text)
  | cut (remaining : Int) (text : String) :
      IsExcerpt measure path (cutExcerpt measure remaining path text)

theorem Offered.isExcerpt {done next : Excerpts} {path piece : String} {more : Bool}
    (h : Offered measure budget done path next more) (hpiece : piece ∈ next.pieces) :
    piece ∈ done.pieces ∨ IsExcerpt measure path piece := by
  cases h with
  | nothing pieces => exact .inl (pieces ▸ hpiece)
  | whole text pieces =>
      rw [pieces, List.mem_append, List.mem_singleton] at hpiece
      rcases hpiece with hold | rfl
      · exact .inl hold
      · exact .inr (.whole text)
  | cut text pieces =>
      rw [pieces, List.mem_append, List.mem_singleton] at hpiece
      rcases hpiece with hold | rfl
      · exact .inl hold
      · exact .inr (.cut _ text)

/-- What is shown is an excerpt of one of the files. -/
theorem exists_isExcerpt_of_keyFiles {files patterns : List String} {x : Excerpts}
    (h : keyFiles fs measure root files patterns budget = .ok x) :
    ∀ piece ∈ x.pieces, ∃ path ∈ files, IsExcerpt measure path piece := by
  have hstep {more : Bool} : ∀ done path next, path ∈ Glob.select (some patterns) [] files →
      (∀ piece ∈ done.pieces, ∃ path ∈ files, IsExcerpt measure path piece) →
      Offered measure budget done path next more →
      ∀ piece ∈ next.pieces, ∃ path ∈ files, IsExcerpt measure path piece := by
    intro done path next hpath hdone hoffered piece hpiece
    rcases hoffered.isExcerpt hpiece with hold | hnew
    · exact hdone piece hold
    · exact ⟨path, List.mem_of_mem_filter hpath, hnew⟩
  exact addExcerpts_induction _ _ (by simp) (fun _ ↦ id) hstep hstep h

end Dossier.Document

import Dossier.Proofs.Budget.Estimate
import Dossier.Proofs.DirectoryTree.Pruning
import Dossier.Proofs.FileSystem.Straight

/-!
# The deepest tree that fits

A tree that is less deep takes less room. So if a tree fits a budget, all that are less deep fit as
well, and a smaller budget shows a pruned form of the tree for a greater one.
-/

namespace Dossier.DirectoryTree

open TreeNode (pruneAll render)

/-! ## Searching downwards -/

section

variable {fits fits' : Nat → Prop} {limit depth depth' deeper : Nat}

theorem one_le_deepest (fits : Nat → Bool) (depth : Nat) : 1 ≤ deepest fits depth := by
  fun_induction deepest fits depth <;> omega

theorem deepest_le (fits : Nat → Bool) (depth : Nat) : deepest fits depth ≤ max 1 depth := by
  fun_induction deepest fits depth <;> omega

theorem fits_deepest (fits : Nat → Bool) (depth : Nat) :
    fits (deepest fits depth) = true ∨ deepest fits depth = 1 := by
  fun_induction deepest fits depth with
  | case1 => exact .inr rfl
  | case2 => exact .inr rfl
  | case3 depth hfits => exact .inl hfits
  | case4 depth _ ih => exact ih

theorem not_fits_of_deepest_lt {fits : Nat → Bool} (h : deepest fits depth < deeper)
    (hle : deeper ≤ depth) : fits deeper = false := by
  fun_induction deepest fits depth with
  | case1 => omega
  | case2 => omega
  | case3 depth hfits => omega
  | case4 depth hfits ih =>
      rcases Nat.lt_or_eq_of_le hle with hlt | rfl
      · exact ih h (Nat.le_of_lt_succ hlt)
      · exact Bool.eq_false_iff.mpr hfits

/-- The greatest depth up to a limit that fits, or 1 if none does. All that is less deep fits. -/
structure IsDeepest (fits : Nat → Prop) (limit depth : Nat) : Prop where
  pos : 1 ≤ depth
  le : depth ≤ limit
  fits_or_none : fits depth ∨ depth = 1 ∧ ∀ other, 1 ≤ other → other ≤ limit → ¬ fits other
  greatest : ∀ deeper, depth < deeper → deeper ≤ limit → ¬ fits deeper
  less_deep : ∀ other, 1 ≤ other → other < depth → fits other

theorem isDeepest_deepest [DecidablePred fits]
    (hdown : ∀ a b, 1 ≤ a → a ≤ b → fits b → fits a) (limit : Nat) :
    IsDeepest fits (max 1 limit) (deepest (fun depth ↦ decide (fits depth)) limit) := by
  obtain ⟨depth, hdepth⟩ : ∃ depth, deepest (fun depth ↦ decide (fits depth)) limit = depth :=
    ⟨_, rfl⟩
  have hpos := one_le_deepest (fun depth ↦ decide (fits depth)) limit
  have hle := deepest_le (fun depth ↦ decide (fits depth)) limit
  have hfits := (fits_deepest (fun depth ↦ decide (fits depth)) limit).imp_left of_decide_eq_true
  have hgreatest (deeper : Nat) (hlt : depth < deeper) (hdeeper : deeper ≤ max 1 limit) :
      ¬ fits deeper := by
    have hlt' : deepest (fun depth ↦ decide (fits depth)) limit < deeper := hdepth ▸ hlt
    exact of_decide_eq_false (not_fits_of_deepest_lt hlt' (by omega))
  rw [hdepth] at hpos hle hfits ⊢
  refine ⟨hpos, hle, ?_, hgreatest, fun other hother hlt ↦ ?_⟩
  · by_cases h : fits depth
    · exact .inl h
    · have hone : depth = 1 := hfits.resolve_left h
      refine .inr ⟨hone, fun other hother hmax hfits' ↦ ?_⟩
      rcases Nat.lt_or_ge depth other with hlt | hge
      · exact hgreatest other hlt hmax hfits'
      · exact h (Nat.le_antisymm hge (hone ▸ hother) ▸ hfits')
  · exact hdown other depth hother (Nat.le_of_lt hlt) (hfits.resolve_right (by omega))

/-- Where more fits, the greatest depth is no smaller. -/
theorem IsDeepest.le_of_imp (h : IsDeepest fits limit depth) (h' : IsDeepest fits' limit depth')
    (himp : ∀ n, fits n → fits' n) : depth ≤ depth' := by
  rcases Nat.lt_or_ge depth' depth with hlt | hge
  · have hone : depth ≠ 1 := fun hone ↦ absurd h'.pos (by omega)
    have hfits : fits depth := h.fits_or_none.resolve_right fun hnone ↦ hone hnone.1
    exact absurd (himp depth hfits) (h'.greatest depth hlt h.le)
  · exact hge

end

/-! ## Trees within budgets -/

section

variable (fs : FileSystem) (style : Style) (paths : List String) (root : Path) (title : String)

/-- The text of the tree with a number of levels. -/
def textAt (depth : Nat) : String :=
  renderBelow title (build fs style paths root depth).1

/-- The tree with a number of levels is within a budget. -/
def Fits (budget : Int) (depth : Nat) : Prop :=
  (Budget.estimate (textAt fs style paths root title depth) : Int) ≤ budget

instance (budget : Int) : DecidablePred (Fits fs style paths root title budget) :=
  fun _ ↦ Int.decLe _ _

/-- The number of levels of the tree that is shown within a budget. -/
def depthWithin (budget : Int) : Nat :=
  deepest (fun depth ↦ decide (Fits fs style paths root title budget depth)) style.maxDepth.toNat

end

variable {fs : FileSystem} {style : Style} {paths : List String} {root : Path} {title : String}
  {depth depth' : Nat}

theorem build_eq_pruneAll (hpos : 1 ≤ depth) (hle : depth ≤ depth') :
    (build fs style paths root depth).1 =
      pruneAll (build fs style paths root depth').1 (depth - 1) := by
  obtain ⟨levels, rfl⟩ : ∃ levels, depth = levels + 1 := ⟨depth - 1, by omega⟩
  obtain ⟨more, rfl⟩ : ∃ more, depth' = levels + more + 1 := ⟨depth' - (levels + 1), by omega⟩
  rw [Nat.add_sub_cancel, build, build, if_neg (Nat.succ_ne_zero _), if_neg (Nat.succ_ne_zero _)]
  cases fs.scan root with
  | error e => rfl
  | ok entries => exact nodes_eq_pruneAll _ levels more [] entries

theorem length_textAt_le (hpos : 1 ≤ depth) (hle : depth ≤ depth') :
    (textAt fs style paths root title depth).length ≤
      (textAt fs style paths root title depth').length := by
  rw [textAt, build_eq_pruneAll hpos hle]
  exact length_renderBelow_pruneAll_le title _ _

theorem Fits.of_le {budget : Int} (h : Fits fs style paths root title budget depth')
    (hpos : 1 ≤ depth) (hle : depth ≤ depth') : Fits fs style paths root title budget depth := by
  have hestimate : Budget.estimate (textAt fs style paths root title depth) ≤
      Budget.estimate (textAt fs style paths root title depth') :=
    Budget.estimate_mono (length_textAt_le hpos hle)
  rw [Fits] at h ⊢
  omega

theorem isDeepest_depthWithin (fs : FileSystem) (style : Style) (paths : List String) (root : Path)
    (title : String) (budget : Int) :
    IsDeepest (Fits fs style paths root title budget) (max 1 style.maxDepth.toNat)
      (depthWithin fs style paths root title budget) :=
  isDeepest_deepest (fun _ _ hpos hle h ↦ h.of_le hpos hle) _

/-- Trees with fewer levels are pruned forms of deeper ones and take no more room. What is shown within
a budget is the deepest tree that fits, and a pruned form of what a greater budget shows. -/
theorem fitting_deepest (fs : FileSystem) (style : Style) (paths : List String) (root : Path) :
    (∀ depth depth', 1 ≤ depth → depth ≤ depth' →
      (build fs style paths root depth).1 =
          pruneAll (build fs style paths root depth').1 (depth - 1) ∧
        (render "" (build fs style paths root depth).1).length ≤
          (render "" (build fs style paths root depth').1).length ∧
        ∀ title, (textAt fs style paths root title depth).length ≤
          (textAt fs style paths root title depth').length) ∧
    (∀ budget, fitting fs style paths root budget = (titleOf fs root).map fun title ↦
      (textAt fs style paths root title (depthWithin fs style paths root title budget),
        (build fs style paths root (depthWithin fs style paths root title budget)).2)) ∧
    (fs.IsStraight root → ∃ title, titleOf fs root = .ok title) ∧
    (∀ title budget, IsDeepest (Fits fs style paths root title budget)
      (max 1 style.maxDepth.toNat) (depthWithin fs style paths root title budget)) ∧
    ∀ title budget budget', budget ≤ budget' →
      (build fs style paths root (depthWithin fs style paths root title budget)).1 =
        pruneAll (build fs style paths root (depthWithin fs style paths root title budget')).1
          (depthWithin fs style paths root title budget - 1) := by
  refine ⟨fun depth depth' hpos hle ↦
      ⟨build_eq_pruneAll hpos hle, ?_, fun title ↦ length_textAt_le hpos hle⟩, fun budget ↦ ?_,
    fun hstraight ↦ ?_, isDeepest_depthWithin fs style paths root, fun title budget budget' h ↦ ?_⟩
  · rw [build_eq_pruneAll hpos hle]
    exact TreeNode.length_render_pruneAll_le "" _ _
  · rw [fitting]
    cases titleOf fs root <;> rfl
  · rw [titleOf, hstraight.resolve_eq]
    exact ⟨_, rfl⟩
  · have hless := isDeepest_depthWithin fs style paths root title budget
    have hmore := isDeepest_depthWithin fs style paths root title budget'
    exact build_eq_pruneAll hless.pos (hless.le_of_imp hmore fun _ hfits ↦ Int.le_trans hfits h)

/-- The small project is shown, and with one level less nothing is left of its directory. -/
theorem fitting_deepest_nested :
    (∃ shown, fitting FileSystem.nested {} [] ⟨"/", ["p"]⟩ 100 = .ok shown) ∧
      (build FileSystem.nested {} [] ⟨"/", ["p"]⟩ 1).1 =
        pruneAll (build FileSystem.nested {} [] ⟨"/", ["p"]⟩ 2).1 0 := by
  obtain ⟨hpruned, hfitting, hreturns, -⟩ :=
    fitting_deepest FileSystem.nested {} [] ⟨"/", ["p"]⟩
  obtain ⟨title, htitle⟩ := hreturns FileSystem.nested_isStraight
  refine ⟨?_, (hpruned 1 2 (by decide) (by decide)).1⟩
  rw [hfitting, htitle]
  exact ⟨_, rfl⟩

end Dossier.DirectoryTree

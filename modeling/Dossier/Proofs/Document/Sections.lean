import Dossier.Proofs.Budget.Shares
import Dossier.Proofs.Document.CodeMap
import Dossier.Proofs.Document.Layout
import Dossier.Proofs.Document.Returns

/-!
# Sections and their shares

With the estimate in use the shares that are split off and revised add up to at most what the layout
leaves of the budget, each section takes no more than its revised share, and the document with its
layout takes no more than the budget, unless the layout alone takes more.
-/

namespace Dossier.Document

open Budget (Shares Tokenizer estimate)

/-! ## Shares -/

variable (measure : Measure) (name : String) (budget : Int)

@[simp] theorem map_fst_split : (split measure name budget).map (·.1) = Topic.all := rfl

theorem get_split_nonneg (topic : Topic) : 0 ≤ (split measure name budget).get topic := by
  refine Shares.get_allocate_nonneg (fun w hw ↦ ?_) topic
  obtain ⟨t, -, rfl⟩ := List.mem_map.mp hw
  cases t <;> decide

theorem total_split_le :
    (split measure name budget).total ≤ max 0 (budget - layoutOverhead measure name) := by
  have hweights : Shares.total (Topic.all.map fun topic ↦ (topic, topic.weight)) ≤ 100 := by
    decide
  have hle := Shares.total_allocate_le (max 0 (budget - layoutOverhead measure name)) hweights
  rwa [max_eq_right (le_max_left _ _)] at hle

theorem get_usage (contents : Contents) (codeMap : CodeMap) (topic : Topic) :
    (usage measure contents codeMap).get topic =
      if topic = .codeMap then max (measure codeMap.content : Int) codeMap.demand
      else measure (contents.on codeMap.content topic) := by
  cases topic <;> rfl

theorem mem_all (topic : Topic) : topic ∈ Topic.all := by
  cases topic <;> decide

/-- A revised share is no less than the use it was revised for, or than the share before. -/
theorem min_le_get_revised (contents : Contents) (codeMap : CodeMap) (topic : Topic) :
    min ((split measure name budget).get topic) ((usage measure contents codeMap).get topic) ≤
      ((split measure name budget).redistribute (usage measure contents codeMap)).get topic :=
  Shares.min_le_get_redistribute _ _ (mem_all topic)

theorem get_revised_nonneg (contents : Contents) (codeMap : CodeMap) (topic : Topic) :
    0 ≤ ((split measure name budget).redistribute (usage measure contents codeMap)).get topic := by
  have hused : 0 ≤ (usage measure contents codeMap).get topic := by
    rw [get_usage]
    split
    · exact le_max_of_le_left (Int.natCast_nonneg _)
    · exact Int.natCast_nonneg _
  exact (le_min (get_split_nonneg measure name budget topic) hused).trans
    (min_le_get_revised measure name budget contents codeMap topic)

/-! ## Contents that are settled -/

/-- What a section shows in the end. -/
def settled (shares : Shares Topic) (contents : Contents) (codeMap : String) (topic : Topic) :
    String :=
  settle measure shares topic (contents.on codeMap topic)

theorem sectionsOf_eq (shares : Shares Topic) (contents : Contents) (codeMap : String) :
    sectionsOf measure shares contents codeMap =
      (Topic.all.filter fun topic ↦ settled measure shares contents codeMap topic ≠ "").map
        fun topic ↦ (.about topic (settled measure shares contents codeMap topic),
          measure (settled measure shares contents codeMap topic)) := by
  unfold sectionsOf settled
  generalize Topic.all = topics
  induction topics with
  | nil => rfl
  | cons topic rest ih =>
      by_cases hempty : settle measure shares topic (contents.on codeMap topic) = ""
      · rw [List.filterMap_cons_none (by simp [hempty]),
          List.filter_cons_of_neg (by simp [hempty]), ih]
      · rw [List.filter_cons_of_pos (by simpa using hempty), List.map_cons, ← ih]
        simp only [List.filterMap_cons, if_neg hempty]

theorem map_fst_sectionsOf (shares : Shares Topic) (contents : Contents) (codeMap : String) :
    (sectionsOf measure shares contents codeMap).map (·.1) =
      (Topic.all.filter fun topic ↦ settled measure shares contents codeMap topic ≠ "").map
        fun topic ↦ Section.about topic (settled measure shares contents codeMap topic) := by
  rw [sectionsOf_eq, List.map_map]
  rfl

/-- A section that is shown takes no more than its share. -/
theorem estimate_settled_le {shares : Shares Topic} {contents : Contents} {codeMap : String}
    (hmap : (estimate codeMap : Int) ≤ shares.get .codeMap) {topic : Topic}
    (hshown : settled estimate shares contents codeMap topic ≠ "") :
    (estimate (settled estimate shares contents codeMap topic) : Int) ≤ shares.get topic := by
  by_cases htopic : topic = .codeMap
  · subst htopic
    simpa [settled, settle, Contents.on] using hmap
  · simp only [settled, settle, if_neg htopic] at hshown ⊢
    exact estimate_cutToFit_le_of_ne_empty hshown

/-! ## Whole documents -/

/-- A document keeps to its budget. -/
structure WithinBudget (compiled : Compiled) (name : String) : Prop where
  /-- The document is made of the sections, and its tokens are counted. -/
  markdown_eq : compiled.markdown = assemble name (compiled.sections.map (·.1))
  tokens_eq : compiled.tokens = estimate compiled.markdown
  tokens_le : (compiled.tokens : Int) ≤ max compiled.budget (layoutOverhead estimate name)
  tokens_le_budget : Settings.minBudget ≤ compiled.budget →
    (compiled.tokens : Int) ≤ compiled.budget
  /-- Every section keeps to the share of its topic. -/
  sections_le : ∀ s ∈ compiled.sections, ∃ topic : Topic, s.1.id = topic.id ∧
    s.2 = estimate s.1.content ∧ (s.2 : Int) ≤ compiled.allocation.get topic
  topics_eq : compiled.allocation.map (·.1) = Topic.all
  allocation_le : compiled.allocation.total ≤
    max 0 (compiled.budget - layoutOverhead estimate name)

theorem sum_filter_le_sum (keep : Topic → Bool) (cost : Topic → Nat) {share : Topic → Int}
    (hcost : ∀ topic, keep topic = true → (cost topic : Int) ≤ share topic)
    (hshare : ∀ topic, 0 ≤ share topic) (topics : List Topic) :
    ((((topics.filter keep).map cost).sum : Nat) : Int) ≤ (topics.map share).sum := by
  induction topics with
  | nil => simp
  | cons topic rest ih =>
      have hnonneg := hshare topic
      by_cases hkeep : keep topic = true
      · have hle := hcost topic hkeep
        rw [List.filter_cons_of_pos hkeep]
        simp only [List.map_cons, List.sum_cons, Nat.cast_add]
        omega
      · rw [List.filter_cons_of_neg hkeep]
        simp only [List.map_cons, List.sum_cons]
        omega

/-- The sections that are shown are paid for by the shares of all topics, so the document takes no
more than the layout and the shares together. -/
theorem estimate_assemble_sectionsOf_le (contents : Contents) {shares : Shares Topic}
    {codeMap : String} (htopics : shares.map (·.1) = Topic.all)
    (hshares : ∀ topic, 0 ≤ shares.get topic)
    (hmap : (estimate codeMap : Int) ≤ shares.get .codeMap) :
    (estimate (assemble name ((sectionsOf estimate shares contents codeMap).map (·.1))) : Int) ≤
      layoutOverhead estimate name + shares.total := by
  have hnodup : (shares.map (·.1)).Nodup := by
    rw [htopics]
    decide
  have hpaid := sum_filter_le_sum
    (fun topic ↦ settled estimate shares contents codeMap topic ≠ "")
    (fun topic ↦ estimate (settled estimate shares contents codeMap topic))
    (fun topic hshown ↦ estimate_settled_le hmap (of_decide_eq_true hshown)) hshares Topic.all
  have hdocument := estimate_assemble_le name (settled estimate shares contents codeMap)
    (fun topic ↦ settled estimate shares contents codeMap topic ≠ "") Topic.all
  rw [Shares.total_eq_sum_get hnodup, htopics, map_fst_sectionsOf, layoutOverhead]
  omega

section Finished

variable (settings : Settings) (found : Findings) (contents : Contents)

/-- The shares before the map is built, and the map built within its share. -/
def firstMap : CodeMap :=
  codeMapOf measure settings found ((split measure found.profile.name budget).get .codeMap)

/-- The shares after the rest has been handed on. -/
def revisedShares : Shares Topic :=
  (split measure found.profile.name budget).redistribute
    (usage measure contents (firstMap measure budget settings found))

/-- The map that is shown. -/
def lastMap : CodeMap :=
  repacked measure settings found (split measure found.profile.name budget)
    (revisedShares measure budget settings found contents) (firstMap measure budget settings found)

theorem finish_eq : finish measure settings budget found contents =
    let shares := revisedShares measure budget settings found contents
    let codeMap := lastMap measure budget settings found contents
    let sections := sectionsOf measure shares contents codeMap.content
    { markdown := assemble found.profile.name (sections.map (·.1))
      tokens := measure (assemble found.profile.name (sections.map (·.1)))
      budget
      sections
      truncated := codeMap.truncated
      allocation := shares
      warnings := found.warnings ++ contents.warnings
      progress := found.progress ++ [.begun "Building sections...",
        .finished ("Built " ++ Text.ofNat sections.length ++ " sections")] } := rfl

@[simp] theorem map_fst_revisedShares :
    (revisedShares measure budget settings found contents).map (·.1) = Topic.all := by
  rw [revisedShares, Shares.map_fst_redistribute, map_fst_split]

theorem get_revisedShares_nonneg (topic : Topic) :
    0 ≤ (revisedShares measure budget settings found contents).get topic :=
  get_revised_nonneg ..

theorem total_revisedShares_le :
    (revisedShares measure budget settings found contents).total ≤
      max 0 (budget - layoutOverhead measure found.profile.name) :=
  (Shares.total_redistribute_le ..).trans (total_split_le ..)

/-- The map in the end fits its revised share, whether or not it was built again. -/
theorem estimate_lastMap_le :
    (estimate (lastMap estimate budget settings found contents).content : Int) ≤
      (revisedShares estimate budget settings found contents).get .codeMap := by
  have hfits (share : Int) : estimate (codeMapOf estimate settings found share).content ≤
      share.toNat :=
    tokens_packCodeMap_le settings.depth settings.format share found.outlines
  rw [lastMap, repacked]
  split
  · have hle := hfits ((revisedShares estimate budget settings found contents).get .codeMap)
    have hnonneg := get_revisedShares_nonneg estimate budget settings found contents .codeMap
    omega
  · have hle := hfits ((split estimate found.profile.name budget).get .codeMap)
    have hnonneg := get_split_nonneg estimate found.profile.name budget .codeMap
    have hmin := min_le_get_revised estimate found.profile.name budget contents
      (firstMap estimate budget settings found) .codeMap
    rw [get_usage, if_pos rfl, ← revisedShares] at hmin
    rw [← firstMap] at hle
    omega

/-- Whatever a project holds, the document finished from it keeps to the budget. -/
theorem finish_withinBudget :
    WithinBudget (finish estimate settings budget found contents) found.profile.name := by
  have hfits := estimate_lastMap_le budget settings found contents
  have htotal := total_revisedShares_le estimate budget settings found contents
  have hdocument := estimate_assemble_sectionsOf_le found.profile.name contents
    (map_fst_revisedShares ..) (fun _ ↦ get_revisedShares_nonneg ..) hfits
  have hoverhead := layoutOverhead_le found.profile.name
  have hmin : Settings.minBudget = 1000 := rfl
  rw [finish_eq]
  constructor <;> dsimp only
  case tokens_le => omega
  case tokens_le_budget =>
    intro hbudget
    omega
  case sections_le =>
    intro s hs
    rw [sectionsOf_eq, List.mem_map] at hs
    obtain ⟨topic, hshown, rfl⟩ := hs
    exact ⟨topic, rfl, rfl, estimate_settled_le hfits
      (of_decide_eq_true (List.mem_filter.mp hshown).2)⟩
  case topics_eq => exact map_fst_revisedShares ..
  case allocation_le => exact htotal

end Finished

/-! ## Runs -/

theorem measure_configure {t : Tokenizer} {load : Except String Measure} {precise : Bool}
    (h : precise = false ∨ t.encoding = none ∧ ∃ kind, load = .error kind) :
    (t.configure load precise).1.measure = estimate := by
  refine Tokenizer.measure_of_not_precise ?_
  rcases h with rfl | ⟨hencoding, kind, rfl⟩
  · rfl
  · cases precise
    · rfl
    · simp [Tokenizer.configure, Tokenizer.attempt, hencoding]

theorem WithinBudget.withRemarks {compiled : Compiled} {name : String}
    (h : WithinBudget compiled name) (r : Remarks) : WithinBudget (compiled.withRemarks r) name :=
  ⟨h.markdown_eq, h.tokens_eq, h.tokens_le, h.tokens_le_budget, h.sections_le, h.topics_eq,
    h.allocation_le⟩

/-- Whenever a run that estimates tokens answers with a document, the document keeps to the budget
that was asked for, or else to the one in the settings. -/
theorem compile_withinBudget {fs fs' : FileSystem} {services : Services} {t t' : Tokenizer}
    {request : Request} {compiled : Compiled}
    (hrun : compile fs services t request = (.ok (compiled, fs'), t'))
    (hestimate : request.precise = false ∨
      t.encoding = none ∧ ∃ kind, services.load = .error kind) :
    ∃ root settings notices profile, fs.resolve request.root = .ok root ∧
      Settings.load services.yaml fs root = .ok (settings, notices) ∧
      profileOf services.yaml fs root request.profile = .ok profile ∧
      compiled.budget = request.budget.getD settings.budget ∧
      WithinBudget compiled profile.name := by
  obtain ⟨rfl, root, settings, notices, found, contents, remarks, hprepare, hsurvey, -, rfl⟩ :=
    compile_ok hrun
  obtain ⟨hroot, -, hload⟩ := prepare_ok hprepare
  obtain ⟨hprofile, -⟩ := survey_ok hsurvey
  refine ⟨root, settings, notices, found.profile, hroot, hload, hprofile, rfl, ?_⟩
  rw [measure_configure hestimate]
  exact (finish_withinBudget _ settings found contents).withRemarks remarks

theorem compile_withinBudget_source : ∃ (compiled : Compiled) (t' : Tokenizer) (profile : Profile),
    compile (projectWith "run.go" goSource) bareServices {} (dryRequest (some { name := "p" })) =
      (.ok (compiled, projectWith "run.go" goSource), t') ∧
    WithinBudget compiled profile.name := by
  obtain ⟨compiled, t', hrun⟩ := source_returns { name := "p" }
  obtain ⟨root, settings, notices, profile, -, -, -, -, h⟩ := compile_withinBudget hrun (.inl rfl)
  exact ⟨compiled, t', profile, hrun, h⟩

end Dossier.Document

import Dossier.Proofs.Document.Balance
import Dossier.Proofs.Document.Coverage

/-!
# Headings and fences

A heading is read as one if the lines above it close every fence that they open. All sections before
it do that, but for the key files: these are cut to their share without regard to fences, and an excerpt
that is cut leaves its fence open.
-/

namespace Dossier.Document

open Budget (Shares Tokenizer)
open Steps (bind_eq_ok pure_eq_ok)

/-! ## Fences of a document -/

theorem fenceLines_line_end (s : String) : fenceLines (s ++ "\n") = fenceLines s := by
  rw [← String.append_empty (s := s ++ "\n"), fenceLines_append]
  rfl

theorem fenceLines_titleLine (name : String) : fenceLines (titleLine name) = 0 := by
  have htitle : Text.OneLine (if heading name = "" then "project" else heading name) := by
    split
    · decide
    · exact oneLine_heading name
  rw [titleLine, fenceLines_line_end]
  exact fenceLines_of_head (.append (by decide) htitle) (by simp)

theorem oneLine_title (topic : Topic) : Text.OneLine topic.title := by
  cases topic <;> decide

theorem fenceLines_parts (topic : Topic) (content : String) :
    ((Section.about topic content).parts.map fenceLines).sum =
      if topic = .tree then 2 else fenceLines content := by
  have htitle : fenceLines ("## " ++ topic.title ++ "\n") = 0 := by
    cases topic <;> decide
  rw [Section.parts_about]
  simp only [List.map_cons, List.map_nil, List.sum_cons, List.sum_nil, htitle,
    fenceLines_line_end, Nat.zero_add, Nat.add_zero]
  split
  · exact fenceLines_fenced (by decide) content
  · rfl

theorem fenceLines_assemble (name : String) (content : Topic → String) (topics : List Topic) :
    fenceLines (assemble name (topics.map fun topic ↦ .about topic (content topic))) =
      (topics.map fun topic ↦ if topic = .tree then 2 else fenceLines (content topic)).sum := by
  have hnotice : fenceLines (notice ++ "\n") = 0 := by decide
  rw [assemble, fenceLines_joinLines, List.map_cons, List.map_cons, List.sum_cons, List.sum_cons,
    fenceLines_titleLine, hnotice, Nat.zero_add, Nat.zero_add]
  induction topics with
  | nil => rfl
  | cons topic rest ih =>
      rw [List.map_cons, List.flatMap_cons, List.map_append, List.sum_append, fenceLines_parts, ih]
      rfl

/-- The lines above a heading are those of the document that ends there. -/
theorem physicalLines_assemble (name : String) (front back : List Section) {s : Section}
    (htitle : Text.OneLine s.title) :
    ∃ rest, Text.physicalLines (assemble name (front ++ s :: back)) =
      Text.physicalLines (assemble name front) ++ ("## " ++ s.title) :: rest := by
  have hheading : Text.physicalLines ("## " ++ s.title ++ "\n") = ["## " ++ s.title, ""] := by
    have hline : Text.OneLine ("## " ++ s.title) := .append (by decide) htitle
    rw [← String.append_empty (s := "## " ++ s.title ++ "\n"), Text.physicalLines_append,
      Text.physicalLines, Text.split_singleton hline]
    rfl
  have hlines (sections : List Section) : Text.physicalLines (assemble name sections) =
      (titleLine name :: (notice ++ "\n") :: sections.flatMap Section.parts).flatMap
        Text.physicalLines := by
    rw [assemble, Text.physicalLines_joinLines (List.cons_ne_nil _ _)]
  obtain ⟨below, hbelow⟩ : ∃ below,
      s.parts.flatMap Text.physicalLines = ("## " ++ s.title) :: below := by
    rw [Section.parts, List.flatMap_cons, hheading]
    exact ⟨_, rfl⟩
  have hall : titleLine name :: (notice ++ "\n") :: (front ++ s :: back).flatMap Section.parts =
      (titleLine name :: (notice ++ "\n") :: front.flatMap Section.parts) ++
        (s.parts ++ back.flatMap Section.parts) := by
    simp
  refine ⟨below ++ (back.flatMap Section.parts).flatMap Text.physicalLines, ?_⟩
  have hbody : (s.parts ++ back.flatMap Section.parts).flatMap Text.physicalLines =
      ("## " ++ s.title) :: (below ++ (back.flatMap Section.parts).flatMap Text.physicalLines) := by
    rw [List.flatMap_append, hbelow, List.cons_append]
  rw [hlines, hlines, hall, List.flatMap_append, hbody]

/-! ## Which headings stand outside -/

/-- A sum is even if all its parts are, but for one part that decides. -/
theorem even_sum_iff {α : Type} {f : α → Nat} {k : α} {xs : List α} (hnodup : xs.Nodup)
    (h : ∀ x ∈ xs, x ≠ k → Even (f x)) : Even (xs.map f).sum ↔ (k ∈ xs → Even (f k)) := by
  induction xs with
  | nil => simp
  | cons x rest ih =>
      obtain ⟨hnot, hrest⟩ := List.nodup_cons.mp hnodup
      obtain ⟨hx, hothers⟩ := List.forall_mem_cons.mp h
      rw [List.map_cons, List.sum_cons, Nat.even_add, ih hrest hothers, List.mem_cons]
      by_cases hk : x = k
      · subst hk
        simp [hnot]
      · have heven := hx hk
        simp [heven, Ne.symm hk]

/-- The topics before another one are different, and the last topic is not among them. -/
theorem before_topic {keep : Topic → Bool} {before after : List Topic} {topic : Topic}
    (h : Topic.all.filter keep = before ++ topic :: after) :
    before.Nodup ∧ .knowledge ∉ before := by
  have hsublist : (before ++ topic :: after).Sublist Topic.all := by
    rw [← h]
    exact List.filter_sublist
  have hnodup : Topic.all.Nodup := by decide
  have hlast : Topic.all.Pairwise fun t _ ↦ t ≠ .knowledge := by decide
  refine ⟨(List.nodup_append.mp (hnodup.sublist hsublist)).1, fun hmem ↦ ?_⟩
  exact (List.pairwise_append.mp (hlast.sublist hsublist)).2.2 _ hmem topic List.mem_cons_self rfl

/-- Above a heading all fences are closed, unless the key files are there and do not close theirs. -/
theorem even_fenceLines_above (name : String) {content : Topic → String} {keep : Topic → Bool}
    (hoverview : Even (fenceLines (content .overview)))
    (hmap : Even (fenceLines (content .codeMap))) {before after : List Topic} {topic : Topic}
    (h : Topic.all.filter keep = before ++ topic :: after) :
    Even (fenceLines (assemble name (before.map fun t ↦ .about t (content t)))) ↔
      (.keyFiles ∈ before → Even (fenceLines (content .keyFiles))) := by
  obtain ⟨hnodup, hknowledge⟩ := before_topic h
  -- The notes are the only other content that may be cut inside a fence, and they come last.
  have hclosed : ∀ t ∈ before, t ≠ .keyFiles →
      Even (if t = .tree then 2 else fenceLines (content t)) := by
    intro t ht hkey
    cases t with
    | overview => exact hoverview
    | tree => exact even_two
    | keyFiles => exact absurd rfl hkey
    | codeMap => exact hmap
    | knowledge => exact absurd ht hknowledge
  rw [fenceLines_assemble, even_sum_iff hnodup hclosed, if_neg (by decide)]

/-- A heading of a document, with the sections before it. -/
structure Headed (compiled : Compiled) (name : String) (front : List Section) (s : Section) :
    Prop where
  /-- The line of the heading comes after the lines of the sections before it. -/
  lines : ∃ rest, Text.physicalLines compiled.markdown =
    Text.physicalLines (assemble name front) ++ ("## " ++ s.title) :: rest
  /-- The lines above the heading close their fences, unless the key files among them do not. -/
  even_iff : Even (fenceLines (assemble name front)) ↔
    ((∃ k ∈ front, k.id = Topic.keyFiles.id) → Even (fenceLines (compiled.contentOn .keyFiles)))

theorem Headed.withRemarks {compiled : Compiled} {name : String} {front : List Section}
    {s : Section} (h : Headed compiled name front s) (r : Remarks) :
    Headed (compiled.withRemarks r) name front s :=
  ⟨h.lines, h.even_iff⟩

section Finished

variable (measure : Measure) (budget : Int) (settings : Settings) (found : Findings)
  (contents : Contents)

theorem contentOn_finish (topic : Topic) :
    (finish measure settings budget found contents).contentOn topic = settled measure
      (revisedShares measure budget settings found contents) contents
      (lastMap measure budget settings found contents).content topic :=
  contentOn_of_sections_eq (by rw [finish_eq]) topic

theorem keyFiles_finish : (finish measure settings budget found contents).contentOn .keyFiles =
    cutToFit measure ((finish measure settings budget found contents).allocation.get .keyFiles)
      contents.keyFiles := by
  rw [contentOn_finish, finish_eq]
  rfl

theorem markdown_finish : (finish measure settings budget found contents).markdown =
    assemble found.profile.name
      ((finish measure settings budget found contents).sections.map (·.1)) := by
  rw [finish_eq]

theorem map_fst_sections_finish :
    (finish measure settings budget found contents).sections.map (·.1) =
      (Topic.all.filter fun topic ↦
        (finish measure settings budget found contents).contentOn topic ≠ "").map
          fun topic ↦ Section.about topic
            ((finish measure settings budget found contents).contentOn topic) := by
  simp only [contentOn_finish]
  rw [finish_eq]
  exact map_fst_sectionsOf ..

/-- The headings of a document that is finished from contents that close their fences. -/
theorem finish_headed (hoverview : fenceLines contents.overview = 0)
    (houtlines : ∀ file ∈ found.outlines, Text.OneLine file.path ∧ Text.OneLine file.language)
    (front : List Section) (s : Section) (back : List Section)
    (hsections : (finish measure settings budget found contents).sections.map (·.1) =
      front ++ s :: back) :
    Headed (finish measure settings budget found contents) found.profile.name front s := by
  have hmarkdown := markdown_finish measure budget settings found contents
  have hshown : Even (fenceLines
      ((finish measure settings budget found contents).contentOn .overview)) := by
    have hle := fenceLines_cutToFit_le measure
      ((revisedShares measure budget settings found contents).get .overview) contents.overview
    have hzero : fenceLines (settled measure
        (revisedShares measure budget settings found contents) contents
        (lastMap measure budget settings found contents).content .overview) = 0 :=
      Nat.le_zero.mp (hle.trans_eq hoverview)
    rw [contentOn_finish, hzero]
    exact Even.zero
  have hmap : Even (fenceLines
      ((finish measure settings budget found contents).contentOn .codeMap)) := by
    obtain ⟨share, hshare⟩ := exists_share_lastMap measure budget settings found contents
    rw [contentOn_finish, hshare]
    exact even_fenceLines_packCodeMap houtlines _ _ _
  have htopics := map_fst_sections_finish measure budget settings found contents
  rw [hsections] at htopics hmarkdown
  generalize finish measure settings budget found contents = compiled at *
  obtain ⟨before, others, hall, hfront, hrest⟩ := List.map_eq_append_iff.mp htopics.symm
  obtain ⟨topic, after, rfl, rfl, -⟩ := List.map_eq_cons_iff.mp hrest
  subst hfront
  refine ⟨?lines, ?even⟩
  case lines =>
    rw [hmarkdown]
    exact physicalLines_assemble found.profile.name _ back (oneLine_title topic)
  case even =>
    rw [even_fenceLines_above found.profile.name hshown hmap hall]
    refine imp_congr_left ?_
    constructor
    · intro hbefore
      exact ⟨_, List.mem_map_of_mem hbefore, rfl⟩
    · rintro ⟨k, hk, hid⟩
      obtain ⟨t, ht, rfl⟩ := List.mem_map.mp hk
      rwa [← Topic.id_inj hid]

end Finished

/-! ## Runs -/

section Runs

variable {fs fs' : FileSystem} {services : Services} {t t' : Tokenizer} {request : Request}
  {root : Path} {settings : Settings} {found : Findings}

theorem oneLine_languageName (language : Language) : Text.OneLine language.name := by
  cases language <;> decide

theorem oneLine_of_mem_namedCounts {files : List String} :
    ∀ x ∈ namedCounts files, Text.OneLine x.1 := by
  intro x hx
  obtain ⟨⟨language, n⟩, -, rfl⟩ := List.mem_map.mp hx
  exact oneLine_languageName language

theorem unbroken_of_survey (hfs : fs.WellFormed) (hnames : fs.Unbroken)
    {known : Option Profile} (hknown : ∀ profile ∈ known, profile.Unbroken)
    (h : survey fs services root settings known = .ok found) : found.profile.Unbroken := by
  obtain ⟨hprofile, -⟩ := survey_ok h
  unfold profileOf at hprofile
  split at hprofile
  · obtain rfl := Except.ok.inj hprofile
    exact hknown _ rfl
  · exact Profile.unbroken_of_detect hfs hnames hprofile

theorem oneLine_of_survey (hfs : fs.WellFormed) (hnames : fs.Unbroken)
    (hroot : root.isAbsolute = true) {known : Option Profile}
    (h : survey fs services root settings known = .ok found) :
    (∀ path ∈ found.files, Text.OneLine path) ∧
      ∀ file ∈ found.outlines, Text.OneLine file.path ∧ Text.OneLine file.language := by
  obtain ⟨-, inventory, warnings, progress, htake, hfiles, hsources, hcollect⟩ := survey_ok h
  have hpaths : ∀ path ∈ inventory.files, Text.OneLine path := by
    intro path hpath
    obtain ⟨parts, -, hparts, rfl⟩ := Inventory.exists_names_of_mem_files hnames htake path hpath
    exact Path.oneLine_relativeText hparts
  have hsubset : ∀ path ∈ found.sources, path ∈ inventory.files := by
    intro path hpath
    rw [hsources] at hpath
    exact List.mem_of_mem_filter hpath
  obtain ⟨outlines, hperm, hsublist, hlanguages⟩ := Outline.exists_perm_of_collect hroot
    (fun path hpath ↦ Inventory.isNamed_of_mem_files hfs htake path (hsubset path hpath)) hcollect
  refine ⟨hfiles ▸ hpaths, fun file hfile ↦ ?_⟩
  have hmem := hperm.subset hfile
  have hpath := hsublist.subset (List.mem_map_of_mem hmem)
  obtain ⟨language, hlanguage⟩ := hlanguages file hmem
  refine ⟨hpaths _ (hsubset _ hpath), ?_⟩
  rw [hlanguage]
  exact oneLine_languageName language

/-- In a document of a project without line feeds in its names, all fences above a heading are closed,
unless the key files stand above it and have been cut inside a fence. They have not if their excerpts
with what stands between them keep to the share of the section. -/
theorem fences_above_headings (hfs : fs.WellFormed) (hnames : fs.Unbroken)
    (hknown : ∀ profile ∈ request.profile, profile.Unbroken) {compiled : Compiled}
    (hrun : compile fs services t request = (.ok (compiled, fs'), t')) :
    ∃ root settings notices found excerpts,
      prepare services.yaml fs request.root = .ok (root, settings, notices) ∧
      survey fs services root settings request.profile = .ok found ∧
      keyFiles fs t'.measure root found.files settings.keyFiles
        ((split t'.measure found.profile.name (request.budget.getD settings.budget)).get
          .keyFiles) = .ok excerpts ∧
      compiled.contentOn .keyFiles =
        cutToFit t'.measure (compiled.allocation.get .keyFiles) excerpts.content ∧
      ∀ front s back, compiled.sections.map (·.1) = front ++ s :: back →
        Headed compiled found.profile.name front s ∧
          ((t'.measure excerpts.content : Int) ≤ compiled.allocation.get .keyFiles →
            Even (fenceLines (assemble found.profile.name front))) := by
  obtain ⟨-, root, settings, notices, found, contents, remarks, hprepare, hsurvey, hcontents,
    rfl⟩ := compile_ok hrun
  obtain ⟨hresolve, -, -⟩ := prepare_ok hprepare
  obtain ⟨hpaths, houtlines⟩ := oneLine_of_survey hfs hnames (isAbsolute_of_resolve hresolve) hsurvey
  obtain ⟨hoverview, excerpts, -, -, -, -, hexcerpts, -, hkeyFiles, -⟩ := contentsOf_ok hcontents
  have hnone : fenceLines contents.overview = 0 := by
    rw [hoverview]
    exact fenceLines_overview (unbroken_of_survey hfs hnames hknown hsurvey)
      oneLine_of_mem_namedCounts
  have hcut := keyFiles_finish t'.measure (request.budget.getD settings.budget) settings found
    contents
  have hheaded := finish_headed t'.measure (request.budget.getD settings.budget) settings found
    contents hnone houtlines
  rw [hkeyFiles] at hcut
  generalize finish t'.measure settings (request.budget.getD settings.budget) found contents =
    built at hcut hheaded ⊢
  refine ⟨root, settings, notices, found, excerpts, hprepare, hsurvey, hexcerpts, hcut, ?_⟩
  intro front s back hsections
  have hs := hheaded front s back hsections
  refine ⟨hs.withRemarks remarks, fun hfits ↦ hs.even_iff.mpr fun _ ↦ ?_⟩
  have hwhole : cutToFit t'.measure (built.allocation.get .keyFiles) excerpts.content =
      excerpts.content := if_pos hfits
  rw [hcut, hwhole]
  exact even_fenceLines_keyFiles hpaths hexcerpts

theorem projectWith_unbroken {name : String} (hname : Text.OneLine name) (bytes : ByteArray) :
    (projectWith name bytes).Unbroken := by
  have hp : Text.OneLine "p" := by decide
  refine .directory (List.forall_mem_singleton.mpr hp) (List.forall_mem_singleton.mpr ?_)
  refine .directory (List.forall_mem_singleton.mpr hname) (List.forall_mem_singleton.mpr ?_)
  exact .file bytes

theorem fences_above_headings_source : ∃ (compiled : Compiled) (t' : Tokenizer) (name : String)
    (excerpts : Excerpts),
    compile (projectWith "run.go" goSource) bareServices {} (dryRequest (some { name := "p" })) =
      (.ok (compiled, projectWith "run.go" goSource), t') ∧
    compiled.contentOn .keyFiles =
      cutToFit t'.measure (compiled.allocation.get .keyFiles) excerpts.content ∧
    ∀ front s back, compiled.sections.map (·.1) = front ++ s :: back →
      Headed compiled name front s := by
  obtain ⟨compiled, t', hrun⟩ := source_returns { name := "p" }
  have hknown : ∀ profile ∈ (dryRequest (some { name := "p" })).profile, profile.Unbroken := by
    rintro profile ⟨⟩
    exact ⟨by decide, by decide, by decide, by simp, by simp⟩
  obtain ⟨root, settings, notices, found, excerpts, -, -, -, hcut, h⟩ := fences_above_headings
    source_wellFormed (projectWith_unbroken (by decide) goSource) hknown hrun
  exact ⟨compiled, t', found.profile.name, excerpts, hrun, hcut,
    fun front s back hsections ↦ (h front s back hsections).1⟩

end Runs

end Dossier.Document

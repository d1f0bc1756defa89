import Dossier.Document.Compile
import Dossier.Proofs.Steps

/-!
# What a run goes through

A run that answers with a document has found its root, its settings and all that the sections are
made from, and the document is the one finished from these. Whatever holds of all documents is shown
for `finish` and follows for runs.
-/

namespace Dossier.Document

open Budget (Tokenizer)
open Steps (bind_eq_ok pure_eq_ok)

variable {fs fs' : FileSystem} {services : Services} {t t' : Tokenizer} {request : Request}
  {compiled : Compiled}

theorem survey_ok {root : Path} {settings : Settings} {known : Option Profile}
    {found : Findings} (h : survey fs services root settings known = .ok found) :
    profileOf services.yaml fs root known = .ok found.profile ∧
      ∃ inventory warnings progress,
        Inventory.take fs (treeStyle settings).ignored root = .ok inventory ∧
        found.files = inventory.files ∧
        found.sources = Inventory.sources settings.excludeSignatures inventory.files ∧
        Outline.collect fs services.parse root found.sources =
          .ok (found.outlines, warnings, progress) := by
  simp only [survey, bind_eq_ok, pure_eq_ok] at h
  obtain ⟨profile, hprofile, inventory, hinventory, ⟨outlines, warnings, progress⟩, hcollect,
    rfl⟩ := h
  exact ⟨hprofile, inventory, warnings, progress, hinventory, rfl, rfl, hcollect⟩

theorem contentsOf_ok {measure : Measure} {root : Path} {settings : Settings} {found : Findings}
    {allocation : Budget.Shares Topic} {contents : Contents}
    (h : contentsOf fs measure root settings found allocation = .ok contents) :
    contents.overview = overview found.profile (namedCounts found.sources) ∧
      ∃ excerpts treeWarnings noteWarnings generate?,
        DirectoryTree.fitting fs (treeStyle settings) (significantPaths settings found) root
          (allocation.get .tree) = .ok (contents.tree, treeWarnings) ∧
        keyFiles fs measure root found.files settings.keyFiles (allocation.get .keyFiles) =
          .ok excerpts ∧
        knowledge fs measure root settings.knowledgeDir (allocation.get .knowledge) generate? =
          .ok (contents.knowledge, noteWarnings) ∧
        contents.keyFiles = excerpts.content ∧
        contents.warnings = treeWarnings ++ excerpts.warnings ++ noteWarnings := by
  simp only [contentsOf, bind_eq_ok] at h
  obtain ⟨⟨tree, treeWarnings⟩, htree, excerpts, hexcerpts, h⟩ := h
  cases hflaw : settings.knowledgeFlaw with
  | some code => simp [hflaw, bind, Except.bind] at h
  | none =>
      simp only [hflaw, bind_eq_ok, pure_eq_ok] at h
      obtain ⟨⟨notes, noteWarnings⟩, hnotes, rfl⟩ := h
      exact ⟨rfl, excerpts, treeWarnings, noteWarnings, _, htree, hexcerpts, hnotes, rfl, rfl⟩

/-- What is said beside a document: its warnings, its progress and where it was written. -/
structure Remarks where
  warnings : List String
  progress : List Progress
  output : Option Path

/-- A document with other remarks. -/
def Compiled.withRemarks (compiled : Compiled) (r : Remarks) : Compiled :=
  { compiled with warnings := r.warnings, progress := r.progress, output := r.output }

/-- The course of a run that answers with a document, and what is warned of in it. -/
theorem compile_said (h : compile fs services t request = (.ok (compiled, fs'), t')) :
    t' = (t.configure services.load request.precise).1 ∧
      ∃ root settings notices found contents remarks,
        prepare services.yaml fs request.root = .ok (root, settings, notices) ∧
        survey fs services root settings request.profile = .ok found ∧
        contentsOf fs t'.measure root settings found
          (split t'.measure found.profile.name (request.budget.getD settings.budget)) =
            .ok contents ∧
        compiled = (finish t'.measure settings (request.budget.getD settings.budget) found
          contents).withRemarks remarks ∧
        remarks.warnings = notices ++ (t.configure services.load request.precise).2 ++
          (found.warnings ++ contents.warnings) := by
  cases hprepare : prepare services.yaml fs request.root with
  | error f => simp [compile, hprepare] at h
  | ok prepared =>
      obtain ⟨root, settings, notices⟩ := prepared
      simp only [compile, hprepare, Prod.mk.injEq] at h
      obtain ⟨hrun, rfl⟩ := h
      refine ⟨rfl, root, settings, notices, ?_⟩
      simp only [bind_eq_ok, build, compose, pure_eq_ok] at hrun
      obtain ⟨built, ⟨found, hfound, composed, ⟨contents, hcontents, rfl⟩, rfl⟩, hpublish⟩ := hrun
      have hremarks : ∃ remarks, compiled =
          (finish (t.configure services.load request.precise).1.measure settings
            (request.budget.getD settings.budget) found contents).withRemarks remarks ∧
          remarks.warnings = notices ++ (t.configure services.load request.precise).2 ++
            (found.warnings ++ contents.warnings) := by
        simp only [publish] at hpublish
        split at hpublish
        · obtain ⟨rfl, -⟩ := Prod.mk.inj (pure_eq_ok.mp hpublish)
          exact ⟨⟨_, _, _⟩, rfl, rfl⟩
        · obtain ⟨written, -, hwritten⟩ := bind_eq_ok.mp hpublish
          obtain ⟨rfl, -⟩ := Prod.mk.inj (pure_eq_ok.mp hwritten)
          exact ⟨⟨_, _, _⟩, rfl, rfl⟩
      obtain ⟨remarks, hcompiled, hwarnings⟩ := hremarks
      exact ⟨found, contents, remarks, rfl, hfound, hcontents, hcompiled, hwarnings⟩

/-- The course of a run that answers with a document. -/
theorem compile_ok (h : compile fs services t request = (.ok (compiled, fs'), t')) :
    t' = (t.configure services.load request.precise).1 ∧
      ∃ root settings notices found contents remarks,
        prepare services.yaml fs request.root = .ok (root, settings, notices) ∧
        survey fs services root settings request.profile = .ok found ∧
        contentsOf fs t'.measure root settings found
          (split t'.measure found.profile.name (request.budget.getD settings.budget)) =
            .ok contents ∧
        compiled = (finish t'.measure settings (request.budget.getD settings.budget) found
          contents).withRemarks remarks := by
  obtain ⟨ht, root, settings, notices, found, contents, remarks, hprepare, hsurvey, hcontents,
    hcompiled, -⟩ := compile_said h
  exact ⟨ht, root, settings, notices, found, contents, remarks, hprepare, hsurvey, hcontents, hcompiled⟩

theorem prepare_ok {root : Path} {settings : Settings} {notices : List String}
    (h : prepare services.yaml fs request.root = .ok (root, settings, notices)) :
    fs.resolve request.root = .ok root ∧ fs.ensureReadable root = .ok () ∧
      Settings.load services.yaml fs root = .ok (settings, notices) := by
  simp only [prepare, bind_eq_ok, pure_eq_ok] at h
  obtain ⟨root', hroot, ⟨⟩, hreadable, ⟨settings', notices'⟩, hload, heq⟩ := h
  obtain ⟨rfl, rfl, rfl⟩ := by simpa using heq
  exact ⟨hroot, hreadable, hload⟩

/-- The canonical form of a path starts at the root. -/
theorem root_of_resolve {p root : Path} (h : fs.resolve p = .ok root) : root.root = "/" := by
  rw [FileSystem.resolve] at h
  split at h
  · simp at h
  · split at h
    · obtain rfl := Except.ok.inj h
      rfl
    · simp at h
    · dsimp only at h
      split at h
      · simp at h
      · obtain rfl := Except.ok.inj h
        rfl

theorem isAbsolute_of_resolve {p root : Path} (h : fs.resolve p = .ok root) :
    root.isAbsolute = true := by
  rw [Path.isAbsolute, root_of_resolve h]
  rfl

end Dossier.Document

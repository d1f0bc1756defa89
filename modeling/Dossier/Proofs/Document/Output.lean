import Dossier.Proofs.Document.Returns
import Dossier.Proofs.Document.Run
import Dossier.Proofs.FileSystem.Growth
import Dossier.Proofs.FileSystem.Straight
import Mathlib.Logic.Relation

/-!
# Where documents are kept

The document of a project is kept under the path of the project with hyphens for slashes. So two
projects share a document if and only if their paths differ in such characters alone. Apart from that
no run touches the document of another project, unless a link in the output root leads there.
-/

namespace Dossier.Document

open Budget (Tokenizer)
open FileSystem (Grown)
open Steps (bind_eq_ok pure_eq_ok)

variable {fs fs' : FileSystem} {services : Services} {t t' : Tokenizer} {request : Request}
  {compiled : Compiled} {outRoot root : Path} {top location : Location} {bytes : ByteArray}

/-! ## Slugs -/

/-- Two characters that a slug does not tell apart. -/
def SameInSlug (c d : Char) : Prop :=
  c = d ∨ (c = '/' ∨ c = '-') ∧ (d = '/' ∨ d = '-')

theorem sameInSlug_iff {c d : Char} :
    SameInSlug c d ↔ (if c == '/' then '-' else c) = if d == '/' then '-' else d := by
  simp only [SameInSlug, beq_iff_eq]
  split <;> split <;> simp_all [eq_comm]

theorem slug_eq_iff {a b : Path} :
    slug a = slug b ↔ List.Forall₂ SameInSlug a.text.toList b.text.toList := by
  rw [slug, slug, Text.replaceChar, Text.replaceChar, String.ofList_inj, ← List.forall₂_eq_eq_eq,
    List.forall₂_map_left_iff, List.forall₂_map_right_iff]
  simp only [← sameInSlug_iff]

theorem eq_of_sameInSlug {xs ys : List Char} (hxs : '-' ∉ xs) (hys : '-' ∉ ys)
    (h : List.Forall₂ SameInSlug xs ys) : xs = ys := by
  induction h with
  | nil => rfl
  | cons hsame _ ih =>
      rw [List.mem_cons, not_or] at hxs hys
      rw [ih hxs.2 hys.2]
      rcases hsame with rfl | ⟨hc, hd⟩
      · rfl
      · rw [hc.resolve_right (Ne.symm hxs.1), hd.resolve_right (Ne.symm hys.1)]

theorem outputPath_eq_iff {a b : Path} :
    outputPath outRoot a = outputPath outRoot b ↔ slug a = slug b := by
  simp [outputPath, Path.child]

/-- The slug of a path at the root is no dot. -/
theorem slug_ne_dots (hroot : root.root = "/") : slug root ≠ "." ∧ slug root ≠ ".." := by
  have hstart : ∃ cs, (slug root).toList = '-' :: cs := by
    rw [slug, Path.text, hroot, if_neg (by simp), Text.replaceChar]
    simp
  obtain ⟨cs, hcs⟩ := hstart
  constructor <;> intro h <;> simp [h] at hcs

/-! ## Places -/

/-- No link stands in the place of a document, or of the directory that the document is in. -/
def KeepsPlaces (fs : FileSystem) (top : Location) : Prop :=
  ∀ (root : Path) (target : String), fs.kind? (top ++ [slug root]) ≠ some (.link target) ∧
    fs.kind? (top ++ [slug root, "CLAUDE.md"]) ≠ some (.link target)

theorem KeepsPlaces.of_isPlain (h : fs.top.IsPlain) : KeepsPlaces fs top := by
  intro root target
  exact ⟨FileSystem.kind?_ne_link h target, FileSystem.kind?_ne_link h target⟩

theorem KeepsPlaces.grown {changed : Location → Prop} (h : KeepsPlaces fs top)
    (hgrown : Grown changed fs fs') : KeepsPlaces fs' top := by
  intro root target
  obtain ⟨hdir, hfile⟩ := h root target
  exact ⟨hdir ∘ hgrown.links, hfile ∘ hgrown.links⟩

/-- Without links the output path of a project leads to a place of its own. -/
theorem KeepsPlaces.location_eq (h : KeepsPlaces fs top) (htop : fs.locate outRoot = .ok top)
    (hroot : root.root = "/") (hlocate : fs.locate (outputPath outRoot root) = .ok location) :
    location = top ++ [slug root, "CLAUDE.md"] := by
  have hparts : outputPath outRoot root =
      ⟨outRoot.root, outRoot.parts ++ [slug root, "CLAUDE.md"]⟩ := by
    simp [outputPath, Path.child]
  rw [hparts] at hlocate
  obtain ⟨left, hwalk⟩ := FileSystem.exists_walk_of_locate htop hlocate
  have hdirectory : fs.kind? top = some .directory := by
    rw [FileSystem.walk_cons] at hwalk
    cases hkind : fs.kind? top with
    | none => simp [hkind] at hwalk
    | some kind => cases kind <;> simp_all
  have hclear : fs.Clear top [slug root, "CLAUDE.md"] := by
    constructor
    · obtain ⟨hdot, hdots⟩ := slug_ne_dots hroot
      simp [hdot, hdots]
    · intro above habove target hlink
      have hlink := FileSystem.kind?_of_at? hlink
      obtain rfl | ⟨below, rfl, hbelow⟩ := List.prefix_cons_iff.mp habove
      · simp [hdirectory, Entry.kind] at hlink
      obtain rfl | ⟨below, rfl, hbelow⟩ := List.prefix_cons_iff.mp hbelow
      · exact (h root target).1 hlink
      · rw [List.prefix_cons_inj, List.prefix_nil] at hbelow
        subst hbelow
        exact (h root target).2 hlink
  exact hclear.eq_append_of_walk hwalk

/-! ## Runs -/

/-- What a run comes to before it writes: the root of the project and its document. -/
def draft (fs : FileSystem) (services : Services) (t : Tokenizer) (request : Request) :
    Except Failure (Path × Compiled) := do
  let (root, settings, warnings) ← prepare services.yaml fs request.root
  let (t, notices) := t.configure services.load request.precise
  return (root, ← build fs services t request root settings (warnings ++ notices))

theorem fst_compile_eq_draft : (compile fs services t request).1 = (do
    let (root, built) ← draft fs services t request
    publish fs request root built) := by
  rw [fst_compile, draft]
  simp only [bind_assoc, pure_bind]

theorem resolve_of_draft (h : draft fs services t request = .ok (root, compiled)) :
    fs.resolve request.root = .ok root := by
  obtain ⟨⟨root', settings, notices⟩, hprepare, h⟩ := bind_eq_ok.mp h
  obtain ⟨built, -, h⟩ := bind_eq_ok.mp h
  obtain ⟨rfl, rfl⟩ := Prod.mk.inj (pure_eq_ok.mp h)
  exact (prepare_ok hprepare).1

theorem publish_write_eq_ok (hdry : request.dryRun = false) {written : Compiled × FileSystem} :
    publish fs request root compiled = .ok written ↔
      fs.writeText (outputPath request.outRoot root) compiled.markdown = .ok written.2 ∧
        written.1 = { compiled with
          output := some (outputPath request.outRoot root)
          progress := compiled.progress ++
            [.finished ("Wrote " ++ (outputPath request.outRoot root).text)] } := by
  rw [publish, hdry, if_neg Bool.false_ne_true]
  simp only [bind_eq_ok, pure_eq_ok]
  constructor
  · rintro ⟨fs', hwritten, rfl⟩
    exact ⟨hwritten, rfl⟩
  · rintro ⟨hwritten, hcompiled⟩
    exact ⟨written.2, hwritten, Prod.ext hcompiled.symm rfl⟩

/-- What a run does to the file system. -/
theorem compile_published (h : compile fs services t request = (.ok (compiled, fs'), t')) :
    ∃ root, fs.resolve request.root = .ok root ∧
      (request.dryRun = true ∧ fs' = fs ∨
        request.dryRun = false ∧
          fs.writeText (outputPath request.outRoot root) compiled.markdown = .ok fs') := by
  have hrun := congrArg Prod.fst h
  rw [fst_compile_eq_draft] at hrun
  obtain ⟨⟨root, built⟩, hdraft, hpublish⟩ := bind_eq_ok.mp hrun
  dsimp only at hpublish
  refine ⟨root, resolve_of_draft hdraft, ?_⟩
  cases hdry : request.dryRun with
  | true =>
      rw [publish_dry hdry] at hpublish
      obtain ⟨-, rfl⟩ := Prod.mk.inj (Except.ok.inj hpublish)
      exact .inl ⟨rfl, rfl⟩
  | false =>
      obtain ⟨hwritten, rfl⟩ := (publish_write_eq_ok hdry).mp hpublish
      exact .inr ⟨rfl, hwritten⟩

/-- A run that returns without writing also does with writing, if the document can be written. -/
theorem exists_compile_write (hdry : request.dryRun = false)
    (hrun : (compile fs services t { request with dryRun := true }).1 = .ok (compiled, fs))
    (hwrite : ∀ root s, fs.resolve request.root = .ok root →
      ∃ fs', fs.writeText (outputPath request.outRoot root) s = .ok fs') :
    ∃ compiled fs' t', compile fs services t request = (.ok (compiled, fs'), t') := by
  rw [fst_compile_eq_draft] at hrun
  obtain ⟨⟨root, built⟩, hdraft, -⟩ := bind_eq_ok.mp hrun
  have hdraft : draft fs services t request = .ok (root, built) := hdraft
  obtain ⟨fs', hwritten⟩ := hwrite root built.markdown (resolve_of_draft hdraft)
  obtain ⟨compiled, hpublish⟩ : ∃ compiled,
      publish fs request root built = .ok (compiled, fs') :=
    ⟨_, (publish_write_eq_ok hdry).mpr ⟨hwritten, rfl⟩⟩
  have hreturns := fst_compile_eq_draft.trans (bind_eq_ok.mpr ⟨_, hdraft, hpublish⟩)
  exact ⟨compiled, fs', _, Prod.ext hreturns rfl⟩

/-- A run that returns, with its output under `outRoot`, for a project with another output path. -/
def RunsBeside (outRoot p : Path) (fs fs' : FileSystem) : Prop :=
  ∃ services t request root compiled t', request.outRoot = outRoot ∧
    fs.resolve request.root = .ok root ∧ outputPath outRoot root ≠ p ∧
      compile fs services t request = (.ok (compiled, fs'), t')

/-- A document in its place. -/
structure Kept (outRoot root : Path) (top : Location) (bytes : ByteArray) (fs : FileSystem) :
    Prop where
  top_eq : fs.locate outRoot = .ok top
  places : KeepsPlaces fs top
  stat_eq : fs.stat (outputPath outRoot root) = .ok (.file bytes)

theorem Kept.step (hroot : root.root = "/") (h : Kept outRoot root top bytes fs)
    (hrun : RunsBeside outRoot (outputPath outRoot root) fs fs') :
    Kept outRoot root top bytes fs' := by
  obtain ⟨services, t, request, other, compiled, t', rfl, hother, hne, hcompile⟩ := hrun
  obtain ⟨other', hother', ⟨-, rfl⟩ | ⟨-, hwrite⟩⟩ := compile_published hcompile
  · exact h
  obtain rfl : other = other' := Except.ok.inj (hother.symm.trans hother')
  obtain ⟨place, hgrown, hplace, -⟩ := FileSystem.exists_grown_of_writeText hwrite
  have htop := hgrown.locate_eq h.top_eq
  have hplaces := h.places.grown hgrown
  refine ⟨htop, hplaces, hgrown.stat_eq h.stat_eq ?_⟩
  intro location hlocate hsame
  have hhere := hplaces.location_eq htop hroot (hgrown.locate_eq hlocate)
  have hthere := hplaces.location_eq htop (root_of_resolve hother) hplace
  rw [hhere, hthere, List.append_cancel_left_eq, List.cons.injEq] at hsame
  exact hne (outputPath_eq_iff.mpr hsame.1.symm)

theorem Kept.steps (hroot : root.root = "/") (h : Kept outRoot root top bytes fs)
    (hruns : Relation.ReflTransGen (RunsBeside outRoot (outputPath outRoot root)) fs fs') :
    Kept outRoot root top bytes fs' := by
  induction hruns with
  | refl => exact h
  | tail _ hrun ih => exact ih.step hroot hrun

/-- A document that is there is in a directory that is there. -/
theorem exists_locate_outRoot {e : Entry} (h : fs.stat (outputPath outRoot root) = .ok e) :
    ∃ top, fs.locate outRoot = .ok top := by
  obtain ⟨location, hlocate, -⟩ := bind_eq_ok.mp h
  obtain ⟨dir, -, hdir, -⟩ := FileSystem.exists_locate_of_child hlocate
  obtain ⟨top, -, htop, -⟩ := FileSystem.exists_locate_of_child hdir
  exact ⟨top, htop⟩

/-- Two projects have one output path if and only if their paths agree but for slashes and hyphens, so
projects without hyphens in their paths have different ones. A run that returns and writes leaves its
document at the output path of its project, and every file that is not there as it was. And however
many runs return for projects with other output paths, a document stays as it is, if no link stands in
the place of a document. -/
theorem documents_kept_apart (outRoot : Path) :
    (∀ a b : Path, outputPath outRoot a = outputPath outRoot b ↔
      List.Forall₂ SameInSlug a.text.toList b.text.toList) ∧
    (∀ a b : Path, a.IsCanonical → b.IsCanonical → '-' ∉ a.text.toList → '-' ∉ b.text.toList →
      a ≠ b → outputPath outRoot a ≠ outputPath outRoot b) ∧
    (∀ fs fs' services t t' request compiled, request.outRoot = outRoot → request.dryRun = false →
      compile fs services t request = (.ok (compiled, fs'), t') →
        ∃ root, fs.resolve request.root = .ok root ∧
          fs'.stat (outputPath outRoot root) = .ok (.file compiled.markdown.toUTF8) ∧
          ∀ p bytes, fs.stat p = .ok (.file bytes) →
            fs'.locate p = fs'.locate (outputPath outRoot root) ∨
              fs'.stat p = .ok (.file bytes)) ∧
    ∀ fs fs' root bytes, root.root = "/" →
      (∀ top, fs.locate outRoot = .ok top → KeepsPlaces fs top) →
      fs.stat (outputPath outRoot root) = .ok (.file bytes) →
      Relation.ReflTransGen (RunsBeside outRoot (outputPath outRoot root)) fs fs' →
        fs'.stat (outputPath outRoot root) = .ok (.file bytes) := by
  refine ⟨?_, ?_, ?_, ?_⟩
  · intro a b
    rw [outputPath_eq_iff, slug_eq_iff]
  · intro a b ha hb hhyphen hhyphen' hne hsame
    rw [outputPath_eq_iff, slug_eq_iff] at hsame
    have htext := String.toList_inj.mp (eq_of_sameInSlug hhyphen hhyphen' hsame)
    exact hne (ha.eq_of_text_eq hb htext)
  · intro fs fs' services t t' request compiled hout hdry hcompile
    subst hout
    obtain ⟨root, hresolve, ⟨hdry', -⟩ | ⟨-, hwrite⟩⟩ := compile_published hcompile
    · simp [hdry] at hdry'
    obtain ⟨location, hgrown, hlocate, hat⟩ := FileSystem.exists_grown_of_writeText hwrite
    refine ⟨root, hresolve, ?_, ?_⟩
    · rw [FileSystem.stat, hlocate]
      simp only [bind, Except.bind, hat]
    · intro p bytes hstat
      by_cases hsame : fs'.locate p = .ok location
      · exact .inl (hsame.trans hlocate.symm)
      · right
        apply hgrown.stat_eq hstat
        rintro place hplace rfl
        exact hsame (hgrown.locate_eq hplace)
  · intro fs fs' root bytes hroot hplaces hstat hruns
    obtain ⟨top, htop⟩ := exists_locate_outRoot hstat
    exact (Kept.steps hroot ⟨htop, hplaces top htop, hstat⟩ hruns).stat_eq

/-- The documents of two projects can be one. -/
theorem documents_collide :
    (Path.mk "/" ["a", "b"]).IsCanonical ∧ (Path.mk "/" ["a-b"]).IsCanonical ∧
      Path.mk "/" ["a", "b"] ≠ Path.mk "/" ["a-b"] ∧
      outputPath ⟨"/", ["out"]⟩ ⟨"/", ["a", "b"]⟩ =
        outputPath ⟨"/", ["out"]⟩ ⟨"/", ["a-b"]⟩ :=
  ⟨⟨rfl, by decide⟩, ⟨rfl, by decide⟩, by decide, by decide⟩

/-! ## A run beside a document -/

/-- A project, and beside it the document of another one. -/
def besideDocument : FileSystem where
  entries := [("p", .directory [("run.go", .file goSource)]),
    ("out", .directory [("-q", .directory [("CLAUDE.md", .file ⟨#[]⟩)])])]

/-- A request to write the document of that project. -/
def writeRequest : Request where
  root := ⟨"/", ["p"]⟩
  outRoot := ⟨"/", ["out"]⟩

theorem besideDocument_wellFormed : besideDocument.WellFormed := by
  have hnames : ProperName "p" ∧ ProperName "run.go" ∧ ProperName "out" ∧ ProperName "-q" ∧
      ProperName "CLAUDE.md" := by decide
  obtain ⟨hp, hrun, hout, hq, hdocument⟩ := hnames
  refine .directory (List.forall_mem_cons.mpr ⟨hp, List.forall_mem_singleton.mpr hout⟩)
    (List.forall_mem_cons.mpr ⟨?_, List.forall_mem_singleton.mpr ?_⟩)
  · exact .directory (List.forall_mem_singleton.mpr hrun) (List.forall_mem_singleton.mpr (.file _))
  · refine .directory (List.forall_mem_singleton.mpr hq) (List.forall_mem_singleton.mpr ?_)
    exact .directory (List.forall_mem_singleton.mpr hdocument)
      (List.forall_mem_singleton.mpr (.file _))

theorem besideDocument_distinct : besideDocument.Distinct := by
  refine .directory (by decide) (List.forall_mem_cons.mpr ⟨?_, List.forall_mem_singleton.mpr ?_⟩)
  · exact .directory (List.nodup_singleton _) (List.forall_mem_singleton.mpr (.file _))
  · refine .directory (List.nodup_singleton _) (List.forall_mem_singleton.mpr ?_)
    exact .directory (List.nodup_singleton _) (List.forall_mem_singleton.mpr (.file _))

theorem besideDocument_isPlain : besideDocument.top.IsPlain := by
  refine .directory (List.forall_mem_cons.mpr ⟨?_, List.forall_mem_singleton.mpr ?_⟩)
  · exact .directory (List.forall_mem_singleton.mpr (.file _))
  · refine .directory (List.forall_mem_singleton.mpr (.directory ?_))
    exact List.forall_mem_singleton.mpr (.file _)

theorem besideDocument_isBare :
    IsBare besideDocument ⟨"/", ["p"]⟩ [("run.go", .file goSource)] where
  root_eq := rfl
  straight := FileSystem.isStraight_of_at? (by decide) (by decide) rfl
  at?_eq := rfl
  short := by decide
  room := by decide
  opened := by decide
  permitted access p := rfl
  plain := besideDocument_isPlain
  held := held_single (by decide) (by decide)
  absent := by decide

theorem besideDocument_stat :
    besideDocument.stat ⟨"/", ["out", "-q", "CLAUDE.md"]⟩ = .ok (.file ⟨#[]⟩) := by
  have hat : besideDocument.at? ["out", "-q", "CLAUDE.md"] = some (.file ⟨#[]⟩) := rfl
  have hstraight : besideDocument.IsStraight ⟨"/", ["out", "-q", "CLAUDE.md"]⟩ :=
    ⟨by decide, .of_at? (by decide) hat rfl⟩
  exact hstraight.stat_eq (by decide) (by decide) hat

theorem besideDocument_returns : ∃ compiled fs' t',
    compile besideDocument bareServices {} writeRequest = (.ok (compiled, fs'), t') := by
  have hroot : { writeRequest with dryRun := true }.root = ⟨"/", ["p"]⟩ := rfl
  obtain ⟨compiled, hrun⟩ :=
    besideDocument_isBare.returns besideDocument_wellFormed besideDocument_distinct
      bareServices_parse {} hroot rfl
  apply exists_compile_write rfl hrun
  intro root s hresolve
  have hroot : root = ⟨"/", ["p"]⟩ :=
    Except.ok.inj (hresolve.symm.trans besideDocument_isBare.straight.resolve_eq)
  have hslug : slug root = "-p" := by
    rw [hroot]
    decide
  have hout : besideDocument.IsStraight ⟨"/", ["out"]⟩ :=
    FileSystem.isStraight_of_at? (by decide) (by decide) rfl
  rw [outputPath, hslug]
  exact FileSystem.exists_writeText hout (by decide) rfl (by decide) (by decide) (by decide)
    (by decide) (by decide) (by decide) s

/-- The run for a project leaves its document, and the document of the other project as it was. -/
theorem documents_kept_apart_beside : ∃ compiled fs' t',
    compile besideDocument bareServices {} writeRequest = (.ok (compiled, fs'), t') ∧
      fs'.stat ⟨"/", ["out", "-p", "CLAUDE.md"]⟩ = .ok (.file compiled.markdown.toUTF8) ∧
      fs'.stat ⟨"/", ["out", "-q", "CLAUDE.md"]⟩ = .ok (.file ⟨#[]⟩) := by
  obtain ⟨compiled, fs', t', hrun⟩ := besideDocument_returns
  obtain ⟨-, hdistinct, hown, hother⟩ := documents_kept_apart ⟨"/", ["out"]⟩
  obtain ⟨root, hresolve, hwritten, -⟩ := hown _ _ _ _ _ _ _ rfl rfl hrun
  obtain rfl : root = ⟨"/", ["p"]⟩ :=
    Except.ok.inj (hresolve.symm.trans besideDocument_isBare.straight.resolve_eq)
  have hp : outputPath ⟨"/", ["out"]⟩ ⟨"/", ["p"]⟩ = ⟨"/", ["out", "-p", "CLAUDE.md"]⟩ := by decide
  have hq : outputPath ⟨"/", ["out"]⟩ ⟨"/", ["q"]⟩ = ⟨"/", ["out", "-q", "CLAUDE.md"]⟩ := by decide
  refine ⟨compiled, fs', t', hrun, hp ▸ hwritten, ?_⟩
  have hne := hdistinct ⟨"/", ["p"]⟩ ⟨"/", ["q"]⟩ ⟨rfl, by decide⟩ ⟨rfl, by decide⟩ (by decide)
    (by decide) (by decide)
  have hruns : RunsBeside ⟨"/", ["out"]⟩ (outputPath ⟨"/", ["out"]⟩ ⟨"/", ["q"]⟩) besideDocument fs' :=
    ⟨_, _, _, _, _, _, rfl, hresolve, hne, hrun⟩
  rw [← hq]
  apply hother besideDocument fs' ⟨"/", ["q"]⟩ ⟨#[]⟩ rfl _ _ (.single hruns)
  · intro top _
    exact .of_isPlain besideDocument_isPlain
  · rw [hq]
    exact besideDocument_stat

end Dossier.Document

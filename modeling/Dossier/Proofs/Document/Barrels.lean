import Dossier.Proofs.Document.CodeMap
import Dossier.Proofs.Outline.Clauses
import Dossier.Proofs.Text.Utf8

/-!
# Files that pass on what others declare

A file is ranked as a barrel by the entries that are shown of it, and by the label that every export
clause has. So it is one exactly if nothing but export clauses are shown of it, which may export
what the file declares by itself, in statements that are not shown.
-/

namespace Dossier.Document

open Outline (Declaration File)
open Outline.Script (IsClause Unlabelled entriesAt outline reexportLabel)

variable {source : Bytes} {root n : Node} {depth : Depth} {files : List File} {x : Listed}

/-- Whether the entries of a statement are shown at a depth. -/
def IsShown (depth : Depth) (n : Node) : Prop :=
  depth = .exports → n.kind = "export_statement"

/-- An export clause with the module from which it exports. -/
def PassesOn (n : Node) : Prop :=
  IsClause n ∧ (n.field? "source").isSome

theorem tierOf_eq_barrel_iff {path : String} {entries : List Declaration} :
    tierOf path entries = .barrel ↔ isBarrel entries = true := by
  rw [tierOf]
  split_ifs <;> simp [*]

theorem mem_selectEntries_iff {file : File} {e : Declaration}
    (h : file.entries = outline source root) : e ∈ selectEntries depth file ↔
      ∃ n ∈ root.members, IsShown depth n ∧ e ∈ entriesAt source n := by
  have hentries : e ∈ file.entries ↔ ∃ n ∈ root.members, e ∈ entriesAt source n := by
    rw [h, outline, List.mem_flatMap]
  cases depth with
  | all => simpa [selectEntries, IsShown] using hentries
  | exports =>
      rw [selectEntries, File.exportedEntries, List.mem_filter, hentries]
      constructor
      · rintro ⟨⟨n, hn, he⟩, hexported⟩
        rw [Outline.Script.exported_of_mem_entriesAt e he, decide_eq_true_eq] at hexported
        exact ⟨n, hn, fun _ ↦ hexported, he⟩
      · rintro ⟨n, hn, hshown, he⟩
        refine ⟨⟨n, hn, he⟩, ?_⟩
        rw [Outline.Script.exported_of_mem_entriesAt e he, decide_eq_true (hshown rfl)]

/-- A file is ranked as a barrel exactly if all statements that are shown of it are export clauses.
Then all its entries are re-exports from another module exactly if, in addition, every export clause
names a module and no statement with entries is left out. -/
theorem barrel_iff_clauses (hx : x ∈ prioritize depth files)
    (houtline : x.file.entries = outline source root) (hroot : Unlabelled source root) :
    (x.tier = .barrel ↔
      ∀ n ∈ root.members, IsShown depth n → entriesAt source n ≠ [] → IsClause n) ∧
    (x.tier = .barrel →
      ((∀ n ∈ root.members, entriesAt source n ≠ [] → PassesOn n) ↔
        (∀ n ∈ root.members, IsClause n → (n.field? "source").isSome) ∧
          ∀ n ∈ root.members, entriesAt source n ≠ [] → IsShown depth n)) := by
  obtain ⟨-, hentries, hne⟩ := mem_prioritize_iff.mp hx
  have hmem (e) : e ∈ x.entries ↔ ∃ n ∈ root.members, IsShown depth n ∧ e ∈ entriesAt source n := by
    rw [hentries, mem_selectEntries_iff houtline]
  have hlabel (n) (hn : n ∈ root.members) (e) (he : e ∈ entriesAt source n) :
      Text.startsWith e.name reexportLabel = true ↔ IsClause n :=
    Outline.Script.startsWith_name_iff (hroot.of_holds (Node.holds_of_mem_members hn)) e he
  have hbarrel : x.tier = .barrel ↔
      ∀ n ∈ root.members, IsShown depth n → entriesAt source n ≠ [] → IsClause n := by
    rw [Listed.tier, tierOf_eq_barrel_iff, isBarrel, Bool.and_eq_true, List.all_eq_true]
    constructor
    · rintro ⟨-, hall⟩ n hn hshown hsome
      obtain ⟨e, he⟩ := List.exists_mem_of_ne_nil _ hsome
      exact (hlabel n hn e he).mp (hall e ((hmem e).mpr ⟨n, hn, hshown, he⟩))
    · refine fun hall ↦ ⟨by simpa using hne, fun e he ↦ ?_⟩
      obtain ⟨n, hn, hshown, he⟩ := (hmem e).mp he
      exact (hlabel n hn e he).mpr (hall n hn hshown (List.ne_nil_of_mem he))
  refine ⟨hbarrel, fun htier ↦ ⟨fun hall ↦ ⟨?named, ?shown⟩, ?conversely⟩⟩
  case named =>
    intro n hn hclause
    refine (hall n hn ?_).2
    rw [Outline.Script.entriesAt_of_clause hclause]
    exact List.cons_ne_nil _ _
  case shown => exact fun n hn hsome _ ↦ (hall n hn hsome).1.isExport
  case conversely =>
    rintro ⟨hnamed, hshown⟩ n hn hsome
    have hclause := hbarrel.mp htier n hn (hshown n hn hsome) hsome
    exact ⟨hclause, hnamed n hn hclause⟩

/-- The source of a function and of a clause that exports it. -/
def localSource : Bytes :=
  Bytes.ofText "function f() \x7b\x7d\nexport \x7b f \x7d;\n"

/-- A function. -/
def localFunction : Node :=
  ⟨"function_declaration", true, none, 0, 15,
    [⟨"function", false, none, 0, 8, []⟩, ⟨"identifier", true, some "name", 9, 10, []⟩,
      ⟨"formal_parameters", true, some "parameters", 10, 12,
        [⟨"(", false, none, 10, 11, []⟩, ⟨")", false, none, 11, 12, []⟩]⟩,
      ⟨"statement_block", true, some "body", 13, 15,
        [⟨"\x7b", false, none, 13, 14, []⟩, ⟨"\x7d", false, none, 14, 15, []⟩]⟩]⟩

/-- A clause that exports the function. -/
def localClause : Node :=
  ⟨"export_statement", true, none, 16, 29,
    [⟨"export", false, none, 16, 22, []⟩,
      ⟨"export_clause", true, none, 23, 28,
        [⟨"\x7b", false, none, 23, 24, []⟩,
          ⟨"export_specifier", true, none, 25, 26,
            [⟨"identifier", true, some "name", 25, 26, []⟩]⟩,
          ⟨"\x7d", false, none, 27, 28, []⟩]⟩,
      ⟨";", false, none, 28, 29, []⟩]⟩

/-- A file that declares a function and exports it in a clause is ranked as a barrel, though it
passes on nothing. -/
theorem barrel_iff_clauses_local :
    let root : Node := ⟨"program", true, none, 0, 30, [localFunction, localClause]⟩
    let file : File := ⟨"store.ts", "typescript", outline localSource root, false⟩
    ∃ x ∈ prioritize .exports [file], x.file = file ∧ x.tier = .barrel ∧
      ¬ ∀ n ∈ root.members, entriesAt localSource n ≠ [] → PassesOn n := by
  intro root file
  have hmembers : root.members = [localFunction, localClause] := rfl
  have hclause : IsClause localClause := ⟨rfl, rfl, rfl⟩
  have hmem : localClause ∈ root.members := by simp [hmembers]
  have hroot : Unlabelled localSource root := by
    have hname : localSource.slice 9 10 = "f" := by
      rw [Bytes.slice, Text.Utf8.decodeLossy_of_forall_lt (by decide +kernel)]
      decide +kernel
    have hspecifier : localSource.slice 25 26 = "f" := by
      rw [Bytes.slice, Text.Utf8.decodeLossy_of_forall_lt (by decide +kernel)]
      decide +kernel
    have hlabel : Text.startsWith "f" reexportLabel = false := by decide
    simp [root, localFunction, localClause, Outline.Script.unlabelled_iff,
      Outline.identifierKinds, hname, hspecifier, hlabel]
  have houtline : file.entries = outline localSource root := rfl
  have hentry : Outline.Script.clauseEntry localSource localClause ∈
      selectEntries .exports file := by
    refine (mem_selectEntries_iff houtline).mpr ⟨localClause, hmem, fun _ ↦ rfl, ?_⟩
    rw [Outline.Script.entriesAt_of_clause hclause]
    exact List.mem_singleton_self _
  let x : Listed := ⟨file, selectEntries .exports file⟩
  have hx : x ∈ prioritize .exports [file] :=
    mem_prioritize_iff.mpr ⟨List.mem_singleton_self _, rfl, List.ne_nil_of_mem hentry⟩
  obtain ⟨hbarrel, hall⟩ := barrel_iff_clauses hx houtline hroot
  have htier : x.tier = .barrel := by
    refine hbarrel.mpr fun n hn hshown _ ↦ ?_
    rw [hmembers, List.mem_pair] at hn
    rcases hn with rfl | rfl
    · exact absurd (hshown rfl) (by decide)
    · exact hclause
  refine ⟨x, hx, rfl, htier, fun hpasses ↦ ?_⟩
  exact absurd (((hall htier).mp hpasses).1 localClause hmem hclause) (by decide)

end Dossier.Document

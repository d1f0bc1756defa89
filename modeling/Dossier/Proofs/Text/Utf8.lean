import Dossier.Text.Utf8
import Mathlib.Tactic.SplitIfs

/-!
# Lenient decoding in parts

No character goes on over a byte below `0x80`. So what comes before such a byte, the byte itself and
what comes after it are decoded on their own, whether they are well formed or not.
-/

namespace Dossier.Text.Utf8

theorem toList_toUTF8 (s : String) :
    s.toUTF8.data.toList = s.toList.flatMap String.utf8EncodeChar := by
  obtain ⟨cs, rfl⟩ : ∃ cs, s = String.ofList cs := ⟨s.toList, String.ofList_toList.symm⟩
  rw [String.toUTF8, String.toByteArray_ofList, List.utf8Encode, List.data_toByteArray,
    String.toList_ofList]

variable {lead b : UInt8} {ranges : List (UInt8 × UInt8)} {rest after : List UInt8}

theorem le_of_mem_continuations? (h : continuations? lead = some ranges) :
    ∀ range ∈ ranges, 0x80 ≤ range.1 := by
  rw [continuations?] at h
  dsimp only at h
  split_ifs at h <;> obtain rfl := Option.some_inj.mp h <;> simp

theorem fitting_le_length (ranges : List (UInt8 × UInt8)) (rest : List UInt8) :
    fitting ranges rest ≤ rest.length := by
  induction ranges generalizing rest with
  | nil => simp [fitting]
  | cons range ranges ih =>
      cases rest with
      | nil => simp [fitting]
      | cons c rest =>
          rw [fitting]
          split
          · exact Nat.succ_le_succ (ih rest)
          · exact Nat.zero_le _

/-- A byte below the ranges fits none of them. -/
theorem fitting_append (hranges : ∀ range ∈ ranges, 0x80 ≤ range.1) (hb : b < 0x80)
    (rest after : List UInt8) : fitting ranges (rest ++ b :: after) = fitting ranges rest := by
  induction ranges generalizing rest with
  | nil => simp [fitting]
  | cons range ranges ih =>
      obtain ⟨hrange, hranges⟩ := List.forall_mem_cons.mp hranges
      cases rest with
      | nil =>
          have hbelow : ¬ range.1 ≤ b := UInt8.not_le.mpr (UInt8.lt_of_lt_of_le hb hrange)
          simp [fitting, hbelow]
      | cons c rest =>
          rw [List.cons_append, fitting, fitting, ih hranges rest]

/-- The bytes that belong to a first byte, and whether they are a character, do not depend on what
comes after a byte below `0x80`. Only the fault of an ill-formed run may be another one. -/
theorem first_append (hb : b < 0x80) (lead : UInt8) (rest after : List UInt8) :
    (first lead (rest ++ b :: after)).2 = (first lead rest).2 ∧
      (first lead (rest ++ b :: after)).1.toOption = (first lead rest).1.toOption := by
  rw [first, first]
  cases hranges : continuations? lead with
  | none => exact ⟨rfl, rfl⟩
  | some ranges =>
      have hle := fitting_le_length ranges rest
      dsimp only
      rw [fitting_append (le_of_mem_continuations? hranges) hb]
      by_cases hall : fitting ranges rest = ranges.length
      · rw [if_pos hall, if_pos hall, List.take_append_of_le_length hle]
        exact ⟨rfl, rfl⟩
      · rw [if_neg hall, if_neg hall]
        split <;> split <;> exact ⟨rfl, rfl⟩

theorem decodeWith_cons (substitute : List Char) (lead : UInt8) (rest : List UInt8) :
    decodeWith substitute (lead :: rest) =
      (first lead rest).1.toOption.elim substitute (fun c ↦ [c]) ++
        decodeWith substitute (rest.drop (first lead rest).2) := by
  rw [decodeWith]
  dsimp only
  cases (first lead rest).1 <;> rfl

theorem decodeWith_cons_of_lt (substitute : List Char) (hb : b < 0x80) (after : List UInt8) :
    decodeWith substitute (b :: after) = assemble b [] :: decodeWith substitute after := by
  have hfirst : first b after = (.ok (assemble b []), 0) := by
    rw [first, continuations?, if_pos hb]
    simp [fitting]
  rw [decodeWith_cons, hfirst]
  rfl

theorem first_le_length (lead : UInt8) (rest : List UInt8) : (first lead rest).2 ≤ rest.length := by
  rw [first]
  split
  · exact Nat.zero_le _
  · next ranges _ =>
    have hle := fitting_le_length ranges rest
    dsimp only
    split_ifs <;> exact hle

/-- A byte below `0x80` ends what comes before it. -/
theorem decodeWith_append (substitute : List Char) (hb : b < 0x80) (bytes after : List UInt8) :
    decodeWith substitute (bytes ++ b :: after) =
      decodeWith substitute bytes ++ assemble b [] :: decodeWith substitute after := by
  induction bytes using decodeWith.induct with
  | case1 =>
      rw [List.nil_append, decodeWith_cons_of_lt substitute hb, decodeWith, List.nil_append]
  | case2 lead rest unit n hfirst ih =>
      obtain ⟨hcount, hunit⟩ := first_append hb lead rest after
      have hle := first_le_length lead rest
      rw [hfirst] at hle
      rw [List.cons_append, decodeWith_cons, decodeWith_cons, hcount, hunit, hfirst,
        List.drop_append_of_le_length hle, ih, List.append_assoc]

theorem decodeLossy_of_forall_lt {bytes : List UInt8} (h : ∀ b ∈ bytes, b < 0x80) :
    decodeLossy bytes = String.ofList (bytes.map (assemble · [])) := by
  rw [decodeLossy]
  congr 1
  induction bytes with
  | nil => rw [decodeWith, List.map_nil]
  | cons b bytes ih =>
      obtain ⟨hb, hbytes⟩ := List.forall_mem_cons.mp h
      rw [decodeWith_cons_of_lt _ hb, ih hbytes, List.map_cons]

end Dossier.Text.Utf8

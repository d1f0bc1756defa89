import Dossier.Outline.LineRules
import Dossier.Proofs.Text.Located
import Dossier.Proofs.Text.Utf8
import Dossier.Source.Node
import Mathlib.Data.List.Infix

/-!
# Line numbers of an outline without a grammar

The number of an entry counts every end of a line before it, the number of a node in a syntax tree only
the line feeds. The two agree exactly where nothing but line feeds ends a line before the entry, and the
signature of the entry then begins the line with its number.
-/

namespace Dossier

/-! ## Line feeds among bytes -/

namespace Bytes

theorem ofText_ofList (cs : List Char) :
    ofText (String.ofList cs) = cs.flatMap String.utf8EncodeChar := by
  rw [ofText, Text.Utf8.toList_toUTF8, String.toList_ofList]

theorem ofText_ofList_append (a b : List Char) :
    ofText (String.ofList (a ++ b)) = ofText (String.ofList a) ++ ofText (String.ofList b) := by
  simp only [ofText_ofList, List.flatMap_append]

/-- A character has a byte that is a line feed only if it is one. -/
theorem count_utf8EncodeChar (c : Char) :
    (String.utf8EncodeChar c).count 10 = if c = '\n' then 1 else 0 := by
  have hbyte (n : Nat) : 10 = UInt8.ofNat n ↔ n % 256 = 10 := by
    rw [eq_comm, ← UInt8.toNat_inj, UInt8.toNat_ofNat']
    rfl
  have hfeed : c = '\n' ↔ c.val.toNat = 10 := by
    rw [Char.ext_iff, ← UInt32.toNat_inj]
    rfl
  simp only [String.utf8EncodeChar, hfeed]
  generalize c.val.toNat = v
  split
  · simp only [List.count_singleton, beq_iff_eq, eq_comm (b := (10 : UInt8)), hbyte]
    rw [Nat.mod_eq_of_lt (by omega)]
  · -- Every byte of a longer character is at least 128.
    have hv : v ≠ 10 := by omega
    rw [if_neg hv, List.count_eq_zero]
    split
    · simp only [List.mem_cons, List.not_mem_nil, or_false, hbyte]
      omega
    · split <;> simp only [List.mem_cons, List.not_mem_nil, or_false, hbyte] <;> omega

theorem count_ofText (cs : List Char) : (ofText (String.ofList cs)).count 10 = cs.count '\n' := by
  rw [ofText_ofList]
  induction cs with
  | nil => rfl
  | cons c cs ih =>
      rw [List.flatMap_cons, List.count_append, ih, count_utf8EncodeChar, List.count_cons,
        Nat.add_comm]
      simp only [beq_iff_eq]

theorem lineAt_ofText {s : String} {before after : List Char} (h : s.toList = before ++ after) :
    (ofText s).lineAt (ofText (String.ofList before)).length = before.count '\n' + 1 := by
  have hbytes : ofText s = ofText (String.ofList before) ++ ofText (String.ofList after) := by
    rw [← ofText_ofList_append, ← h, String.ofList_toList]
  rw [lineAt, hbytes, List.take_left, count_ofText]

end Bytes

namespace Outline.LineRules

open Text (IsLineAt isBlank isLineEnd lines physicalLines stripChars)

/-! ## Signatures -/

variable {cs : List Char} {language : Language} {kind : Kind} {line : String} {number : Nat}
  {e : Declaration}

theorem cutChars_prefix (opener : Char) (depth : Nat) (done cs : List Char) :
    cutChars opener depth done cs <+: done.reverse ++ cs := by
  induction cs generalizing depth done with
  | nil => simp [cutChars]
  | cons c cs ih =>
      have hstep (next : Nat) : cutChars opener next (c :: done) cs <+: done.reverse ++ c :: cs := by
        simpa using ih next (c :: done)
      rw [cutChars]
      split
      · exact hstep _
      · split
        · exact hstep _
        · split
          · exact List.prefix_append _ _
          · exact hstep _

theorem signatureOf_prefix (hblank : ∀ c ∈ line.toList.head?, isBlank c = false) :
    (signatureOf language kind line).toList <+: line.toList := by
  have hcut (opener : Char) (s : String) : (cutBody s opener).toList <+: s.toList := by
    simpa [cutBody] using cutChars_prefix opener 0 [] s.toList
  have htrim (p : Char → Bool) (s : String) : (Text.trimEnd p s).toList <+: s.toList := by
    simpa [Text.trimEnd] using Text.trimEndChars_prefix p s.toList
  have hdrop (n : Nat) (s : String) : (Text.dropEnd n s).toList <+: s.toList := by
    simpa [Text.dropEnd] using List.take_prefix (s.length - n) s.toList
  have hstrip : (Text.strip line).toList <+: line.toList := by
    have hstart : line.toList.dropWhile isBlank = line.toList := by
      cases hcs : line.toList with
      | nil => rfl
      | cons c cs => rw [List.dropWhile_cons_of_neg (by simp [hblank c (by simp [hcs])])]
    rw [Text.strip, String.toList_ofList, stripChars, hstart]
    exact Text.trimEndChars_prefix isBlank line.toList
  have heither {q : Prop} [Decidable q] {s t : String} (hs : s.toList <+: line.toList)
      (ht : t.toList <+: line.toList) : (if q then s else t).toList <+: line.toList := by
    split
    · exact hs
    · exact ht
  have htext : (if kind = .function ∨ kind = .cls then
      cutBody (Text.strip line) (bodyOpener language) else Text.strip line).toList <+: line.toList :=
    heither ((hcut _ _).trans hstrip) hstrip
  exact (htrim _ _).trans ((htrim _ _).trans ((htrim _ _).trans
    (heither ((hdrop _ _).trans htext) htext)))

/-- An entry is what some rule finds on a line that does not begin with a blank. -/
theorem exists_rule_of_entryOn? (h : entryOn? language number line = some e) :
    (∀ c ∈ line.toList.head?, isBlank c = false) ∧
      ∃ rule ∈ rulesOf language, applyRule? language number line rule = some e := by
  rw [entryOn?] at h
  split at h
  · cases h
  next c cs hline =>
    split at h
    · cases h
    next hblank =>
      refine ⟨fun d hd ↦ ?_, List.exists_of_findSome?_eq_some h⟩
      obtain rfl : c = d := by simpa [hline] using hd
      simpa using hblank

theorem entryOn?_line (h : entryOn? language number line = some e) :
    e.line = number ∧ e.signature.toList <+: line.toList := by
  obtain ⟨hblank, rule, -, hrule⟩ := exists_rule_of_entryOn? h
  obtain ⟨found, -, rfl⟩ := Option.map_eq_some_iff.mp hrule
  exact ⟨rfl, signatureOf_prefix hblank⟩

/-! ## Numbers -/

/-- Characters other than the line feed that end a line. -/
def isOtherEnd (c : Char) : Bool :=
  isLineEnd c && c != '\n'

theorem countP_isLineEnd (cs : List Char) :
    cs.countP isLineEnd = cs.count '\n' + cs.countP isOtherEnd := by
  induction cs with
  | nil => rfl
  | cons c cs ih =>
      have hfeed : isLineEnd '\n' = true := by decide
      rw [List.countP_cons, List.countP_cons, List.count_cons, ih, isOtherEnd]
      by_cases hc : c = '\n'
      · simp [hc, hfeed]
        omega
      · simp [hc]
        omega

theorem pairwise_line (language : Language) (source : String) :
    ((outline language source).map (·.line)).Pairwise (· < ·) := by
  have hnumbers : ((lines source).zipIdx 1).Pairwise fun a b ↦ a.2 < b.2 := by
    rw [← List.pairwise_map, List.zipIdx_map_snd]
    exact List.pairwise_lt_range'
  rw [List.pairwise_map, outline]
  refine hnumbers.filterMap _ fun a b hlt e he e' he' ↦ ?_
  rw [(entryOn?_line he).1, (entryOn?_line he').1]
  exact hlt

/-- An entry is numbered like a node that starts where its line does, the ends of lines that are no line
feeds counted in addition. If there are none, its signature begins the line with that number. -/
theorem outline_line_eq (language : Language) {source : String} (h : '\r' ∉ source.toList) :
    ((outline language source).map (·.line)).Pairwise (· < ·) ∧
    ∀ e ∈ outline language source, ∃ before line,
      IsLineAt isLineEnd source.toList before line ∧ e.signature.toList <+: line ∧
      e.line = (Bytes.ofText source).lineAt (Bytes.ofText (String.ofList before)).length +
        before.countP isOtherEnd ∧
      (before.countP isOtherEnd = 0 → ∃ text, (physicalLines source)[e.line - 1]? = some text ∧
        e.signature.toList <+: text.toList) := by
  refine ⟨pairwise_line language source, fun e he ↦ ?_⟩
  obtain ⟨⟨line, number⟩, hmem, hentry⟩ := List.mem_filterMap.mp he
  obtain ⟨hnumber, hsignature⟩ := entryOn?_line hentry
  obtain ⟨hpos, hline⟩ := List.mk_mem_zipIdx_iff_le_and_getElem?_sub.mp hmem
  obtain ⟨before, hat, hcount⟩ := Text.exists_isLineAt_of_lines h hline
  obtain ⟨after, hafter, -⟩ := hat.stops
  rw [List.append_assoc] at hafter
  have hends := countP_isLineEnd before
  refine ⟨before, line.toList, hat, hsignature, ?_, fun hfeeds ↦ ?_⟩
  · rw [Bytes.lineAt_ofText hafter]
    omega
  · have hbefore : ∀ c ∈ before, isLineEnd c = true → (c == '\n') = true := by
      intro c hc hend
      by_contra hother
      exact List.countP_eq_zero.mp hfeeds c hc (by simpa [isOtherEnd, hend] using hother)
    have hfeed : ∀ c, (c == '\n') = true → isLineEnd c = true := by
      intro c hc
      rw [eq_of_beq hc]
      decide
    obtain ⟨longer, hlonger, hphysical⟩ := hat.exists_longer hfeed hbefore
    have hindex : e.line - 1 = before.count '\n' := by omega
    refine ⟨String.ofList longer, hindex ▸ hphysical.physicalLines_getElem?, ?_⟩
    rw [String.toList_ofList]
    exact hsignature.trans hlonger

theorem outline_line_eq_formFeed :
    let source := "\x0c\ndef f():\n    pass\n"
    '\r' ∉ source.toList ∧ (outline .python source).map (·.line) = [3] ∧
    (physicalLines source)[1]? = some "def f():" ∧
    ∀ e ∈ outline .python source, ∃ before line,
      IsLineAt isLineEnd source.toList before line ∧ e.signature.toList <+: line ∧
      e.line = (Bytes.ofText source).lineAt (Bytes.ofText (String.ofList before)).length +
        before.countP isOtherEnd := by
  intro source
  have hreturn : '\r' ∉ source.toList := by decide
  refine ⟨hreturn, by decide +kernel, by decide +kernel, fun e he ↦ ?_⟩
  obtain ⟨before, line, hline, hsignature, hnumber, -⟩ := (outline_line_eq .python hreturn).2 e he
  exact ⟨before, line, hline, hsignature, hnumber⟩

end Outline.LineRules

end Dossier

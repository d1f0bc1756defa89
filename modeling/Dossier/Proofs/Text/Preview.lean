import Dossier.Proofs.Text.Utf8
import Mathlib.Data.List.Forall2

/-!
# Texts cut at a number of bytes

A lenient decoder reads the bytes of a character as that character, and takes the beginning of a
character that has been cut through for a single unfinished run. So a preview is the longest beginning
of a text that has room in its limit, and three dots.
-/

namespace Dossier.Text.Utf8

open String (utf8EncodeChar)

/-! ## The bytes of a character -/

/-- A byte lies in a range. -/
abbrev Lies (range : UInt8 × UInt8) (b : UInt8) : Prop :=
  range.1 ≤ b ∧ b ≤ range.2

/-- The bytes of a character: a first byte, and behind it bytes in the ranges that it asks for. -/
structure Encodes (c : Char) (lead : UInt8) (tail : List UInt8) (ranges : List (UInt8 × UInt8)) :
    Prop where
  bytes : utf8EncodeChar c = lead :: tail
  asked : continuations? lead = some ranges
  within : List.Forall₂ Lies ranges tail
  value : assemble lead tail = c

section

variable {lead : UInt8}

theorem continuations?_one (h : lead.toNat < 0x80) : continuations? lead = some [] :=
  if_pos h

theorem continuations?_two (h : 0xC2 ≤ lead.toNat) (hlt : lead.toNat < 0xE0) :
    continuations? lead = some [(0x80, 0xBF)] := by
  simp only [continuations?, UInt8.lt_iff_toNat_lt, UInt8.reduceToNat]
  rw [if_neg (by omega), if_neg (by omega), if_pos hlt]

theorem continuations?_three (h : 0xE0 ≤ lead.toNat) (hlt : lead.toNat < 0xF0) :
    continuations? lead = some [if lead = 0xE0 then (0xA0, 0xBF) else
      if lead = 0xED then (0x80, 0x9F) else (0x80, 0xBF), (0x80, 0xBF)] := by
  simp only [continuations?, UInt8.lt_iff_toNat_lt, UInt8.reduceToNat]
  rw [if_neg (by omega), if_neg (by omega), if_neg (by omega), if_pos hlt]

theorem continuations?_four (h : 0xF0 ≤ lead.toNat) (hlt : lead.toNat < 0xF5) :
    continuations? lead = some [if lead = 0xF0 then (0x90, 0xBF) else
      if lead = 0xF4 then (0x80, 0x8F) else (0x80, 0xBF), (0x80, 0xBF), (0x80, 0xBF)] := by
  simp only [continuations?, UInt8.lt_iff_toNat_lt, UInt8.reduceToNat]
  rw [if_neg (by omega), if_neg (by omega), if_neg (by omega), if_neg (by omega), if_pos hlt]

end

theorem lies_iff {lo hi b : UInt8} :
    Lies (lo, hi) b ↔ lo.toNat ≤ b.toNat ∧ b.toNat ≤ hi.toNat :=
  Iff.rfl

theorem toNat_ofNat_of_lt {n : Nat} (h : n < 256) : (UInt8.ofNat n).toNat = n :=
  UInt8.toNat_ofNat'.trans (Nat.mod_eq_of_lt h)

/-- A byte that holds six bits of a value. -/
theorem lies_sixBits (n : Nat) : Lies (0x80, 0xBF) (UInt8.ofNat (n % 64 + 128)) := by
  rw [lies_iff, toNat_ofNat_of_lt (by omega)]
  simp only [UInt8.reduceToNat]
  omega

/-- What the masks leave of a first byte. -/
theorem and_mask (n : Nat) : n &&& 0x7F = n % 128 ∧ n &&& 0x1F = n % 32 ∧ n &&& 0x0F = n % 16 ∧
    n &&& 0x07 = n % 8 :=
  ⟨Nat.and_two_pow_sub_one_eq_mod n 7, Nat.and_two_pow_sub_one_eq_mod n 5,
    Nat.and_two_pow_sub_one_eq_mod n 4, Nat.and_two_pow_sub_one_eq_mod n 3⟩

section

variable {c : Char} {v : Nat}

theorem encodes_one (hchar : Char.ofNat v = c) (h : v < 0x80)
    (hbytes : utf8EncodeChar c = [UInt8.ofNat v]) :
    Encodes c (UInt8.ofNat v) [] [] := by
  have hlead : (UInt8.ofNat v).toNat = v := toNat_ofNat_of_lt (by omega)
  refine ⟨hbytes, continuations?_one (by omega), .nil, ?_⟩
  simp only [assemble, List.length_nil, List.foldl_nil, hlead, and_mask]
  rw [Nat.mod_eq_of_lt h, hchar]

theorem exists_encodes_two (hchar : Char.ofNat v = c) (h : 0x80 ≤ v ∧ v < 0x800)
    (hbytes : utf8EncodeChar c = [UInt8.ofNat (v / 64 % 32 + 192), UInt8.ofNat (v % 64 + 128)]) :
    ∃ lead tail ranges, Encodes c lead tail ranges := by
  have hlead : (UInt8.ofNat (v / 64 % 32 + 192)).toNat = v / 64 % 32 + 192 :=
    toNat_ofNat_of_lt (by omega)
  refine ⟨_, _, _, hbytes, continuations?_two (by omega) (by omega), .cons (lies_sixBits v) .nil, ?_⟩
  simp only [assemble, List.length_cons, List.length_nil, List.foldl_cons, List.foldl_nil, hlead,
    and_mask, UInt8.toNat_ofNat', Nat.reducePow]
  rw [← hchar]
  congr 1
  omega

/-- The least values of three bytes are left to two, and there are no characters for surrogates. -/
theorem exists_encodes_three (hchar : Char.ofNat v = c) (h : 0x800 ≤ v ∧ v < 0x10000)
    (hvalid : v < 0xD800 ∨ 0xDFFF < v)
    (hbytes : utf8EncodeChar c = [UInt8.ofNat (v / 4096 % 16 + 224),
      UInt8.ofNat (v / 64 % 64 + 128), UInt8.ofNat (v % 64 + 128)]) :
    ∃ lead tail ranges, Encodes c lead tail ranges := by
  have hlead : (UInt8.ofNat (v / 4096 % 16 + 224)).toNat = v / 4096 % 16 + 224 :=
    toNat_ofNat_of_lt (by omega)
  refine ⟨_, _, _, hbytes, continuations?_three (by omega) (by omega),
    .cons ?_ (.cons (lies_sixBits v) .nil), ?_⟩
  · have hsecond : (UInt8.ofNat (v / 64 % 64 + 128)).toNat = v / 64 % 64 + 128 :=
      toNat_ofNat_of_lt (by omega)
    simp only [← UInt8.toNat_inj, hlead, UInt8.reduceToNat]
    split_ifs <;> simp only [lies_iff, hsecond, UInt8.reduceToNat] <;> omega
  · simp only [assemble, List.length_cons, List.length_nil, List.foldl_cons, List.foldl_nil, hlead,
      and_mask, UInt8.toNat_ofNat', Nat.reducePow]
    rw [← hchar]
    congr 1
    omega

/-- The least values of four bytes are left to three, and there are no characters behind the last one. -/
theorem exists_encodes_four (hchar : Char.ofNat v = c) (h : 0x10000 ≤ v ∧ v < 0x110000)
    (hbytes : utf8EncodeChar c = [UInt8.ofNat (v / 262144 % 8 + 240),
      UInt8.ofNat (v / 4096 % 64 + 128), UInt8.ofNat (v / 64 % 64 + 128),
      UInt8.ofNat (v % 64 + 128)]) :
    ∃ lead tail ranges, Encodes c lead tail ranges := by
  have hlead : (UInt8.ofNat (v / 262144 % 8 + 240)).toNat = v / 262144 % 8 + 240 :=
    toNat_ofNat_of_lt (by omega)
  refine ⟨_, _, _, hbytes, continuations?_four (by omega) (by omega),
    .cons ?_ (.cons (lies_sixBits _) (.cons (lies_sixBits v) .nil)), ?_⟩
  · have hsecond : (UInt8.ofNat (v / 4096 % 64 + 128)).toNat = v / 4096 % 64 + 128 :=
      toNat_ofNat_of_lt (by omega)
    simp only [← UInt8.toNat_inj, hlead, UInt8.reduceToNat]
    split_ifs <;> simp only [lies_iff, hsecond, UInt8.reduceToNat] <;> omega
  · simp only [assemble, List.length_cons, List.length_nil, List.foldl_cons, List.foldl_nil, hlead,
      and_mask, UInt8.toNat_ofNat', Nat.reducePow]
    rw [← hchar]
    congr 1
    omega

end

/-- The first byte of every character tells how the character goes on. -/
theorem exists_encodes (c : Char) : ∃ lead tail ranges, Encodes c lead tail ranges := by
  have hvalid : c.val.toNat < 0xD800 ∨ 0xDFFF < c.val.toNat ∧ c.val.toNat < 0x110000 := c.valid
  have hchar : Char.ofNat c.val.toNat = c := Char.ofNat_toNat c
  have hbytes : utf8EncodeChar c = _ := rfl
  conv at hbytes => rhs; rw [utf8EncodeChar]
  generalize c.val.toNat = v at hvalid hchar hbytes
  split_ifs at hbytes with hone htwo hthree
  · exact ⟨_, _, _, encodes_one hchar (by omega) hbytes⟩
  · exact exists_encodes_two hchar (by omega) hbytes
  · exact exists_encodes_three hchar (by omega) (by omega) hbytes
  · exact exists_encodes_four hchar (by omega) hbytes

/-! ## Decoding a character -/

/-- Bytes in their ranges all fit, as far as there are any. -/
theorem fitting_of_forall₂ {ranges : List (UInt8 × UInt8)} {tail : List UInt8}
    (h : List.Forall₂ Lies ranges tail) (after : List UInt8) (kept : Nat) :
    fitting ranges (tail ++ after) = tail.length ∧
      fitting ranges (tail.take kept) = (tail.take kept).length := by
  induction h generalizing kept with
  | nil => simp [fitting]
  | @cons range b ranges tail hb _ ih =>
      have hlies : (decide (range.1 ≤ b) && decide (b ≤ range.2)) = true := by simpa using hb
      constructor
      · rw [List.cons_append, fitting, if_pos hlies, (ih 0).1, List.length_cons]
      · cases kept with
        | zero => rfl
        | succ kept => rw [List.take_succ_cons, fitting, if_pos hlies, (ih kept).2, List.length_cons]

section

variable {c : Char} {lead : UInt8} {tail : List UInt8} {ranges : List (UInt8 × UInt8)}

theorem Encodes.first_append (h : Encodes c lead tail ranges) (after : List UInt8) :
    first lead (tail ++ after) = (.ok c, tail.length) := by
  have hlength := h.within.length_eq
  have hfitting := (fitting_of_forall₂ h.within after 0).1
  rw [first, h.asked]
  dsimp only
  rw [hfitting, if_pos hlength.symm, List.take_left, h.value]

theorem Encodes.first_take (h : Encodes c lead tail ranges) {kept : Nat} (hkept : kept < tail.length) :
    first lead (tail.take kept) = (.error .truncated, kept) := by
  have hlength := h.within.length_eq
  have hfitting := (fitting_of_forall₂ h.within [] kept).2
  rw [List.length_take, Nat.min_eq_left (Nat.le_of_lt hkept)] at hfitting
  rw [first, h.asked]
  dsimp only
  rw [hfitting, if_neg (by omega), List.length_take, if_pos (by omega)]

end

/-- The bytes of a character are decoded to the character. -/
theorem decodeWith_utf8EncodeChar_append (substitute : List Char) (c : Char) (after : List UInt8) :
    decodeWith substitute (utf8EncodeChar c ++ after) = c :: decodeWith substitute after := by
  obtain ⟨lead, tail, ranges, h⟩ := exists_encodes c
  rw [h.bytes, List.cons_append, decodeWith_cons, h.first_append, List.drop_left]
  rfl

/-- Fewer bytes than a character takes are decoded to nothing, or to one substitute. -/
theorem decodeWith_take_utf8EncodeChar (substitute : List Char) (c : Char) {kept : Nat}
    (hkept : kept < c.utf8Size) :
    decodeWith substitute ((utf8EncodeChar c).take kept) = if kept = 0 then [] else substitute := by
  obtain ⟨lead, tail, ranges, h⟩ := exists_encodes c
  have hsize : tail.length + 1 = c.utf8Size := by
    rw [← String.length_utf8EncodeChar, h.bytes, List.length_cons]
  rw [h.bytes]
  cases kept with
  | zero => rw [List.take_zero, decodeWith, if_pos rfl]
  | succ kept =>
      have hnone : (tail.take kept).drop kept = [] :=
        List.drop_eq_nil_of_le (List.length_take_le kept tail)
      rw [List.take_succ_cons, decodeWith_cons, h.first_take (by omega), hnone, decodeWith,
        if_neg kept.succ_ne_zero, List.append_nil]
      rfl

/-! ## The longest beginning -/

/-- The longest beginning of some characters that takes at most `limit` bytes. -/
def fittingChars (limit : Nat) : List Char → List Char
  | [] => []
  | c :: cs => if c.utf8Size ≤ limit then c :: fittingChars (limit - c.utf8Size) cs else []

theorem decodeWith_take (limit : Nat) (cs : List Char) :
    decodeWith [] ((cs.flatMap utf8EncodeChar).take limit) = fittingChars limit cs := by
  induction cs generalizing limit with
  | nil => rw [List.flatMap_nil, List.take_nil, decodeWith, fittingChars]
  | cons c cs ih =>
      have hsize := String.length_utf8EncodeChar c
      rw [List.flatMap_cons, fittingChars]
      split
      · next hroom =>
        rw [List.take_append, hsize, List.take_of_length_le (by omega),
          decodeWith_utf8EncodeChar_append, ih]
      · next hroom =>
        have hcut : limit < c.utf8Size := Nat.not_le.mp hroom
        rw [List.take_append_of_le_length (by omega), decodeWith_take_utf8EncodeChar [] c hcut, ite_self]

/-- The longest beginning of a text among those that take at most `limit` bytes. -/
structure IsLongestWithin (limit : Nat) (s part : String) : Prop where
  begins : part.toList <+: s.toList
  fits : part.utf8ByteSize ≤ limit
  longest : ∀ other : String, other.toList <+: s.toList → other.utf8ByteSize ≤ limit →
    other.toList <+: part.toList

theorem utf8ByteSize_ofList_cons (c : Char) (cs : List Char) :
    (String.ofList (c :: cs)).utf8ByteSize = c.utf8Size + (String.ofList cs).utf8ByteSize := by
  rw [String.ofList_cons, String.utf8ByteSize_append, String.utf8ByteSize_singleton]

theorem fittingChars_prefix (limit : Nat) (cs : List Char) : fittingChars limit cs <+: cs := by
  induction cs generalizing limit with
  | nil => exact List.nil_prefix
  | cons c cs ih =>
      rw [fittingChars]
      split
      · exact (List.prefix_cons_inj c).mpr (ih _)
      · exact List.nil_prefix

theorem utf8ByteSize_fittingChars_le (limit : Nat) (cs : List Char) :
    (String.ofList (fittingChars limit cs)).utf8ByteSize ≤ limit := by
  induction cs generalizing limit with
  | nil => exact Nat.zero_le limit
  | cons c cs ih =>
      rw [fittingChars]
      split
      · have hrest := ih (limit - c.utf8Size)
        rw [utf8ByteSize_ofList_cons]
        omega
      · exact Nat.zero_le limit

theorem prefix_fittingChars {limit : Nat} {other cs : List Char} (hother : other <+: cs)
    (hfits : (String.ofList other).utf8ByteSize ≤ limit) : other <+: fittingChars limit cs := by
  induction cs generalizing limit other with
  | nil =>
      rw [List.prefix_nil.mp hother]
      exact List.nil_prefix
  | cons c cs ih =>
      cases other with
      | nil => exact List.nil_prefix
      | cons d other =>
          obtain ⟨rfl, hrest⟩ := List.cons_prefix_cons.mp hother
          rw [utf8ByteSize_ofList_cons] at hfits
          rw [fittingChars, if_pos (by omega)]
          exact (List.prefix_cons_inj d).mpr (ih hrest (by omega))

theorem isLongestWithin_fittingChars (limit : Nat) (s : String) :
    IsLongestWithin limit s (String.ofList (fittingChars limit s.toList)) where
  begins := by
    rw [String.toList_ofList]
    exact fittingChars_prefix limit s.toList
  fits := utf8ByteSize_fittingChars_le limit s.toList
  longest := by
    intro other hother hfits
    rw [String.toList_ofList]
    exact prefix_fittingChars hother (by rwa [String.ofList_toList])

/-! ## Previews -/

/-- A text within the limit is shown as it is. Of a longer one the longest beginning within the limit
is shown, whose characters are all characters of the text, and three dots. -/
theorem preview_longest_beginning (limit : Nat) (s : String) :
    (s.utf8ByteSize ≤ limit → preview limit s = s) ∧
      (limit < s.utf8ByteSize → ∃ part, IsLongestWithin limit s part ∧
        preview limit s = part ++ "..." ∧
          (preview limit s).toList.count '\uFFFD' ≤ s.toList.count '\uFFFD') := by
  have hlength : s.toUTF8.data.toList.length = s.utf8ByteSize := rfl
  constructor
  · intro hfits
    rw [preview]
    dsimp only
    rw [hlength, if_pos (by omega)]
  · intro hover
    have hpart := isLongestWithin_fittingChars limit s
    have hpreview : preview limit s = String.ofList (fittingChars limit s.toList) ++ "..." := by
      rw [preview]
      dsimp only
      rw [hlength, if_neg (by omega), if_neg (by omega), Int.toNat_natCast, toList_toUTF8,
        decodeWith_take]
    refine ⟨_, hpart, hpreview, ?_⟩
    have hdots : "...".toList.count '\uFFFD' = 0 := by decide
    rw [hpreview, String.toList_append, List.count_append, hdots, Nat.add_zero]
    exact hpart.begins.sublist.count_le _

/-- The limit cuts through the third character, which is dropped. -/
theorem preview_longest_beginning_cut : 4 < "aß漢z".utf8ByteSize ∧
    ∃ part, IsLongestWithin 4 "aß漢z" part ∧ preview 4 "aß漢z" = part ++ "..." := by
  have hover : 4 < "aß漢z".utf8ByteSize := by decide
  obtain ⟨part, hpart, hpreview, -⟩ := (preview_longest_beginning 4 "aß漢z").2 hover
  exact ⟨hover, part, hpart, hpreview⟩

end Dossier.Text.Utf8

import Dossier.Path.Basic
import Dossier.Proofs.Text.Split

/-!
# Paths made of names

A list of proper names written as a path is read back as the same list.
-/

namespace Dossier

/-! ## Names -/

/-- A name that stands for one component of a path. -/
structure PlainName (name : String) : Prop where
  ne_empty : name ≠ ""
  ne_dot : name ≠ "."
  no_slash : '/' ∉ name.toList

/-- A name that a directory can hold something under. -/
structure ProperName (name : String) : Prop extends PlainName name where
  ne_dots : name ≠ ".."
  no_nul : '\x00' ∉ name.toList

instance (name : String) : Decidable (PlainName name) :=
  decidable_of_decidable_of_iff (p := name ≠ "" ∧ name ≠ "." ∧ '/' ∉ name.toList)
    ⟨fun h ↦ ⟨h.1, h.2.1, h.2.2⟩, fun h ↦ ⟨h.ne_empty, h.ne_dot, h.no_slash⟩⟩

instance (name : String) : Decidable (ProperName name) :=
  decidable_of_decidable_of_iff (p := PlainName name ∧ name ≠ ".." ∧ '\x00' ∉ name.toList)
    ⟨fun h ↦ ⟨h.1, h.2.1, h.2.2⟩, fun h ↦ ⟨h.toPlainName, h.ne_dots, h.no_nul⟩⟩

namespace Path

theorem relativeText_of_ne_nil {parts : List String} (hne : parts ≠ []) :
    relativeText parts = String.intercalate "/" parts := by
  rw [relativeText, text, if_neg fun h ↦ hne h.2, String.empty_append]

theorem rootOf_intercalate {name : String} {rest : List String} (hname : PlainName name) :
    rootOf (String.intercalate "/" (name :: rest)) = "" := by
  obtain ⟨c, cs, hchars⟩ := List.exists_cons_of_ne_nil
    (mt String.toList_eq_nil_iff.mp hname.ne_empty)
  have hslash : c ≠ '/' := by
    rintro rfl
    exact hname.no_slash (hchars ▸ List.mem_cons_self)
  have hstart : ∃ tail, (String.intercalate "/" (name :: rest)).toList = c :: tail := by
    cases rest with
    | nil => exact ⟨cs, by rw [String.intercalate_singleton, hchars]⟩
    | cons next rest =>
        exact ⟨cs ++ ("/" ++ String.intercalate "/" (next :: rest)).toList, by
          rw [String.intercalate_cons_cons, String.append_assoc, String.toList_append, hchars,
            List.cons_append]⟩
  obtain ⟨tail, htail⟩ := hstart
  rw [rootOf, htail]
  split <;> simp_all

theorem filter_of_plain {parts : List String} (h : ∀ name ∈ parts, PlainName name) :
    parts.filter (fun part ↦ part != "" && part != ".") = parts := by
  refine List.filter_eq_self.mpr fun name hname ↦ ?_
  simp [(h name hname).ne_empty, (h name hname).ne_dot]

/-- The path that some names are written as is made of these names. -/
theorem ofText_relativeText {parts : List String} (h : ∀ name ∈ parts, PlainName name) :
    ofText (relativeText parts) = ⟨"", parts⟩ := by
  by_cases hne : parts = []
  · subst hne
    decide
  have hsplit : Text.split '/' (String.intercalate "/" parts) = parts :=
    Text.split_intercalate_of_not_mem hne fun name hname ↦ (h name hname).no_slash
  have hroot : rootOf (String.intercalate "/" parts) = "" := by
    obtain ⟨name, rest, rfl⟩ := List.exists_cons_of_ne_nil hne
    exact rootOf_intercalate (h name List.mem_cons_self)
  rw [ofText, relativeText_of_ne_nil hne, hroot]
  exact congrArg (Path.mk "") (by rw [hsplit, filter_of_plain h])

theorem relativeText_inj {parts parts' : List String} (h : ∀ name ∈ parts, PlainName name)
    (h' : ∀ name ∈ parts', PlainName name) (heq : relativeText parts = relativeText parts') :
    parts = parts' := by
  have hpaths := congrArg ofText heq
  rw [ofText_relativeText h, ofText_relativeText h'] at hpaths
  exact (Path.mk.inj hpaths).2

theorem relativeText_concat {parts : List String} (hne : parts ≠ []) (name : String) :
    relativeText (parts ++ [name]) = relativeText parts ++ "/" ++ name := by
  rw [relativeText_of_ne_nil hne, relativeText_of_ne_nil (by simp),
    String.intercalate_append_of_ne_nil hne (by simp), String.intercalate_singleton]

/-- The text of a path at the root tells its components. -/
theorem parts_ofText_text {parts : List String} (h : ∀ name ∈ parts, PlainName name) :
    (ofText (text ⟨"/", parts⟩)).parts = parts := by
  have htext : text ⟨"/", parts⟩ = "" ++ String.singleton '/' ++ String.intercalate "/" parts := by
    rw [text, if_neg (by simp), String.empty_append]
    rfl
  have hempty : Text.split '/' "" = [""] := by decide
  rw [ofText, htext, Text.split_append, hempty]
  by_cases hne : parts = []
  · subst hne
    decide
  · have hsplit : Text.split '/' (String.intercalate "/" parts) = parts :=
      Text.split_intercalate_of_not_mem hne fun name hname ↦ (h name hname).no_slash
    rw [hsplit]
    exact filter_of_plain h

/-- A path from the root on, with neither dots nor empty components. -/
structure IsCanonical (p : Path) : Prop where
  root_eq : p.root = "/"
  proper : ∀ name ∈ p.parts, ProperName name

theorem IsCanonical.eq_of_text_eq {p q : Path} (hp : p.IsCanonical) (hq : q.IsCanonical)
    (h : p.text = q.text) : p = q := by
  obtain ⟨root, parts⟩ := p
  obtain ⟨root', parts'⟩ := q
  obtain rfl : root = "/" := hp.root_eq
  obtain rfl : root' = "/" := hq.root_eq
  have hparts := congrArg (fun s ↦ (ofText s).parts) h
  rw [parts_ofText_text fun name hname ↦ (hp.proper name hname).toPlainName,
    parts_ofText_text fun name hname ↦ (hq.proper name hname).toPlainName] at hparts
  exact congrArg (Path.mk "/") hparts

/-- The components of a path that is read are plain names. -/
theorem plainName_of_mem_ofText {s part : String} (h : part ∈ (ofText s).parts) :
    PlainName part := by
  obtain ⟨hmem, hkept⟩ := List.mem_filter.mp h
  obtain ⟨hempty, hdot⟩ : part ≠ "" ∧ part ≠ "." := by simpa using hkept
  exact ⟨hempty, hdot, Text.not_mem_of_mem_split hmem⟩

/-- No component of a path has the character that ends a path for the system. -/
abbrev IsClean (p : Path) : Prop :=
  p.parts.any (·.toList.contains '\x00') = false

/-- A path that begins with a base and goes on with plain names. -/
def Extends (p base : Path) : Prop :=
  ∃ names, (∀ name ∈ names, PlainName name) ∧ p = ⟨base.root, base.parts ++ names⟩

theorem Extends.refl (p : Path) : p.Extends p :=
  ⟨[], by simp, by simp⟩

theorem Extends.child {p base : Path} (h : p.Extends base) {name : String}
    (hname : PlainName name) : (p.child name).Extends base := by
  obtain ⟨names, hnames, rfl⟩ := h
  refine ⟨names ++ [name], ?_, by rw [Path.child, List.append_assoc]⟩
  simpa [or_imp, forall_and] using ⟨hnames, hname⟩

theorem Extends.trans {p q base : Path} (h : p.Extends q) (hq : q.Extends base) :
    p.Extends base := by
  obtain ⟨names, hnames, rfl⟩ := h
  obtain ⟨names', hnames', rfl⟩ := hq
  refine ⟨names' ++ names, ?_, by rw [List.append_assoc]⟩
  exact List.forall_mem_append.mpr ⟨hnames', hnames⟩

theorem Extends.below? {p base : Path} (h : p.Extends base) :
    ∃ names, (∀ name ∈ names, PlainName name) ∧ p.below? base = some names ∧
      p = ⟨base.root, base.parts ++ names⟩ := by
  obtain ⟨names, hnames, rfl⟩ := h
  exact ⟨names, hnames, by simp [Path.below?], rfl⟩

/-! ## Sizes -/

theorem utf8ByteSize_intercalate_concat (parts : List String) (name : String) :
    (String.intercalate "/" (parts ++ [name])).utf8ByteSize =
      (String.intercalate "/" parts).utf8ByteSize + (if parts = [] then 0 else 1) +
        name.utf8ByteSize := by
  by_cases hne : parts = []
  · subst hne
    simp
  · have hslash : "/".utf8ByteSize = 1 := rfl
    rw [String.intercalate_append_of_ne_nil hne (by simp), if_neg hne, String.utf8ByteSize_append,
      String.utf8ByteSize_append, String.intercalate_singleton, hslash]

theorem utf8ByteSize_text {p : Path} (h : ¬ (p.root = "" ∧ p.parts = [])) :
    p.text.utf8ByteSize = p.root.utf8ByteSize + (String.intercalate "/" p.parts).utf8ByteSize := by
  rw [text, if_neg h, String.utf8ByteSize_append]

/-- One more component takes its own size and a slash, except right behind the root. -/
theorem utf8ByteSize_text_child {p : Path} (h : ¬ (p.root = "" ∧ p.parts = [])) (name : String) :
    p.text.utf8ByteSize ≤ (p.child name).text.utf8ByteSize ∧
      (p.child name).text.utf8ByteSize ≤ p.text.utf8ByteSize + 1 + name.utf8ByteSize := by
  have hchild : ¬ ((p.child name).root = "" ∧ (p.child name).parts = []) := by simp [child]
  have hparts := utf8ByteSize_intercalate_concat p.parts name
  have hslash : (if p.parts = [] then 0 else 1) ≤ 1 := by split <;> omega
  rw [utf8ByteSize_text hchild, utf8ByteSize_text h]
  dsimp only [child]
  omega

end Path

end Dossier

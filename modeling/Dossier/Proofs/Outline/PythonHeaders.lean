import Dossier.Proofs.Outline.Python
import Dossier.Proofs.Text.Utf8
import Dossier.Proofs.Text.Visible

/-!
# Where the headers of Python definitions end

The header of a definition is its text up to the body, ending with a colon. A comment between the
colon of the source and the body is a part of that text. So the header ends at the colon of the source
exactly if nothing but blanks stands between the colon and the body.
-/

namespace Dossier

namespace Bytes

variable {source : Bytes} {start mid stop : Nat}

theorem between_append (hmid : start ≤ mid) (hstop : mid ≤ stop) :
    source.between start mid ++ source.between mid stop = source.between start stop := by
  have hsplit : source.take mid ++ source.between mid stop = source.take stop := by
    have htake : (source.take stop).take mid = source.take mid := by
      rw [List.take_take, Nat.min_eq_left hstop]
    rw [← htake, between, List.take_append_drop]
  by_cases hshort : source.length ≤ mid
  · have hnone : source.between mid stop = [] := by
      rw [between, List.drop_eq_nil_iff, List.length_take]
      omega
    rw [hnone, List.append_nil] at hsplit ⊢
    rw [between, between, hsplit]
  · rw [between.eq_1 source start mid, between.eq_1 source start stop, ← hsplit,
      List.drop_append_of_le_length]
    rw [List.length_take]
    omega

/-- The text before, at and behind a colon. -/
theorem slice_append_colon {colon : Nat} (hstart : start ≤ colon) (hcolon : colon ≤ mid)
    (hstop : mid ≤ stop) (hreads : source.between colon mid = [58]) :
    source.slice start mid = source.slice start colon ++ ":" ∧
      source.slice start stop = source.slice start mid ++ source.slice mid stop := by
  have hascii : (58 : UInt8) < 0x80 := by decide
  have hmark : Text.Utf8.assemble 58 [] = ':' := by decide
  have hempty : Text.Utf8.decodeWith ['\uFFFD'] [] = [] := by rw [Text.Utf8.decodeWith]
  have hmid : (source.slice start mid).toList = (source.slice start colon).toList ++ [':'] := by
    rw [slice, ← between_append hstart hcolon, hreads, Text.Utf8.decodeLossy,
      Text.Utf8.decodeWith_append _ hascii, hmark, hempty]
    simp [slice, Text.Utf8.decodeLossy]
  refine ⟨String.toList_inj.mp (by simpa using hmid), String.toList_inj.mp ?_⟩
  rw [String.toList_append, hmid, slice, ← between_append (Nat.le_trans hstart hcolon) hstop,
    ← between_append hstart hcolon, hreads, List.append_assoc, List.singleton_append,
    Text.Utf8.decodeLossy, Text.Utf8.decodeWith_append _ hascii, hmark]
  simp [slice, Text.Utf8.decodeLossy]

end Bytes

namespace Outline.Python

open Text (allBlank dedentTail physicalLines strip visible)

/-! ## Headers up to an offset -/

/-- A text that ends with a colon, blanks before which are left out if the colon was there. -/
def colonEnded (text : String) : String :=
  (if Text.endsWith text ":" then Text.stripEnd (Text.dropEnd 1 text) else text) ++ ":"

/-- The header of a definition if it is cut at an offset. -/
def headerTo (source : Bytes) (outer : Node) (stop : Nat) : String :=
  colonEnded (dedentTail (outer.column source) (strip (source.slice outer.start stop)))

theorem definitionText_eq_headerTo (source : Bytes) (outer inner : Node) :
    definitionText source outer inner =
      headerTo source outer (headerEnd inner (inner.field? "body")) := by
  rw [definitionText, headerTo]
  cases inner.field? "body" <;> rfl

/-- Characters with a colon as the last one. -/
def withColon (cs : List Char) : List Char :=
  if cs.getLast? = some ':' then cs else cs ++ [':']

theorem length_le_withColon (cs : List Char) : cs.length ≤ (withColon cs).length := by
  rw [withColon]
  split
  · exact Nat.le_refl _
  · simp

theorem endsWith_colon_iff (s : String) :
    Text.endsWith s ":" = true ↔ s.toList.getLast? = some ':' := by
  have hcolon : ":".toList = [':'] := rfl
  rw [Text.endsWith, hcolon, List.isSuffixOf_iff_suffix, List.getLast?_eq_some_iff]
  exact exists_congr fun front ↦ eq_comm

theorem visible_colonEnded {text : String}
    (hlast : text.toList.getLast? = (visible text).getLast?) :
    visible (colonEnded text) = withColon (visible text) := by
  have hcolon : visible ":" = [':'] := by decide
  rw [colonEnded, withColon, Text.visible_append, hcolon, ← hlast]
  by_cases hends : text.toList.getLast? = some ':'
  · obtain ⟨front, hfront⟩ := List.getLast?_eq_some_iff.mp hends
    have hdrop : Text.dropEnd 1 text = String.ofList front := by
      rw [Text.dropEnd, ← String.length_toList, hfront]
      simp
    have hvisible : visible text = visible (String.ofList front) ++ [':'] := by
      rw [← hcolon, ← Text.visible_append]
      exact congrArg visible (String.toList_inj.mp (by simp [hfront]))
    rw [if_pos ((endsWith_colon_iff text).mpr hends), if_pos hends, hdrop, Text.visible_stripEnd,
      hvisible]
  · rw [if_neg hends, if_neg (fun h ↦ hends ((endsWith_colon_iff text).mp h))]

theorem visible_headerTo (source : Bytes) (outer : Node) (stop : Nat) :
    visible (headerTo source outer stop) = withColon (visible (source.slice outer.start stop)) := by
  have hvisible (column : Nat) (s : String) : visible (dedentTail column (strip s)) = visible s := by
    rw [Text.visible_dedentTail, Text.visible_strip]
  rw [headerTo, visible_colonEnded, hvisible]
  rw [Text.getLast?_dedentTail_strip, hvisible]

/-! ## Headers in an outline -/

/-- The definitions whose headers an outline shows: the functions and classes at the top, and the
functions in the bodies of these classes. -/
inductive Shown (root : Node) : Node → Prop where
  | function {outer : Node} (mem : outer ∈ root.members)
      (kind : (definition outer).kind = "function_definition") : Shown root outer
  | cls {outer : Node} (mem : outer ∈ root.members)
      (kind : (definition outer).kind = "class_definition") : Shown root outer
  | method {outer body method : Node} (mem : outer ∈ root.members)
      (kind : (definition outer).kind = "class_definition")
      (isBody : (definition outer).field? "body" = some body) (isMember : method ∈ body.members)
      (methodKind : (definition method).kind = "function_definition") : Shown root method

variable {source : Bytes} {root outer colon body : Node}

theorem Shown.nested (h : Shown root outer) (hroot : root.Nested) : outer.Nested := by
  have hmembers := hroot.siblings_members.nested
  cases h with
  | function mem | cls mem => exact hmembers _ mem
  | method mem _ isBody isMember =>
      have hbody := (definition_nested (hmembers _ mem)).1.of_field? isBody
      exact hbody.siblings_members.nested _ isMember

theorem exists_entryAt?_of_function (source : Bytes)
    (kind : (definition outer).kind = "function_definition") :
    ∃ e, entryAt? source outer = some e ∧
      e.signature = definitionText source outer (definition outer) := by
  simp only [entryAt?, if_pos kind]
  exact ⟨_, rfl, rfl⟩

theorem exists_entryAt?_of_class (source : Bytes)
    (kind : (definition outer).kind = "class_definition") :
    ∃ e, entryAt? source outer = some e ∧
      e.signature = classText source outer (definition outer) := by
  have hother : (definition outer).kind ≠ "function_definition" := by
    rw [kind]
    decide
  simp only [entryAt?, if_neg hother, if_pos kind]
  exact ⟨_, rfl, rfl⟩

theorem prefix_classText (source : Bytes) (outer inner : Node) :
    physicalLines (definitionText source outer inner) <+:
      physicalLines (classText source outer inner) := by
  rw [classText]
  split
  · exact List.prefix_rfl
  · rw [Text.physicalLines_append]
    exact List.prefix_append ..

/-- A method is shown behind the pad of the members of its class. -/
theorem infix_classText {source : Bytes} {inner body method : Node}
    (isBody : inner.field? "body" = some body) (isMember : method ∈ body.members)
    (kind : (definition method).kind = "function_definition") (outer : Node) :
    (physicalLines (definitionText source method (definition method))).map ("  " ++ ·) <:+:
      physicalLines (classText source outer inner) := by
  have hmember : member? source method =
      some (.method (definitionText source method (definition method))) := by
    simp only [member?, if_pos kind]
  have hmem : .method (definitionText source method (definition method)) ∈
      membersOf source inner := by
    simp only [membersOf, isBody]
    exact List.mem_filterMap.mpr ⟨method, isMember, hmember⟩
  generalize definitionText source method (definition method) = header at hmem ⊢
  have hlines : physicalLines (Text.indentLines "  " header) =
      (physicalLines header).map ("  " ++ ·) :=
    Text.physicalLines_indentLines (by decide) header
  have hshown : Text.indentLines "  " header ∈
      (membersOf source inner).map fun m ↦ Text.indentLines "  " m.text :=
    List.mem_map.mpr ⟨_, hmem, rfl⟩
  have hsome : (membersOf source inner).isEmpty ≠ true := by
    simpa using List.ne_nil_of_mem hmem
  rw [classText, if_neg hsome, Text.physicalLines_append,
    Text.physicalLines_joinLines (List.ne_nil_of_mem hshown), ← hlines]
  exact (List.infix_flatMap_of_mem hshown _).trans (List.suffix_append ..).isInfix

/-- A header is shown in an entry of the outline, and behind a pad if it is that of a method. -/
theorem Shown.exists_entry (h : Shown root outer) (source : Bytes) :
    ∃ e ∈ outline source root, ∃ pad,
      (physicalLines (definitionText source outer (definition outer))).map (pad ++ ·) <:+:
        physicalLines e.signature := by
  have hpadless (ls : List String) : ls.map ("" ++ ·) = ls := by simp
  cases h with
  | function mem kind =>
      obtain ⟨e, hentry, hsignature⟩ := exists_entryAt?_of_function source kind
      refine ⟨e, List.mem_filterMap.mpr ⟨_, mem, hentry⟩, "", ?_⟩
      rw [hpadless, hsignature]
  | cls mem kind =>
      obtain ⟨e, hentry, hsignature⟩ := exists_entryAt?_of_class source kind
      refine ⟨e, List.mem_filterMap.mpr ⟨_, mem, hentry⟩, "", ?_⟩
      rw [hpadless, hsignature]
      exact (prefix_classText ..).isInfix
  | method mem kind isBody isMember methodKind =>
      obtain ⟨e, hentry, hsignature⟩ := exists_entryAt?_of_class source kind
      refine ⟨e, List.mem_filterMap.mpr ⟨_, mem, hentry⟩, "  ", ?_⟩
      rw [hsignature]
      exact infix_classText isBody isMember methodKind _

/-- A colon that a node has before its body. -/
structure ColonBefore (source : Bytes) (node colon body : Node) : Prop where
  order : [colon, body].Sublist node.children
  kind : colon.kind = ":"
  unnamed : colon.named = false
  isBody : node.field? "body" = some body
  reads : source.between colon.start colon.stop = Bytes.ofText ":"

/-- The header of a definition shows all that stands before the body, and ends at the colon of the
source exactly if nothing but blanks stands between the colon and the body. -/
theorem header_ends_at_colon_iff (hroot : root.Nested) (houter : Shown root outer)
    (hcolon : ColonBefore source (definition outer) colon body) :
    let header := definitionText source outer (definition outer)
    let between := source.slice colon.stop body.start
    (∃ e ∈ outline source root, ∃ pad,
      (physicalLines header).map (pad ++ ·) <:+: physicalLines e.signature) ∧
    visible header = withColon (visible (source.slice outer.start colon.stop) ++ visible between) ∧
    (header = headerTo source outer colon.stop ↔ allBlank between = true) := by
  intro header between
  obtain ⟨hnested, hwithin⟩ := definition_nested (houter.nested hroot)
  have hchild := hcolon.order.subset List.mem_cons_self
  have hbody := hcolon.order.subset (List.mem_cons_of_mem _ List.mem_cons_self)
  have hapart : colon.stop ≤ body.start :=
    List.rel_of_pairwise_cons (hnested.pairwise_children.sublist hcolon.order) List.mem_cons_self
  have hstart : outer.start ≤ colon.start :=
    Nat.le_trans hwithin.1 (hnested.within_of_mem hchild).1
  obtain ⟨hends, hslice⟩ := Bytes.slice_append_colon hstart
    (hnested.of_mem hchild).start_le_stop hapart hcolon.reads
  have hheader : header = headerTo source outer body.start := by
    have hcut : header = headerTo source outer
        (headerEnd (definition outer) ((definition outer).field? "body")) :=
      definitionText_eq_headerTo source outer (definition outer)
    rw [hcut, hcolon.isBody, headerEnd]
  have hvisible : visible header =
      withColon (visible (source.slice outer.start colon.stop) ++ visible between) := by
    rw [hheader, visible_headerTo, hslice, Text.visible_append]
  refine ⟨houter.exists_entry source, hvisible, fun heq ↦ ?_, fun hblank ↦ ?_⟩
  · -- A visible character between the colon and the body would make the header longer.
    have hcolon : (visible (source.slice outer.start colon.stop)).getLast? = some ':' := by
      have hmark : visible ":" = [':'] := by decide
      rw [hends, Text.visible_append, hmark, List.getLast?_concat]
    rw [heq, visible_headerTo, withColon, if_pos hcolon] at hvisible
    have hlength := congrArg List.length hvisible
    have hle := length_le_withColon
      (visible (source.slice outer.start colon.stop) ++ visible between)
    rw [List.length_append] at hle
    exact Text.visible_eq_nil_iff.mp (List.length_eq_zero_iff.mp (by omega))
  · rw [hheader, headerTo, headerTo, hslice, Text.strip_append hblank]

/-- A function whose body is announced by a comment, `def f():  # note`. -/
def notedFunction : Node :=
  ⟨"function_definition", true, none, 0, 25,
    [⟨"def", false, none, 0, 3, []⟩, ⟨"identifier", true, some "name", 4, 5, []⟩,
      ⟨"parameters", true, some "parameters", 5, 7,
        [⟨"(", false, none, 5, 6, []⟩, ⟨")", false, none, 6, 7, []⟩]⟩,
      ⟨":", false, none, 7, 8, []⟩, ⟨"comment", true, none, 10, 16, []⟩,
      ⟨"block", true, some "body", 21, 25,
        [⟨"pass_statement", true, none, 21, 25, [⟨"pass", false, none, 21, 25, []⟩]⟩]⟩]⟩

/-- The source of a function with a comment behind its colon. -/
def notedSource : Bytes :=
  Bytes.ofText "def f():  # note\n    pass\n"

theorem headerTo_notedSource {stop : Nat} {shown : String}
    (h : String.ofList ((notedSource.take stop).map (Text.Utf8.assemble · [])) = shown) :
    headerTo notedSource notedFunction stop = colonEnded (dedentTail 0 (strip shown)) := by
  have hascii : ∀ b ∈ notedSource, b < 0x80 := by decide +kernel
  have hslice : notedSource.slice notedFunction.start stop = shown := by
    rw [Bytes.slice, Bytes.between, Text.Utf8.decodeLossy_of_forall_lt fun b hb ↦
      hascii b (List.mem_of_mem_take (List.mem_of_mem_drop hb)), ← h]
    rfl
  rw [headerTo, hslice]
  rfl

theorem header_ends_at_colon_iff_noted :
    let root : Node := ⟨"module", true, none, 0, 26, [notedFunction]⟩
    let header := definitionText notedSource notedFunction notedFunction
    (∃ e ∈ outline notedSource root, ∃ pad,
      (physicalLines header).map (pad ++ ·) <:+: physicalLines e.signature) ∧
    header = "def f():  # note:" ∧ headerTo notedSource notedFunction 8 = "def f():" ∧
    allBlank (notedSource.slice 8 21) = false := by
  intro root header
  have hroot : root.Nested := Node.nested_of_isNested root (by decide)
  have hshown : Shown root notedFunction := .function List.mem_cons_self rfl
  have hcolon : ColonBefore notedSource notedFunction ⟨":", false, none, 7, 8, []⟩
      ⟨"block", true, some "body", 21, 25,
        [⟨"pass_statement", true, none, 21, 25, [⟨"pass", false, none, 21, 25, []⟩]⟩]⟩ :=
    ⟨.cons _ (.cons _ (.cons _ (.cons_cons _ (.cons _ (.cons_cons _ .slnil))))), rfl, rfl, rfl,
      by decide⟩
  have hheader : header = "def f():  # note:" := by
    have hcut : header = headerTo notedSource notedFunction 21 := definitionText_eq_headerTo ..
    rw [hcut, headerTo_notedSource (by decide : _ = "def f():  # note\n    ")]
    decide +kernel
  have hcut : headerTo notedSource notedFunction 8 = "def f():" := by
    rw [headerTo_notedSource (by decide : _ = "def f():")]
    decide +kernel
  obtain ⟨hentry, -, hiff⟩ := header_ends_at_colon_iff hroot hshown hcolon
  refine ⟨hentry, hheader, hcut, ?_⟩
  rw [← Bool.not_eq_true, ← hiff]
  intro hsame
  have hshort : header = "def f():" := hsame.trans hcut
  rw [hheader] at hshort
  exact absurd hshort (by decide)

end Outline.Python

end Dossier

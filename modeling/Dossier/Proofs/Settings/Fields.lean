import Dossier.Proofs.FileSystem.Straight
import Dossier.Proofs.Settings
import Dossier.Proofs.Text.Runs

/-!
# Settings field by field

The fields of a settings file are read one after the other into one record. Each field is given by
what stands under its key alone, and so is the warning about it; whatever the file holds, every field
has a value that it may have.
-/

namespace Dossier.Settings

open Data (Datum)
open Steps

/-! ## Fields as places -/

/-- The values of a field. The directory of the notes comes with what keeps its name from being a path. -/
def Field.Value : Field → Type
  | .budget => Int
  | .keyFiles | .excludeSignatures | .ignore => List String
  | .knowledgeDir => String × Option Nat
  | .depth => Depth
  | .autoKnowledge => Bool
  | .format => MapFormat
  | .annotations => List (String × String)

/-- The value of a field. -/
def get (settings : Settings) : (field : Field) → field.Value
  | .budget => settings.budget
  | .keyFiles => settings.keyFiles
  | .excludeSignatures => settings.excludeSignatures
  | .ignore => settings.ignore
  | .knowledgeDir => (settings.knowledgeDir, settings.knowledgeFlaw)
  | .depth => settings.depth
  | .autoKnowledge => settings.autoKnowledge
  | .format => settings.format
  | .annotations => settings.annotations

/-- Settings with another value of one field. -/
def put (settings : Settings) : (field : Field) → field.Value → Settings
  | .budget, x => { settings with budget := x }
  | .keyFiles, x => { settings with keyFiles := x }
  | .excludeSignatures, x => { settings with excludeSignatures := x }
  | .ignore, x => { settings with ignore := x }
  | .knowledgeDir, x => { settings with knowledgeDir := x.1, knowledgeFlaw := x.2 }
  | .depth, x => { settings with depth := x }
  | .autoKnowledge, x => { settings with autoKnowledge := x }
  | .format, x => { settings with format := x }
  | .annotations, x => { settings with annotations := x }

/-- The directory of the notes, with what keeps its name from being a path. -/
def notesDir? (d : Datum) : Option (String × Option Nat) :=
  (filledText? d).map (·, d.flaw?)

/-- The value that a datum gives a field, unless the datum is unusable. -/
def Field.usable? : (field : Field) → Datum → Option field.Value
  | .budget => budget?
  | .keyFiles | .excludeSignatures | .ignore => patterns?
  | .knowledgeDir => notesDir?
  | .depth => depth?
  | .autoKnowledge => flag?
  | .format => format?
  | .annotations => annotations?

variable {settings : Settings} {field other : Field}

@[simp] theorem get_put (x : field.Value) : (settings.put field x).get field = x := by
  cases field <;> rfl

theorem get_put_of_ne (h : other ≠ field) (x : field.Value) :
    (settings.put field x).get other = settings.get other := by
  cases field <;> cases other <;> first | rfl | exact absurd rfl h

@[simp] theorem source_put (x : field.Value) : (settings.put field x).source = settings.source := by
  cases field <;> rfl

theorem set?_knowledgeDir (value : Datum) : settings.set? .knowledgeDir value =
    (notesDir? value).map fun dir ↦
      { settings with knowledgeDir := dir.1, knowledgeFlaw := dir.2 } := by
  rw [set?, notesDir?, Option.map_map]
  rfl

theorem set?_eq (value : Datum) :
    settings.set? field value = (field.usable? value).map (settings.put field) := by
  cases field with
  | knowledgeDir => exact set?_knowledgeDir value
  | _ => rfl

theorem Field.mem_all (field : Field) : field ∈ Field.all := by
  cases field <;> decide

/-! ## Values -/

/-- A text that is not empty and has no blanks around it. -/
def IsFilled (s : String) : Prop :=
  s ≠ "" ∧ Text.strip s = s

/-- The values that a field may have. -/
def Field.Admits : (field : Field) → field.Value → Prop
  | .budget => fun (n : Int) ↦ 1000 ≤ n ∧ n ≤ 100000
  | .keyFiles | .excludeSignatures | .ignore => fun (patterns : List String) ↦
      ∀ s ∈ patterns, IsFilled s
  | .knowledgeDir => fun (dir : String × Option Nat) ↦ IsFilled dir.1
  | .depth => fun (d : Depth) ↦ d.name ∈ ["exports", "all"]
  | .format => fun (f : MapFormat) ↦ f.name ∈ ["signatures", "compact"]
  | .autoKnowledge | .annotations => fun _ ↦ True

/-- What a datum has to be to give a field a value. -/
def Field.Means : (field : Field) → Datum → field.Value → Prop
  | .budget => fun d (n : Int) ↦ d = .int n ∧ 1000 ≤ n ∧ n ≤ 100000
  | .keyFiles | .excludeSignatures | .ignore => fun d (patterns : List String) ↦
      ∃ texts : List String,
        ((∃ items, d = .list items ∧ List.Forall₂ (·.text? = some ·) items texts) ∨
          ∃ s, texts = [s] ∧ d.text? = some s) ∧
        patterns = (texts.map Text.strip).filter (· ≠ "")
  | .knowledgeDir => fun d (dir : String × Option Nat) ↦
      ∃ s, d.text? = some s ∧ dir.1 = Text.strip s ∧ dir.1 ≠ "" ∧ dir.2 = d.flaw?
  | .depth => fun d (depth : Depth) ↦ d.text? = some depth.name
  | .autoKnowledge => fun d (b : Bool) ↦ d = .bool b
  | .format => fun d (format : MapFormat) ↦ d.text? = some format.name
  | .annotations => fun d (pairs : List (String × String)) ↦ ∃ entries, d = .map entries ∧
      List.Forall₂ (fun (key, value) (k, v) ↦ key.text? = some k ∧ value.text? = some v) entries pairs

theorem budget?_eq_some {d : Datum} {n : Int} :
    budget? d = some n ↔ d = .int n ∧ 1000 ≤ n ∧ n ≤ 100000 := by
  cases d with
  | int m =>
      rw [budget?, Option.ite_none_right_eq_some, Option.some_inj, Datum.int.injEq]
      exact ⟨fun ⟨hrange, heq⟩ ↦ ⟨heq, heq ▸ hrange⟩, fun ⟨heq, hrange⟩ ↦ ⟨heq ▸ hrange, heq⟩⟩
  | _ => simp [budget?]

theorem mapM_eq_some {α β : Type} {read : α → Option β} {xs : List α} {ys : List β} :
    xs.mapM read = some ys ↔ List.Forall₂ (read · = some ·) xs ys := by
  induction xs generalizing ys with
  | nil => simp [eq_comm]
  | cons x rest ih =>
      rw [List.mapM_cons]
      simp only [Option.bind_eq_bind, Option.bind_eq_some_iff, ih, Option.pure_def, Option.some_inj,
        List.forall₂_cons_left_iff]
      constructor
      · rintro ⟨y, hy, zs, hzs, rfl⟩
        exact ⟨y, zs, hy, hzs, rfl⟩
      · rintro ⟨y, zs, hy, hzs, rfl⟩
        exact ⟨y, hy, zs, hzs, rfl⟩

theorem patterns?_eq_some {d : Datum} {patterns : List String} :
    patterns? d = some patterns ↔ ∃ texts : List String,
      ((∃ items, d = .list items ∧ List.Forall₂ (·.text? = some ·) items texts) ∨
        ∃ s, texts = [s] ∧ d.text? = some s) ∧
      patterns = (texts.map Text.strip).filter (· ≠ "") := by
  have hfilter (texts : List String) : (texts.map Text.strip).filter (· != "") =
      (texts.map Text.strip).filter (· ≠ "") :=
    List.filter_congr fun s _ ↦ by rw [bne, decide_not, beq_eq_decide]
  unfold patterns?
  rw [Option.map_eq_some_iff]
  refine exists_congr fun texts ↦ and_congr ?_ (by rw [hfilter, eq_comm])
  cases d with
  | list items => simp [allTexts?, mapM_eq_some, Datum.text?]
  | text | codes => simp [Datum.text?, eq_comm]
  | _ => simp [Datum.text?]

theorem filledText?_eq_some {d : Datum} {dir : String} :
    filledText? d = some dir ↔ ∃ s, d.text? = some s ∧ dir = Text.strip s ∧ dir ≠ "" := by
  rw [filledText?, Option.bind_eq_some_iff]
  refine exists_congr fun s ↦ and_congr_right fun _ ↦ ?_
  rw [Option.ite_none_left_eq_some, Option.some_inj]
  constructor
  · rintro ⟨hblank, rfl⟩
    exact ⟨rfl, mt Text.strip_eq_empty_iff.mp hblank⟩
  · rintro ⟨rfl, hne⟩
    exact ⟨mt Text.strip_eq_empty_iff.mpr hne, rfl⟩

theorem depth?_eq_some {d : Datum} {depth : Depth} :
    depth? d = some depth ↔ d.text? = some depth.name := by
  rw [depth?]
  cases d.text? with
  | none => simp
  | some s =>
      rw [Option.bind_some, Option.some_inj]
      cases depth <;> simp [Depth.name, List.find?_cons] <;> grind

theorem format?_eq_some {d : Datum} {format : MapFormat} :
    format? d = some format ↔ d.text? = some format.name := by
  rw [format?]
  cases d.text? with
  | none => simp
  | some s =>
      rw [Option.bind_some, Option.some_inj]
      cases format <;> simp [MapFormat.name, List.find?_cons] <;> grind

theorem flag?_eq_some {d : Datum} {b : Bool} : flag? d = some b ↔ d = .bool b := by
  cases d <;> simp [flag?]

theorem annotations?_eq_some {d : Datum} {pairs : List (String × String)} :
    annotations? d = some pairs ↔ ∃ entries, d = .map entries ∧
      List.Forall₂ (fun (key, value) (k, v) ↦ key.text? = some k ∧ value.text? = some v) entries
        pairs := by
  have hpair (x : Datum × Datum) (y : String × String) :
      (do return (← x.1.text?, ← x.2.text?)) = some y ↔
        x.1.text? = some y.1 ∧ x.2.text? = some y.2 := by
    simp only [Option.bind_eq_bind, Option.bind_eq_some_iff, Option.pure_def, Option.some_inj]
    constructor
    · rintro ⟨k, hk, v, hv, rfl⟩
      exact ⟨hk, hv⟩
    · rintro ⟨hk, hv⟩
      exact ⟨_, hk, _, hv, rfl⟩
  cases d with
  | map entries =>
      simp only [annotations?, mapM_eq_some, Datum.map.injEq, exists_eq_left', hpair]
  | _ => simp [annotations?]

theorem notesDir?_eq_some {d : Datum} {dir : String × Option Nat} :
    notesDir? d = some dir ↔
      ∃ s, d.text? = some s ∧ dir.1 = Text.strip s ∧ dir.1 ≠ "" ∧ dir.2 = d.flaw? := by
  obtain ⟨name, flaw⟩ := dir
  simp only [notesDir?, Option.map_eq_some_iff, Prod.mk.injEq, filledText?_eq_some]
  constructor
  · rintro ⟨_, ⟨s, hs, rfl, hne⟩, rfl, rfl⟩
    exact ⟨s, hs, rfl, hne, rfl⟩
  · rintro ⟨s, hs, rfl, hne, rfl⟩
    exact ⟨_, ⟨s, hs, rfl, hne⟩, rfl, rfl⟩

/-- A datum is usable for a field exactly if it is what gives the field a value. -/
theorem Field.usable?_eq_some {d : Datum} {x : field.Value} :
    field.usable? d = some x ↔ field.Means d x := by
  cases field with
  | budget => exact budget?_eq_some
  | keyFiles => exact patterns?_eq_some
  | excludeSignatures => exact patterns?_eq_some
  | ignore => exact patterns?_eq_some
  | knowledgeDir => exact notesDir?_eq_some
  | depth => exact depth?_eq_some
  | autoKnowledge => exact flag?_eq_some
  | format => exact format?_eq_some
  | annotations => exact annotations?_eq_some

theorem depth_name_mem (d : Depth) : d.name ∈ ["exports", "all"] := by
  cases d <;> decide

theorem format_name_mem (f : MapFormat) : f.name ∈ ["signatures", "compact"] := by
  cases f <;> decide

theorem isFilled_of_mem_strip {texts : List String} :
    ∀ s ∈ (texts.map Text.strip).filter (· ≠ ""), IsFilled s := by
  intro s hs
  obtain ⟨hmem, hne⟩ := List.mem_filter.mp hs
  obtain ⟨t, -, rfl⟩ := List.mem_map.mp hmem
  exact ⟨of_decide_eq_true hne, Text.strip_strip t⟩

/-- A field may have every value that a datum gives it. -/
theorem Field.Means.admits {d : Datum} {x : field.Value} (h : field.Means d x) :
    field.Admits x := by
  have hpatterns {d : Datum} {patterns : List String} (h : Field.ignore.Means d patterns) :
      ∀ s ∈ patterns, IsFilled s := by
    obtain ⟨texts, -, rfl⟩ := h
    exact isFilled_of_mem_strip
  cases field with
  | budget => exact h.2
  | keyFiles => exact hpatterns h
  | excludeSignatures => exact hpatterns h
  | ignore => exact hpatterns h
  | knowledgeDir =>
      obtain ⟨s, -, hstrip, hne, -⟩ := h
      exact ⟨hne, hstrip ▸ Text.strip_strip s⟩
  | depth => exact depth_name_mem x
  | autoKnowledge => trivial
  | format => exact format_name_mem x
  | annotations => trivial

theorem Field.admits_default (field : Field) : field.Admits (({} : Settings).get field) := by
  have hpatterns : ∀ s ∈ defaultExcluded, IsFilled s := by
    unfold IsFilled
    decide
  have hdir : IsFilled ".devctx/knowledge" := by
    unfold IsFilled
    decide
  cases field with
  | budget => exact (by decide : (1000 : Int) ≤ 12000 ∧ (12000 : Int) ≤ 100000)
  | keyFiles => exact List.forall_mem_nil _
  | excludeSignatures => exact hpatterns
  | ignore => exact List.forall_mem_nil _
  | knowledgeDir => exact hdir
  | depth => exact depth_name_mem .exports
  | autoKnowledge => trivial
  | format => exact format_name_mem .signatures
  | annotations => trivial

/-! ## Reading entries -/

section

variable {file : String} {entries : List (Datum × Datum)}

/-- The value under the key of a field, if it is usable. -/
def Field.given? (field : Field) (entries : List (Datum × Datum)) : Option field.Value :=
  (Datum.lookup field.key entries).bind field.usable?

/-- The warning about a field, if what stands under its key is unusable. -/
def Field.warningIn? (file : String) (entries : List (Datum × Datum)) (field : Field) :
    Option String :=
  (Datum.lookup field.key entries).bind fun value ↦
    if (field.usable? value).isNone then some (unusable file field value) else none

/-- Some fields have been taken over, each on its own. -/
structure Taken (file : String) (entries : List (Datum × Datum)) (fields : List Field)
    (before after : Settings × List String) : Prop where
  given : ∀ field ∈ fields, after.1.get field =
    (field.given? entries).getD (before.1.get field)
  kept : ∀ field ∉ fields, after.1.get field = before.1.get field
  source : after.1.source = before.1.source
  warnings : after.2 = before.2 ++ fields.filterMap (Field.warningIn? file entries)

theorem Taken.refl (state : Settings × List String) : Taken file entries [] state state where
  given := by simp
  kept _ _ := rfl
  source := rfl
  warnings := by simp

/-- Taking one field over gives it the usable value under its key, or adds a warning. -/
theorem taken_take {before after : Settings × List String} {field : Field}
    (h : take file entries before field = .ok after) : Taken file entries [field] before after := by
  rw [take] at h
  cases hfound : Datum.lookup field.key entries with
  | none =>
      rw [hfound] at h
      obtain rfl := Except.ok.inj h
      exact ⟨by simp [Field.given?, hfound], fun _ _ ↦ rfl, rfl,
        by simp [Field.warningIn?, hfound]⟩
  | some value =>
      cases hvalue : field.usable? value with
      | some x =>
          simp only [hfound, set?_eq, hvalue, Option.map_some] at h
          obtain rfl := Except.ok.inj h
          refine ⟨by simp [Field.given?, hfound, hvalue], fun other hother ↦ ?_, source_put x,
            by simp [Field.warningIn?, hfound, hvalue]⟩
          exact get_put_of_ne (by simpa using hother) x
      | none =>
          simp only [hfound, set?_eq, hvalue, Option.map_none] at h
          split at h
          · obtain rfl := Except.ok.inj h
            exact ⟨by simp [Field.given?, hfound, hvalue], fun _ _ ↦ rfl, rfl,
              by simp [Field.warningIn?, hfound, hvalue]⟩
          · cases h

theorem Taken.cons {before next after : Settings × List String} {field : Field}
    {rest : List Field} (hnew : field ∉ rest) (hfirst : Taken file entries [field] before next)
    (hrest : Taken file entries rest next after) :
    Taken file entries (field :: rest) before after where
  given := by
    refine List.forall_mem_cons.mpr ⟨?_, fun other hother ↦ ?_⟩
    -- No later step takes the first field over again.
    · rw [hrest.kept field hnew, hfirst.given field List.mem_cons_self]
    · have hne : other ≠ field := by
        rintro rfl
        exact hnew hother
      rw [hrest.given other hother, hfirst.kept other (by simpa using hne)]
  kept other hother := by
    rw [List.mem_cons, not_or] at hother
    obtain ⟨hne, hother⟩ := hother
    rw [hrest.kept other hother, hfirst.kept other (by simpa using hne)]
  source := hrest.source.trans hfirst.source
  warnings := by
    rw [hrest.warnings, hfirst.warnings, List.append_assoc, ← List.filterMap_append,
      List.singleton_append]

theorem taken_foldlM {fields : List Field} (hnodup : fields.Nodup)
    {before after : Settings × List String}
    (h : fields.foldlM (take file entries) before = .ok after) :
    Taken file entries fields before after := by
  induction fields generalizing before with
  | nil =>
      obtain rfl := pure_eq_ok.mp h
      exact .refl before
  | cons field rest ih =>
      rw [List.foldlM_cons] at h
      obtain ⟨next, hnext, h⟩ := bind_eq_ok.mp h
      obtain ⟨hnew, hnodup⟩ := List.nodup_cons.mp hnodup
      exact (taken_take hnext).cons hnew (ih hnodup h)

/-- Settings with warnings are what the entries of a file ask for, each field on its own. -/
structure IsReadOf (file : String) (entries : List (Datum × Datum))
    (result : Settings × List String) : Prop where
  given : ∀ (field : Field) d x, Datum.lookup field.key entries = some d → field.Means d x →
    result.1.get field = x
  default : ∀ field : Field,
    (∀ d, Datum.lookup field.key entries = some d → ∀ x, ¬ field.Means d x) →
    result.1.get field = ({} : Settings).get field
  source : result.1.source = some file
  warnings : result.2 = Field.all.filterMap (Field.warningIn? file entries)

theorem get_source (source : Option String) (field : Field) :
    ({ source := source } : Settings).get field = ({} : Settings).get field := by
  cases field <;> rfl

theorem isReadOf_ofEntries {result : Settings × List String}
    (h : ofEntries file entries = .ok result) : IsReadOf file entries result := by
  have htaken := taken_foldlM (by decide) h
  have hvalue (field : Field) : result.1.get field =
      (field.given? entries).getD (({} : Settings).get field) := by
    rw [htaken.given field field.mem_all, get_source]
  refine ⟨fun field d x hfound hmeans ↦ ?_, fun field hunusable ↦ ?_, htaken.source,
    htaken.warnings⟩
  · rw [hvalue, Field.given?, hfound, Option.bind_some, Field.usable?_eq_some.mpr hmeans]
    rfl
  · have hnone : field.given? entries = none := by
      refine Option.bind_eq_none_iff.mpr fun d hfound ↦ Option.eq_none_iff_forall_ne_some.mpr ?_
      exact fun x ↦ mt Field.usable?_eq_some.mp (hunusable d hfound x)
    rw [hvalue, hnone]
    rfl

/-- What is read for a field is a value that a datum under its key means, or the default. -/
theorem IsReadOf.means_or_default {result : Settings × List String}
    (h : IsReadOf file entries result) (field : Field) :
    (∃ d, Datum.lookup field.key entries = some d ∧ field.Means d (result.1.get field)) ∨
      (∀ d, Datum.lookup field.key entries = some d → ∀ x, ¬ field.Means d x) ∧
        result.1.get field = ({} : Settings).get field := by
  by_cases hgiven : ∃ d x, Datum.lookup field.key entries = some d ∧ field.Means d x
  · obtain ⟨d, x, hfound, hmeans⟩ := hgiven
    exact .inl ⟨d, hfound, h.given field d x hfound hmeans ▸ hmeans⟩
  · have hunusable : ∀ d, Datum.lookup field.key entries = some d → ∀ x, ¬ field.Means d x :=
      fun d hfound x hmeans ↦ hgiven ⟨d, x, hfound, hmeans⟩
    exact .inr ⟨hunusable, h.default field hunusable⟩

theorem IsReadOf.admits {result : Settings × List String} (h : IsReadOf file entries result)
    (field : Field) : field.Admits (result.1.get field) := by
  rcases h.means_or_default field with ⟨d, -, hmeans⟩ | ⟨-, hdefault⟩
  · exact hmeans.admits
  · rw [hdefault]
    exact field.admits_default

/-! ## Changing one field -/

/-- Two lists of entries have the same under the keys of all fields but one. -/
def SameExcept (field : Field) (entries entries' : List (Datum × Datum)) : Prop :=
  ∀ other, other ≠ field → Datum.lookup other.key entries' = Datum.lookup other.key entries

theorem Field.all_eq_append (field : Field) :
    ∃ before after, Field.all = before ++ field :: after ∧ field ∉ before ∧ field ∉ after := by
  obtain ⟨before, after, heq⟩ := List.append_of_mem field.mem_all
  have hnodup : (before ++ field :: after).Nodup := by
    rw [← heq]
    decide
  rw [List.perm_middle.nodup_iff, List.nodup_cons, List.mem_append, not_or] at hnodup
  exact ⟨before, after, heq, hnodup.1⟩

/-- The settings and warnings of two lists of entries that differ under the key of one field. -/
structure DifferOnlyIn (file : String) (field : Field) (entries entries' : List (Datum × Datum))
    (result result' : Settings × List String) : Prop where
  get : ∀ other, other ≠ field → result'.1.get other = result.1.get other
  source : result'.1.source = result.1.source
  warnings : ∃ before after,
    result.2 = before ++ (field.warningIn? file entries).toList ++ after ∧
    result'.2 = before ++ (field.warningIn? file entries').toList ++ after

theorem warnings_congr {fields : List Field} {entries' : List (Datum × Datum)}
    (hsame : SameExcept field entries entries') (hnot : field ∉ fields) :
    fields.filterMap (Field.warningIn? file entries') =
      fields.filterMap (Field.warningIn? file entries) := by
  refine List.filterMap_congr fun other hother ↦ ?_
  have hne : other ≠ field := by
    rintro rfl
    exact hnot hother
  rw [Field.warningIn?, hsame other hne, Field.warningIn?]

theorem IsReadOf.differOnlyIn {entries' : List (Datum × Datum)}
    {result result' : Settings × List String} (hsame : SameExcept field entries entries')
    (h : IsReadOf file entries result) (h' : IsReadOf file entries' result') :
    DifferOnlyIn file field entries entries' result result' where
  get other hne := by
    rcases h.means_or_default other with ⟨d, hfound, hmeans⟩ | ⟨hunusable, hdefault⟩
    · exact h'.given other d _ ((hsame other hne).trans hfound) hmeans
    · rw [hdefault]
      exact h'.default other fun d hfound ↦ hunusable d ((hsame other hne).symm.trans hfound)
  source := h'.source.trans h.source.symm
  warnings := by
    obtain ⟨before, after, heq, hbefore, hafter⟩ := field.all_eq_append
    refine ⟨before.filterMap (Field.warningIn? file entries),
      after.filterMap (Field.warningIn? file entries), ?_, ?_⟩
    · rw [h.warnings, heq, List.filterMap_append, List.filterMap_cons]
      cases field.warningIn? file entries <;> simp
    · rw [h'.warnings, heq, List.filterMap_append, List.filterMap_cons,
        warnings_congr hsame hbefore, warnings_congr hsame hafter]
      cases field.warningIn? file entries' <;> simp

/-! ## Reading files -/

variable {yaml : Data.Reader} {fs : FileSystem} {root : Path}

/-- The settings file of a project holds a mapping, and these are its entries that count. -/
def HasMapping (yaml : Data.Reader) (fs : FileSystem) (root : Path) (file : String)
    (entries : List (Datum × Datum)) : Prop :=
  fileNames.findM? (fun name ↦ fs.leadsToFile (root.child name)) = .ok (some file) ∧
    ∃ s all, fs.readText (root.child file) = .ok s ∧ yaml s = .ok (.map all) ∧
      relevant all = entries

theorem HasMapping.load_eq (h : HasMapping yaml fs root file entries) :
    load yaml fs root = ofEntries file entries := by
  obtain ⟨hfound, s, all, hread, hparse, rfl⟩ := h
  rw [load, hfound]
  simp [bind, Except.bind, inFile, hread, hparse]

theorem HasMapping.returns_iff (h : HasMapping yaml fs root file entries) :
    (∃ result, load yaml fs root = .ok result) ↔ ∀ field, ¬ FieldHazard entries field := by
  rw [h.load_eq, ← not_fails_iff, fails_ofEntries]
  simp [Field.mem_all]

theorem admits_of_source (source : Option String) (field : Field) :
    field.Admits (({ source := source } : Settings).get field) := by
  rw [get_source]
  exact field.admits_default

theorem admits_inFile {result : Settings × List String} (h : inFile yaml fs root file = .ok result)
    (field : Field) : field.Admits (result.1.get field) := by
  unfold inFile at h
  dsimp only at h
  split at h
  · obtain rfl := Except.ok.inj h
    exact admits_of_source _ field
  · split at h
    case h_2 => cases h
    case h_4 entries _ => exact (isReadOf_ofEntries h).admits field
    all_goals
      obtain rfl := Except.ok.inj h
      exact admits_of_source _ field

theorem admits_load {result : Settings × List String} (h : load yaml fs root = .ok result)
    (field : Field) : field.Admits (result.1.get field) := by
  obtain ⟨found, -, h⟩ := bind_eq_ok.mp h
  cases found with
  | none =>
      obtain rfl := pure_eq_ok.mp h
      exact field.admits_default
  | some file => exact admits_inFile h field

/-- Settings are read field by field, whatever reads the file. The settings of a project whose settings file holds a mapping
can be read unless the warning about some field cannot be shown; then every field has the usable
value under its key or else its default, and there is one warning for every unusable value, in the
order of the fields. Settings files that differ under the key of one field give settings that differ
in that field and its warning. And whatever can be read, every field has a value that it may have. -/
theorem load_fieldwise :
    (∀ file entries, HasMapping yaml fs root file entries →
      ((∃ result, load yaml fs root = .ok result) ↔ ∀ field, ¬ FieldHazard entries field) ∧
      ∀ result, load yaml fs root = .ok result → IsReadOf file entries result) ∧
    (∀ fs' root' file field entries entries' result result',
      HasMapping yaml fs root file entries → HasMapping yaml fs' root' file entries' →
      SameExcept field entries entries' →
      load yaml fs root = .ok result → load yaml fs' root' = .ok result' →
      DifferOnlyIn file field entries entries' result result') ∧
    ∀ result, load yaml fs root = .ok result → ∀ field : Field,
      field.Admits (result.1.get field) := by
  have hread {fs : FileSystem} {root : Path} {file : String} {entries : List (Datum × Datum)}
      {result : Settings × List String} (h : HasMapping yaml fs root file entries)
      (hload : load yaml fs root = .ok result) : IsReadOf file entries result := by
    rw [h.load_eq] at hload
    exact isReadOf_ofEntries hload
  refine ⟨fun file entries h ↦ ⟨h.returns_iff, fun result hload ↦ hread h hload⟩, ?_,
    fun result hload ↦ admits_load hload⟩
  intro fs' root' file field entries entries' result result' h h' hsame hload hload'
  exact (hread h hload).differOnlyIn hsame (hread h' hload')

end

/-! ## A settings file -/

/-- A project with nothing but a settings file. -/
def withSettings (text : String) : FileSystem where
  entries := [("p", .directory [(".devctx.yaml", .file text.toUTF8)])]

/-- The entries of a file with a budget and an ignored name. -/
def budgetEntries (n : Int) : List (Datum × Datum) :=
  [(.text "budget", .int n), (.text "ignore", .text "a")]

/-- What is read of two such files. Nothing is read of any other. -/
def budgetReader : Data.Reader := fun s ↦
  if s = "budget: 5\nignore: a\n" then .ok (.map (budgetEntries 5))
  else if s = "budget: 2000\nignore: a\n" then .ok (.map (budgetEntries 2000))
  else .ok .null

theorem withSettings_hasMapping (text : String) (hlines : Text.unifyNewlines text = text)
    {all : List (Datum × Datum)} (hread : budgetReader text = .ok (.map all)) :
    HasMapping budgetReader (withSettings text) ⟨"/", ["p"]⟩ ".devctx.yaml" (relevant all) := by
  have hat : (withSettings text).at? ["p", ".devctx.yaml"] = some (.file text.toUTF8) := rfl
  have hstraight : (withSettings text).IsStraight ⟨"/", ["p", ".devctx.yaml"]⟩ :=
    ⟨by decide, .of_at? (by decide) hat rfl⟩
  have hstat := hstraight.stat_eq (by decide) (by decide) hat
  have hfound : (withSettings text).leadsToFile ⟨"/", ["p", ".devctx.yaml"]⟩ = .ok true :=
    FileSystem.leadsTo_of_look hstraight.clean (FileSystem.look_eq_ok.mpr ⟨rfl, hstat⟩) Entry.isFile
  refine ⟨?_, text, all, ?_, hread, rfl⟩
  · rw [fileNames, List.findM?]
    simp [Path.child, hfound, bind, Except.bind, pure, Except.pure]
  · have htext := FileSystem.readText_of_stat rfl hstat
    rwa [hlines] at htext

theorem withSettings_small_hasMapping : HasMapping budgetReader
    (withSettings "budget: 5\nignore: a\n") ⟨"/", ["p"]⟩ ".devctx.yaml" (budgetEntries 5) :=
  withSettings_hasMapping "budget: 5\nignore: a\n" (by decide) rfl

theorem withSettings_ample_hasMapping : HasMapping budgetReader
    (withSettings "budget: 2000\nignore: a\n") ⟨"/", ["p"]⟩ ".devctx.yaml" (budgetEntries 2000) :=
  withSettings_hasMapping "budget: 2000\nignore: a\n" (by decide) rfl

theorem lookup_budgetEntries (field : Field) (n : Int) :
    Datum.lookup field.key (budgetEntries n) = match field with
      | .budget => some (.int n)
      | .ignore => some (.text "a")
      | _ => none := by
  cases field <;> rfl

theorem budgetEntries_not_hazard {n : Int} (hn : n.natAbs < 10 ^ 4) (field : Field) :
    ¬ FieldHazard (budgetEntries n) field := by
  rintro ⟨value, hfound, -, hshow⟩
  rw [lookup_budgetEntries] at hfound
  cases field with
  | budget =>
      obtain rfl := Option.some_inj.mp hfound
      have hpow (k : Nat) (hk : 4 ≤ k) : n.natAbs < Nat.pow 10 k :=
        Nat.lt_of_lt_of_le hn (Nat.pow_le_pow_right (by decide) hk)
      rw [Datum.isShowable, Datum.hidden?, Datum.hindrance?,
        if_pos (hpow Text.maxDigits (by decide))] at hshow
      cases hshow
  | ignore =>
      obtain rfl := Option.some_inj.mp hfound
      cases hshow
  | _ => cases hfound

theorem budgetEntries_sameExcept (n n' : Int) :
    SameExcept .budget (budgetEntries n) (budgetEntries n') := by
  intro other hne
  rw [lookup_budgetEntries, lookup_budgetEntries]
  cases other with
  | budget => exact absurd rfl hne
  | _ => rfl

/-- A budget that is too small leaves the default and a warning; one that is large enough takes their
place and changes nothing else. -/
theorem load_fieldwise_budget : ∃ result result',
    load budgetReader (withSettings "budget: 5\nignore: a\n") ⟨"/", ["p"]⟩ = .ok result ∧
    load budgetReader (withSettings "budget: 2000\nignore: a\n") ⟨"/", ["p"]⟩ = .ok result' ∧
    DifferOnlyIn ".devctx.yaml" .budget (budgetEntries 5) (budgetEntries 2000) result result' ∧
    (∀ field : Field, field.Admits (result'.1.get field)) ∧
    result.1.budget = 12000 ∧ result'.1.budget = 2000 ∧ result'.1.ignore = ["a"] ∧
    result.2 = [".devctx.yaml: invalid budget 5; using default"] ∧ result'.2 = [] := by
  obtain ⟨hsmall, hchange, -⟩ :=
    @load_fieldwise budgetReader (withSettings "budget: 5\nignore: a\n") ⟨"/", ["p"]⟩
  obtain ⟨hample, -, hadmits⟩ :=
    @load_fieldwise budgetReader (withSettings "budget: 2000\nignore: a\n") ⟨"/", ["p"]⟩
  obtain ⟨hreturns, hread⟩ := hsmall _ _ withSettings_small_hasMapping
  obtain ⟨hreturns', hread'⟩ := hample _ _ withSettings_ample_hasMapping
  obtain ⟨result, hload⟩ := hreturns.mpr (budgetEntries_not_hazard (by decide))
  obtain ⟨result', hload'⟩ := hreturns'.mpr (budgetEntries_not_hazard (by decide))
  refine ⟨result, result', hload, hload', hchange _ _ _ _ _ _ _ _ withSettings_small_hasMapping
    withSettings_ample_hasMapping (budgetEntries_sameExcept 5 2000) hload hload',
    hadmits result' hload', ?_, ?_, ?_, ?_, ?_⟩
  · refine (hread result hload).default .budget fun d hfound (n : Int) hmeans ↦ ?_
    obtain rfl := Option.some_inj.mp ((lookup_budgetEntries .budget 5).symm.trans hfound)
    obtain ⟨heq, hleast, -⟩ := hmeans
    obtain rfl := Datum.int.inj heq
    exact absurd hleast (by decide)
  · exact (hread' result' hload').given .budget (.int 2000) (2000 : Int) rfl
      ⟨rfl, by decide, by decide⟩
  · exact (hread' result' hload').given .ignore (.text "a") ["a"] rfl
      ⟨["a"], .inr ⟨"a", rfl, rfl⟩, by decide⟩
  · rw [(hread result hload).warnings]
    rfl
  · rw [(hread' result' hload').warnings]
    rfl

end Dossier.Settings

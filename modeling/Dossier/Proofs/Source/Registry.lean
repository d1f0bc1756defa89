import Dossier.Proofs.Keyed
import Dossier.Source.Registry
import Mathlib.Data.List.Forall2
import Mathlib.Tactic.SplitIfs

/-!
# Registries without history

A registry remembers what it has answered, and its answers are those of a registry that has not been
asked anything yet. Every grammar is loaded at most once. The reasons it keeps are those of the
grammars that could not be loaded and of the sources that were refused, one for each language, in the
order in which the languages first failed.
-/

namespace Dossier.Registry

/-- Whether the grammar of a language is there once it is asked for. -/
def offers (r : Registry) (language : Language) : Bool :=
  r.allowed.contains language && (r.load language).isOk

/-- The reason that is kept for a language once it is asked for. -/
def failure? (r : Registry) (language : Language) : Option (Language × String) :=
  if r.allowed.contains language then
    match r.load language with
    | .ok () => none
    | .error reason => some (language, reason)
  else none

/-- What is known of a registry that allows and loads as `fresh` does, after some languages were
asked for and some reasons were given in turn. -/
structure Consistent (fresh r : Registry) (asked : List Language)
    (given : List (Language × String)) : Prop where
  allowed : r.allowed = fresh.allowed
  load : r.load = fresh.load
  parser : r.parser = fresh.parser
  known : r.known = asked.eraseDups.map fun language ↦ (language, fresh.offers language)
  loads : r.loads = asked.eraseDups.filter (· ∈ fresh.allowed)
  errors : r.errors = Keyed.ofPairs given
  failing : ∀ language, fresh.offers language = false →
    r.errors.lookup language = if language ∈ asked then (fresh.failure? language).map (·.2) else none

variable {fresh r : Registry} {asked : List Language} {given : List (Language × String)}
  {language : Language}

/-- A language is not allowed, or its grammar can be loaded, or there is a reason why it cannot. -/
theorem offers_cases (fresh : Registry) (language : Language) :
    (language ∉ fresh.allowed ∧ fresh.offers language = false ∧
      fresh.failure? language = none) ∨
    (language ∈ fresh.allowed ∧ fresh.load language = .ok () ∧
      fresh.offers language = true ∧ fresh.failure? language = none) ∨
    ∃ reason, language ∈ fresh.allowed ∧ fresh.load language = .error reason ∧
      fresh.offers language = false ∧ fresh.failure? language = some (language, reason) := by
  rw [offers, failure?, ← List.contains_iff_mem]
  cases hallowed : fresh.allowed.contains language with
  | false => exact .inl ⟨Bool.false_ne_true, rfl, rfl⟩
  | true =>
      right
      cases hload : fresh.load language with
      | ok => exact .inl ⟨rfl, rfl, rfl, rfl⟩
      | error reason => exact .inr ⟨reason, rfl, rfl, rfl, rfl⟩

namespace Consistent

/-- A language that was asked for before is answered from memory. -/
theorem request_of_mem (h : Consistent fresh r asked given) (hasked : language ∈ asked) :
    r.request language = (fresh.offers language, r) := by
  rw [Registry.request, h.known, lookup_map_pair, if_pos (List.mem_eraseDups.mpr hasked)]

/-- A language that was not asked for before is loaded if it is allowed, and remembered. -/
theorem request_of_not_mem (h : Consistent fresh r asked given) (hasked : language ∉ asked) :
    r.request language =
      let (there, r) := if fresh.allowed.contains language then r.fetch language else (false, r)
      (there, { r with known := r.known ++ [(language, there)] }) := by
  rw [Registry.request, h.known, lookup_map_pair, if_neg (mt List.mem_eraseDups.mp hasked),
    h.allowed]

/-- A reason that was given before changes nothing when it is given again. -/
theorem ofPairs_again (h : Consistent fresh r asked given) (hasked : language ∈ asked) :
    Keyed.ofPairs (given ++ (fresh.failure? language).toList) = Keyed.ofPairs given := by
  rcases offers_cases fresh language with ⟨-, -, hnone⟩ | ⟨-, -, -, hnone⟩ |
    ⟨reason, -, -, hoffers, hsome⟩
  · rw [hnone, Option.toList_none, List.append_nil]
  · rw [hnone, Option.toList_none, List.append_nil]
  · have hkept := h.failing language hoffers
    rw [if_pos hasked, hsome, h.errors] at hkept
    rw [hsome, Option.toList_some, Keyed.ofPairs_concat, Keyed.put_eq_self hkept]

/-- One more language counts as asked for, for which nothing new is kept. -/
theorem failing_concat (h : Consistent fresh r asked given)
    (hfailure : fresh.failure? language = none) {other : Language}
    (hother : fresh.offers other = false) : r.errors.lookup other =
      if other ∈ asked ++ [language] then (fresh.failure? other).map (·.2) else none := by
  rw [h.failing other hother]
  by_cases hsame : other = language
  · simp [hsame, hfailure]
  · simp [hsame]

/-- What is known does not change when a language counts as asked for once more. -/
theorem again (h : Consistent fresh r asked given) (hasked : language ∈ asked) :
    Consistent fresh r (asked ++ [language]) (given ++ (fresh.failure? language).toList) := by
  have hreasons := h.ofPairs_again hasked
  obtain ⟨hallowed, hload, hparser, hknown, hloads, herrors, hfailing⟩ := h
  rw [← eraseDups_concat_of_mem hasked] at hknown hloads
  refine ⟨hallowed, hload, hparser, hknown, hloads, herrors.trans hreasons.symm,
    fun other hother ↦ ?_⟩
  have hmem : other ∈ asked ++ [language] ↔ other ∈ asked := by
    rw [List.mem_append, List.mem_singleton]
    exact or_iff_left_of_imp fun heq ↦ heq ▸ hasked
  rw [hfailing other hother]
  simp only [hmem]

/-- What asking for a language answers, and what is known afterwards. -/
theorem request (h : Consistent fresh r asked given) (language : Language) :
    (r.request language).1 = fresh.offers language ∧
      Consistent fresh (r.request language).2 (asked ++ [language])
        (given ++ (fresh.failure? language).toList) := by
  by_cases hasked : language ∈ asked
  · rw [h.request_of_mem hasked]
    exact ⟨rfl, h.again hasked⟩
  · rw [h.request_of_not_mem hasked]
    have hkeys := eraseDups_concat_of_not_mem hasked
    -- Only the last of the three ways leaves a reason.
    rcases offers_cases fresh language with ⟨hnot, hoffers, hfailure⟩ |
      ⟨hallowed, hload, hoffers, hfailure⟩ | ⟨reason, hallowed, hload, hoffers, hfailure⟩
    · rw [if_neg (mt List.contains_iff_mem.mp hnot), hfailure, Option.toList_none, List.append_nil]
      refine ⟨hoffers.symm, h.allowed, h.load, h.parser, ?_, ?_, h.errors,
        fun _ ↦ h.failing_concat hfailure⟩
      · simp [hkeys, h.known, hoffers]
      · simp [hkeys, h.loads, hnot]
    · rw [if_pos (List.contains_iff_mem.mpr hallowed), fetch, h.load, hfailure,
        Option.toList_none, List.append_nil]
      simp only [hload]
      refine ⟨hoffers.symm, h.allowed, rfl, h.parser, ?_, ?_, h.errors,
        fun _ ↦ h.failing_concat hfailure⟩
      · simp [hkeys, h.known, hoffers]
      · simp [hkeys, h.loads, hallowed]
    · rw [if_pos (List.contains_iff_mem.mpr hallowed), fetch, h.load, hfailure,
        Option.toList_some]
      simp only [hload]
      refine ⟨hoffers.symm, h.allowed, rfl, h.parser, ?_, ?_, ?_, fun other hother ↦ ?_⟩
      · simp [hkeys, h.known, hoffers]
      · simp [hkeys, h.loads, hallowed]
      · rw [h.errors, Keyed.ofPairs_concat]
      · by_cases hsame : other = language
        · rw [hsame, Keyed.lookup_put_self, if_pos (by simp), hfailure]
          rfl
        · rw [Keyed.lookup_put_of_ne hsame, h.failing other hother]
          simp [hsame]

theorem requestAll (h : Consistent fresh r asked given) (languages : List Language) :
    (r.requestAll languages).1 = languages.filter fresh.offers ∧
      Consistent fresh (r.requestAll languages).2 (asked ++ languages)
        (given ++ languages.filterMap fresh.failure?) := by
  induction languages generalizing r asked given with
  | nil => exact ⟨rfl, by simpa [Registry.requestAll] using h⟩
  | cons language rest ih =>
      obtain ⟨hthere, hfirst⟩ := h.request language
      obtain ⟨hmore, hrest⟩ := ih hfirst
      have hgiven : (language :: rest).filterMap fresh.failure? =
          (fresh.failure? language).toList ++ rest.filterMap fresh.failure? := by
        cases hfailure : fresh.failure? language <;> simp [hfailure]
      rw [Registry.requestAll, hgiven, ← List.append_assoc]
      refine ⟨?_, by simpa using hrest⟩
      rw [List.filter_cons, ← hmore, ← hthere]

/-- A source that is refused leaves a reason for a language whose grammar is there. -/
theorem refuse (h : Consistent fresh r asked given) (hoffers : fresh.offers language = true)
    (reason : String) : Consistent fresh { r with errors := Keyed.put language reason r.errors }
      asked (given ++ [(language, reason)]) := by
  refine ⟨h.allowed, h.load, h.parser, h.known, h.loads, ?_, fun other hother ↦ ?_⟩
  · rw [h.errors, Keyed.ofPairs_concat]
  · have hne : other ≠ language := by
      rintro rfl
      exact absurd (hoffers.symm.trans hother) (by decide)
    rw [← h.failing other hother]
    exact Keyed.lookup_put_of_ne hne reason r.errors

end Consistent

/-! ## One question -/

/-- The tree of a source in a registry that has not been asked anything. -/
def tree? (fresh : Registry) (language : Language) (source : List Nat) : Option Node :=
  if fresh.offers language then (fresh.treeOf language source).toOption else none

/-- The reason that is kept for a source which is refused although the grammar is there. -/
def refusal? (fresh : Registry) (language : Language) (source : List Nat) :
    Option (Language × String) :=
  if fresh.offers language then
    match fresh.treeOf language source with
    | .ok _ => none
    | .error reason => some (language, reason)
  else none

/-- The reply to a question in a registry that has not been asked anything. -/
def reply (fresh : Registry) : Query → Reply
  | .has none | .parses none _ => .flag false
  | .has (some language) => .flag (fresh.offers language)
  | .parses (some language) source => .flag (fresh.tree? language source).isSome
  | .available => .languages (Language.all.filter fresh.offers)
  | .suffixes => .suffixes (Language.sortedSuffixes (Language.all.filter fresh.offers))
  | .failures => .failures []

/-- The languages that a question asks for, in that order. -/
def Query.languages : Query → List Language
  | .has (some language) | .parses (some language) _ => [language]
  | .available | .suffixes => Language.all
  | .has none | .parses none _ | .failures => []

/-- The reason that a question leaves for a source that is refused. -/
def refusalBy? (fresh : Registry) : Query → Option (Language × String)
  | .parses (some language) source => fresh.refusal? language source
  | .parses none _ | .has _ | .available | .suffixes | .failures => none

/-- The reasons that a question leaves: for the grammars that cannot be loaded, and for a source that
is refused. -/
def reasonsBy (fresh : Registry) (q : Query) : List (Language × String) :=
  q.languages.filterMap fresh.failure? ++ (fresh.refusalBy? q).toList

theorem Consistent.parse (h : Consistent fresh r asked given) (language : Language)
    (source : List Nat) : (r.parse language source).1 = fresh.tree? language source ∧
      Consistent fresh (r.parse language source).2 (asked ++ [language])
        (given ++ ((fresh.failure? language).toList ++ (fresh.refusal? language source).toList)) := by
  obtain ⟨hthere, hknown⟩ := h.request language
  rw [Registry.parse, tree?, refusal?, ← List.append_assoc]
  simp only [hthere]
  cases hoffers : fresh.offers language with
  | false => exact ⟨rfl, by simpa using hknown⟩
  | true =>
      have htree : (r.request language).2.treeOf language source = fresh.treeOf language source := by
        rw [treeOf, treeOf, hknown.parser]
      rw [if_pos rfl, if_pos rfl, if_pos rfl, htree]
      cases fresh.treeOf language source with
      | ok tree => exact ⟨rfl, by simpa using hknown⟩
      | error reason => exact ⟨rfl, hknown.refuse hoffers reason⟩

/-- What a question is replied, and what is known afterwards. -/
theorem Consistent.answer (h : Consistent fresh r asked given) (q : Query) :
    (q ≠ .failures → (r.answer q).1 = fresh.reply q) ∧
      Consistent fresh (r.answer q).2 (asked ++ q.languages) (given ++ fresh.reasonsBy q) := by
  have hsame : Consistent fresh r (asked ++ []) (given ++ []) := by simpa using h
  have hone (language : Language) :
      [language].filterMap fresh.failure? = (fresh.failure? language).toList := by
    cases hfailure : fresh.failure? language <;> simp [hfailure]
  cases q with
  | has language? =>
      cases language? with
      | none => exact ⟨fun _ ↦ rfl, hsame⟩
      | some language =>
          obtain ⟨hthere, hknown⟩ := h.request language
          rw [Registry.answer, reply, reasonsBy, Query.languages, hone, refusalBy?,
            Option.toList_none, List.append_nil, ← hthere]
          exact ⟨fun _ ↦ rfl, hknown⟩
  | parses language? source =>
      cases language? with
      | none => exact ⟨fun _ ↦ rfl, hsame⟩
      | some language =>
          obtain ⟨htree, hknown⟩ := h.parse language source
          rw [Registry.answer, reply, reasonsBy, Query.languages, hone, ← htree]
          exact ⟨fun _ ↦ rfl, hknown⟩
  | available =>
      have hall := h.requestAll Language.all
      rw [Registry.answer, reply, reasonsBy, refusalBy?, Option.toList_none, List.append_nil]
      -- Asking for all languages is not to be computed.
      generalize r.requestAll Language.all = step at hall ⊢
      exact ⟨fun _ ↦ by rw [← hall.1], hall.2⟩
  | suffixes =>
      have hall := h.requestAll Language.all
      rw [Registry.answer, reply, reasonsBy, refusalBy?, Option.toList_none, List.append_nil]
      generalize r.requestAll Language.all = step at hall ⊢
      exact ⟨fun _ ↦ by rw [← hall.1], hall.2⟩
  | failures => exact ⟨fun hne ↦ absurd rfl hne, hsame⟩

/-! ## Any number of questions -/

/-- A registry after some questions. -/
def after (r : Registry) (qs : List Query) : Registry :=
  qs.foldl (fun r q ↦ (r.answer q).2) r

theorem Consistent.after (h : Consistent fresh r asked given) (qs : List Query) :
    List.Forall₂ (fun q reply ↦ q ≠ .failures → reply = fresh.reply q) qs (r.answers qs) ∧
      Consistent fresh (r.after qs) (asked ++ qs.flatMap Query.languages)
        (given ++ qs.flatMap fresh.reasonsBy) := by
  induction qs generalizing r asked given with
  | nil => exact ⟨.nil, by simpa [Registry.after] using h⟩
  | cons q qs ih =>
      obtain ⟨hreply, hknown⟩ := h.answer q
      obtain ⟨hreplies, hlast⟩ := ih hknown
      rw [answers]
      refine ⟨.cons hreply hreplies, ?_⟩
      rw [List.flatMap_cons, List.flatMap_cons, ← List.append_assoc, ← List.append_assoc]
      exact hlast

theorem consistent_fresh (allowed : List Language) (load : Language → Except String Unit)
    (parser : Language → String → Except String Node) :
    Consistent { allowed, load, parser } { allowed, load, parser } [] [] :=
  ⟨rfl, rfl, rfl, rfl, rfl, rfl, fun _ _ ↦ rfl⟩

theorem failure?_eq_some {entry : Language × String} : fresh.failure? language = some entry ↔
    language ∈ fresh.allowed ∧
      ∃ reason, fresh.load language = .error reason ∧ (language, reason) = entry := by
  rw [failure?, ← List.contains_iff_mem]
  cases fresh.allowed.contains language <;> cases fresh.load language <;> simp

theorem refusal?_eq_some {source : List Nat} {entry : Language × String} :
    fresh.refusal? language source = some entry ↔ fresh.offers language = true ∧
      ∃ reason, fresh.treeOf language source = .error reason ∧ (language, reason) = entry := by
  rw [refusal?]
  cases fresh.offers language <;> cases fresh.treeOf language source <;> simp

theorem refusalBy?_eq_some {q : Query} {entry : Language × String} :
    fresh.refusalBy? q = some entry ↔ ∃ asked source, q = .parses (some asked) source ∧
      fresh.refusal? asked source = some entry := by
  cases q with
  | parses language? source => cases language? <;> simp [refusalBy?]
  | _ => simp [refusalBy?]

/-- The languages that a question leaves reasons for. -/
theorem mem_reasonsBy {q : Query} :
    language ∈ (fresh.reasonsBy q).map (·.1) ↔
      language ∈ fresh.allowed ∧ language ∈ q.languages ∧
        (fresh.load language ≠ .ok () ∨ ∃ source, q = .parses (some language) source ∧
          ∀ tree, fresh.treeOf language source ≠ .ok tree) := by
  have herror {α : Type} {x : Except String α} : (∀ a, x ≠ .ok a) ↔ ∃ reason, x = .error reason := by
    cases x <;> simp
  have hload : fresh.load language ≠ .ok () ↔ ∃ reason, fresh.load language = .error reason := by
    rw [← herror]
    exact ⟨fun h _ ↦ h, fun h ↦ h ()⟩
  rw [reasonsBy, List.map_append, List.mem_append, hload]
  simp only [herror, List.mem_map, List.mem_filterMap, Option.mem_toList, failure?_eq_some,
    refusalBy?_eq_some, refusal?_eq_some]
  constructor
  · rintro (⟨_, ⟨asked, hasked, hallowed, reason, hreason, rfl⟩, rfl⟩ |
      ⟨_, ⟨asked, source, rfl, hoffers, reason, hreason, rfl⟩, rfl⟩)
    · exact ⟨hallowed, hasked, .inl ⟨reason, hreason⟩⟩
    · rw [offers, Bool.and_eq_true, List.contains_iff_mem] at hoffers
      exact ⟨hoffers.1, List.mem_singleton_self _, .inr ⟨source, rfl, reason, hreason⟩⟩
  · rintro ⟨hallowed, hasked, ⟨reason, hreason⟩ | ⟨source, rfl, reason, hreason⟩⟩
    · exact .inl ⟨_, ⟨language, hasked, hallowed, reason, hreason, rfl⟩, rfl⟩
    · rcases offers_cases fresh language with ⟨hnot, -, -⟩ | ⟨-, -, hoffers, -⟩ |
        ⟨why, -, hfails, -, -⟩
      · exact absurd hallowed hnot
      · exact .inr ⟨_, ⟨language, source, rfl, hoffers, reason, hreason, rfl⟩, rfl⟩
      · exact .inl ⟨_, ⟨language, hasked, hallowed, why, hfails, rfl⟩, rfl⟩

/-- Whatever a registry was asked before, it replies and parses as one that was not asked anything.
It has loaded each language at most once, namely those that are allowed and were asked for. The
reasons it keeps are those that the questions leave one by one, the last one for each language in the
place of the first. They are about the allowed languages asked for so far that cannot be loaded and
those whose grammars have refused a source. -/
theorem answers_without_history (allowed : List Language) (load : Language → Except String Unit)
    (parser : Language → String → Except String Node) (qs : List Query) :
    let fresh : Registry := { allowed, load, parser }
    List.Forall₂ (fun q reply ↦ q ≠ .failures → reply = (fresh.answer q).1) qs (fresh.answers qs) ∧
    (∀ language source,
      ((fresh.after qs).parse language source).1 = (fresh.parse language source).1) ∧
    (fresh.after qs).loads.Nodup ∧
    (∀ language, language ∈ (fresh.after qs).loads ↔
      language ∈ allowed ∧ ∃ q ∈ qs, language ∈ q.languages) ∧
    (fresh.after qs).errors = Keyed.ofPairs (qs.flatMap fresh.reasonsBy) ∧
    (∀ language, language ∈ (fresh.after qs).errors.map (·.1) ↔
      language ∈ allowed ∧ ∃ q ∈ qs, language ∈ q.languages ∧
        (load language ≠ .ok () ∨ ∃ source, q = .parses (some language) source ∧
          ∀ tree, fresh.treeOf language source ≠ .ok tree)) := by
  intro fresh
  have hfresh : Consistent fresh fresh [] [] := consistent_fresh allowed load parser
  obtain ⟨hreplies, hafter⟩ := hfresh.after qs
  rw [List.nil_append, List.nil_append] at hafter
  refine ⟨?replies, ?trees, ?once, ?loaded, hafter.errors, ?failed⟩
  case replies =>
    refine hreplies.imp fun q reply hreply hne ↦ ?_
    rw [hreply hne, (hfresh.answer q).1 hne]
  case trees =>
    intro language source
    rw [(hafter.parse language source).1, (hfresh.parse language source).1]
  case once =>
    rw [hafter.loads]
    exact (nodup_eraseDups _).filter _
  case loaded =>
    intro language
    simp [hafter.loads, List.mem_eraseDups, fresh, and_comm]
  case failed =>
    intro language
    rw [hafter.errors, Keyed.map_fst_ofPairs, List.mem_eraseDups, List.map_flatMap,
      List.mem_flatMap]
    simp only [mem_reasonsBy, fresh]
    constructor
    · rintro ⟨q, hq, hallowed, hasked, hfailed⟩
      exact ⟨hallowed, q, hq, hasked, hfailed⟩
    · rintro ⟨hallowed, q, hq, hasked, hfailed⟩
      exact ⟨q, hq, hallowed, hasked, hfailed⟩

/-- A source with a code that is no character leaves a reason for a language whose grammar can be
loaded. -/
theorem unencodable_source_is_kept :
    let fresh : Registry := { load := fun _ ↦ .ok () }
    let qs : List Query := [.parses (some .python) [0xD800]]
    (qs.flatMap Query.languages).eraseDups.filterMap fresh.failure? = [] ∧
      (fresh.after qs).errors = [(.python, "UnicodeEncodeError: 'utf-8' codec can't encode " ++
        "character '\\ud800' in position 0: surrogates not allowed")] := by
  decide +kernel

end Dossier.Registry

import Dossier.Outline.LineRules
import Dossier.Proofs.Text.Pattern

/-!
# Where the rules for lines look for a name

Before the name of a declaration stand words that may come first, the word that declares, and gaps between
them. A gap begins and ends with something else than a word character, so each of the words is whole. Only
the word `function` need not have a gap behind it, and a constant has no word before it at all.
-/

namespace Dossier.Outline.LineRules

open Text (Pattern isBlank isWord)
open Text.Pattern (Reading Reads Takes)

/-! ## The words of a language -/

/-- Words that may stand before the word that declares. -/
def modifierWords : Language → List String
  | .typescript | .tsx | .javascript =>
    ["export", "default", "declare", "async", "abstract", "const"]
  | .python => ["async"]
  | .rust => ["pub", "async", "unsafe"]
  | .java => ["public", "protected", "private", "abstract", "final", "static", "sealed"]
  | .csharp => ["public", "internal", "protected", "private", "abstract", "sealed", "static",
      "partial"]
  | .php => ["abstract", "final", "readonly"]
  | .go | .ruby => []

/-- Words that declare something, with the kind of what they declare. -/
def declaringWords : Language → List (Kind × String)
  | .typescript | .tsx | .javascript =>
    [(.function, "function"), (.cls, "class"), (.interface, "interface"), (.type, "type"),
      (.enum, "enum"), (.const, "const"), (.const, "let"), (.const, "var")]
  | .python => [(.function, "def"), (.cls, "class")]
  | .go => [(.function, "func"), (.cls, "type"), (.interface, "type"), (.type, "type")]
  | .rust =>
    [(.function, "fn"), (.cls, "struct"), (.enum, "enum"), (.interface, "trait"), (.type, "type"),
      (.const, "const"), (.const, "static")]
  | .java => [(.cls, "class"), (.cls, "record"), (.interface, "interface"), (.enum, "enum")]
  | .csharp =>
    [(.cls, "class"), (.cls, "struct"), (.cls, "record"), (.interface, "interface"), (.enum, "enum")]
  | .ruby => [(.function, "def"), (.cls, "class"), (.cls, "module")]
  | .php =>
    [(.function, "function"), (.cls, "class"), (.cls, "trait"), (.interface, "interface"),
      (.enum, "enum")]

/-- Words with which a declaration may begin. -/
def leadingWords (language : Language) : List String :=
  modifierWords language ++ (declaringWords language).map (·.2)

variable {language : Language} {kind : Kind} {w : String} {ws : List String}
  {text a b lead before after : List Char}

/-! ## Gaps -/

/-- Texts that part the words on both sides of them. -/
structure Apart (text : List Char) : Prop where
  begins : ∃ c ∈ text.head?, isWord c = false
  ends : ∃ c ∈ text.getLast?, isWord c = false

/-- Texts that part the words on both sides of them, or nothing. -/
def Loose (text : List Char) : Prop :=
  text = [] ∨ Apart text

theorem apart_of_forall (hne : text ≠ []) (h : ∀ c ∈ text, isWord c = false) : Apart text :=
  ⟨⟨text.head hne, List.head?_eq_some_head hne, h _ (List.head_mem hne)⟩,
    ⟨text.getLast hne, List.getLast?_eq_some_getLast hne, h _ (List.getLast_mem hne)⟩⟩

theorem apart_singleton {c : Char} (hc : isWord c = false) : Apart [c] :=
  ⟨⟨c, rfl, hc⟩, ⟨c, rfl, hc⟩⟩

theorem loose_of_forall (h : ∀ c ∈ text, isWord c = false) : Loose text :=
  (eq_or_ne text []).imp_right fun hne ↦ apart_of_forall hne h

theorem Apart.enclose (ha : Apart a) (hb : Apart b) (text : List Char) : Apart (a ++ (text ++ b)) := by
  obtain ⟨c, hc, hbegins⟩ := ha.begins
  obtain ⟨d, hd, hends⟩ := hb.ends
  refine ⟨⟨c, ?_, hbegins⟩, ⟨d, ?_, hends⟩⟩
  · rw [List.head?_append, Option.mem_def.mp hc]
    rfl
  · rw [List.getLast?_append, List.getLast?_append, Option.mem_def.mp hd]
    rfl

theorem Apart.append (ha : Apart a) (hb : Loose b) : Apart (a ++ b) := by
  rcases hb with rfl | hb
  · rwa [List.append_nil]
  · exact ha.enclose hb []

theorem Loose.append_apart (ha : Loose a) (hb : Apart b) : Apart (a ++ b) := by
  rcases ha with rfl | ha
  · exact hb
  · exact ha.append (.inr hb)

theorem Loose.append (ha : Loose a) (hb : Loose b) : Loose (a ++ b) := by
  rcases ha with rfl | ha
  · exact hb
  · exact .inr (ha.append hb)

theorem toNat_of_isAlphanum {c : Char} (h : c.isAlphanum = true) : 48 ≤ c.toNat ∧ c.toNat ≤ 122 := by
  rcases Bool.or_eq_true_iff.mp h with halpha | hdigit
  · rcases Bool.or_eq_true_iff.mp halpha with hupper | hlower
    · have hbounds : 65 ≤ c.toNat ∧ c.toNat ≤ 90 := of_decide_eq_true hupper
      omega
    · obtain ⟨hlo, hhi⟩ := Bool.and_eq_true_iff.mp hlower
      have hlo : 97 ≤ c.toNat := of_decide_eq_true hlo
      have hhi : c.toNat ≤ 122 := of_decide_eq_true hhi
      omega
  · obtain ⟨hlo, hhi⟩ := Bool.and_eq_true_iff.mp hdigit
    have hlo : 48 ≤ c.toNat := of_decide_eq_true hlo
    have hhi : c.toNat ≤ 57 := of_decide_eq_true hhi
    omega

theorem isWord_eq_false_of_isBlank {c : Char} (h : isBlank c = true) : isWord c = false := by
  -- No range of word characters has a blank in it.
  have hranges : ∀ r ∈ Text.wordRanges.toList, 0xA0 < r.1 ∧ (r.2 < 0x1680 ∨ 0x1680 < r.1 ∧
      (r.2 < 0x2000 ∨ 0x205F < r.1 ∧ (r.2 < 0x3000 ∨ 0x3000 < r.1))) := by decide +kernel
  have hunder : (c == '_') = false := by
    rw [beq_eq_false_iff_ne]
    rintro rfl
    exact absurd h (by decide)
  simp only [isBlank, Bool.or_eq_true, Bool.and_eq_true, decide_eq_true_eq, beq_iff_eq] at h
  have hascii : c.isAlphanum = false := by
    rw [← Bool.not_eq_true]
    intro halphanum
    have hbounds := toNat_of_isAlphanum halphanum
    omega
  have hword : (Text.wordRanges.toList.any fun r ↦ r.1 ≤ c.toNat && c.toNat ≤ r.2) = false := by
    rw [List.any_eq_false]
    intro r hr
    have := hranges r hr
    simp only [Bool.and_eq_true, decide_eq_true_eq]
    omega
  rw [isWord, hascii, hunder, ← Array.any_toList, hword, Bool.and_false]
  rfl

theorem takes_blanks : Pattern.blanks.Takes Apart :=
  Pattern.takes_run fun _ hleast htext ↦ apart_of_forall (List.ne_nil_of_length_pos hleast)
    fun c hc ↦ isWord_eq_false_of_isBlank (htext c hc)

theorem takes_gap : Pattern.gap.Takes Loose :=
  Pattern.takes_run fun _ _ htext ↦ loose_of_forall fun c hc ↦
    isWord_eq_false_of_isBlank (htext c hc)

theorem takes_bracketed (tail : List Pattern) (htail : (Pattern.all tail).Takes Loose) :
    (Pattern.all (.lit "(" :: .run 0 (· != ')') :: .lit ")" :: tail)).Takes Apart := by
  have hmark (w : String) (hw : Apart w.toList) : (Pattern.lit w).Takes Apart :=
    (Pattern.takes_lit w).mono fun text htext ↦ htext ▸ hw
  have hopen : Apart "(".toList := apart_singleton (by decide)
  have hclose : Apart ")".toList := apart_singleton (by decide)
  have hinside : (Pattern.run 0 (· != ')')).Takes fun _ ↦ True :=
    Pattern.takes_run fun _ _ _ ↦ trivial
  have hend := (hmark ")" hclose).seq htail fun _ _ ↦ Apart.append
  have hrest : (Pattern.all (.run 0 (· != ')') :: .lit ")" :: tail)).Takes
      fun text ↦ ∃ x y, text = x ++ y ∧ Apart y :=
    hinside.seq hend fun x y _ hy ↦ ⟨x, y, rfl, hy⟩
  exact (hmark "(" hopen).seq hrest fun x _ hx ⟨_, _, htext, hy⟩ ↦ htext ▸ hx.enclose hy _

/-! ## Phrases -/

/-- One of the words and a gap. -/
def IsPhrase (ws : List String) (text : List Char) : Prop :=
  ∃ w ∈ ws, ∃ gap, Apart gap ∧ text = w.toList ++ gap

/-- Some of the words, a gap behind each. -/
inductive IsLead (ws : List String) : List Char → Prop where
  | nil : IsLead ws []
  | cons {first rest : List Char} (hfirst : IsPhrase ws first) (hrest : IsLead ws rest) :
      IsLead ws (first ++ rest)

theorem IsPhrase.append (h : IsPhrase ws a) (hb : Loose b) : IsPhrase ws (a ++ b) := by
  obtain ⟨w, hw, gap, hgap, rfl⟩ := h
  exact ⟨w, hw, gap ++ b, hgap.append hb, List.append_assoc ..⟩

theorem IsPhrase.isLead {ms : List String} (h : IsPhrase ms text) (hms : ms ⊆ ws) : IsLead ws text := by
  obtain ⟨w, hw, hphrase⟩ := h
  simpa using IsLead.cons ⟨w, hms hw, hphrase⟩ .nil

theorem IsLead.append (ha : IsLead ws a) (hb : IsLead ws b) : IsLead ws (a ++ b) := by
  induction ha with
  | nil => exact hb
  | cons hfirst _ ih =>
      rw [List.append_assoc]
      exact .cons hfirst ih

theorem takes_phrase {p : Pattern} (hp : p.Takes Apart) (ws : List String) :
    ((Pattern.anyOf ws).seq p).Takes (IsPhrase ws) :=
  (Pattern.takes_anyOf ws).seq hp fun _ gap ⟨w, hw, hx⟩ hgap ↦ ⟨w, hw, gap, hgap, hx ▸ rfl⟩

theorem takes_spaced (w : String) : (spaced w).Takes (IsPhrase [w]) :=
  takes_phrase takes_blanks [w]

theorem takes_maybe (hw : w ∈ ws) : (maybe w).Takes (IsLead ws) :=
  ((takes_spaced w).mono fun _ hphrase ↦ hphrase.isLead (by simpa)).opt .nil

theorem takes_exportWord (hw : "export" ∈ ws) : exportWord.Takes (IsLead ws) :=
  ((takes_spaced "export").mono fun _ hphrase ↦ hphrase.isLead (by simpa)).group

theorem takes_opt_exportWord (hw : "export" ∈ ws) : (Pattern.opt exportWord).Takes (IsLead ws) :=
  (takes_exportWord hw).opt .nil

theorem takes_modifiers {ms : List String} (hms : ms ⊆ ws) : (modifiers ms).Takes (IsLead ws) :=
  (takes_phrase takes_blanks ms).many .nil fun _ _ ⟨m, hm, hx⟩ hy ↦ .cons ⟨m, hms hm, hx⟩ hy

theorem takes_rustVisibility (hw : "pub" ∈ ws) : rustVisibility.Takes (IsLead ws) := by
  have hscope : (Pattern.opt (.all [.lit "(", .run 0 (· != ')'), .lit ")"])).Takes Loose :=
    ((takes_bracketed [] (Pattern.takes_empty (.inl rfl))).mono fun _ ↦ .inr).opt (.inl rfl)
  have hgap := hscope.seq takes_blanks.all_singleton fun _ _ ↦ Loose.append_apart
  exact ((takes_phrase hgap ["pub"]).mono fun _ hphrase ↦ hphrase.isLead (by simpa)).opt .nil

theorem takes_lead {front : List Pattern} (h : ∀ p ∈ front, p.Takes (IsLead ws)) :
    (Pattern.all front).Takes (IsLead ws) := by
  induction front with
  | nil => exact Pattern.takes_empty .nil
  | cons p front ih =>
      obtain ⟨hp, hfront⟩ := List.forall_mem_cons.mp h
      exact hp.seq (ih hfront) fun _ _ ↦ IsLead.append

/-! ## Places -/

/-- The word that declares, and a gap. Only the word `function` may do without. -/
inductive IsDeclaring (language : Language) (kind : Kind) : List Char → Prop where
  | parted {word : String} {gap : List Char} (hword : (kind, word) ∈ declaringWords language)
      (hgap : Apart gap) : IsDeclaring language kind (word.toList ++ gap)
  | attached (hexports : language.hasExports = true) (hkind : kind = .function) :
      IsDeclaring language kind "function".toList

/-- What a line that declares something of a kind has before and behind the place where its name begins. -/
inductive IsNamePlace (language : Language) (kind : Kind) : List Char → List Char → Prop where
  | declared {lead word after : List Char} (hlead : IsLead (modifierWords language) lead)
      (hword : IsDeclaring language kind word) : IsNamePlace language kind (lead ++ word) after
  | constant {c : Char} {after : List Char} (hlanguage : language = .python) (hkind : kind = .const)
      (hc : c.isUpper = true) : IsNamePlace language kind [] (c :: after)

/-- Every reading of a rule finds the place of a name, and if it has a name, it is there. -/
def Rule.Places (language : Language) (rule : Rule) : Prop :=
  ∀ ⦃line t⦄, Reads rule.pattern (.start line) t →
    ∃ before after, line = before ++ after ∧ IsNamePlace language rule.kind before after ∧
      ∀ front name, t.capture? 2 = some (front, name) → front = before ∧ name <+: after

/-- Patterns that have a group 2 at their beginning or none. -/
def Names (p : Pattern) : Prop :=
  ∀ ⦃s t⦄, Reads p s t → t.capture? 2 = s.capture? 2 ∨ ∃ name, t.capture? 2 = some (s.taken, name)

theorem Names.eq_taken {p : Pattern} {s t : Reading} {front name : List Char} (h : Names p)
    (hreads : Reads p s t) (hs : s.capture? 2 = none) (hcapture : t.capture? 2 = some (front, name)) :
    front = s.taken := by
  rcases h hreads with hsame | ⟨name', hname⟩
  · rw [hsame, hs] at hcapture
    cases hcapture
  · rw [hname] at hcapture
    exact (congrArg Prod.fst (Option.some_inj.mp hcapture)).symm

theorem names_group (a : Pattern) (tail : List Pattern) (htail : (Pattern.all tail).hasGroup 2 = false) :
    Names (.all (.group 2 a :: tail)) := by
  rintro s t (_ | _ | _ | _ | ⟨hgroup, hrest⟩)
  rw [hrest.capture?_eq htail]
  exact .inr hgroup.capture?_group

theorem names_opt_group (a : Pattern) : Names (.all [.opt (.group 2 a)]) := by
  rintro s t (_ | _ | _ | _ | ⟨hopt, hempty⟩)
  cases hempty
  cases hopt with
  | altLeft hgroup => exact .inr hgroup.capture?_group
  | altRight hnone =>
      cases hnone
      exact .inl rfl

theorem places_of_declaring (front word rest : List Pattern)
    (hfront : (Pattern.all front).Takes (IsLead (modifierWords language)))
    (hword : (Pattern.all word).Takes (IsDeclaring language kind)) (hrest : Names (.all rest))
    (hgroup : (Pattern.all (front ++ word)).hasGroup 2 = false) :
    Rule.Places language ⟨.all (front ++ word ++ rest), kind⟩ := by
  intro line t hreads
  obtain ⟨u, hbefore, hname⟩ := hreads.of_all_append
  obtain ⟨v, hv, hu⟩ := hbefore.of_all_append
  obtain ⟨lead, hlead, hlead'⟩ := hfront hv
  obtain ⟨declaring, hdeclaring, hdeclaring'⟩ := hword hu
  have htaken : u.taken = lead ++ declaring := by simpa [hlead, Reading.start] using hdeclaring
  have hline : line = u.taken ++ u.rest := hbefore.taken_append_rest.symm
  refine ⟨u.taken, u.rest, hline, htaken ▸ .declared hlead' hdeclaring', fun front name hcapture ↦ ?_⟩
  obtain rfl := hrest.eq_taken hname (hbefore.capture?_eq hgroup) hcapture
  have hstarts := hreads.prefix_of_capture? hcapture
  rw [hline, List.prefix_append_right_inj] at hstarts
  exact ⟨rfl, hstarts⟩

theorem IsPhrase.isDeclaring (h : IsPhrase ws text)
    (hws : ∀ w ∈ ws, (kind, w) ∈ declaringWords language) : IsDeclaring language kind text := by
  obtain ⟨w, hw, gap, hgap, rfl⟩ := h
  exact .parted (hws w hw) hgap

theorem places_of_phrase (front word rest : List Pattern) (ws : List String)
    (hfront : ∀ p ∈ front, p.Takes (IsLead (modifierWords language)))
    (hword : (Pattern.all word).Takes (IsPhrase ws))
    (hws : ∀ w ∈ ws, (kind, w) ∈ declaringWords language) (hrest : Names (.all rest))
    (hgroup : (Pattern.all (front ++ word)).hasGroup 2 = false) :
    Rule.Places language ⟨.all (front ++ word ++ rest), kind⟩ :=
  places_of_declaring front word rest (takes_lead hfront)
    (hword.mono fun _ htext ↦ htext.isDeclaring hws) hrest hgroup

theorem places_of_spaced (front : List Pattern) (w : String) (rest : List Pattern)
    (hfront : ∀ p ∈ front, p.Takes (IsLead (modifierWords language)))
    (hw : (kind, w) ∈ declaringWords language) (hrest : Names (.all rest))
    (hgroup : (Pattern.all (front ++ [spaced w])).hasGroup 2 = false) :
    Rule.Places language ⟨.all (front ++ [spaced w] ++ rest), kind⟩ :=
  places_of_phrase front _ rest [w] hfront (takes_spaced w).all_singleton (by simpa) hrest
    hgroup

theorem places_of_anyOf (front : List Pattern) (ws : List String) (rest : List Pattern)
    (hfront : ∀ p ∈ front, p.Takes (IsLead (modifierWords language)))
    (hws : ∀ w ∈ ws, (kind, w) ∈ declaringWords language) (hrest : Names (.all rest))
    (hgroup : (Pattern.all (front ++ [.anyOf ws, .blanks])).hasGroup 2 = false) :
    Rule.Places language ⟨.all (front ++ [.anyOf ws, .blanks] ++ rest), kind⟩ :=
  places_of_phrase front _ rest ws hfront (takes_phrase takes_blanks.all_singleton ws) hws hrest hgroup

/-! ## The rules of each language -/

theorem takes_declaring_function (hexports : language.hasExports = true)
    (hword : (.function, "function") ∈ declaringWords language) :
    (Pattern.all [.lit "function", .gap, .opt (.lit "*"), .gap]).Takes
      (IsDeclaring language .function) := by
  have hstar : (Pattern.opt (.lit "*")).Takes Loose :=
    ((Pattern.takes_lit "*").mono fun _ htext ↦ htext ▸ .inr (apart_singleton (by decide))).opt
      (.inl rfl)
  have hgap : (Pattern.all [.gap, .opt (.lit "*"), .gap]).Takes Loose :=
    takes_gap.seq (hstar.seq takes_gap.all_singleton fun _ _ ↦ Loose.append) fun _ _ ↦ Loose.append
  refine (Pattern.takes_lit "function").seq hgap fun x gap hx hloose ↦ ?_
  subst hx
  rcases hloose with rfl | hapart
  · rw [List.append_nil]
    exact .attached hexports rfl
  · exact .parted hword hapart

theorem takes_func : (Pattern.all [spaced "func",
    .opt (.all [.lit "(", .run 0 (· != ')'), .lit ")", .gap])]).Takes (IsPhrase ["func"]) := by
  have hreceiver : (Pattern.opt (.all [.lit "(", .run 0 (· != ')'), .lit ")", .gap])).Takes Loose :=
    ((takes_bracketed [.gap] takes_gap.all_singleton).mono fun _ ↦ .inr).opt (.inl rfl)
  exact (takes_spaced "func").seq hreceiver.all_singleton fun _ _ ↦ IsPhrase.append

theorem places_typescript : ∀ rule ∈ rulesOf .typescript, rule.Places .typescript := by
  simp only [rulesOf, scriptRules, List.forall_mem_cons, List.not_mem_nil, false_implies,
    implies_true, and_true]
  refine ⟨?_, ?_, ?_, ?_, ?_, ?_⟩
  · exact places_of_declaring [.opt exportWord, maybe "default", maybe "declare", maybe "async"]
      [.lit "function", .gap, .opt (.lit "*"), .gap] [.opt name]
      (takes_lead (by simp [takes_opt_exportWord, takes_maybe, modifierWords]))
      (takes_declaring_function rfl (by decide)) (names_opt_group _) rfl
  · exact places_of_spaced [.opt exportWord, maybe "default", maybe "declare", maybe "abstract"] _ _
      (by simp [takes_opt_exportWord, takes_maybe, modifierWords]) (by decide) (names_opt_group _) rfl
  · exact places_of_spaced [.opt exportWord, maybe "declare"] _ _
      (by simp [takes_opt_exportWord, takes_maybe, modifierWords]) (by decide) (names_group _ _ rfl) rfl
  · exact places_of_spaced [.opt exportWord, maybe "declare"] _ _
      (by simp [takes_opt_exportWord, takes_maybe, modifierWords]) (by decide) (names_group _ _ rfl) rfl
  · exact places_of_spaced [.opt exportWord, maybe "declare", maybe "const"] _ _
      (by simp [takes_opt_exportWord, takes_maybe, modifierWords]) (by decide) (names_group _ _ rfl) rfl
  · exact places_of_anyOf [exportWord, maybe "declare"] _ _
      (by simp [takes_exportWord, takes_maybe, modifierWords]) (by decide) (names_group _ _ rfl) rfl

/-- The languages of the family share their words and their rules. -/
theorem IsNamePlace.of_typescript (hexports : language.hasExports = true)
    (h : IsNamePlace .typescript kind before after) : IsNamePlace language kind before after := by
  have hmodifiers : modifierWords language = modifierWords .typescript := by
    cases language <;> first | rfl | cases hexports
  have hdeclaring : declaringWords language = declaringWords .typescript := by
    cases language <;> first | rfl | cases hexports
  cases h with
  | declared hlead hword =>
      refine .declared (hmodifiers ▸ hlead) ?_
      cases hword with
      | parted hword hgap => exact .parted (hdeclaring ▸ hword) hgap
      | attached _ hkind => exact .attached hexports hkind
  | constant hlanguage => cases hlanguage

theorem places_of_constant (tail : List Pattern) (htail : (Pattern.all tail).hasGroup 2 = false) :
    Rule.Places .python ⟨.all (constantName :: tail), .const⟩ := by
  intro line t hreads
  obtain ⟨c, after, rfl, hc⟩ : ∃ c after, line = c :: after ∧ c.isUpper = true := by
    rcases hreads with _ | _ | _ | _ | ⟨hgroup, -⟩
    rcases hgroup with _ | _ | _ | _ | _ | _ | _ | _ | _ | ⟨hconstant, -⟩
    rcases hconstant with _ | _ | _ | _ | ⟨hfirst, -⟩
    unfold Reading.start at hfirst
    cases hfirst with
    | one hc => exact ⟨_, _, rfl, hc⟩
  refine ⟨[], c :: after, rfl, .constant rfl rfl hc, fun front name hcapture ↦ ?_⟩
  obtain rfl : front = [] := (names_group _ tail htail).eq_taken hreads rfl hcapture
  exact ⟨rfl, hreads.prefix_of_capture? hcapture⟩

theorem places_python : ∀ rule ∈ rulesOf .python, rule.Places .python := by
  simp only [rulesOf, List.forall_mem_cons, List.not_mem_nil, false_implies, implies_true, and_true]
  refine ⟨?_, ?_, ?_⟩
  · exact places_of_spaced [maybe "async"] _ _ (by simp [takes_maybe, modifierWords]) (by decide)
      (names_group _ _ rfl) rfl
  · exact places_of_spaced [] _ _ (by simp) (by decide) (names_group _ _ rfl) rfl
  · exact places_of_constant _ rfl

theorem places_go : ∀ rule ∈ rulesOf .go, rule.Places .go := by
  simp only [rulesOf, List.forall_mem_cons, List.not_mem_nil, false_implies, implies_true, and_true]
  refine ⟨?_, ?_, ?_, ?_⟩
  · exact places_of_phrase [] _ [name] ["func"] (by simp) takes_func (by decide)
      (names_group _ _ rfl) rfl
  all_goals exact places_of_spaced [] _ _ (by simp) (by decide) (names_group _ _ rfl) rfl

theorem places_rust : ∀ rule ∈ rulesOf .rust, rule.Places .rust := by
  simp only [rulesOf, List.forall_mem_cons, List.not_mem_nil, false_implies, implies_true, and_true]
  have hvisibility : ∀ p ∈ [rustVisibility], p.Takes (IsLead (modifierWords .rust)) := by
    simp [takes_rustVisibility, modifierWords]
  refine ⟨?_, ?_, ?_, ?_, ?_, ?_⟩
  · exact places_of_spaced [rustVisibility, maybe "async", maybe "unsafe"] _ _
      (by simp [takes_rustVisibility, takes_maybe, modifierWords]) (by decide) (names_group _ _ rfl) rfl
  · exact places_of_spaced [rustVisibility] _ _ hvisibility (by decide) (names_group _ _ rfl) rfl
  · exact places_of_spaced [rustVisibility] _ _ hvisibility (by decide) (names_group _ _ rfl) rfl
  · exact places_of_spaced [rustVisibility] _ _ hvisibility (by decide) (names_group _ _ rfl) rfl
  · exact places_of_spaced [rustVisibility] _ _ hvisibility (by decide) (names_group _ _ rfl) rfl
  · exact places_of_anyOf [rustVisibility] _ _ hvisibility (by decide) (names_group _ _ rfl) rfl

theorem places_java : ∀ rule ∈ rulesOf .java, rule.Places .java := by
  simp only [rulesOf, List.forall_mem_cons, List.not_mem_nil, false_implies, implies_true, and_true]
  refine ⟨?_, ?_, ?_⟩
  · exact places_of_anyOf [modifiers _] _ _ (by simp [takes_modifiers, modifierWords]) (by decide)
      (names_group _ _ rfl) rfl
  all_goals
    exact places_of_spaced [modifiers _] _ _ (by simp [takes_modifiers, modifierWords]) (by decide)
      (names_group _ _ rfl) rfl

theorem places_csharp : ∀ rule ∈ rulesOf .csharp, rule.Places .csharp := by
  simp only [rulesOf, List.forall_mem_cons, List.not_mem_nil, false_implies, implies_true, and_true]
  refine ⟨?_, ?_, ?_⟩
  · exact places_of_anyOf [modifiers _] _ _ (by simp [takes_modifiers, modifierWords]) (by decide)
      (names_group _ _ rfl) rfl
  all_goals
    exact places_of_spaced [modifiers _] _ _ (by simp [takes_modifiers, modifierWords]) (by decide)
      (names_group _ _ rfl) rfl

theorem places_ruby : ∀ rule ∈ rulesOf .ruby, rule.Places .ruby := by
  simp only [rulesOf, List.forall_mem_cons, List.not_mem_nil, false_implies, implies_true, and_true]
  refine ⟨?_, ?_⟩
  · exact places_of_spaced [] _ _ (by simp) (by decide) (names_group _ _ rfl) rfl
  · exact places_of_anyOf [] _ _ (by simp) (by decide) (names_group _ _ rfl) rfl

theorem places_php : ∀ rule ∈ rulesOf .php, rule.Places .php := by
  simp only [rulesOf, List.forall_mem_cons, List.not_mem_nil, false_implies, implies_true, and_true]
  refine ⟨?_, ?_, ?_, ?_⟩
  · exact places_of_spaced [] _ _ (by simp) (by decide) (names_group _ _ rfl) rfl
  · exact places_of_anyOf [modifiers _] _ _ (by simp [takes_modifiers, modifierWords]) (by decide)
      (names_group _ _ rfl) rfl
  all_goals exact places_of_spaced [] _ _ (by simp) (by decide) (names_group _ _ rfl) rfl

theorem places_of_mem {rule : Rule} (h : rule ∈ rulesOf language) : rule.Places language := by
  have hscript (hexports : language.hasExports = true) (h : rule ∈ rulesOf .typescript) :
      rule.Places language := by
    intro line t hreads
    obtain ⟨before, after, hline, hplace, hname⟩ := places_typescript rule h hreads
    exact ⟨before, after, hline, hplace.of_typescript hexports, hname⟩
  cases language with
  | typescript | tsx | javascript => exact hscript rfl h
  | python => exact places_python rule h
  | go => exact places_go rule h
  | rust => exact places_rust rule h
  | java => exact places_java rule h
  | csharp => exact places_csharp rule h
  | ruby => exact places_ruby rule h
  | php => exact places_php rule h

end Dossier.Outline.LineRules

import Dossier.Text.Pattern
import Mathlib.Data.List.TakeWhile

/-!
# What a pattern reads

A reading keeps all the text that was taken and, for every group, the text before it. Whatever a pattern
matches is a reading of it, so what holds of every reading holds of the preferred match as well. The
readings of a pattern are those of its parts put together, whichever of them is tried first.
-/

namespace Dossier.Text.Pattern

/-! ## Readings -/

/-- How far a text has been read: what was taken, what is left, and for every group its number, the text
before it and its own text. -/
structure Reading where
  taken : List Char
  rest : List Char
  groups : List (Nat × List Char × List Char)

namespace Reading

/-- A text of which nothing has been read. -/
def start (text : List Char) : Reading :=
  ⟨[], text, []⟩

/-- The place up to which a text has been read. -/
def place (s : Reading) : Place :=
  ⟨s.taken.getLast?, s.rest, s.groups.map fun g ↦ (g.1, g.2.2)⟩

/-- The text before the last group with number `n`, and the text of the group. -/
def capture? (s : Reading) (n : Nat) : Option (List Char × List Char) :=
  (s.groups.find? (·.1 == n)).map (·.2)

theorem group?_place (s : Reading) (n : Nat) : s.place.group? n = (s.capture? n).map (·.2) := by
  rw [Place.group?, place, List.find?_map, capture?, Option.map_map, Option.map_map]
  rfl

end Reading

/-- What a pattern may take, from one reading of a text to the next. -/
inductive Reads : Pattern → Reading → Reading → Prop where
  | empty (s : Reading) : Reads .empty s s
  | one {p : Char → Bool} {c : Char} {taken rest groups} (hc : p c = true) :
      Reads (.one p) ⟨taken, c :: rest, groups⟩ ⟨taken ++ [c], rest, groups⟩
  | run {least : Nat} {p : Char → Bool} {text taken rest groups} (hleast : least ≤ text.length)
      (htext : ∀ c ∈ text, p c = true) :
      Reads (.run least p) ⟨taken, text ++ rest, groups⟩ ⟨taken ++ text, rest, groups⟩
  | boundary {s : Reading} (h : s.place.atBoundary = true) : Reads .boundary s s
  | seq {a b : Pattern} {s u t : Reading} (ha : Reads a s u) (hb : Reads b u t) :
      Reads (.seq a b) s t
  | altLeft {a b : Pattern} {s t : Reading} (ha : Reads a s t) : Reads (.alt a b) s t
  | altRight {a b : Pattern} {s t : Reading} (hb : Reads b s t) : Reads (.alt a b) s t
  | manyNil {a : Pattern} (s : Reading) : Reads (.many a) s s
  | manyCons {a : Pattern} {s u t : Reading} (ha : Reads a s u) (hmany : Reads (.many a) u t) :
      Reads (.many a) s t
  | group {n : Nat} {a : Pattern} {s t : Reading} {text : List Char} (ha : Reads a s t)
      (htext : t.taken = s.taken ++ text) :
      Reads (.group n a) s ⟨t.taken, t.rest, (n, s.taken, text) :: t.groups⟩

variable {α : Type} {p a b : Pattern} {s t u : Reading} {k : Place → Option α} {x : α} {n : Nat}

theorem Reads.exists_text (h : Reads p s t) :
    ∃ text, t.taken = s.taken ++ text ∧ s.rest = text ++ t.rest := by
  induction h with
  | empty s | boundary | manyNil s => exact ⟨[], by simp⟩
  | one hc => exact ⟨[_], rfl, rfl⟩
  | run hleast htext => exact ⟨_, rfl, rfl⟩
  | seq _ _ iha ihb | manyCons _ _ iha ihb =>
      obtain ⟨x, hx, hx'⟩ := iha
      obtain ⟨y, hy, hy'⟩ := ihb
      exact ⟨x ++ y, by rw [hy, hx, List.append_assoc], by rw [hx', hy', List.append_assoc]⟩
  | altLeft _ ih | altRight _ ih | group _ _ ih => exact ih

theorem Reads.taken_append_rest (h : Reads p s t) : t.taken ++ t.rest = s.taken ++ s.rest := by
  obtain ⟨text, htaken, hrest⟩ := h.exists_text
  rw [htaken, hrest, List.append_assoc]

/-- Every group stands where the text before it ends. -/
theorem Reads.prefix_of_mem_groups (h : Reads p s t)
    (hs : ∀ g ∈ s.groups, g.2.1 ++ g.2.2 <+: s.taken ++ s.rest) :
    ∀ g ∈ t.groups, g.2.1 ++ g.2.2 <+: t.taken ++ t.rest := by
  induction h with
  | empty | boundary | manyNil => exact hs
  | one | run => simpa using hs
  | seq _ _ iha ihb | manyCons _ _ iha ihb => exact ihb (iha hs)
  | altLeft _ ih | altRight _ ih => exact ih hs
  | group _ htext ih =>
      refine List.forall_mem_cons.mpr ⟨?_, ih hs⟩
      dsimp only
      rw [← htext]
      exact List.prefix_append ..

theorem Reads.prefix_of_capture? {text front name : List Char} (h : Reads p (.start text) t)
    (hcapture : t.capture? n = some (front, name)) : front ++ name <+: text := by
  obtain ⟨g, hg, heq⟩ := Option.map_eq_some_iff.mp hcapture
  have hstarts := h.prefix_of_mem_groups (by simp [Reading.start]) g (List.mem_of_find?_eq_some hg)
  rw [h.taken_append_rest, heq] at hstarts
  exact hstarts

/-! ## Matches are readings -/

theorem exists_of_giveBack {least : Nat} {here : Place} {taken after : List Char}
    (h : giveBack k least here taken taken.length after = some x) :
    ∃ kept given, taken.reverse = kept ++ given ∧ least ≤ kept.length ∧
      k ⟨kept.getLast?.or here.before, given ++ after, here.groups⟩ = some x := by
  induction taken generalizing after with
  | nil =>
      rw [giveBack] at h
      split at h
      next hleast => exact ⟨[], [], rfl, hleast, h⟩
      next => cases h
  | cons c taken ih =>
      rw [giveBack] at h
      split at h
      next hleast =>
        split at h
        next found hfound =>
          refine ⟨(c :: taken).reverse, [], by simp, by simpa using hleast, ?_⟩
          simpa [hfound] using h
        next =>
          obtain ⟨kept, given, hreverse, hkept, hk⟩ := ih h
          exact ⟨kept, given ++ [c], by simp [hreverse], hkept, by simpa using hk⟩
      next => cases h

theorem exists_reads_of_iterate {bound : Nat}
    (hstep : ∀ {k : Place → Option α} {s : Reading} {x : α}, matchThen a k s.place = some x →
      ∃ t, Reads a s t ∧ k t.place = some x)
    (h : iterate (matchThen a) k bound s.place = some x) :
    ∃ t, Reads (.many a) s t ∧ k t.place = some x := by
  induction bound generalizing s with
  | zero => exact ⟨s, .manyNil s, h⟩
  | succ bound ih =>
      rw [iterate] at h
      split at h
      next found hfound =>
        obtain rfl := Option.some_inj.mp h
        obtain ⟨u, hu, hagain⟩ := hstep hfound
        split at hagain
        next =>
          obtain ⟨t, ht, hk⟩ := ih hagain
          exact ⟨t, .manyCons hu ht, hk⟩
        next => cases hagain
      next => exact ⟨s, .manyNil s, h⟩

/-- What goes on behind a match goes on behind a reading. -/
theorem exists_reads_of_matchThen (h : matchThen p k s.place = some x) :
    ∃ t, Reads p s t ∧ k t.place = some x := by
  induction p generalizing k s x with
  | empty => exact ⟨s, .empty s, h⟩
  | one q =>
      rw [matchThen] at h
      obtain ⟨taken, rest, groups⟩ := s
      cases rest with
      | nil => cases h
      | cons c rest =>
          simp only [Reading.place] at h
          split at h
          next hc => exact ⟨⟨taken ++ [c], rest, groups⟩, .one hc, by simpa [Reading.place] using h⟩
          next => cases h
  | run least q =>
      rw [matchThen] at h
      obtain ⟨kept, given, htaken, hkept, hk⟩ := exists_of_giveBack h
      rw [List.reverse_reverse] at htaken
      obtain ⟨taken, rest, groups⟩ := s
      have hsplit : rest = kept ++ (given ++ rest.dropWhile q) := by
        rw [← List.append_assoc, ← htaken]
        exact List.takeWhile_append_dropWhile.symm
      refine ⟨⟨taken ++ kept, given ++ rest.dropWhile q, groups⟩, ?_, ?_⟩
      · have hrun : Reads (.run least q) ⟨taken, kept ++ (given ++ rest.dropWhile q), groups⟩
            ⟨taken ++ kept, given ++ rest.dropWhile q, groups⟩ :=
          .run hkept fun c hc ↦ List.mem_takeWhile_imp (htaken ▸ List.mem_append_left given hc)
        rw [← hsplit] at hrun
        exact hrun
      · simpa [Reading.place] using hk
  | boundary =>
      rw [matchThen] at h
      split at h
      next hboundary => exact ⟨s, .boundary hboundary, h⟩
      next => cases h
  | seq a b iha ihb =>
      rw [matchThen] at h
      obtain ⟨u, hu, hb⟩ := iha h
      obtain ⟨t, ht, hk⟩ := ihb hb
      exact ⟨t, .seq hu ht, hk⟩
  | alt a b iha ihb =>
      rw [matchThen] at h
      split at h
      next found hfound =>
        obtain ⟨t, ht, hk⟩ := iha hfound
        exact ⟨t, .altLeft ht, hk.trans h⟩
      next =>
        obtain ⟨t, ht, hk⟩ := ihb h
        exact ⟨t, .altRight ht, hk⟩
  | many a ih =>
      rw [matchThen] at h
      exact exists_reads_of_iterate ih h
  | group n a ih =>
      rw [matchThen] at h
      obtain ⟨t, ht, hk⟩ := ih h
      obtain ⟨text, htaken, hrest⟩ := ht.exists_text
      refine ⟨⟨t.taken, t.rest, (n, s.taken, text) :: t.groups⟩, .group ht htaken, ?_⟩
      have htext : s.rest.take (s.rest.length - t.rest.length) = text := by
        rw [hrest, List.length_append, Nat.add_sub_cancel, List.take_left]
      rw [← htext]
      exact hk

theorem exists_reads_of_matchAt {text : List Char} {found : Place} (h : matchAt p text = some found) :
    ∃ t, Reads p (.start text) t ∧ t.place = found := by
  obtain ⟨t, ht, hplace⟩ := exists_reads_of_matchThen (s := .start text) h
  exact ⟨t, ht, Option.some_inj.mp hplace⟩

/-! ## Matches that are preferred -/

theorem matchThen_opt_of_eq_some {here : Place} (h : matchThen a k here = some x) :
    matchThen (opt a) k here = some x := by
  rw [opt, matchThen, h]

theorem matchThen_opt_of_eq_none {here : Place} (h : matchThen a k here = none) :
    matchThen (opt a) k here = k here := by
  rw [opt, matchThen, h]
  rfl

/-- The longest run is taken if what comes behind it allows that. -/
theorem matchThen_run {least : Nat} {q : Char → Bool} {here : Place} (text : List Char)
    {rest : List Char} (hhere : here.rest = text ++ rest) (hleast : least ≤ text.length)
    (htext : ∀ c ∈ text, q c = true) (hrest : ∀ c ∈ rest.head?, q c = false)
    (hk : k ⟨text.getLast?.or here.before, rest, here.groups⟩ = some x) :
    matchThen (.run least q) k here = some x := by
  have hnone : rest.takeWhile q = [] ∧ rest.dropWhile q = rest := by
    cases rest with
    | nil => exact ⟨rfl, rfl⟩
    | cons c rest =>
        have hc : ¬ q c = true := by simp [hrest c rfl]
        exact ⟨List.takeWhile_cons_of_neg hc, List.dropWhile_cons_of_neg hc⟩
  have htake : here.rest.takeWhile q = text := by
    rw [hhere, List.takeWhile_append_of_pos htext, hnone.1, List.append_nil]
  have hdrop : here.rest.dropWhile q = rest := by
    rw [hhere, List.dropWhile_append_of_pos htext, hnone.2]
  rw [matchThen, htake, hdrop]
  rcases List.eq_nil_or_concat text with rfl | ⟨front, c, rfl⟩
  · rw [List.reverse_nil, giveBack, if_pos hleast]
    exact hk
  · rw [List.length_reverse, List.concat_eq_append, List.reverse_append, List.reverse_singleton,
      List.singleton_append, giveBack, if_pos (by simpa using hleast)]
    rw [List.concat_eq_append, List.getLast?_concat, Option.some_or] at hk
    rw [hk]

/-! ## Groups -/

/-- Whether some group of a pattern has number `n`. -/
def hasGroup (n : Nat) : Pattern → Bool
  | .seq a b | .alt a b => a.hasGroup n || b.hasGroup n
  | .many a => a.hasGroup n
  | .group m a => m == n || a.hasGroup n
  | _ => false

theorem Reads.capture?_eq (h : Reads p s t) (hn : p.hasGroup n = false) :
    t.capture? n = s.capture? n := by
  induction h with
  | empty | boundary | manyNil | one | run => rfl
  | seq _ _ iha ihb =>
      obtain ⟨ha, hb⟩ := Bool.or_eq_false_iff.mp hn
      rw [ihb hb, iha ha]
  | altLeft _ ih => exact ih (Bool.or_eq_false_iff.mp hn).1
  | altRight _ ih => exact ih (Bool.or_eq_false_iff.mp hn).2
  | manyCons _ _ iha ihmany => rw [ihmany hn, iha hn]
  | group _ _ ih =>
      obtain ⟨hm, ha⟩ := Bool.or_eq_false_iff.mp hn
      rw [← ih ha, Reading.capture?, List.find?_cons_of_neg (by simpa using hm), Reading.capture?]

theorem Reads.capture?_group (h : Reads (.group n a) s t) :
    ∃ text, t.capture? n = some (s.taken, text) := by
  cases h with
  | group => exact ⟨_, by rw [Reading.capture?, List.find?_cons_of_pos (by simp)]; rfl⟩

/-! ## Texts of a pattern -/

/-- Every text that a pattern takes is as asked. -/
def Takes (p : Pattern) (asked : List Char → Prop) : Prop :=
  ∀ ⦃s t⦄, Reads p s t → ∃ text, t.taken = s.taken ++ text ∧ asked text

variable {asked asked' both : List Char → Prop}

theorem Takes.mono (h : a.Takes asked) (himp : ∀ text, asked text → asked' text) : a.Takes asked' := by
  intro s t hreads
  obtain ⟨text, htaken, htext⟩ := h hreads
  exact ⟨text, htaken, himp text htext⟩

theorem takes_empty (h : asked []) : empty.Takes asked := by
  rintro s t ⟨⟩
  exact ⟨[], by simp, h⟩

theorem takes_one {q : Char → Bool} (h : ∀ c, q c = true → asked [c]) : (one q).Takes asked := by
  rintro s t ⟨⟩
  next c _ _ _ hc => exact ⟨[c], rfl, h c hc⟩

theorem takes_run {least : Nat} {q : Char → Bool}
    (h : ∀ text, least ≤ text.length → (∀ c ∈ text, q c = true) → asked text) :
    (run least q).Takes asked := by
  rintro s t ⟨⟩
  next text _ _ _ hleast htext => exact ⟨text, rfl, h text hleast htext⟩

theorem Takes.seq (ha : a.Takes asked) (hb : b.Takes asked')
    (h : ∀ x y, asked x → asked' y → both (x ++ y)) : (a.seq b).Takes both := by
  rintro s t (_ | _ | _ | _ | ⟨hreads, hreads'⟩)
  obtain ⟨x, hx, hasked⟩ := ha hreads
  obtain ⟨y, hy, hasked'⟩ := hb hreads'
  exact ⟨x ++ y, by rw [hy, hx, List.append_assoc], h x y hasked hasked'⟩

theorem Takes.alt (ha : a.Takes asked) (hb : b.Takes asked) : (a.alt b).Takes asked := by
  rintro s t (_ | _ | _ | _ | _ | hreads | hreads)
  · exact ha hreads
  · exact hb hreads

theorem Takes.opt (ha : a.Takes asked) (h : asked []) : (opt a).Takes asked :=
  ha.alt (takes_empty h)

theorem Takes.group (ha : a.Takes asked) : (a.group n).Takes asked := by
  rintro s t (_ | _ | _ | _ | _ | _ | _ | _ | _ | ⟨hreads, -⟩)
  obtain ⟨x, hx, hasked⟩ := ha hreads
  exact ⟨x, hx, hasked⟩

theorem Takes.many (ha : a.Takes asked) (hnil : asked' [])
    (hcons : ∀ x y, asked x → asked' y → asked' (x ++ y)) : (Pattern.many a).Takes asked' := by
  intro s t hreads
  generalize hp : Pattern.many a = p at hreads
  induction hreads with
  | manyNil s => exact ⟨[], by simp, hnil⟩
  | manyCons hfirst _ _ ih =>
      obtain rfl := Pattern.many.inj hp
      obtain ⟨x, hx, hasked⟩ := ha hfirst
      obtain ⟨y, hy, hasked'⟩ := ih rfl
      exact ⟨x ++ y, by rw [hy, hx, List.append_assoc], hcons x y hasked hasked'⟩
  | _ => cases hp

theorem Takes.all_singleton (h : p.Takes asked) : (all [p]).Takes asked := by
  refine h.seq (takes_empty rfl : empty.Takes (· = [])) ?_
  rintro x y hx rfl
  rwa [List.append_nil]

theorem takes_lit (w : String) : (lit w).Takes (· = w.toList) := by
  rw [lit]
  induction w.toList with
  | nil => exact takes_empty rfl
  | cons c cs ih =>
      have hfirst : (one (· == c)).Takes (· = [c]) := takes_one fun d hd ↦ by rw [eq_of_beq hd]
      refine hfirst.seq ih ?_
      rintro x y rfl rfl
      rfl

theorem takes_anyOf (ws : List String) : (anyOf ws).Takes fun text ↦ ∃ w ∈ ws, text = w.toList := by
  induction ws with
  | nil => exact takes_one fun c hc ↦ absurd hc Bool.false_ne_true
  | cons w ws ih =>
      have hfirst : (lit w).Takes fun text ↦ ∃ v ∈ w :: ws, text = v.toList :=
        (takes_lit w).mono fun text htext ↦ ⟨w, List.mem_cons_self, htext⟩
      cases ws with
      | nil => exact hfirst
      | cons w' ws =>
          exact hfirst.alt (ih.mono fun text ⟨v, hv, htext⟩ ↦
            ⟨v, List.mem_cons_of_mem w hv, htext⟩)

theorem Reads.of_all_append {as bs : List Pattern} (h : Reads (all (as ++ bs)) s t) :
    ∃ u, Reads (all as) s u ∧ Reads (all bs) u t := by
  induction as generalizing s with
  | nil => exact ⟨s, .empty s, h⟩
  | cons a as ih =>
      cases h with
      | seq ha hrest =>
          obtain ⟨u, has, hbs⟩ := ih hrest
          exact ⟨u, .seq ha has, hbs⟩

end Dossier.Text.Pattern

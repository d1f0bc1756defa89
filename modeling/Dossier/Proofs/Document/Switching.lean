import Dossier.Proofs.Document.Returns
import Mathlib.Data.List.Forall2

/-!
# Switching between the estimate and the encoding

A tokenizer is switched by calls, each of which answers with the mode in effect. The last answer
alone decides how texts are measured. An encoding is loaded until that succeeds for the first time,
and kept from then on, also while the estimate is in use. So a run that estimates does not depend on
what was switched before it.
-/

namespace Dossier

namespace Budget.Tokenizer

/-- A call that switches: how loading the encoding would end, and whether it is wanted. -/
structure Call where
  load : Except String Measure
  precise : Bool

/-- What a call answers: the mode in effect after it, and its warnings. -/
structure Reply where
  mode : Bool
  warnings : List String
deriving DecidableEq

/-- The tokenizer after a call. -/
def next (t : Tokenizer) (call : Call) : Tokenizer :=
  (t.configure call.load call.precise).1

def reply (t : Tokenizer) (call : Call) : Reply :=
  ⟨(t.next call).precise, (t.configure call.load call.precise).2⟩

/-- The tokenizer after some calls. -/
def after (t : Tokenizer) (calls : List Call) : Tokenizer :=
  calls.foldl next t

def replies (t : Tokenizer) : List Call → List Reply
  | [] => []
  | call :: calls => t.reply call :: (t.next call).replies calls

/-- The measure that counts with an encoding. The empty text has no tokens. -/
def counting (encoding : Measure) : Measure := fun s ↦
  if s = "" then 0 else encoding s

/-- How the loads that were wanted have gone, which of them were attempted and which encoding is
kept: all were attempted and failed, or only those up to the first that succeeded. -/
inductive Loaded :
    List (Except String Measure) → List (Except String Measure) → Option Measure → Prop
  | never {failures : List (Except String Measure)}
      (hfailures : ∀ load ∈ failures, load.isOk = false) : Loaded failures failures none
  | once {failures later : List (Except String Measure)} {encoding : Measure}
      (hfailures : ∀ load ∈ failures, load.isOk = false) :
      Loaded (failures ++ .ok encoding :: later) (failures ++ [.ok encoding]) (some encoding)

/-- The loads that some calls want, whether or not they are attempted. -/
def wanted (calls : List Call) : List (Except String Measure) :=
  (calls.filter (·.precise)).map (·.load)

/-- What a call may answer. It warns only if the encoding is wanted and the estimate is used. -/
inductive Answers : Call → Reply → Prop
  | estimated (load : Except String Measure) : Answers ⟨load, false⟩ ⟨false, []⟩
  | counted (load : Except String Measure) : Answers ⟨load, true⟩ ⟨true, []⟩
  | failed (kind : String) : Answers ⟨.error kind, true⟩ ⟨false, [unavailable kind]⟩

/-- What a tokenizer has kept of the loads that were wanted. -/
structure Kept (loads : List (Except String Measure)) (t : Tokenizer) : Prop where
  loaded : Loaded loads t.attempts t.encoding
  encoded : t.precise = true → ∃ encoding, t.encoding = some encoding

variable {t : Tokenizer} {loads : List (Except String Measure)}

theorem kept_fresh : Kept [] {} :=
  ⟨.never nofun, nofun⟩

/-- What one call answers, and what is kept after it. -/
theorem Kept.next (h : Kept loads t) (call : Call) :
    Answers call (t.reply call) ∧ Kept (loads ++ wanted [call]) (t.next call) := by
  obtain ⟨encoding, mode, attempts⟩ := t
  obtain ⟨load, precise⟩ := call
  have hloaded : Loaded loads attempts encoding := h.loaded
  cases precise with
  | false =>
      have hnone : wanted [⟨load, false⟩] = [] := rfl
      refine ⟨.estimated load, ?_, nofun⟩
      rw [hnone, List.append_nil]
      exact hloaded
  | true =>
      -- With an encoding at hand nothing is loaded, however this load would have ended.
      cases hloaded with
      | once hfailures =>
          refine ⟨.counted load, ?_, fun _ ↦ ⟨_, rfl⟩⟩
          rw [List.append_assoc, List.cons_append]
          exact .once hfailures
      | never hfailures =>
          cases load with
          | ok encoding => exact ⟨.counted _, .once hfailures, fun _ ↦ ⟨_, rfl⟩⟩
          | error kind =>
              refine ⟨.failed kind, .never fun load hload ↦ ?_, nofun⟩
              rcases List.mem_append.mp hload with hload | hload
              · exact hfailures load hload
              · rw [List.mem_singleton.mp hload]
                rfl

theorem Kept.after (h : Kept loads t) (calls : List Call) :
    List.Forall₂ Answers calls (t.replies calls) ∧
      Kept (loads ++ wanted calls) (t.after calls) := by
  induction calls generalizing t loads with
  | nil => exact ⟨.nil, by simpa [wanted, Tokenizer.after] using h⟩
  | cons call calls ih =>
      obtain ⟨hanswer, hkept⟩ := h.next call
      obtain ⟨hanswers, hlast⟩ := ih hkept
      refine ⟨.cons hanswer hanswers, ?_⟩
      rw [List.append_assoc, wanted, wanted, ← List.map_append, ← List.filter_append] at hlast
      exact hlast

/-- The mode in effect is the one that the last call has answered. -/
theorem precise_after (t : Tokenizer) (calls : List Call) :
    (t.after calls).precise = ((t.replies calls).getLast?.map (·.mode)).getD t.precise := by
  induction calls generalizing t with
  | nil => rfl
  | cons call calls ih =>
      rw [after, List.foldl_cons, ← after, ih, replies, List.getLast?_cons]
      cases (t.next call |>.replies calls).getLast? with
      | none => rfl
      | some reply => rfl

theorem measure_of_precise {encoding : Measure} (hprecise : t.precise = true)
    (hencoding : t.encoding = some encoding) : t.measure = counting encoding := by
  funext s
  simp [measure, counting, hprecise, hencoding]

end Budget.Tokenizer

namespace Document

open Budget (Tokenizer)
open Budget.Tokenizer (Answers Call Loaded counting wanted)

/-- A run that estimates answers the same with any tokenizer. -/
theorem fst_compile_of_not_precise {fs : FileSystem} {services : Services} {request : Request}
    (h : request.precise = false) (t t' : Tokenizer) :
    (compile fs services t request).1 = (compile fs services t' request).1 := by
  have hmeasure : (t.configure services.load false).1.measure =
      (t'.configure services.load false).1.measure := by
    rw [Tokenizer.measure_of_not_precise rfl, Tokenizer.measure_of_not_precise rfl]
  rw [fst_compile, fst_compile, h]
  refine bind_congr fun prepared ↦ ?_
  obtain ⟨root, settings, warnings⟩ := prepared
  simp only [build, hmeasure]
  rfl

/-- Texts are counted with the encoding exactly if the last call has answered that they are. The
first encoding that could be loaded is kept and nothing is loaded after it. The calls that warn are
those that want the encoding and answer that texts are estimated. So whatever the tokenizer went
through, a run that estimates answers as with a fresh one. -/
theorem mode_follows_last_call (calls : List Call) :
    let fresh : Tokenizer := {}
    let t := fresh.after calls
    let mode := (fresh.replies calls).getLast?.map (·.mode)
    (mode = some true →
      ∃ encoding, t.encoding = some encoding ∧ t.measure = counting encoding) ∧
    (mode ≠ some true → t.measure = Budget.estimate) ∧
    Loaded (wanted calls) t.attempts t.encoding ∧
    List.Forall₂ Answers calls (fresh.replies calls) ∧
    ∀ (t' : Tokenizer) (fs : FileSystem) (services : Services) (request : Request),
      request.precise = false →
      (compile fs services t' request).1 = (compile fs services fresh request).1 := by
  intro fresh t mode
  obtain ⟨hanswers, hkept⟩ := Budget.Tokenizer.kept_fresh.after calls
  have hmode : t.precise = mode.getD false := fresh.precise_after calls
  refine ⟨fun hlast ↦ ?_, fun hlast ↦ ?_, hkept.loaded, hanswers, ?_⟩
  · have hprecise : t.precise = true := by rw [hmode, hlast, Option.getD_some]
    obtain ⟨encoding, hencoding⟩ := hkept.encoded hprecise
    exact ⟨encoding, hencoding, Tokenizer.measure_of_precise hprecise hencoding⟩
  · refine Tokenizer.measure_of_not_precise ?_
    cases hanswered : mode with
    | none => rw [hmode, hanswered, Option.getD_none]
    | some exact =>
        rw [hanswered] at hlast
        rw [hmode, hanswered, Option.getD_some]
        exact Bool.eq_false_iff.mpr fun h ↦ hlast (congrArg some h)
  · intro t' fs services request hestimate
    exact fst_compile_of_not_precise hestimate t' fresh

/-- An encoding that could be loaded once is used again after the estimate, when it could not be
loaded any more, and does not affect a run that estimates. -/
theorem mode_follows_last_call_bytes :
    let calls : List Call := [⟨.error "RuntimeError", true⟩, ⟨.ok String.utf8ByteSize, true⟩,
      ⟨.error "RuntimeError", false⟩, ⟨.error "RuntimeError", true⟩]
    let t := ({} : Tokenizer).after calls
    t.measure = counting String.utf8ByteSize ∧
    (dryRequest none).precise = false ∧
    (compile (projectWith "run.go" goSource) bareServices t (dryRequest none)).1 =
      (compile (projectWith "run.go" goSource) bareServices {} (dryRequest none)).1 := by
  intro calls t
  obtain ⟨hcounted, -, -, -, hrun⟩ := mode_follows_last_call calls
  obtain ⟨encoding, hencoding, hmeasure⟩ := hcounted rfl
  have hbytes : encoding = String.utf8ByteSize := (Option.some_inj.mp hencoding).symm
  exact ⟨hbytes ▸ hmeasure, rfl, hrun t _ _ _ rfl⟩

end Document

end Dossier

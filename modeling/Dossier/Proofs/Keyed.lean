import Dossier.Keyed
import Mathlib.Data.List.Induction
import Mathlib.Data.List.Perm.Basic

/-!
# Look-ups by key

In a list with distinct keys a look-up finds every pair, so it does not depend on the order of the
pairs. Keys are made distinct by keeping the first of equal ones.
-/

namespace Dossier

variable {κ α : Type} [BEq κ] [LawfulBEq κ] {key : κ} {value : α} {entries entries' : List (κ × α)}

theorem mem_of_lookup_eq_some (h : entries.lookup key = some value) : (key, value) ∈ entries := by
  induction entries with
  | nil => simp at h
  | cons x rest ih =>
      rw [List.lookup_cons] at h
      split at h
      next heq =>
        obtain rfl := eq_of_beq heq
        obtain rfl := Option.some_inj.mp h
        exact List.mem_cons_self
      next => exact List.mem_cons_of_mem x (ih h)

theorem lookup_eq_some_of_mem (hnodup : (entries.map (·.1)).Nodup) (h : (key, value) ∈ entries) :
    entries.lookup key = some value := by
  induction entries with
  | nil => simp at h
  | cons x rest ih =>
      obtain ⟨hnot, hrest⟩ := List.nodup_cons.mp hnodup
      rw [List.lookup_cons]
      rcases List.mem_cons.mp h with rfl | h
      · simp
      · have hne : key ≠ x.1 := by
          rintro rfl
          exact hnot (List.mem_map.mpr ⟨_, h, rfl⟩)
        rw [beq_eq_false_iff_ne.mpr hne]
        exact ih hrest h

theorem lookup_eq_of_perm (hnodup : (entries.map (·.1)).Nodup) (hperm : entries.Perm entries')
    (key : κ) : entries.lookup key = entries'.lookup key := by
  have hnodup' : (entries'.map (·.1)).Nodup := (hperm.map _).nodup_iff.mp hnodup
  refine Option.ext fun value ↦ ⟨fun h ↦ ?_, fun h ↦ ?_⟩
  · exact lookup_eq_some_of_mem hnodup' (hperm.mem_iff.mp (mem_of_lookup_eq_some h))
  · exact lookup_eq_some_of_mem hnodup (hperm.mem_iff.mpr (mem_of_lookup_eq_some h))

theorem lookup_map_pair (f : κ → α) (keys : List κ) (key : κ) :
    (keys.map fun k ↦ (k, f k)).lookup key = if key ∈ keys then some (f key) else none := by
  induction keys with
  | nil => simp
  | cons k keys ih =>
      by_cases hk : key = k
      · simp [hk]
      · rw [List.map_cons, List.lookup_cons, beq_eq_false_iff_ne.mpr hk, ih]
        simp [hk]

/-! ## Distinct keys -/

theorem nodup_eraseDups : (keys : List κ) → keys.eraseDups.Nodup
  | [] => .nil
  | key :: rest => by
      rw [List.eraseDups_cons, List.nodup_cons]
      refine ⟨?_, nodup_eraseDups _⟩
      simp [List.mem_eraseDups]
termination_by keys => keys.length
decreasing_by exact Nat.lt_succ_of_le (List.length_filter_le _ _)

theorem eraseDups_concat_of_mem {keys : List κ} (h : key ∈ keys) :
    (keys ++ [key]).eraseDups = keys.eraseDups := by
  rw [List.eraseDups_append]
  simp [List.removeAll, h]

theorem eraseDups_concat_of_not_mem {keys : List κ} (h : key ∉ keys) :
    (keys ++ [key]).eraseDups = keys.eraseDups ++ [key] := by
  rw [List.eraseDups_append]
  simp [List.removeAll, h, List.eraseDups_cons]

/-! ## Values under keys -/

namespace Keyed

variable {κ α : Type} [DecidableEq κ] {key : κ} {value : α} {entries : List (κ × α)}

/-- Putting a value under a key keeps the keys in their order. -/
theorem map_fst_put (key : κ) (value : α) (entries : List (κ × α)) :
    (put key value entries).map (·.1) =
      if key ∈ entries.map (·.1) then entries.map (·.1) else entries.map (·.1) ++ [key] := by
  induction entries with
  | nil => rfl
  | cons entry rest ih =>
      obtain ⟨k, v⟩ := entry
      by_cases hk : k = key
      · simp [put, hk]
      · simp only [put, if_neg hk, List.map_cons, ih, List.mem_cons, Ne.symm hk, false_or]
        split <;> rfl

/-- Putting a value where it stands already changes nothing. -/
theorem put_eq_self (h : entries.lookup key = some value) : put key value entries = entries := by
  induction entries with
  | nil => simp at h
  | cons other rest ih =>
      obtain ⟨k, v⟩ := other
      rw [List.lookup_cons] at h
      by_cases hk : key = k
      · rw [beq_iff_eq.mpr hk] at h
        obtain rfl := Option.some_inj.mp h
        rw [put, if_pos hk.symm, hk]
      · rw [beq_eq_false_iff_ne.mpr hk] at h
        rw [put, if_neg (Ne.symm hk), ih h]

theorem ofPairs_concat (pairs : List (κ × α)) (key : κ) (value : α) :
    ofPairs (pairs ++ [(key, value)]) = put key value (ofPairs pairs) := by
  rw [ofPairs, putAll, List.foldl_append]
  rfl

/-- The keys stand in the order in which they first appear. -/
theorem map_fst_ofPairs (pairs : List (κ × α)) :
    (ofPairs pairs).map (·.1) = (pairs.map (·.1)).eraseDups := by
  induction pairs using List.reverseRecOn with
  | nil => rfl
  | append_singleton pairs last ih =>
      obtain ⟨key, value⟩ := last
      rw [ofPairs_concat, map_fst_put, ih, List.map_append, List.map_singleton]
      simp only [List.mem_eraseDups]
      split
      next hmem => rw [eraseDups_concat_of_mem hmem]
      next hmem => rw [eraseDups_concat_of_not_mem hmem]

end Keyed

end Dossier

/-!
# Keyed lists

Lists of pairs with one value for each key, in the order in which the keys first appear.
-/

namespace Dossier.Keyed

variable {κ α : Type} [DecidableEq κ]

/-- Puts a value under a key: in the place of an earlier value, or at the end. -/
def put (key : κ) (value : α) : List (κ × α) → List (κ × α)
  | [] => [(key, value)]
  | (k, v) :: rest => if k = key then (key, value) :: rest else (k, v) :: put key value rest

/-- Puts one value after the other. -/
def putAll (pairs entries : List (κ × α)) : List (κ × α) :=
  pairs.foldl (fun done (key, value) => put key value done) entries

/-- The keyed list of some pairs; of several values under one key the last counts. -/
def ofPairs (pairs : List (κ × α)) : List (κ × α) :=
  putAll pairs []

theorem lookup_put_self (key : κ) (value : α) (entries : List (κ × α)) :
    (put key value entries).lookup key = some value := by
  induction entries with
  | nil => simp [put]
  | cons entry rest ih =>
      obtain ⟨k, v⟩ := entry
      by_cases h : k = key
      · simp [put, h]
      · have hne : (key == k) = false := by simpa using fun e => h e.symm
        simp [put, h, List.lookup_cons, hne, ih]

theorem lookup_put_of_ne {key other : κ} (h : other ≠ key) (value : α) (entries : List (κ × α)) :
    (put key value entries).lookup other = entries.lookup other := by
  induction entries with
  | nil =>
      have hne : (other == key) = false := by simpa using h
      simp [put, List.lookup_cons, hne]
  | cons entry rest ih =>
      obtain ⟨k, v⟩ := entry
      by_cases hk : k = key
      · have hne : (other == key) = false := by simpa using h
        simp [put, hk, List.lookup_cons, hne]
      · simp [put, hk, List.lookup_cons, ih]

end Dossier.Keyed

/-!
# Shares of a budget

A total is split over named parts by percentages. When the use of the parts is known, those that
need less give what is left to those that need more, each of these in proportion to what it lacks.
-/

namespace Dossier.Budget

/-- A number of tokens for each of some parts. -/
abbrev Shares (κ : Type) := List (κ × Int)

namespace Shares

variable {κ : Type}

/-- The number of a part, zero if it has none. -/
def get [BEq κ] (shares : Shares κ) (part : κ) : Int :=
  (shares.lookup part).getD 0

/-- The sum of all numbers. -/
def total (shares : Shares κ) : Int :=
  (shares.map (·.2)).foldr (· + ·) 0

/-- Splits a total by percentages, each share rounded down. -/
def allocate (total : Int) (weights : Shares κ) : Shares κ :=
  weights.map fun (part, percent) => (part, (max 0 total * percent).fdiv 100)

/-- What is left over from a share. -/
def slack (allocated spent : Int) : Int :=
  max 0 (allocated - spent)

/-- What a share lacks. -/
def excess (allocated spent : Int) : Int :=
  max 0 (spent - allocated)

/-- What all parts together leave over. -/
def surplus [BEq κ] (allocation used : Shares κ) : Int :=
  (allocation.map fun (part, allocated) => slack allocated (used.get part)).foldr
    (· + ·) 0

/-- What all parts together lack. -/
def demand [BEq κ] (allocation used : Shares κ) : Int :=
  (allocation.map fun (part, allocated) => excess allocated (used.get part)).foldr
    (· + ·) 0

/-- The share of a part after the surplus is handed out: what it uses if that is less than its
share, and otherwise its share with its part of the surplus, rounded down. -/
def revise (surplus demand allocated spent : Int) : Int :=
  if spent < allocated then spent
  else allocated + (surplus * excess allocated spent).fdiv demand

/-- Shrinks the shares of the parts that use less and raises those of the parts that use more. An
allocation with nothing to spare or nothing lacking stays as it is. -/
def redistribute [BEq κ] (allocation used : Shares κ) : Shares κ :=
  let surplus := surplus allocation used
  let demand := demand allocation used
  if surplus = 0 ∨ demand = 0 then allocation
  else allocation.map fun (part, allocated) =>
    (part, revise surplus demand allocated (used.get part))

end Shares

end Dossier.Budget

/-!
# Progress

What a run says about itself while it works: one line when a step begins and one when it is done.
-/

namespace Dossier

/-- A line of progress. -/
inductive Progress where
  | begun (message : String)
  | finished (message : String)
deriving DecidableEq, Repr

namespace Progress

/-- A line of progress as it is shown. -/
def line : Progress → String
  | .begun message => "  [....] " ++ message ++ "\n"
  | .finished message => "  [done] " ++ message ++ "\n"

/-- Lines of progress as they are shown. -/
def text (steps : List Progress) : String :=
  String.join (steps.map line)

end Progress

end Dossier

import Dossier.Settings
import Dossier.Text.Numeral
import Dossier.Text.Quoted

/-!
# Command line arguments

A command has options, which may stand anywhere and may be shortened as long as they stay unique,
and may have an operand. After two hyphens everything is an operand. Two hyphens attached to an
option are no value for it: the option is left blank. Arguments are classified before any is used,
so an ambiguous option is reported first.
-/

namespace Dossier.CommandLine

/-! ## Values -/

/-- Reads a budget for a document, or says what is wrong with it. -/
def readBudget (s : String) : Except String Int :=
  match Text.parseInt? s with
  | none => .error ("budget must be an integer, got " ++ Text.quoted s)
  | some n =>
    if Settings.minBudget ≤ n ∧ n ≤ Settings.maxBudget then .ok n
    else .error ("budget must be between " ++ Text.ofInt Settings.minBudget ++ " and " ++
      Text.ofInt Settings.maxBudget ++ ", got " ++ Text.ofInt n)

/-- Reads a positive number, or says what is wrong with it. -/
def readPositive (s : String) : Except String Int :=
  match Text.parseInt? s with
  | none => .error ("expected a positive integer, got " ++ Text.quoted s)
  | some n =>
    if n < 1 then .error ("expected a positive integer, got " ++ Text.ofInt n) else .ok n

/-- A complaint that a text is not one of the choices. -/
def invalidChoice (s : String) (choices : List String) : String :=
  "invalid choice: " ++ Text.quoted s ++ " (choose from " ++
    String.intercalate ", " (choices.map Text.quoted) ++ ")"

/-! ## Grammars -/

/-- What the value of an option must be like. -/
inductive ValueKind where
  | any
  | budget
  | positive
  | oneOf (choices : List String)
deriving DecidableEq, Repr

/-- What is wrong with the value of an option. -/
def ValueKind.complaint? (kind : ValueKind) (s : String) : Option String :=
  let complaintOf (read : Except String Int) : Option String := match read with
    | .error complaint => some complaint
    | .ok _ => none
  match kind with
  | .any => none
  | .budget => complaintOf (readBudget s)
  | .positive => complaintOf (readPositive s)
  | .oneOf choices => if choices.contains s then none else some (invalidChoice s choices)

/-- An option other than the one that asks for help; it has a value or is a switch. -/
structure Flag where
  name : String
  value : Option ValueKind := none
deriving DecidableEq, Repr

/-- What a command takes besides options. -/
inductive Operand where
  | nothing
  | one (name : String)
  /-- One of some words and all arguments after it. -/
  | command (name : String) (words : List String)
deriving DecidableEq, Repr

/-- The arguments that a command takes. -/
structure Grammar where
  options : List Flag
  operand : Operand
deriving DecidableEq, Repr

/-! ## Classification -/

/-- The two hyphens after which everything is an operand. -/
def separator : String := "--"

/-- What an argument is. -/
inductive Mark where
  | operand
  | separator
  /-- A request for help, with a text attached to it that it cannot take. -/
  | help (attached : Option String)
  | known (option : Flag) (attached : Option String)
  | unknown
deriving DecidableEq, Repr

/-- The text that cannot be attached to a request for help, if more follows than its letter again. -/
def afterHelp : List Char → Option String
  | [] => none
  | 'h' :: cs => afterHelp cs
  | cs => some (String.ofList cs)

/-- What cannot be attached behind the letter that asks for help; an equals sign right behind it
attaches the rest, even if nothing is left. -/
def helpTail : List Char → Option String
  | ['='] => some ""
  | '=' :: cs => afterHelp cs
  | cs => afterHelp cs

/-- Whether characters are digits with at most one point among them, and end with a digit. -/
def isDecimal (cs : List Char) : Bool :=
  let isDigit (c : Char) : Bool := (Text.digitValue? c).isSome
  let rest := cs.dropWhile isDigit
  if rest.isEmpty then !cs.isEmpty
  else rest.head? == some '.' && rest.tail.all isDigit && !rest.tail.isEmpty

/-- Whether an argument is a negative number; a line feed may end it. -/
def isNegativeNumber (s : String) : Bool :=
  match s.toList with
  | '-' :: cs => isDecimal cs || (cs.getLast? == some '\n' && isDecimal cs.dropLast)
  | _ => false

/-- The long options with their spellings; help comes first. -/
def longOptions (g : Grammar) : List (String × Option Flag) :=
  ("--help", none) :: g.options.map fun o => (o.name, some o)

/-- The mark of a long option, or of a request for help. -/
def markOf (o : Option Flag) (attached : Option String) : Mark :=
  match o with
  | none => .help attached
  | some o => .known o attached

/-- What an argument is that starts with a hyphen and is no option. -/
def unmatched (s : String) : Mark :=
  if isNegativeNumber s || Text.contains s " " then .operand else .unknown

/-- What a long option is, given its name and the text attached to it by an equals sign. An exact
name counts before a shortened one. -/
def classifyLong (g : Grammar) (s name : String) (attached : Option String) : Except String Mark :=
  match (longOptions g).lookup s, (longOptions g).lookup name with
  | some o, _ => .ok (markOf o none)
  | none, some o => .ok (markOf o attached)
  | none, none =>
    match (longOptions g).filter fun (long, _) => Text.startsWith long name with
    | [] => .ok (unmatched s)
    | [(_, o)] => .ok (markOf o attached)
    | several => .error ("ambiguous option: " ++ s ++ " could match " ++
        String.intercalate ", " (several.map (·.1)))

/-- What an argument is that stands before the separator. -/
def classify (g : Grammar) (s : String) : Except String Mark :=
  match s.toList with
  | '-' :: '-' :: _ =>
    let name := Text.beforeFirst '=' s
    classifyLong g s name
      (if name = s then none else some (Text.drop (name.length + 1) s))
  | '-' :: 'h' :: cs => .ok (.help (helpTail cs))
  | ['-'] => .ok .operand
  | '-' :: _ => .ok (unmatched s)
  | _ => .ok .operand

/-- What the arguments are. -/
def classifyAll (g : Grammar) : List String → Except String (List (String × Mark))
  | [] => .ok []
  | s :: rest =>
    if s = separator then .ok ((s, .separator) :: rest.map (·, .operand))
    else do
      let mark ← classify g s
      return (s, mark) :: (← classifyAll g rest)

/-! ## Reading -/

/-- Why reading arguments ends early. -/
inductive Stop where
  /-- Help is asked for. -/
  | help
  /-- An argument is wrong. -/
  | wrong (complaint : String)
deriving DecidableEq, Repr

/-- What has been read. -/
structure Found where
  /-- Options in the order in which they are given, with their values; a switch and an option that
  is left blank have none. -/
  options : List (String × Option String) := []
  /-- The operand; for a command, the word and all arguments after it. -/
  operand : List String := []
  /-- Arguments that nothing takes. -/
  extra : List String := []
deriving DecidableEq, Repr

namespace Found

/-- Whether a switch is given. -/
def has (found : Found) (name : String) : Bool :=
  found.options.any (·.1 == name)

/-- The last value given for an option, unless the option is left blank after it. -/
def value? (found : Found) (name : String) : Option String :=
  (found.options.reverse.lookup name).join

/-- Whether an option is given and left blank in the end. -/
def isBlank (found : Found) (name : String) : Bool :=
  found.options.reverse.lookup name == some none

end Found

/-- A complaint about an argument. -/
def about (argument complaint : String) : Stop :=
  .wrong ("argument " ++ argument ++ ": " ++ complaint)

/-- Takes an option with the value it has been given. The separator is no value. -/
def takeValue (o : Flag) (kind : ValueKind) (s : String) (found : Found) : Except Stop Found :=
  if s = separator then .ok { found with options := found.options ++ [(o.name, none)] }
  else match kind.complaint? s with
    | some complaint => .error (about o.name complaint)
    | none => .ok { found with options := found.options ++ [(o.name, some s)] }

/-- Takes the word of a command and all arguments after it. -/
def takeCommand (name : String) (words args : List String) (found : Found) : Except Stop Found :=
  if words.contains (args.headD "") then .ok { found with operand := args }
  else .error (about name (invalidChoice (args.headD "") words))

/-- Reads classified arguments; `operand` is what the command still takes. -/
def readMarked (operand : Operand) (found : Found) : List (String × Mark) → Except Stop Found
  | [] => .ok found
  | (s, mark) :: rest => match mark with
    | .help none => .error .help
    | .help (some text) => .error (about "-h/--help" ("ignored explicit argument " ++ Text.quoted text))
    | .unknown => readMarked operand { found with extra := found.extra ++ [s] } rest
    | .known o attached => match o.value, attached with
      | none, some text => .error (about o.name ("ignored explicit argument " ++ Text.quoted text))
      | none, none =>
        readMarked operand { found with options := found.options ++ [(o.name, none)] } rest
      | some kind, some text => do readMarked operand (← takeValue o kind text found) rest
      | some kind, none => match rest with
        | (text, .operand) :: rest => do readMarked operand (← takeValue o kind text found) rest
        | _ => .error (about o.name "expected one argument")
    | .operand => match operand with
      | .nothing => readMarked .nothing { found with extra := found.extra ++ [s] } rest
      | .one _ => match rest with
        | (_, .separator) :: rest => readMarked .nothing { found with operand := [s] } rest
        | rest => readMarked .nothing { found with operand := [s] } rest
      | .command name words => takeCommand name words (s :: rest.map (·.1)) found
    | .separator => match operand, rest with
      | .one _, (text, _) :: rest => readMarked .nothing { found with operand := [text] } rest
      | .command name words, _ :: _ => takeCommand name words (s :: rest.map (·.1)) found
      | _, rest => readMarked .nothing { found with extra := found.extra ++ [s] } rest

/-- Reads the arguments of a command. An operand that is a single word must be there. -/
def Grammar.read (g : Grammar) (args : List String) : Except Stop Found := do
  let marked ← match classifyAll g args with
    | .ok marked => .ok marked
    | .error complaint => .error (.wrong complaint)
  let found ← readMarked g.operand {} marked
  match g.operand with
  | .one name =>
    if found.operand.isEmpty then
      .error (.wrong ("the following arguments are required: " ++ name))
    else return found
  | _ => return found

end Dossier.CommandLine

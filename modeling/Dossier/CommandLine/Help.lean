import Dossier.CommandLine.Arguments

/-!
# Commands

The commands, the arguments they take, and their help.
-/

namespace Dossier.CommandLine

/-- A command. -/
inductive Verb where
  | context
  | tree
  | signatures
deriving DecidableEq, Repr

namespace Verb

/-- All commands. -/
def all : List Verb := [.context, .tree, .signatures]

/-- The word for a command. -/
def name : Verb → String
  | .context => "context"
  | .tree => "tree"
  | .signatures => "signatures"

/-- The arguments that a command takes. -/
def grammar : Verb → Grammar
  | .context =>
    ⟨[⟨"--budget", some .budget⟩, ⟨"--dry-run", none⟩,
        ⟨"--format", some (.oneOf ["text", "json"])⟩, ⟨"--include-markdown", none⟩,
        ⟨"--precise-tokens", none⟩, ⟨"--workers", some .positive⟩, ⟨"--out-root", some .any⟩],
      .nothing⟩
  | .tree => ⟨[⟨"--budget", some .positive⟩, ⟨"--depth", some .positive⟩], .nothing⟩
  | .signatures => ⟨[⟨"--all", none⟩], .one "file"⟩

/-- The lines that show how a command is used. -/
def usage : Verb → List String
  | .context =>
    ["usage: devctx context [-h] [--budget BUDGET] [--dry-run]",
      "                      [--format \x7btext,json\x7d] [--include-markdown]",
      "                      [--precise-tokens] [--workers WORKERS]",
      "                      [--out-root OUT_ROOT]"]
  | .tree => ["usage: devctx tree [-h] [--budget BUDGET] [--depth DEPTH]"]
  | .signatures => ["usage: devctx signatures [-h] [--all] file"]

/-- The lines about the arguments of a command. -/
def details : Verb → List String
  | .context =>
    ["options:",
      "  -h, --help            show this help message and exit",
      "  --budget BUDGET       Total token budget, 1000-100000 (default: project",
      "                        config or 12000)",
      "  --dry-run             Build and report without writing the document",
      "  --format \x7btext,json\x7d",
      "  --include-markdown    Include the compiled markdown in JSON output",
      "  --precise-tokens      Count tokens with tiktoken cl100k_base instead of the",
      "                        character estimate",
      "  --workers WORKERS     Parallel workers for signature extraction (default:",
      "                        CPU count capped at 8)",
      "  --out-root OUT_ROOT   Output root (default: ~/.claude/projects)"]
  | .tree =>
    ["options:",
      "  -h, --help       show this help message and exit",
      "  --budget BUDGET  Token budget for the adaptive depth search (default: 1500)",
      "  --depth DEPTH    Fixed depth (skips the budget search)"]
  | .signatures =>
    ["positional arguments:",
      "  file        Source file (relative to --repo or absolute)",
      "",
      "options:",
      "  -h, --help  show this help message and exit",
      "  --all       Include non-exported declarations"]

end Verb

/-- The name of the program. -/
def programName : String := "devctx"

/-- The arguments of the program: some options, then a command with its own arguments. -/
def programGrammar : Grammar :=
  ⟨[⟨"--repo", some .any⟩, ⟨"--verbose", none⟩], .command "command" (Verb.all.map Verb.name)⟩

/-- The lines that show how the program is used. -/
def programUsage : List String :=
  ["usage: devctx [-h] [--repo REPO] [--verbose] \x7bcontext,tree,signatures\x7d ..."]

/-- The lines about the arguments of the program. -/
def programDetails : List String :=
  ["Token-budgeted project context compiler",
    "",
    "positional arguments:",
    "  \x7bcontext,tree,signatures\x7d",
    "    context             Compile the context document",
    "    tree                Print the project structure tree",
    "    signatures          Print the signatures of one file",
    "",
    "options:",
    "  -h, --help            show this help message and exit",
    "  --repo REPO           Project root (default: .)",
    "  --verbose             Print every warning to stderr"]

/-- The lines of a usage and of the details below it, with an empty line between them. -/
def helpText (usage details : List String) : String :=
  Text.joinLines (usage ++ "" :: details) ++ "\n"

/-- The help of a command, or of the program. -/
def helpOf : Option Verb → String
  | some verb => helpText verb.usage verb.details
  | none => helpText programUsage programDetails

/-- A complaint about the arguments of a command, or of the program. -/
def complaintText (verb : Option Verb) (complaint : String) : String :=
  match verb with
  | some verb => Text.joinLines (verb.usage ++
      [programName ++ " " ++ verb.name ++ ": error: " ++ complaint]) ++ "\n"
  | none => Text.joinLines (programUsage ++ [programName ++ ": error: " ++ complaint]) ++ "\n"

/-! ## Invocations -/

/-- What is asked of a command, by its arguments; `missed` is the option left blank whose value is
needed first. -/
inductive Task where
  | context (budget : Option Int) (dryRun json includeMarkdown precise : Bool)
      (outRoot : Option String) (missed : Option Blank)
  | tree (budget : Int) (depth : Option Nat) (missed : Option Blank)
  | signatures (file : String) (all : Bool)
deriving DecidableEq, Repr

/-- What is asked of the program. -/
structure Invocation where
  /-- The root of the project, unless it is left blank. -/
  root : Option String := some "."
  verbose : Bool := false
  /-- Without a task the program shows its help. -/
  task : Option Task := none
deriving DecidableEq, Repr

/-- The number given for an option. -/
def number? (read : String → Except String Int) (found : Found) (name : String) : Option Int :=
  (found.value? name).bind fun s => (read s).toOption

/-- The budget of a directory tree unless another one is asked for. -/
def defaultTreeBudget : Int := 1500

/-- The first of some options that is left blank. -/
def firstBlank (found : Found) (options : List (String × Blank)) : Option Blank :=
  (options.find? fun (name, _) => found.isBlank name).map (·.2)

/-- The option left blank whose value is needed first. A tree with a given depth needs no budget. -/
def missed (verb : Verb) (found : Found) : Option Blank :=
  match verb with
  | .context => firstBlank found [("--workers", .workers), ("--budget", .budget)]
  | .tree =>
    if (found.value? "--depth").isSome then none
    else firstBlank found [("--depth", .treeDepth), ("--budget", .treeBudget)]
  | .signatures => none

/-- The task that the arguments of a command ask for. -/
def taskOf (verb : Verb) (found : Found) : Task :=
  match verb with
  | .context =>
    .context (number? readBudget found "--budget") (found.has "--dry-run")
      (found.value? "--format" == some "json") (found.has "--include-markdown")
      (found.has "--precise-tokens") (found.value? "--out-root") (missed verb found)
  | .tree =>
    .tree ((number? readPositive found "--budget").getD defaultTreeBudget)
      ((number? readPositive found "--depth").map Int.toNat) (missed verb found)
  | .signatures => .signatures (found.operand.headD "") (found.has "--all")

/-- Where reading the arguments has stopped, and why: in a command, or in the program. -/
structure Halt where
  verb : Option Verb
  stop : Stop
deriving DecidableEq, Repr

/-- Reads arguments with a grammar on behalf of a command or of the program. -/
def readFor (verb : Option Verb) (g : Grammar) (args : List String) : Except Halt Found :=
  match g.read args with
  | .ok found => .ok found
  | .error stop => .error ⟨verb, stop⟩

/-- Reads the word of a command and its arguments; the arguments that nothing takes come second. -/
def readCommand (words : List String) : Except Halt (Option Task × List String) :=
  match words with
  | [] => .ok (none, [])
  | word :: args => match Verb.all.find? (·.name == word) with
    | none => .ok (none, [])
    | some verb => do
      let found ← readFor (some verb) verb.grammar args
      return (some (taskOf verb found), found.extra)

/-- Reads the arguments of the program. -/
def readArguments (args : List String) : Except Halt Invocation := do
  let found ← readFor none programGrammar args
  let (task, extra) ← readCommand found.operand
  match found.extra ++ extra with
  | [] => return {
      root := if found.isBlank "--repo" then none else some ((found.value? "--repo").getD ".")
      verbose := found.has "--verbose"
      task }
  | unread =>
    .error ⟨none, .wrong ("unrecognized arguments: " ++ String.intercalate " " unread)⟩

end Dossier.CommandLine

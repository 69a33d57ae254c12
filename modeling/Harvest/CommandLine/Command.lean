import Harvest.Json.Number
import Harvest.Number.Binary

/-!
# The command line

The arguments of the program are an option for the folder of the settings, and a command with
options of its own. An option has its value behind an equals sign or in the next argument.

## Main definitions

* `Command`, `FullChoice` — what the program can be told to do
* `Argument`, `Argument.ofString` — an argument by its shape
* `Invocation`, `Invocation.parse` — what the arguments ask for
-/

namespace Harvest

/-- How a full ingestion differs from what the settings say. -/
structure FullChoice where
  maxIterations : Option Nat := none
  incremental : Option Nat := none
  backfill : Option Nat := none
  reset : Bool := false
  deriving DecidableEq, Repr

/-- What the program can be told to do. -/
inductive Command where
  /-- One run. -/
  | run
  /-- A full ingestion. -/
  | full (choice : FullChoice)
  /-- Tells where the crawl stands. -/
  | status
  /-- Forgets where the crawl stands. -/
  | reset
  deriving DecidableEq, Repr

/-- An argument by its shape. -/
inductive Argument where
  /-- Two hyphens, after which there are no more options. -/
  | separator
  /-- The name of an option behind two hyphens, possibly with a value. -/
  | long (name : String) (value : Option String)
  /-- The letter of an option behind a hyphen. -/
  | short (letter : Char)
  /-- Anything else. -/
  | plain (text : String)
  deriving DecidableEq, Repr

namespace Argument

/-- The shape of an argument. -/
def ofString (s : String) : Argument :=
  match s.toList with
  | ['-', '-'] => separator
  | '-' :: '-' :: rest =>
    let name := String.ofList (rest.takeWhile (· != '='))
    match rest.dropWhile (· != '=') with
    | _ :: value => long name (some (String.ofList value))
    | [] => long name none
  | '-' :: c :: _ => short c
  | _ => plain s

/-- Whether an argument asks for help. -/
def asksForHelp : Argument → Bool
  | long "help" none | short 'h' => true
  | _ => false

/-- Whether an argument can be the value of the option before it. -/
def isValue (s : String) : Bool :=
  match ofString s with
  | plain _ => true
  | _ => false

/-- A number of at most 64 bits in decimal digits, possibly with a plus sign. -/
def number? (s : String) : Option Nat :=
  let digits := match s.toList with
    | '+' :: digits => digits
    | digits => digits
  let n := Json.ofDigits (digits.map Json.digitValue)
  if !digits.isEmpty && digits.all Char.isDigit && Bits.holds 64 n then some n else none

end Argument

/-- What help is asked about. -/
inductive HelpTopic where
  /-- The program; its help shows the folder that the environment sets. -/
  | program (folder : Option String)
  | run
  | full
  | status
  | reset
  | help
  deriving DecidableEq, Repr

/-- What the arguments ask for. -/
inductive Invocation where
  /-- A command with the settings in a folder. -/
  | command (folder : String) (c : Command)
  /-- Help. -/
  | help (topic : HelpTopic)
  /-- The version of the program. -/
  | version
  /-- The arguments make no sense. -/
  | mistake
  deriving DecidableEq, Repr

/-- What the arguments of a command ask for. -/
inductive Choice (α : Type) where
  /-- The command is carried out. -/
  | made (a : α)
  /-- Help about the command. -/
  | help
  /-- The arguments make no sense. -/
  | mistake
  deriving DecidableEq, Repr

namespace FullChoice

/-- The choice with a number set; every number may be set once. -/
def set? (o : FullChoice) (name value : String) : Option FullChoice := do
  let n ← Argument.number? value
  match name with
  | "max-iterations" => if o.maxIterations.isSome then none else some { o with maxIterations := n }
  | "incremental-commits" => if o.incremental.isSome then none else some { o with incremental := n }
  | "backfill-commits" => if o.backfill.isSome then none else some { o with backfill := n }
  | _ => none

/-- The choice that the arguments of the command make. -/
def parse (o : FullChoice) : List String → Choice FullChoice
  | [] => .made o
  | arg :: rest =>
    match Argument.ofString arg with
    | .separator => if rest.isEmpty then .made o else .mistake
    | .long "help" none | .short 'h' => .help
    | .long "reset-checkpoints" none =>
      if o.reset then .mistake else parse { o with reset := true } rest
    | .long name (some value) =>
      match o.set? name value with
      | some o => parse o rest
      | none => .mistake
    | .long name none =>
      match rest with
      | value :: rest =>
        if Argument.isValue value then
          match o.set? name value with
          | some o => parse o rest
          | none => .mistake
        else .mistake
      | [] => .mistake
    | .short _ | .plain _ => .mistake

end FullChoice

namespace Command

/-- The choice that the arguments of a command without options make. -/
def parse (c : Command) : List String → Choice Command
  | [] | ["--"] => .made c
  | arg :: _ => if (Argument.ofString arg).asksForHelp then .help else .mistake

end Command

namespace Invocation

/-- The folder of the settings where nothing else is said. -/
def defaultFolder : String := "./config"

/-- A command in the folder that an option or else the environment names, which has to have a
name. -/
def inFolder (environment folder : Option String) (c : Command) : Invocation :=
  let chosen := (folder.or environment).getD defaultFolder
  if chosen.isEmpty then mistake else command chosen c

/-- What the arguments of a command make of it. -/
def ofChoice (environment folder : Option String) (topic : HelpTopic) :
    Choice Command → Invocation
  | .made c => inFolder environment folder c
  | .help => help topic
  | .mistake => mistake

/-- What is asked for by help about some commands. -/
def ofTopics (environment : Option String) : List String → Invocation
  | [] => help (.program environment)
  | ["run"] => help .run
  | ["full"] => help .full
  | ["status"] => help .status
  | ["reset"] => help .reset
  | ["help"] => help .help
  | _ => mistake

/-- What a command with its arguments asks for. -/
def ofCommand (environment folder : Option String) (name : String) (args : List String) :
    Invocation :=
  match name with
  | "run" => ofChoice environment folder .run (Command.run.parse args)
  | "status" => ofChoice environment folder .status (Command.status.parse args)
  | "reset" => ofChoice environment folder .reset (Command.reset.parse args)
  | "full" =>
    match FullChoice.parse {} args with
    | .made o => inFolder environment folder (.full o)
    | .help => help .full
    | .mistake => mistake
  | "help" => ofTopics environment args
  | _ => mistake

/-- What the arguments ask for, given the folder that was named before them. -/
def parseFrom (environment folder : Option String) : List String → Invocation
  | [] => mistake
  | arg :: rest =>
    match Argument.ofString arg with
    | .plain name => ofCommand environment folder name rest
    | .long "config-dir" (some value) =>
      if folder.isSome || value.isEmpty then mistake else parseFrom environment (some value) rest
    | .long "config-dir" none =>
      match rest with
      | value :: rest =>
        if folder.isSome || !Argument.isValue value then mistake
        else parseFrom environment (some value) rest
      | [] => mistake
    | .long "help" none | .short 'h' =>
      if folder == some "" then mistake else help (.program environment)
    | .long "version" none | .short 'V' => if folder == some "" then mistake else version
    | _ => mistake

/-- What the arguments ask for. The environment may name the folder of the settings, too. -/
def parse (environment : Option String) (args : List String) : Invocation :=
  parseFrom environment none args

/-- A command alone is carried out, with the settings in the usual folder. -/
example :
    parse none ["run"] = command "./config" .run ∧
      parse none ["full"] = command "./config" (.full {}) ∧
      parse none ["status"] = command "./config" .status ∧
      parse none ["reset"] = command "./config" .reset := by decide

end Invocation

end Harvest

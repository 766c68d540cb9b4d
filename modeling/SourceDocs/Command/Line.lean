import SourceDocs.Command.Document

set_option autoImplicit false

/-! # Command lines

A command line is read on two levels: options of the program, then a command with its own. An option
that takes a value takes it after `=` or from the next argument; a value is checked, and an option
counted as given, when the next option comes or the level ends. After `--` there are only operands.
A few options are known on both levels, where the inner one wins. -/

namespace SourceDocs

/-- What the program is asked to do. -/
inductive Command where
  | organize
  | metadata
  | directoryTree
  | analyze (file language : Option String)
  | document (options : DocumentOptions)
  deriving DecidableEq

/-- A command line that can be followed. -/
structure Invocation where
  configPath : String := "./config/scribe.toml"
  command : Command
  progress : ProgressMode := .off
  deriving DecidableEq

namespace CommandLine

/-- Why a command line is not followed: it asks for help or the version, or it is wrong. -/
inductive Stop where
  | help
  | version
  | usage
  deriving DecidableEq

/-- An option. -/
structure OptionSpec where
  name : String
  /-- The letter that stands for it. -/
  letter : Option Char := none
  takesValue : Bool := false
  /-- Whether a value of it is one. -/
  accepts : String → Bool := fun _ => true
  /-- What it stops the reading for. -/
  stop : Option Stop := none

/-- What is known on a level. -/
structure Level where
  options : List OptionSpec
  /-- The number of operands at most. -/
  operands : Nat := 0
  /-- Whether a command follows. -/
  hasCommand : Bool := false

/-- What has been read on a level. -/
structure Reading where
  given : List (String × String) := []
  operands : List String := []
  /-- An option whose value is still to come. -/
  waiting : Option OptionSpec := none
  /-- An option with a value that has not been checked. -/
  unchecked : Option (OptionSpec × String) := none
  /-- An operand that has not been checked. -/
  uncheckedOperand : Option String := none
  /-- Whether there are only operands from here on. -/
  isTrailing : Bool := false

/-- The result of reading a level: what was given and, if a command follows, its name and its
arguments. -/
abbrev LevelResult := Reading × Option (String × List String)

namespace Reading

/-- Counts an option as given; none may be given twice. -/
def give (r : Reading) (o : OptionSpec) (value : String) : Except Stop Reading :=
  if (r.given.lookup o.name).isSome || !o.accepts value then .error .usage
  else .ok { r with given := r.given ++ [(o.name, value)] }

/-- Finishes with what came last. -/
def settle (r : Reading) : Except Stop Reading := do
  if r.waiting.isSome then .error .usage
  if r.uncheckedOperand = some "" then .error .usage
  let operands := r.operands ++ r.uncheckedOperand.toList
  let r := { r with operands, uncheckedOperand := none }
  match r.unchecked with
  | some (o, value) => ({ r with unchecked := none }).give o value
  | none => return r

/-- Takes an option that is written without a value. -/
def takeFlag (r : Reading) (o : OptionSpec) : Except Stop Reading :=
  match o.stop with
  | some stop => .error stop
  | none => r.give o ""

/-- Takes an option with a name and, if there was a `=`, a value. -/
def takeLong (r : Reading) (level : Level) (name : String) (value : Option String) :
    Except Stop Reading := do
  let r ← r.settle
  match level.options.find? fun o => o.name = name with
  | none => .error .usage
  | some o =>
    match o.takesValue, value with
    | true, some value => r.give o value
    | true, none => return { r with waiting := some o }
    | false, some _ => .error .usage
    | false, none => r.takeFlag o

/-- Takes options that are written as letters. -/
def takeLetters (level : Level) : List Char → Reading → Except Stop Reading
  | [], r => .ok r
  | c :: cs, r => do
    match level.options.find? fun o => o.letter = some c with
    | none => .error .usage
    | some o => takeLetters level cs (← r.takeFlag o)

/-- Takes an operand. -/
def takeOperand (r : Reading) (level : Level) (operand : String) : Except Stop Reading := do
  let r ← r.settle
  if r.operands.length < level.operands then return { r with uncheckedOperand := some operand }
  else .error .usage

end Reading

/-- The name of a long option and the value after its first `=`. -/
def splitOption (cs : List Char) : String × Option String :=
  let name := String.ofList (cs.takeWhile (· ≠ '='))
  match cs.dropWhile (· ≠ '=') with
  | _ :: value => (name, some (String.ofList value))
  | [] => (name, none)

/-- Reads the arguments of a level. -/
def readLevel (level : Level) : Reading → List String → Except Stop LevelResult
  | r, [] => .ok (r, none)
  | r, arg :: args => do
    if r.isTrailing then readLevel level (← r.takeOperand level arg) args
    else
      match arg.toList with
      | ['-', '-'] => readLevel level { r with isTrailing := true } args
      | '-' :: '-' :: option =>
        let (name, value) := splitOption option
        readLevel level (← r.takeLong level name value) args
      | '-' :: c :: cs => readLevel level (← Reading.takeLetters level (c :: cs) (← r.settle)) args
      | _ =>
        match r.waiting with
        | some o => readLevel level { r with waiting := none, unchecked := some (o, arg) } args
        | none =>
          if level.hasCommand then return (r, some (arg, args))
          else readLevel level (← r.takeOperand level arg) args

/-! ## The options of the program -/

/-- The options that are known on both levels. -/
def sharedOptions : List OptionSpec :=
  [{ name := "config", takesValue := true, accepts := (· ≠ "") },
    { name := "verbose", letter := some 'v' },
    { name := "help", letter := some 'h', stop := some .help }]

/-- The level before the command. -/
def outerLevel : Level :=
  { options := { name := "version", letter := some 'V', stop := some .version } :: sharedOptions
    hasCommand := true }

/-- The names of the commands. -/
def commandNames : List String := ["organize", "metadata", "structure", "analyze", "document"]

/-- The level of a command. -/
def innerLevel (command : String) : Level :=
  if command = "analyze" then
    { options := { name := "language", takesValue := true } :: sharedOptions, operands := 1 }
  else if command = "document" then
    { options :=
        [{ name := "hierarchical" }, { name := "dry-run" }, { name := "from-snapshot" },
          { name := "progress", takesValue := true
            accepts := fun s => (ProgressMode.ofName? s).isSome }] ++ sharedOptions }
  else { options := sharedOptions }

/-- The command with a name, from what was read on its level. -/
def commandOf (name : String) (r : Reading) : Option Command :=
  let isGiven (option : String) := (r.given.lookup option).isSome
  if name = "organize" then some .organize
  else if name = "metadata" then some .metadata
  else if name = "structure" then some .directoryTree
  else if name = "analyze" then some (.analyze r.operands.head? (r.given.lookup "language"))
  else if name = "document" then
    some (.document
      { hierarchical := isGiven "hierarchical", dryRun := isGiven "dry-run"
        fromSnapshot := isGiven "from-snapshot" })
  else none

/-- What the command `help` stops for: it takes the name of at most one command. -/
def helpFor : List String → Stop
  | [] => .help
  | [name] => if ("help" :: commandNames).contains name then .help else .usage
  | _ => .usage

/-- The invocation that arguments stand for. -/
def parse (args : List String) : Except Stop Invocation := do
  match ← readLevel outerLevel {} args with
  | (_, none) => .error .usage
  | (outer, some (name, rest)) =>
    if name = "help" then .error (helpFor rest)
    if !commandNames.contains name then .error .usage
    let (inner, _) ← readLevel (innerLevel name) {} rest
    let inner ← inner.settle
    let outer ← outer.settle
    match commandOf name inner with
    | none => .error .usage
    | some command =>
      let invocation : Invocation := { command }
      let configPath :=
        ((inner.given.lookup "config").or (outer.given.lookup "config")).getD invocation.configPath
      let progress :=
        ((inner.given.lookup "progress").bind ProgressMode.ofName?).getD invocation.progress
      return { invocation with configPath, progress }

end CommandLine

end SourceDocs

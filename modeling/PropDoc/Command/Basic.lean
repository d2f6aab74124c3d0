import PropDoc.Path
import PropDoc.Text.Basic

/-!
# The command line

What can be written on the command line, how its arguments are read, and what they ask for.
-/

namespace PropDoc

namespace Command

/-! ### The grammar of the command line

What can be written at each level of the command line: before a command, and after each of them.
An option is known by a long name and most also by a letter; some take a value.
-/

/-- What can be given. -/
inductive Key where
  | verbose
  | quiet
  | help
  | version
  | path
  | output
  | config
  | format
  | pretty
  deriving DecidableEq

/-- Whether a value has to be a path, which cannot be empty. -/
def Key.isPath : Key → Bool
  | path | output | config => true
  | _ => false

/-- An option and how it is written. -/
structure OptionForm where
  key : Key
  long : String
  short : Option Char
  takesValue : Bool := false

/-- A command word. -/
inductive Word where
  | generate
  | init
  | help
  deriving DecidableEq

/-- The command that a word names. -/
def Word.ofText? (text : String) : Option Word :=
  if text = "generate" ∨ text = "gen" then some .generate
  else if text = "init" then some .init
  else if text = "help" then some .help
  else none

/-- What can be written at one level of the command line. -/
structure Grammar where
  options : List OptionForm
  /-- What a word that belongs to no option is, if it may stand once. -/
  operand : Option Key := none
  /-- Whether a command may follow. -/
  hasCommands : Bool := false

namespace Grammar

/-- The options that every level has. -/
def shared : List OptionForm :=
  [⟨.verbose, "verbose", some 'v', false⟩, ⟨.quiet, "quiet", some 'q', false⟩,
    ⟨.help, "help", some 'h', false⟩]

/-- Before a command. -/
def top : Grammar :=
  { options := shared ++ [⟨.version, "version", some 'V', false⟩], hasCommands := true }

/-- Where the output goes. -/
def outputForm : OptionForm := ⟨.output, "output", some 'o', true⟩

/-- After the command that documents a path. -/
def generate : Grammar :=
  { options := shared ++
      [outputForm, ⟨.config, "config", some 'c', true⟩, ⟨.format, "format", some 'f', true⟩,
        ⟨.pretty, "pretty", none, false⟩]
    operand := some .path }

/-- After the command that writes a first configuration. -/
def init : Grammar := { options := shared ++ [outputForm] }

/-- The option of a long name. -/
def long? (grammar : Grammar) (name : String) : Option OptionForm :=
  grammar.options.find? fun form ↦ form.long == name

/-- The option of a letter. -/
def short? (grammar : Grammar) (letter : Char) : Option OptionForm :=
  grammar.options.find? fun form ↦ form.short == some letter

end Grammar

/-! ### Reading arguments

Arguments are read one after the other. An option's value may be attached to it or follow it. A
value that stands on its own is kept back and settled when the next thing that belongs to an option
or an operand is met, or at the end: an unknown argument in between is reported first.
-/

/-- Why arguments do not say what to do. -/
inductive UsageError where
  /-- Nothing was given at all. -/
  | nothingGiven
  /-- Options were given, but no command. -/
  | noCommand
  | unknownCommand
  | unknownArgument
  | missingArgument
  | conflict
  | invalidValue
  | unexpectedValue
  | helpAsked
  | versionAsked
  deriving DecidableEq

/-- What was read so far at one level. -/
structure Reading where
  /-- What was given and settled. A flag has an empty value. -/
  given : List (Key × String) := []
  /-- What was met last, with its value once it has one. -/
  pending : Option (Key × Option String) := none

namespace Reading

/-- Whether something was given. -/
def has (reading : Reading) (key : Key) : Bool := (reading.given.lookup key).isSome

/-- The value that was given. -/
def value? (reading : Reading) (key : Key) : Option String := reading.given.lookup key

/-- Note a value, which may be given once. -/
def note (reading : Reading) (key : Key) (value : String) : Except UsageError Reading :=
  if reading.has key then .error .conflict
  else if key.isPath && value.isEmpty then .error .invalidValue
  else .ok { reading with given := reading.given ++ [(key, value)] }

/-- Settle what was kept back. -/
def settle (reading : Reading) : Except UsageError Reading :=
  match reading.pending with
  | none => .ok reading
  | some (_, none) => .error .invalidValue
  | some (key, some value) => { reading with pending := none }.note key value

/-- Take in an option with its value. -/
def take (reading : Reading) (key : Key) (value : String) : Except UsageError Reading := do
  (← reading.settle).note key value

/-- Take in a flag. -/
def takeFlag (reading : Reading) (key : Key) : Except UsageError Reading := do
  let reading ← reading.settle
  match key with
  | .help => throw .helpAsked
  | .version => throw .versionAsked
  | key => reading.note key ""

/-- Take in something whose value is kept back or still to come. -/
def defer (reading : Reading) (key : Key) (value : Option String) : Except UsageError Reading := do
  return { (← reading.settle) with pending := some (key, value) }

/-- The option that waits for its value. -/
def awaiting? (reading : Reading) : Option Key :=
  match reading.pending with
  | some (key, none) => some key
  | _ => none

/-- Whether an operand was met. -/
def hasMet (reading : Reading) (key : Key) : Bool :=
  reading.has key || (reading.pending.map Prod.fst == some key)

end Reading

/-- The name and the attached value of a long option. -/
def longParts? (argument : String) : Option (String × Option String) :=
  match argument.toList with
  | '-' :: '-' :: rest =>
    match Text.cutAt? '=' rest with
    | some (name, value) => some (String.ofList name, some (String.ofList value))
    | none => some (String.ofList rest, none)
  | _ => none

/-- The letters after a single dash. A dash alone has none. -/
def shortLetters? (argument : String) : Option (List Char) :=
  match argument.toList with
  | '-' :: letter :: rest => some (letter :: rest)
  | _ => none

namespace Grammar

/-- Take in a long option. -/
def takeLong (grammar : Grammar) (reading : Reading) (name : String) (attached : Option String) :
    Except UsageError Reading :=
  match grammar.long? name with
  | none => .error .unknownArgument
  | some form =>
    match form.takesValue, attached with
    | true, some value => reading.take form.key value
    | true, none => reading.defer form.key none
    | false, some _ => .error .unexpectedValue
    | false, none => reading.takeFlag form.key

/-- Take in letters: flags, up to one with a value, which takes the rest. -/
def takeLetters (grammar : Grammar) (reading : Reading) : List Char → Except UsageError Reading
  | [] => .ok reading
  | letter :: rest =>
    match grammar.short? letter with
    | none => .error .unknownArgument
    | some form =>
      if form.takesValue then
        match rest with
        | [] => reading.defer form.key none
        | '=' :: value => reading.take form.key (String.ofList value)
        | value => reading.take form.key (String.ofList value)
      else do takeLetters grammar (← reading.takeFlag form.key) rest

/-- Take in a word that belongs to no option. -/
def takeWord (grammar : Grammar) (reading : Reading) (word : String) :
    Except UsageError Reading :=
  match grammar.operand with
  | some key =>
    if reading.hasMet key then .error .unknownArgument else reading.defer key (some word)
  | none => .error (if grammar.hasCommands then .unknownCommand else .unknownArgument)

/-- Take in the words after a double dash. A command cannot stand there. -/
def takeWords (grammar : Grammar) (reading : Reading) (words : List String) :
    Except UsageError Reading :=
  words.foldlM (fun reading word ↦
    if grammar.hasCommands && (Word.ofText? word).isSome then .error .unknownArgument
    else grammar.takeWord reading word) reading

/-- Take in one argument. -/
def takeArgument (grammar : Grammar) (reading : Reading) (argument : String) :
    Except UsageError Reading :=
  match longParts? argument, shortLetters? argument with
  | some (name, attached), _ => grammar.takeLong reading name attached
  | none, some letters => grammar.takeLetters reading letters
  | none, none =>
    match reading.awaiting? with
    | some key => .ok { reading with pending := some (key, some argument) }
    | none => grammar.takeWord reading argument

/-- Read the arguments of one level, up to a command if one may follow. -/
def read (grammar : Grammar) (reading : Reading) :
    List String → Except UsageError (Reading × Option (Word × List String))
  | [] => do return (← reading.settle, none)
  | argument :: rest =>
    match if grammar.hasCommands then Word.ofText? argument else none with
    | some word => do return (← reading.settle, some (word, rest))
    | none =>
      if argument = "--" then do return (← (← grammar.takeWords reading rest).settle, none)
      else do read grammar (← grammar.takeArgument reading argument) rest

end Grammar

/-! ### Commands

What the command line asks for: document a path, or write a first configuration. Arguments that
ask for nothing that can be done are refused with the reason.
-/

/-- How a path is to be documented. -/
structure GenerateOptions where
  path : Path
  /-- The file that the documentation is written to, if it is not printed. -/
  output : Option Path := none
  /-- The configuration file, if it is not to be looked for. -/
  config : Option Path := none
  /-- The word for the form of the output. -/
  format : String := "json"
  /-- Whether the output is indented in any case. -/
  pretty : Bool := false

/-- The file that a first configuration is written to. -/
structure InitOptions where
  output : Path := ⟨"react-tsdoc.yaml"⟩

/-- What is to be done. -/
inductive Task where
  | generate (options : GenerateOptions)
  | init (options : InitOptions)

end Command

/-- A command line that was understood. -/
structure Command where
  task : Command.Task
  verbose : Bool
  quiet : Bool

namespace Command

/-- Two flags that contradict each other cannot stand at one level. -/
def refuseConflict (reading : Reading) : Except UsageError Unit :=
  if reading.has .verbose && reading.has .quiet then .error .conflict else .ok ()

/-- The arguments of the command that documents a path. -/
def readGenerate (arguments : List String) : Except UsageError (Task × Reading) := do
  let (reading, _) ← Grammar.generate.read {} arguments
  refuseConflict reading
  match reading.value? .path with
  | none => throw .missingArgument
  | some path =>
    return (.generate {
      path := ⟨path⟩
      output := (reading.value? .output).map Path.mk
      config := (reading.value? .config).map Path.mk
      format := (reading.value? .format).getD "json"
      pretty := reading.has .pretty }, reading)

/-- The arguments of the command that writes a first configuration. -/
def readInit (arguments : List String) : Except UsageError (Task × Reading) := do
  let (reading, _) ← Grammar.init.read {} arguments
  refuseConflict reading
  match reading.value? .output with
  | none => return (.init {}, reading)
  | some output => return (.init ⟨⟨output⟩⟩, reading)

/-- Help is asked for on everything or on one command. -/
def readHelp : List String → UsageError
  | [] => .helpAsked
  | [word] => if (Word.ofText? word).isSome then .helpAsked else .unknownCommand
  | _ => .unknownCommand

/-- The arguments of a command. -/
def readTask : Word → List String → Except UsageError (Task × Reading)
  | .generate, arguments => readGenerate arguments
  | .init, arguments => readInit arguments
  | .help, arguments => .error (readHelp arguments)

/-- The command that some arguments, without the program's name, ask for. A flag that every level
has may stand at any of them. -/
def parse (arguments : List String) : Except UsageError Command := do
  let (reading, command) ← Grammar.top.read {} arguments
  match command with
  | none => throw (if reading.given.isEmpty then .nothingGiven else .noCommand)
  | some (word, rest) =>
    let (task, inner) ← readTask word rest
    refuseConflict reading
    return ⟨task, reading.has .verbose || inner.has .verbose,
      reading.has .quiet || inner.has .quiet⟩

end Command

end PropDoc

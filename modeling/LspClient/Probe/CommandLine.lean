import LspClient.Text.Numeral

/-!
# Command lines

The arguments of the program. A command line has up to two levels: options of
the program itself come before the name of a subcommand, options of the
subcommand after it. The path of the configuration may be given on either
level, and the inner one counts.

An option that takes a value settles late. When its name has been read the
option waits, and the argument that comes next becomes its value, but nothing
is checked until another option, a positional argument or the end of the level
comes along. So of two faults it is not always the first one that is reported,
and a fault inside a subcommand is reported before one that waits outside.

The first argument behind the server's command that is no option of the probe
starts the server's own arguments, and after it nothing is an option any
more. Two hyphens do the same for all that follows them.
-/

namespace LspClient.CommandLine

/-- Why a command line asks for nothing that can be done. -/
inductive UsageError where
  /-- no arguments at all -/
  | nothingAsked
  | missingSubcommand
  | missingArgument
  | invalidSubcommand
  | unknownArgument
  /-- an option was given twice -/
  | argumentConflict
  /-- a value is missing or empty -/
  | invalidValue
  /-- a value is no number -/
  | valueValidation
  /-- a value for an option that takes none -/
  | tooManyValues
  /-- the caller asks for help -/
  | help
  /-- the caller asks for the version of the program, or of a subcommand -/
  | version (subcommand : Option String)
  deriving DecidableEq, Repr

/-- The exit code of each: asking is no fault. -/
def UsageError.exitCode : UsageError → Nat
  | .help => 0
  | .version _ => 0
  | _ => 2

/-- The options. -/
inductive Flag where
  | config
  | root
  | timeout
  | debug
  | help
  | version
  deriving DecidableEq, Repr

/-- The name of an option behind two hyphens. -/
def Flag.name : Flag → String
  | .config => "config"
  | .root => "root"
  | .timeout => "timeout-ms"
  | .debug => "debug"
  | .help => "help"
  | .version => "version"

/-- The level of a command line that an argument stands on. -/
inductive Level where
  | program
  | capabilities
  | probe
  deriving DecidableEq, Repr

namespace Level

/-- The name of a subcommand. -/
def name? : Level → Option String
  | .program => none
  | .capabilities => some "capabilities"
  | .probe => some "probe"

/-- The options of a level. -/
def flags : Level → List Flag
  | .probe => [.config, .root, .timeout, .debug, .help, .version]
  | _ => [.config, .help, .version]

/-- The option of a level with a name. -/
def flag? (level : Level) (name : String) : Option Flag :=
  level.flags.find? fun flag => flag.name == name

end Level

/-- An option that takes a value and is not settled yet. -/
inductive Waiting where
  | nothing
  | value (flag : Flag)
  | settlement (flag : Flag) (text : String)
  deriving DecidableEq, Repr

/-- What a level has said so far. -/
structure Said where
  config : Option String := none
  root : Option String := none
  timeout : Option Nat := none
  debug : Bool := false
  /-- the server's command -/
  server : Option String := none
  /-- the server's arguments -/
  args : List String := []
  waiting : Waiting := .nothing
  /-- whether two hyphens, or the server's first argument, have been read -/
  trailing : Bool := false
  deriving DecidableEq, Repr

namespace Said

/-- Stores a path. -/
def storePath (old : Option String) (text : String) : Except UsageError (Option String) :=
  if old.isSome then .error .argumentConflict
  else if text = "" then .error .invalidValue
  else .ok (some text)

/-- Stores the value of an option. -/
def store (s : Said) (flag : Flag) (text : String) : Except UsageError Said :=
  match flag with
  | .config => do return { s with config := ← storePath s.config text }
  | .root => do return { s with root := ← storePath s.root text }
  | .timeout =>
    if s.timeout.isSome then .error .argumentConflict
    else
      match Numeral.unsigned? text.toList with
      | some n => .ok { s with timeout := some n }
      | none => .error .valueValidation
  | _ => .ok s

/-- Settles the option that waits. -/
def settle (s : Said) : Except UsageError Said :=
  match s.waiting with
  | .nothing => .ok s
  | .value _ => .error .invalidValue
  | .settlement flag text => { s with waiting := .nothing }.store flag text

/-- Whether the server's own arguments may start here. -/
def mayTrail (s : Said) : Bool :=
  s.server.isSome

end Said

/-- How an argument is written. -/
inductive Shape where
  /-- two hyphens -/
  | escape
  | long (name : String) (value : Option String)
  /-- a hyphen and letters -/
  | short (letters : List Char)
  | plain
  deriving DecidableEq, Repr

/-- The name and value of an option of more than one letter. -/
def splitLong (cs : List Char) : Shape :=
  let name := String.ofList (cs.takeWhile (· != '='))
  match cs.dropWhile (· != '=') with
  | [] => .long name none
  | _ :: value => .long name (some (String.ofList value))

/-- The shape of an argument. -/
def shape (arg : String) : Shape :=
  match arg.toList with
  | ['-', '-'] => .escape
  | '-' :: '-' :: rest => splitLong rest
  | ['-'] => .plain
  | '-' :: letters => .short letters
  | _ => .plain

/-- What became of an argument that might be an option. -/
inductive Taken where
  | done (s : Said)
  /-- it is no option, so it may be a value or a positional argument -/
  | free

/-- An option that takes no value. -/
def switch (level : Level) (s : Said) (flag : Flag) : Except UsageError Said := do
  let s ← s.settle
  match flag with
  | .help => .error .help
  | .version => .error (.version level.name?)
  | _ => if s.debug then .error .argumentConflict else .ok { s with debug := true }

/-- Whether an option takes a value. -/
def Flag.takesValue : Flag → Bool
  | .config => true
  | .root => true
  | .timeout => true
  | _ => false

/-- An option of more than one letter. -/
def takeLong (level : Level) (s : Said) (name : String) (value : Option String) :
    Except UsageError Taken :=
  match level.flag? name with
  | some flag =>
    match flag.takesValue, value with
    | true, some text => do return .done (← (← s.settle).store flag text)
    | true, none => do return .done { ← s.settle with waiting := .value flag }
    | false, some _ => .error .tooManyValues
    | false, none => do return .done (← switch level s flag)
  | none => if s.mayTrail then .ok .free else .error .unknownArgument

/-- The option of a letter. -/
def letter? (c : Char) : Option Flag :=
  if c = 'h' then some .help else if c = 'V' then some .version else none

/-- Options of one letter. The first one decides, since every option of one
letter asks for something that ends the reading. -/
def takeShort (level : Level) (s : Said) (letters : List Char) : Except UsageError Taken :=
  if s.mayTrail && letters.any fun c => (letter? c).isNone then .ok .free
  else
    match letters.head?.bind letter? with
    | some flag => do return .done (← switch level s flag)
    | none => .error .unknownArgument

/-- An argument that is neither an option nor the value of one. -/
def takePositional (level : Level) (s : Said) (arg : String) : Except UsageError Said :=
  match level with
  | .program =>
    .error (if s.trailing && ["probe", "capabilities", "help"].contains arg then .unknownArgument
      else .invalidSubcommand)
  | .capabilities => .error .unknownArgument
  | .probe => do
    let s ← s.settle
    match s.server with
    | none => return { s with server := some arg }
    | some _ => return { s with args := s.args ++ [arg], trailing := true }

/-- A free argument: the value of the option that waits for one, or a
positional argument. -/
def takeFree (level : Level) (s : Said) (arg : String) : Except UsageError Said :=
  match s.waiting with
  | .value flag => .ok { s with waiting := .settlement flag arg }
  | _ => takePositional level s arg

/-- One argument. -/
def take (level : Level) (s : Said) (arg : String) : Except UsageError Said :=
  if s.trailing then takePositional level s arg
  else
    let taken : Except UsageError Taken := match shape arg with
      | .escape => .ok (.done { s with trailing := true })
      | .long name value => takeLong level s name value
      | .short letters => takeShort level s letters
      | .plain => .ok .free
    match taken with
    | .error e => .error e
    | .ok (.done s) => .ok s
    | .ok .free => takeFree level s arg

/-- All arguments of a level. -/
def takeAll (level : Level) : Said → List String → Except UsageError Said
  | s, [] => s.settle
  | s, arg :: rest => do takeAll level (← take level s arg) rest

/-! ## Invocations -/

/-- What a probe is asked to do. -/
structure ProbeRequest where
  server : String
  args : List String := []
  root : Option String := none
  /-- how long to wait for the handshake, in milliseconds -/
  timeout : Nat := 5000
  debug : Bool := false
  deriving DecidableEq, Repr

/-- What the program is asked to do. -/
inductive Action where
  | capabilities
  | probe (request : ProbeRequest)
  deriving DecidableEq, Repr

/-- A command line that asks for something. -/
structure Invocation where
  config : Option String
  action : Action
  deriving DecidableEq, Repr

/-- The subcommand with a name. -/
def subcommand? (name : String) : Option Level :=
  if name = "probe" then some .probe
  else if name = "capabilities" then some .capabilities
  else none

/-- The probe that a level asks for. -/
def probeRequest (s : Said) : Except UsageError ProbeRequest :=
  match s.server with
  | none => .error .missingArgument
  | some server =>
    let standard : ProbeRequest := { server }
    .ok { server, args := s.args, root := s.root, timeout := s.timeout.getD standard.timeout,
          debug := s.debug }

/-- The action that a level asks for. -/
def action (level : Level) (s : Said) : Except UsageError Action :=
  match level with
  | .probe => do return .probe (← probeRequest s)
  | _ => .ok .capabilities

/-- The arguments behind the name of a subcommand. -/
def finish (outer : Said) (level : Level) (rest : List String) : Except UsageError Invocation := do
  let inner ← takeAll level {} rest
  let action ← action level inner
  let outer ← outer.settle
  return ⟨inner.config <|> outer.config, action⟩

/-- What to help with is a row of subcommands, and those have none of their
own. -/
def helpWith : List String → UsageError
  | [] => .help
  | [name] => if name = "help" ∨ (subcommand? name).isSome then .help else .invalidSubcommand
  | _ :: _ :: _ => .invalidSubcommand

/-- The end of a command line without a subcommand. -/
def withoutSubcommand (s : Said) : Except UsageError Invocation := do
  let s ← s.settle
  if s.config.isNone then .error .nothingAsked else .error .missingSubcommand

/-- The arguments of the program, after what it has said so far. -/
def parseFrom : Said → List String → Except UsageError Invocation
  | s, [] => withoutSubcommand s
  | s, arg :: rest =>
    let isValue := match s.waiting with
      | .value _ => true
      | _ => false
    if !s.trailing && !isValue && arg = "help" then .error (helpWith rest)
    else
      match if s.trailing || isValue then none else subcommand? arg with
      | some level => finish s level rest
      | none => do parseFrom (← take .program s arg) rest

/-- The arguments of the program. -/
def parse (args : List String) : Except UsageError Invocation :=
  parseFrom {} args

end LspClient.CommandLine

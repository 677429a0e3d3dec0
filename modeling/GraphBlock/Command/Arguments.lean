import GraphBlock.Files.Path

/-!
# Command-line arguments

The arguments are read from the left, one level for each subcommand.  A value is checked when the
next argument of its level is met or the level ends, and a level ends after the levels inside it.
Options that every level has may be given at each of them; the innermost value counts.
-/

namespace GraphBlock

inductive UsageError where
  /-- Options that exclude each other, or one of them twice at one level. -/
  | argumentConflict
  | invalidSubcommand
  | unknownArgument
  | missingRequiredArgument
  | missingSubcommand
  /-- An empty path, or an option without its value. -/
  | invalidValue
  /-- A value behind an option that takes none. -/
  | tooManyValues
  | displayHelp
  | displayVersion
  | displayHelpOnMissingArgumentOrSubcommand
  deriving DecidableEq, Repr

def UsageError.name : UsageError → String
  | argumentConflict => "ArgumentConflict"
  | invalidSubcommand => "InvalidSubcommand"
  | unknownArgument => "UnknownArgument"
  | missingRequiredArgument => "MissingRequiredArgument"
  | missingSubcommand => "MissingSubcommand"
  | invalidValue => "InvalidValue"
  | tooManyValues => "TooManyValues"
  | displayHelp => "DisplayHelp"
  | displayVersion => "DisplayVersion"
  | displayHelpOnMissingArgumentOrSubcommand => "DisplayHelpOnMissingArgumentOrSubcommand"

/-- The commands and their levels. -/
inductive CommandName where
  | top
  | check
  | fingerprint
  | request
  | cache
  | cachePath
  | config
  | configInit
  | configShow
  deriving DecidableEq, Repr

/-- What can be given at a level. -/
inductive Argument where
  | verbose
  | quiet
  | config
  | json
  | root
  | force
  | help
  | version
  | input
  deriving DecidableEq, Repr

namespace Argument

def takesValue : Argument → Bool
  | config | root | input => true
  | verbose | quiet | json | force | help | version => false

def long : Argument → Option String
  | verbose => some "verbose"
  | quiet => some "quiet"
  | config => some "config"
  | json => some "json"
  | root => some "root"
  | force => some "force"
  | help => some "help"
  | version => some "version"
  | input => none

def short : Argument → Option Char
  | verbose => some 'v'
  | quiet => some 'q'
  | config => some 'c'
  | help => some 'h'
  | version => some 'V'
  | json | root | force | input => none

end Argument

namespace CommandName

def subcommands : CommandName → List (String × CommandName)
  | top =>
    [("check", check), ("fingerprint", fingerprint), ("commands", request), ("cache", cache),
     ("config", config)]
  | cache => [("path", cachePath)]
  | config => [("init", configInit), ("show", configShow)]
  | check | fingerprint | request | cachePath | configInit | configShow => []

def needsSubcommand : CommandName → Bool
  | top | cache => true
  | _ => false

/-- The options of a level, those that every level has first. -/
def options (c : CommandName) : List Argument :=
  [.verbose, .quiet, .config, .help] ++
    match c with
    | top => [.version]
    | check => [.json]
    | cachePath => [.root]
    | configInit => [.force]
    | _ => []

def takesInput : CommandName → Bool
  | check | fingerprint | request | cachePath => true
  | _ => false

def subcommand? (c : CommandName) (name : String) : Option CommandName :=
  c.subcommands.lookup name

/-- Commands with subcommands also have one that shows help. -/
def hasHelp (c : CommandName) (name : String) : Bool :=
  name = "help" && c.subcommands ≠ []

def longOption? (c : CommandName) (name : String) : Option Argument :=
  c.options.find? (·.long == some name)

def shortOption? (c : CommandName) (name : Char) : Option Argument :=
  c.options.find? (·.short == some name)

/-- What is asked for by naming commands behind the word for help. -/
def help (c : CommandName) : List String → UsageError
  | [] => .displayHelp
  | name :: names =>
    match c.subcommand? name with
    | some d => d.help names
    | none => if c.hasHelp name && names = [] then .displayHelp else .invalidSubcommand

end CommandName

/-- What was given at one level so far. -/
structure Level where
  command : CommandName
  given : List (Argument × String)
  /-- An argument that is not checked yet, with its value if that is known. -/
  pending : Option (Argument × Option String)
  deriving DecidableEq, Repr

namespace Level

def enter (c : CommandName) : Level :=
  ⟨c, [], none⟩

def has (l : Level) (a : Argument) : Bool :=
  l.given.any (·.1 == a)

def value? (l : Level) (a : Argument) : Option String :=
  l.given.lookup a

/-- Takes an argument with its value, once. -/
def accept (l : Level) (a : Argument) (value : String) : Except UsageError Level :=
  if l.has a then .error .argumentConflict
  else if a.takesValue && value = "" then .error .invalidValue
  else .ok { l with given := l.given ++ [(a, value)] }

/-- Checks the argument that is pending. -/
def resolve (l : Level) : Except UsageError Level :=
  match l.pending with
  | none => .ok l
  | some (_, none) => .error .invalidValue
  | some (a, some value) => { l with pending := none }.accept a value

/-- Takes a flag; asking for help or for the version ends everything. -/
def flag (l : Level) (a : Argument) : Except UsageError Level := do
  let l ← l.resolve
  match a with
  | .help => .error .displayHelp
  | .version => .error .displayVersion
  | _ => l.accept a ""

/-- Takes an option whose value is attached to it, or waits for its value. -/
def option (l : Level) (a : Argument) (attached : Option String) : Except UsageError Level := do
  let l ← l.resolve
  match attached with
  | some value => l.accept a value
  | none => return { l with pending := some (a, none) }

/-- An argument in two dashes. -/
def long (l : Level) (text : List Char) : Except UsageError Level :=
  let name := String.ofList (text.takeWhile (· ≠ '='))
  let attached := match text.dropWhile (· ≠ '=') with
    | [] => none
    | _ :: value => some (String.ofList value)
  match l.command.longOption? name with
  | none => .error .unknownArgument
  | some a =>
    if a.takesValue then l.option a attached
    else if attached.isSome then .error .tooManyValues
    else l.flag a

/-- Flags behind one dash; the first option among them takes the rest as its value. -/
def short (l : Level) : List Char → Except UsageError Level
  | [] => .ok l
  | c :: rest =>
    match l.command.shortOption? c with
    | none => .error .unknownArgument
    | some a =>
      if a.takesValue then
        match rest with
        | [] => l.option a none
        | '=' :: value => l.option a (some (String.ofList value))
        | value => l.option a (some (String.ofList value))
      else do short (← l.flag a) rest

/-- Some option waits for its value. -/
def waits (l : Level) : Bool :=
  match l.pending with
  | some (_, none) => true
  | _ => false

def hasInput (l : Level) : Bool :=
  l.has .input ||
    match l.pending with
    | some (.input, _) => true
    | _ => false

/-- An argument that is no option. -/
def positional (l : Level) (text : String) (escaped : Bool) : Except UsageError Level :=
  if l.command.takesInput && !l.hasInput then do
    let l ← l.resolve
    return { l with pending := some (.input, some text) }
  else if escaped && ((l.command.subcommand? text).isSome || l.command.hasHelp text) then
    .error .unknownArgument
  else if l.command.subcommands ≠ [] then .error .invalidSubcommand
  else .error .unknownArgument

/-- What a level must and must not have. -/
def check (l : Level) (hasSubcommand : Bool) : Except UsageError Unit :=
  if !hasSubcommand && l.command.needsSubcommand then
    if l.given = [] then .error .displayHelpOnMissingArgumentOrSubcommand
    else .error .missingSubcommand
  else if l.has .verbose && l.has .quiet then .error .argumentConflict
  else if l.command.takesInput && !l.has .input then .error .missingRequiredArgument
  else .ok ()

/-- Ends the innermost level and then the levels around it. -/
def finish (hasSubcommand : Bool) : List Level → Except UsageError (List Level)
  | [] => .ok []
  | l :: outer => do
    let l ← l.resolve
    l.check hasSubcommand
    return l :: (← finish true outer)

/-- Reads arguments at the level `l`, which lies inside the levels `outer`. -/
def read (l : Level) (outer : List Level) (escaped : Bool) :
    List String → Except UsageError (List Level)
  | [] => finish false (l :: outer)
  | a :: rest =>
    if escaped then do read (← l.positional a true) outer true rest
    else
      match (if l.waits then none else l.command.subcommand? a) with
      | some c => read (enter c) (l :: outer) false rest
      | none =>
        if !l.waits && l.command.hasHelp a then .error (l.command.help rest)
        else
          match a.toList with
          | ['-', '-'] => read l outer true rest
          | '-' :: '-' :: text => do read (← l.long text) outer false rest
          | '-' :: c :: text => do read (← l.short (c :: text)) outer false rest
          | _ =>
            if l.waits then
              read { l with pending := l.pending.map fun p => (p.1, some a) } outer false rest
            else do read (← l.positional a false) outer false rest

end Level

/-- What the program is asked to do. -/
inductive Action where
  | check (input : Path) (json : Bool)
  | fingerprint (input : Path)
  | request (input : Path)
  | cachePath (input : Path) (root : Option Path)
  | configInit (force : Bool)
  | configShow
  deriving DecidableEq, Repr

inductive LogLevel where
  | info
  | debug
  deriving DecidableEq, Repr

def LogLevel.name : LogLevel → String
  | info => "info"
  | debug => "debug"

structure Invocation where
  action : Action
  /-- How much is logged; nothing if there is no level. -/
  logLevel : Option LogLevel
  configPath : Option Path
  deriving DecidableEq, Repr

/-- What the innermost level asks for. -/
def Level.action (l : Level) : Action :=
  let input : Path := ⟨(l.value? .input).getD ""⟩
  match l.command with
  | .check => .check input (l.has .json)
  | .fingerprint => .fingerprint input
  | .request => .request input
  | .cachePath => .cachePath input ((l.value? .root).map Path.mk)
  | .configInit => .configInit (l.has .force)
  | .top | .cache | .config | .configShow => .configShow

namespace Invocation

/-- What the levels amount to, the innermost first. -/
def ofLevels (levels : List Level) : Invocation where
  action := (levels.head?.map Level.action).getD .configShow
  logLevel :=
    if levels.any (·.has .verbose) then some .debug
    else if levels.any (·.has .quiet) then none
    else some .info
  configPath := (levels.findSome? (·.value? .config)).map Path.mk

/-- Reads the arguments behind the program's name. -/
def parse (args : List String) : Except UsageError Invocation :=
  (Level.read (.enter .top) [] false args).map ofLevels

end Invocation

end GraphBlock

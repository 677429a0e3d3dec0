import GraphBlock.Cache.Service
import GraphBlock.Command.Arguments
import GraphBlock.Render.Request
import GraphBlock.Report.Basic
import GraphBlock.Settings.Store
import GraphBlock.Spec.Json
import GraphBlock.Spec.Parse

/-!
# Commands

What each command prints, and how the program ends.  A command asks the monad it runs in for files
and for the standard input; all its output comes back as text.
-/

namespace GraphBlock

/-- How output is set off, where colors are on. -/
inductive Emphasis where
  | failure
  | warning
  | success
  | strong
  | faint
  deriving DecidableEq, Repr

/-- The terminal's code. -/
def Emphasis.code : Emphasis → String
  | failure => "1;31"
  | warning => "33"
  | success => "32"
  | strong => "1"
  | faint => "2"

def paint (colors : Bool) (e : Emphasis) (s : String) : String :=
  if colors then "\x1b[" ++ e.code ++ "m" ++ s ++ "\x1b[0m" else s

/-- The report as it is shown on a terminal. -/
def Report.lines (r : Report) (colors : Bool) : String :=
  paint colors .failure "error" ++ ": " ++ r.failure.message ++ "\n"
    ++ r.details.elim "" (fun d => paint colors .warning "details" ++ ": " ++ d ++ "\n")
    ++ r.suggestion.elim "" (fun s => paint colors .success "suggestion" ++ ": " ++ s ++ "\n")

/-- A monad with files and a standard input. -/
class Host (m : Type → Type) extends FileSystem m where
  standardInput : m Bytes

/-- How a program ended. -/
structure Exit where
  code : Nat
  output : String
  errors : String
  deriving DecidableEq, Repr

namespace Command

variable {m : Type → Type} [Monad m] [Host m]

/-- The path that means the standard input. -/
def isStandardInput (p : Path) : Bool :=
  p.lineage = [⟨"-"⟩]

/-- Why bytes are no text. -/
def faultReason (f : Text.Utf8.Fault) : String :=
  let index := String.ofList (Text.Decimal.ofNat f.index)
  match f.length with
  | some n =>
    "invalid utf-8 sequence of " ++ String.ofList (Text.Decimal.ofNat n) ++ " bytes from index "
      ++ index
  | none => "incomplete utf-8 byte sequence from index " ++ index

/-- The text of a block. -/
def readSource (input : Path) : m (Except Failure String) := do
  if isStandardInput input then
    match Text.Utf8.decode (← Host.standardInput) with
    | .ok s => return .ok (String.ofList s)
    | .error f => return .error (.inputUnreadable "<stdin>" (faultReason f))
  else
    match ← FileSystem.readText input with
    | .ok s => return .ok s
    | .error e => return .error (.inputUnreadable input.text e.message)

/-- The spec of a block, or why there is none. -/
def loadSpec (input : Path) : m (Except Trouble Spec) := do
  match ← readSource input with
  | .error f => return .error (.ofCause (.failure f))
  | .ok source =>
    match Spec.parse source with
    | .ok s => return .ok s
    | .error e => return .error (.ofCause (.parse e))

def integer (i : Int64) : String :=
  ParseError.number i

/-- A summary of a spec for a reader. -/
def describe (colors : Bool) (s : Spec) : String :=
  let f := s.fields
  paint colors .success "✓" ++ " " ++ String.ofList (Text.Decimal.ofNat s.equations.length)
    ++ " equation(s), " ++ integer f.width ++ "x" ++ integer f.height ++ " over x∈["
    ++ integer f.left ++ ", " ++ integer f.right ++ "] y∈[" ++ integer f.bottom ++ ", "
    ++ integer f.top ++ "]\n"
    ++ String.join (s.equations.map fun e => "  " ++ e.line ++ "\n")
    ++ paint colors .strong "fingerprint:" ++ " " ++ s.fingerprint ++ "\n"

/-- Where an image is or would be kept, and whether it is there. -/
def reportTarget (colors : Bool) : CacheTarget → m String
  | .memory key =>
    return "memory:" ++ key ++ "\n"
      ++ paint colors .faint "In-memory entries last for a single session only" ++ "\n"
  | .file path => do
    let present ← FileSystem.present path
    return path.text ++ "\n"
      ++ (if present then paint colors .success "cached"
        else paint colors .warning "not cached") ++ "\n"

def showCachePath (colors : Bool) (places : Surroundings) (settings : Settings)
    (input root : Path) : m (Except Trouble String) := do
  match ← loadSpec input with
  | .error t => return .error t
  | .ok spec =>
    let service : CacheService := ⟨settings.cache, settings.filePrefix, places.temporary⟩
    let notice := if settings.cache.enabled then ""
      else paint colors .warning "Caching is disabled in the configuration" ++ "\n"
    let report ← reportTarget colors ((service.storeFor root).target spec.fingerprint)
    return .ok (notice ++ report)

/-- Writes the default settings, unless something is there and `force` is off. -/
def initSettings (colors force : Bool) (path : Path) (lib : Toml.Library := .standard) :
    m (Except Trouble String) := do
  if (← FileSystem.present path) && !force then
    return .ok ("❌ Config already exists at: " ++ path.text
      ++ "\n   Use --force to overwrite\n")
  else
    match ← Settings.default.save path lib with
    | .error t => return .error t
    | .ok () =>
      return .ok ("✅ Created config at: " ++ path.text ++ "\n\n"
        ++ paint colors .strong "Configuration:" ++ "\n" ++ Settings.default.toToml lib ++ "\n")

def showSettings (colors : Bool) (path : Path) (lib : Toml.Library := .standard) :
    m (Except Trouble String) := do
  let present ← FileSystem.present path
  match ← Settings.load path lib with
  | .error t => return .error t
  | .ok settings =>
    let note := if present then ""
      else " " ++ paint colors .faint "(not found, using defaults)"
    return .ok (paint colors .strong "Config file:" ++ " " ++ path.text ++ note ++ "\n\n"
      ++ settings.toToml lib ++ "\n")

end Command

open Command in
/-- What a command prints, or what went wrong. -/
def Action.run {m : Type → Type} [Monad m] [Host m] (colors : Bool) (places : Surroundings)
    (configPath : Option Path) (action : Action) (lib : Toml.Library := .standard) :
    m (Except Trouble String) :=
  match action with
  | check input json => do
    match ← loadSpec input with
    | .error t => return .error t
    | .ok s =>
      return .ok (if json then s.toJson.pretty ++ "\n" else describe colors s)
  | fingerprint input => do
    return (← loadSpec input).map fun s => s.fingerprint ++ "\n"
  | request input => do
    return (← loadSpec input).map fun s => s.request.toJson.pretty ++ "\n"
  | cachePath input root => do
    match configPath.elim places.settingsPath .ok with
    | .error t => return .error t
    | .ok path =>
      match ← Settings.load path lib with
      | .error t => return .error t
      | .ok settings =>
        showCachePath colors places settings input (root.getD places.workingDirectory)
  | configInit force => do
    match configPath.elim places.settingsPath .ok with
    | .error t => return .error t
    | .ok path => initSettings colors force path lib
  | configShow => do
    match configPath.elim places.settingsPath .ok with
    | .error t => return .error t
    | .ok path => showSettings colors path lib

def version : String :=
  "plotmark 0.3.2\n"

/-- A short account of the commands. -/
def usage : String :=
  "Usage: plotmark [OPTIONS] <COMMAND>\n\n"
    ++ "Commands:\n"
    ++ "  check <INPUT> [--json]           Validate a graph block\n"
    ++ "  fingerprint <INPUT>              Print the fingerprint of a graph block\n"
    ++ "  commands <INPUT>                 Print the renderer request for a graph block as JSON\n"
    ++ "  cache path <INPUT> [--root DIR]  Show where a graph's render is cached\n"
    ++ "  config [init [--force] | show]   Manage the user configuration\n\n"
    ++ "Options:\n"
    ++ "  -v, --verbose        Enable debug logging\n"
    ++ "  -q, --quiet          Suppress all logging\n"
    ++ "  -c, --config <PATH>  Path to an alternate config file\n"

def UsageError.exit : UsageError → Exit
  | displayHelp => ⟨0, usage, ""⟩
  | displayVersion => ⟨0, version, ""⟩
  | displayHelpOnMissingArgumentOrSubcommand => ⟨2, "", usage⟩
  | e => ⟨2, "", "error: " ++ e.name ++ "\n\n" ++ usage⟩

/-- Runs the program with the arguments behind its name. -/
def runProgram {m : Type → Type} [Monad m] [Host m] (colors : Bool) (places : Surroundings)
    (args : List String) (lib : Toml.Library := .standard) : m Exit := do
  match Invocation.parse args with
  | .error e => return e.exit
  | .ok i =>
    match ← i.action.run colors places i.configPath lib with
    | .ok output => return ⟨0, output, ""⟩
    | .error t => return ⟨1, "", (Report.ofTrouble t).lines colors⟩

end GraphBlock

import GraphBlock.Files.System
import GraphBlock.Report.Failure
import GraphBlock.Settings.Document

/-!
# The settings file

Where the settings file is, and how it is read and written.  A file that is not there gives the
defaults; a failure names the path it concerns.  The last argument is the library that writes and
reads the document.
-/

namespace GraphBlock

/-- What the surroundings say about places. -/
structure Surroundings where
  home : Option Path
  /-- The path that the variable for the settings file holds, if it is set. -/
  settingsVariable : Option String
  /-- The platform's directory for temporary files. -/
  temporary : Path
  workingDirectory : Path
  deriving DecidableEq, Repr

namespace Surroundings

def defaultSettingsPath (s : Surroundings) : Except Trouble Path :=
  match s.home with
  | some home => .ok ((home.join ⟨".plotmark"⟩).join ⟨"config.toml"⟩)
  | none => .error (.ofCause (.message "Unable to determine home directory"))

/-- The variable comes before the default, unless it is empty. -/
def settingsPath (s : Surroundings) : Except Trouble Path :=
  match s.settingsVariable with
  | some p => if p = "" then s.defaultSettingsPath else .ok ⟨p⟩
  | none => s.defaultSettingsPath

end Surroundings

namespace Settings

variable {m : Type → Type} [Monad m] [FileSystem m]

/-- Reads a settings file that has to be there. -/
def loadFrom (path : Path) (lib : Toml.Library := .standard) : m (Except Trouble Settings) := do
  match ← FileSystem.readText path with
  | .error e =>
    return .error ((Trouble.ofCause (.io e)).within ("Failed to read config from " ++ path.text))
  | .ok text =>
    match ofToml? text lib with
    | some s => return .ok s
    | none =>
      return .error
        ((Trouble.ofCause .settings).within ("Failed to parse config from " ++ path.text))

/-- Reads a settings file if it is known to be there. -/
def load (path : Path) (lib : Toml.Library := .standard) : m (Except Trouble Settings) := do
  if ← FileSystem.present path then loadFrom path lib else return .ok .default

/-- Makes the directory of the file, if the path names one. -/
def makeParent (path : Path) : m (Except Trouble Unit) := do
  match path.parent? with
  | none => return .ok ()
  | some parent =>
    match ← FileSystem.makeDirectories parent with
    | .ok () => return .ok ()
    | .error e =>
      return .error ((Trouble.ofCause (.io e)).within
        ("Failed to create config directory: " ++ parent.text))

/-- Writes a settings file, with the directories that it lacks. -/
def save (s : Settings) (path : Path) (lib : Toml.Library := .standard) :
    m (Except Trouble Unit) := do
  match ← makeParent path with
  | .error t => return .error t
  | .ok () =>
    match ← FileSystem.write path (Text.Utf8.encode (s.toToml lib).toList) with
    | .ok () => return .ok ()
    | .error e =>
      return .error ((Trouble.ofCause (.io e)).within
        ("Failed to write config to " ++ path.text))

end Settings

end GraphBlock

import GraphBlock.Command.Run

/-!
# The program

Connects the commands to the machine: files, the standard streams and the environment.
-/

namespace GraphBlock.Machine

/-- A failure of the operating system with its text and number. -/
def numbered (kind : IoErrorKind) (details : String) (code : UInt32) : IoError :=
  ⟨kind, details ++ " (os error " ++ toString code ++ ")"⟩

def describe : IO.Error → IoError
  | .noFileOrDirectory .. => .noSuchEntry
  | .alreadyExists .. => .alreadyExists
  | .permissionDenied _ code details => numbered .permissionDenied details code
  | .inappropriateType _ code details => numbered .other details code
  | .invalidArgument _ code details => numbered .other details code
  | .otherError code details => numbered .other details code
  | e => ⟨.other, toString e⟩

def attempt {α : Type} (action : IO α) : IO (Except IoError α) := do
  match ← action.toBaseIO with
  | .ok a => return .ok a
  | .error e => return .error (describe e)

/-- A directory can be opened but not read. -/
def kindOf (p : Path) : IO (Except IoError FileKind) := do
  match ← attempt (IO.FS.Handle.mk p.text .read) with
  | .error e => return .error e
  | .ok handle =>
    match ← attempt (handle.read 1) with
    | .ok _ => return .ok .file
    | .error _ => return .ok .directory

/-- Everything on the standard input. -/
def standardInput : IO Bytes := do
  let stdin ← IO.getStdin
  let mut all := ByteArray.empty
  repeat
    let chunk ← stdin.read 65536
    if chunk.isEmpty then break
    all := all ++ chunk
  return all.toList

instance : Host IO where
  kindOf := kindOf
  read p := do return (← attempt (IO.FS.readBinFile p.text)).map ByteArray.toList
  write p bytes := attempt (IO.FS.writeBinFile p.text ⟨bytes.toArray⟩)
  makeDirectory p := attempt (IO.FS.createDir p.text)
  standardInput := standardInput

def surroundings : IO Surroundings := do
  let home ← IO.getEnv "HOME"
  return {
    home := home.bind fun h => if h = "" then none else some ⟨h⟩
    settingsVariable := ← IO.getEnv "PLOTMARK_CONFIG"
    temporary := ⟨(← IO.getEnv "TMPDIR").getD "/tmp"⟩
    workingDirectory := ⟨(← IO.currentDir).toString⟩ }

/-- Colors can be asked for and ruled out; otherwise a terminal gets them. -/
def colors : IO Bool := do
  let isOn (name : String) : IO (Option Bool) := do
    return (← IO.getEnv name).map (· ≠ "0")
  if (← isOn "CLICOLOR_FORCE") = some true then return true
  if (← isOn "NO_COLOR").isSome then return false
  return ((← isOn "CLICOLOR").getD true) && (← (← IO.getStdout).isTty)

end GraphBlock.Machine

open GraphBlock Machine in
def main (args : List String) : IO UInt32 := do
  let exit : Exit ← runProgram (← colors) (← surroundings) args
  (← IO.getStdout).putStr exit.output
  (← IO.getStderr).putStr exit.errors
  return UInt32.ofNat exit.code

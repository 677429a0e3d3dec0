import GraphBlock.Files.Path
import GraphBlock.Text.Utf8

/-!
# Access to files

What the library asks of a file system, over any monad that offers it, and what it builds from
that: whether something exists, reading text, and making a directory with its ancestors.
-/

namespace GraphBlock

/-- The kinds of failure that are told apart. -/
inductive IoErrorKind where
  | notFound
  | permissionDenied
  | other
  deriving DecidableEq, Repr

structure IoError where
  kind : IoErrorKind
  message : String
  deriving DecidableEq, Repr

namespace IoError

def noSuchEntry : IoError :=
  ⟨.notFound, "No such file or directory (os error 2)"⟩

def alreadyExists : IoError :=
  ⟨.other, "File exists (os error 17)"⟩

def notADirectory : IoError :=
  ⟨.other, "Not a directory (os error 20)"⟩

def isADirectory : IoError :=
  ⟨.other, "Is a directory (os error 21)"⟩

def nameTooLong : IoError :=
  ⟨.other, "File name too long (os error 36)"⟩

/-- A path that holds the character zero reaches no file. -/
def nulInName : IoError :=
  ⟨.other, "file name contained an unexpected NUL byte"⟩

def invalidText : IoError :=
  ⟨.other, "stream did not contain valid UTF-8"⟩

end IoError

inductive FileKind where
  | file
  | directory
  deriving DecidableEq, Repr

class FileSystem (m : Type → Type) where
  kindOf : Path → m (Except IoError FileKind)
  read : Path → m (Except IoError Bytes)
  /-- Replaces the contents of a file, or makes one in a directory that exists. -/
  write : Path → Bytes → m (Except IoError Unit)
  /-- Makes one directory in a directory that exists. -/
  makeDirectory : Path → m (Except IoError Unit)

namespace FileSystem

variable {m : Type → Type} [Monad m] [FileSystem m]

/-- Nothing there is an answer; any other failure leaves the question open. -/
def exists? (p : Path) : m (Except IoError Bool) := do
  match ← kindOf p with
  | .ok _ => return .ok true
  | .error e => return if e.kind = .notFound then .ok false else .error e

/-- Something is known to be there. -/
def present (p : Path) : m Bool := do
  match ← exists? p with
  | .ok b => return b
  | .error _ => return false

def isDirectory (p : Path) : m Bool := do
  match ← kindOf p with
  | .ok .directory => return true
  | _ => return false

/-- The contents of a file as text. -/
def readText (p : Path) : m (Except IoError String) := do
  match ← read p with
  | .error e => return .error e
  | .ok bytes =>
    match Text.Utf8.decode bytes with
    | .ok s => return .ok (String.ofList s)
    | .error _ => return .error .invalidText

/-- Makes the first of the paths, each of which lies in the next one; what lies further off is made
only if it is missing.  A directory that is there already is no failure. -/
def makeLineage : List Path → m (Except IoError Unit)
  | [] => return .ok ()
  | p :: ancestors => do
    match ← makeDirectory p with
    | .ok () => return .ok ()
    | .error e =>
      if e.kind = .notFound then
        match ← makeLineage ancestors with
        | .error e => return .error e
        | .ok () =>
          match ← makeDirectory p with
          | .ok () => return .ok ()
          | .error e => return if ← isDirectory p then .ok () else .error e
      else return if ← isDirectory p then .ok () else .error e

/-- Makes a directory and whatever ancestors it lacks. -/
def makeDirectories (p : Path) : m (Except IoError Unit) :=
  makeLineage p.lineage

end FileSystem

end GraphBlock

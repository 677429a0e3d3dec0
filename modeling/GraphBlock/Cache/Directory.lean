import GraphBlock.Cache.Error

/-!
# Images in a directory

One file for each image.  A lookup asks whether the file is there and reads it; whatever goes wrong
is a miss.  A store first asks for the directory, which is never made.
-/

namespace GraphBlock

structure DirectoryCache where
  directory : Path
  filePrefix : String
  deriving DecidableEq, Repr

namespace DirectoryCache

def fileName (c : DirectoryCache) (fingerprint : String) : String :=
  c.filePrefix ++ "-graph-" ++ fingerprint ++ ".png"

def pathFor (c : DirectoryCache) (fingerprint : String) : Path :=
  c.directory.join ⟨c.fileName fingerprint⟩

variable {m : Type → Type} [Monad m] [FileSystem m]

/-- The contents of the entry's file, if it is there and can be read. -/
def lookup (c : DirectoryCache) (fingerprint : String) : m (Option Bytes) := do
  let path := c.pathFor fingerprint
  match ← FileSystem.exists? path with
  | .ok true =>
    match ← FileSystem.read path with
    | .ok image => return some image
    | .error _ => return none
  | _ => return none

def store (c : DirectoryCache) (fingerprint : String) (image : Bytes) :
    m (Except CacheError Unit) := do
  if ← FileSystem.isDirectory c.directory then
    let path := c.pathFor fingerprint
    match ← FileSystem.write path image with
    | .ok () => return .ok ()
    | .error e => return .error (.ioFailure path e)
  else return .error (.directoryMissing c.directory)

end DirectoryCache

end GraphBlock

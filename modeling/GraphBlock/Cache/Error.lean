import GraphBlock.Files.System

/-!
# Why the cache failed

A failed read only ever counts as a miss; a failed write is reported beside the image.
-/

namespace GraphBlock

inductive CacheError where
  /-- The cache directory is not there.  It is never made. -/
  | directoryMissing (path : Path)
  | ioFailure (path : Path) (source : IoError)
  | readFailed (path : Path) (source : IoError)
  deriving DecidableEq, Repr

def CacheError.message : CacheError → String
  | directoryMissing path => "Cache directory does not exist: " ++ path.text
  | ioFailure path _ => "Failed to write cache file " ++ path.text
  | readFailed path _ => "Failed to read cache file " ++ path.text

/-- The failure behind this one. -/
def CacheError.source? : CacheError → Option IoError
  | directoryMissing _ => none
  | ioFailure _ source | readFailed _ source => some source

end GraphBlock

import GraphBlock.Files.Path

/-!
# Settings

What a user can configure, with a default for everything.
-/

namespace GraphBlock

/-- Where rendered images are kept. -/
inductive CacheLocation where
  | memory
  | filesystem
  deriving DecidableEq, Repr

def CacheLocation.name : CacheLocation → String
  | memory => "memory"
  | filesystem => "filesystem"

structure CacheSettings where
  enabled : Bool
  location : CacheLocation
  /-- Where files are kept.  A relative directory lies below the root of each request, and without
  one the directory for temporary files is taken. -/
  directory : Option Path
  deriving DecidableEq, Repr

def CacheSettings.default : CacheSettings :=
  ⟨true, .memory, none⟩

structure RendererSettings where
  /-- The origin that a completion has to name. -/
  origin : String
  deriving DecidableEq, Repr

def RendererSettings.default : RendererSettings :=
  ⟨"app://plotmark"⟩

structure Settings where
  /-- What the name of a cache file begins with. -/
  filePrefix : String
  cache : CacheSettings
  renderer : RendererSettings
  deriving DecidableEq, Repr

def Settings.default : Settings :=
  ⟨"plotmark", .default, .default⟩

end GraphBlock

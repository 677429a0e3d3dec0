import GraphBlock.Cache.Directory
import GraphBlock.Cache.Memory
import GraphBlock.Settings.Basic

/-!
# The cache of a session

A service picks the place where images are kept by its settings, for each request anew because a
relative directory lies below the request's root.  The map in memory is handed in and out:
services that share it are services that are given the same map.  `CachePool` keeps any number of
services and says who shares: a clone shares with the service it was made from, a new service with
nobody.
-/

namespace GraphBlock

/-- The directory that settings ask for, for a request below `root`. -/
def resolveDirectory (configured : Option Path) (temporary root : Path) : Path :=
  match configured with
  | some p => if p.isAbsolute then p else root.join p
  | none => temporary

/-- Where the image of a fingerprint is or would be kept. -/
inductive CacheTarget where
  | memory (key : String)
  | file (path : Path)
  deriving DecidableEq, Repr

/-- Where the images of one request are kept. -/
inductive CacheStore where
  | memory
  | directory (cache : DirectoryCache)
  deriving DecidableEq, Repr

namespace CacheStore

variable {m : Type → Type} [Monad m] [FileSystem m]

def lookup (s : CacheStore) (map : MemoryCache) (fingerprint : String) : m (Option Bytes) :=
  match s with
  | memory => return map.lookup fingerprint
  | directory c => c.lookup fingerprint

/-- The map after the store, and how the store went. -/
def store (s : CacheStore) (map : MemoryCache) (fingerprint : String) (image : Bytes) :
    m (MemoryCache × Except CacheError Unit) :=
  match s with
  | memory => return (map.insert fingerprint image, .ok ())
  | directory c => return (map, ← c.store fingerprint image)

def target (s : CacheStore) (fingerprint : String) : CacheTarget :=
  match s with
  | memory => .memory fingerprint
  | directory c => .file (c.pathFor fingerprint)

end CacheStore

structure CacheService where
  settings : CacheSettings
  filePrefix : String
  /-- The platform's directory for temporary files. -/
  temporary : Path
  deriving DecidableEq, Repr

def CacheService.storeFor (s : CacheService) (root : Path) : CacheStore :=
  match s.settings.location with
  | .memory => .memory
  | .filesystem =>
    .directory ⟨resolveDirectory s.settings.directory s.temporary root, s.filePrefix⟩

/-- Services with the number of the map that each of them uses, and the maps. -/
structure CachePool where
  services : List (CacheService × Nat)
  maps : List MemoryCache
  deriving DecidableEq, Repr

namespace CachePool

def empty : CachePool :=
  ⟨[], []⟩

/-- A service with a map of its own. -/
def add (p : CachePool) (s : CacheService) : CachePool :=
  ⟨p.services ++ [(s, p.maps.length)], p.maps ++ [.empty]⟩

/-- A service with the settings and the map of service `i`. -/
def clone (p : CachePool) (i : Nat) : CachePool :=
  match p.services[i]? with
  | some s => { p with services := p.services ++ [s] }
  | none => p

def service? (p : CachePool) (i : Nat) : Option CacheService :=
  p.services[i]?.map (·.1)

/-- The map that service `i` uses. -/
def mapOf (p : CachePool) (i : Nat) : MemoryCache :=
  ((p.services[i]?.map (·.2)).bind fun f => p.maps[f]?).getD .empty

variable {m : Type → Type} [Monad m] [FileSystem m]

def lookup (p : CachePool) (i : Nat) (root : Path) (fingerprint : String) : m (Option Bytes) :=
  match p.service? i with
  | some s => (s.storeFor root).lookup (p.mapOf i) fingerprint
  | none => return none

def store (p : CachePool) (i : Nat) (root : Path) (fingerprint : String) (image : Bytes) :
    m (CachePool × Except CacheError Unit) :=
  match p.services[i]? with
  | some (s, f) => do
    let (map, r) ← (s.storeFor root).store (p.mapOf i) fingerprint image
    return ({ p with maps := p.maps.set f map }, r)
  | none => return (p, .ok ())

/-- What is asked of the services, by number. -/
inductive Step where
  | store (service : Nat) (root : Path) (fingerprint : String) (image : Bytes)
  | lookup (service : Nat) (root : Path) (fingerprint : String)
  | clone (service : Nat)
  | new (service : CacheService)
  deriving DecidableEq, Repr

inductive Answer where
  | stored (result : Except CacheError Unit)
  | found (image : Option Bytes)
  /-- The number of the service that was added. -/
  | added (service : Nat)

def step (p : CachePool) : Step → m (CachePool × Answer)
  | .store i root fingerprint image => do
    let (p, r) ← p.store i root fingerprint image
    return (p, .stored r)
  | .lookup i root fingerprint => do
    return (p, .found (← p.lookup i root fingerprint))
  | .clone i => return (p.clone i, .added p.services.length)
  | .new s => return (p.add s, .added p.services.length)

def run (p : CachePool) : List Step → m (CachePool × List Answer)
  | [] => return (p, [])
  | s :: ss => do
    let (p, a) ← p.step s
    let (p, as) ← p.run ss
    return (p, a :: as)

end CachePool

end GraphBlock

import GraphBlock.Cache.Service
import GraphBlock.Render.Request
import GraphBlock.Render.Router

/-!
# Rendering with a cache

The way from a spec to its image.  `start` looks into the cache and, on a miss, makes its request:
a listener is registered before the renderer gets it.  `finish` takes the outcome that was delivered
and fills the cache; `abandon` gives up.  The cache never makes a render fail.
-/

namespace GraphBlock

inductive RenderSource where
  | cache
  | renderer
  deriving DecidableEq, Repr

structure Rendered where
  image : Bytes
  source : RenderSource
  /-- Why the image could not be kept. -/
  cacheWarning : Option CacheError
  deriving DecidableEq, Repr

abbrev RenderResult := Except RenderError Rendered

/-- A render whose request was submitted and whose outcome is awaited. -/
structure PendingRender where
  fingerprint : String
  /-- Where the image will be kept; none if caching is off. -/
  store : Option CacheStore
  listener : Listener
  deriving DecidableEq, Repr

inductive Started where
  | done (result : RenderResult)
  | waiting (render : PendingRender) (request : PlotRequest)

structure Coordinator where
  cache : CacheService
  images : MemoryCache
  router : Router
  deriving DecidableEq, Repr

namespace Coordinator

variable {m : Type → Type} [Monad m] [FileSystem m]

/-- The store of a request, if images are cached at all. -/
def store? (c : Coordinator) (root : Path) : Option CacheStore :=
  if c.cache.settings.enabled then some (c.cache.storeFor root) else none

def lookup? (c : Coordinator) (store : Option CacheStore) (fingerprint : String) :
    m (Option Bytes) :=
  match store with
  | some s => s.lookup c.images fingerprint
  | none => return none

/-- Registers a listener and then hands the request to the renderer.  `submit` is what the renderer
says to it. -/
def request (c : Coordinator) (submit : PlotRequest → Except RenderError Unit) (spec : Spec)
    (root : Path) : Coordinator × Started :=
  let (router, listener) := c.router.register spec.fingerprint
  match submit spec.request with
  | .ok () =>
    ({ c with router }, .waiting ⟨spec.fingerprint, c.store? root, listener⟩ spec.request)
  | .error e => ({ c with router := router.release listener }, .done (.error e))

/-- Runs a render until it ends or waits. -/
def start (c : Coordinator) (submit : PlotRequest → Except RenderError Unit) (spec : Spec)
    (root : Path) : m (Coordinator × Started) := do
  match ← c.lookup? (c.store? root) spec.fingerprint with
  | some image => return (c, .done (.ok ⟨image, .cache, none⟩))
  | none => return c.request submit spec root

/-- Keeps an image, if images are cached. -/
def keep (c : Coordinator) (store : Option CacheStore) (fingerprint : String) (image : Bytes) :
    m (Coordinator × Option CacheError) :=
  match store with
  | none => return (c, none)
  | some s => do
    let (images, r) ← s.store c.images fingerprint image
    return ({ c with images },
      match r with
      | .ok () => none
      | .error e => some e)

/-- Runs a waiting render to its end, if its outcome was delivered. -/
def finish (c : Coordinator) (p : PendingRender) : m (Coordinator × Option RenderResult) :=
  match c.router.outcome? p.listener with
  | none => return (c, none)
  | some outcome =>
    let c := { c with router := c.router.release p.listener }
    match outcome with
    | .failure message => return (c, some (.error (.renderFailed p.fingerprint message)))
    | .success image => do
      let (c, warning) ← c.keep p.store p.fingerprint image
      return (c, some (.ok ⟨image, .renderer, warning⟩))

/-- Gives up a waiting render. -/
def abandon (c : Coordinator) (p : PendingRender) : Coordinator :=
  { c with router := c.router.release p.listener }

end Coordinator

end GraphBlock

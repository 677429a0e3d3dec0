import GraphBlock.Render.Coordinator
import GraphBlock.Spec.Parse

/-!
# A stand-in renderer

A renderer without a rendering surface, for trying out a host.  It answers every request the same
way and keeps a log of the requests it took.
-/

namespace GraphBlock

inductive StubMode where
  | succeed (image : Bytes)
  | fail (message : String)
  /-- Takes requests and never replies. -/
  | silent
  /-- Refuses requests. -/
  | unavailable
  deriving DecidableEq, Repr

structure Stub where
  mode : StubMode
  /-- The origin its replies carry. -/
  origin : String
  submissions : Nat
  log : List PlotRequest
  deriving DecidableEq, Repr

namespace Stub

def new (mode : StubMode) (origin : String) : Stub :=
  ⟨mode, origin, 0, []⟩

/-- What it says to a request. -/
def submit (s : Stub) (_ : PlotRequest) : Except RenderError Unit :=
  match s.mode with
  | .unavailable => .error (.rendererUnavailable "fake renderer offline")
  | _ => .ok ()

/-- Counts and logs a request it took. -/
def record (s : Stub) (request : PlotRequest) : Stub :=
  { s with submissions := s.submissions + 1, log := s.log ++ [request] }

@[simp] theorem submissions_record (s : Stub) (request : PlotRequest) :
    (s.record request).submissions = s.submissions + 1 := rfl

@[simp] theorem log_record (s : Stub) (request : PlotRequest) :
    (s.record request).log = s.log ++ [request] := rfl

def reply? (s : Stub) (fingerprint : String) : Option Completion :=
  match s.mode with
  | .succeed image => some ⟨s.origin, fingerprint, .success image⟩
  | .fail message => some ⟨s.origin, fingerprint, .failure message⟩
  | .silent | .unavailable => none

variable {m : Type → Type} [Monad m] [FileSystem m]

/-- Renders one spec to its end.  Without a result no reply came, and the render was given up. -/
def render (s : Stub) (c : Coordinator) (spec : Spec) (root : Path) :
    m (Stub × Coordinator × Option RenderResult) := do
  match ← c.start s.submit spec root with
  | (c, .done result) => return (s, c, some result)
  | (c, .waiting p request) =>
    let s := s.record request
    let c := match s.reply? request.fingerprint with
      | some reply => { c with router := (c.router.dispatch reply).1 }
      | none => c
    match ← c.finish p with
    | (c, some result) => return (s, c, some result)
    | (c, none) => return (s, c.abandon p, none)

end Stub

/-- A coordinator on a stand-in renderer. -/
structure StubSession where
  stub : Stub
  coordinator : Coordinator

namespace StubSession

/-- A session that trusts an origin and in which nothing was rendered yet. -/
def new (cache : CacheService) (trusted : String) (stub : Stub) : StubSession :=
  ⟨stub, ⟨cache, .empty, .trusting trusted⟩⟩

variable {m : Type → Type} [Monad m] [FileSystem m]

/-- Compiles a block and renders it below a root; a block that does not compile changes nothing. -/
def step (s : StubSession) (source : String) (root : Path := ⟨""⟩) :
    m (StubSession × Except ParseError (Spec × Option RenderResult)) := do
  match Spec.parse source with
  | .error e => return (s, .error e)
  | .ok spec =>
    let (stub, coordinator, result) ← s.stub.render s.coordinator spec root
    return (⟨stub, coordinator⟩, .ok (spec, result))

/-- Renders blocks one after the other, each below its root. -/
def run (s : StubSession) : List (String × Path) →
    m (StubSession × List (Except ParseError (Spec × Option RenderResult)))
  | [] => return (s, [])
  | (source, root) :: rest => do
    let (s, a) ← s.step source root
    let (s, as) ← s.run rest
    return (s, a :: as)

end StubSession

end GraphBlock

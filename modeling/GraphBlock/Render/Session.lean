import GraphBlock.Files.Disk
import GraphBlock.Render.Coordinator

/-!
# A host's session

A coordinator whose requests go over a channel to the host, and all renders started so far by
number.  A step starts a render, hands over a completion, gives a render up, closes the channel, or
renders a whole batch.  A batch runs its own renders only.  Its replies may resolve others too,
which stay in flight until they run on: when they are polled, or with the next completion of their
fingerprint.  `run` is a history in which completions come and renders are polled also outside of
the host's steps, and the host works on the files.
-/

namespace GraphBlock

structure Session where
  coordinator : Coordinator
  channelOpen : Bool
  /-- Each render's fingerprint, and what it waits for while it is in flight. -/
  renders : List (String × Option PendingRender)

namespace Session

def new (cache : CacheService) (origin : String) : Session :=
  ⟨⟨cache, .empty, .trusting origin⟩, true, []⟩

/-- What the channel says to a request. -/
def submit (s : Session) (_ : PlotRequest) : Except RenderError Unit :=
  if s.channelOpen then .ok () else .error (.rendererUnavailable "request channel closed")

variable {m : Type → Type} [Monad m] [FileSystem m]

/-- Starts a render under the next number. -/
def start (s : Session) (spec : Spec) (root : Path) : m (Session × Started) := do
  let (coordinator, started) ← s.coordinator.start s.submit spec root
  let waiting := match started with
    | .done _ => none
    | .waiting p _ => some p
  return ({ s with coordinator, renders := s.renders ++ [(spec.fingerprint, waiting)] }, started)

/-- Runs to their end the renders in flight that are due and whose outcome was delivered.  The list
holds renders with their numbers, and the result tells which of them ended how. -/
def finishAll (c : Coordinator) (due : String → PendingRender → Bool) :
    List ((String × Option PendingRender) × Nat) →
      m (Coordinator × List (String × Option PendingRender) × List (Nat × RenderResult))
  | [] => return (c, [], [])
  | ((f, waiting), i) :: rest => do
    match waiting with
    | none =>
      let (c, renders, ended) ← finishAll c due rest
      return (c, (f, none) :: renders, ended)
    | some p =>
      if due f p then
        match ← c.finish p with
        | (c, some result) =>
          let (c, renders, ended) ← finishAll c due rest
          return (c, (f, none) :: renders, (i, result) :: ended)
        | (c, none) =>
          let (c, renders, ended) ← finishAll c due rest
          return (c, (f, some p) :: renders, ended)
      else
        let (c, renders, ended) ← finishAll c due rest
        return (c, (f, some p) :: renders, ended)

/-- Whether a completion for this fingerprint has the render run on: if the render waits for it, or,
if `late`, also if it was resolved before. -/
def wakes (s : Session) (fingerprint : String) (late : Bool) (f : String) (p : PendingRender) :
    Bool :=
  f = fingerprint && (late || (s.coordinator.router.outcome? p.listener).isNone)

/-- Hands over a completion.  If it resolves a listener, the renders that it wakes are run to their
end in the order of their numbers. -/
def dispatch (s : Session) (completion : Completion) (late : Bool := true) :
    m (Session × Nat × List (Nat × RenderResult)) := do
  let (router, delivered) := s.coordinator.router.dispatch completion
  let c := { s.coordinator with router }
  if delivered = 0 then return ({ s with coordinator := c }, 0, [])
  else
    let (c, renders, ended) ←
      finishAll c (s.wakes completion.fingerprint late) s.renders.zipIdx
    return ({ s with coordinator := c, renders }, delivered, ended)

/-- Runs to their end the renders of a fingerprint that were resolved. -/
def poll (s : Session) (fingerprint : String) : m (Session × List (Nat × RenderResult)) := do
  let (c, renders, ended) ← finishAll s.coordinator (s.wakes fingerprint true) s.renders.zipIdx
  return ({ s with coordinator := c, renders }, ended)

/-- Gives a render up, and tells whether it was in flight. -/
def abort (s : Session) (i : Nat) : Session × Bool :=
  match s.renders[i]? with
  | some (f, some p) =>
    ({ s with coordinator := s.coordinator.abandon p, renders := s.renders.set i (f, none) }, true)
  | _ => (s, false)

/-- The host takes no more requests. -/
def close (s : Session) : Session :=
  { s with channelOpen := false }

/-- The fingerprints that a batch submitted. -/
def submitted (batch : List Started) : List String :=
  batch.filterMap fun
    | .done _ => none
    | .waiting _ request => some request.fingerprint

/-- Where the render of a spec stands in a batch. -/
inductive Task where
  | queued (spec : Spec)
  /-- No image was found, and the request is still to be made. -/
  | missed (spec : Spec)
  | begun (started : Started)

/-- What is done next in a batch. -/
inductive Turn where
  /-- The render at this place goes on until it has to wait again. -/
  | render (place : Nat)
  /-- The host answers the requests for this fingerprint that it has got. -/
  | reply (fingerprint : String)

/-- A batch that is being rendered, with the fingerprints of its requests so far. -/
structure Ongoing where
  coordinator : Coordinator
  tasks : List Task
  submitted : List String

/-- One turn of a render: it looks for its image, or makes its request, or ends with the outcome
that was delivered.  The result tells what it submitted. -/
def advance (s : Session) (c : Coordinator) (root : Path) :
    Task → m (Coordinator × Task × List String)
  | .queued spec => do
    match ← c.lookup? (c.store? root) spec.fingerprint with
    | some image => return (c, .begun (.done (.ok ⟨image, .cache, none⟩)), [])
    | none => return (c, .missed spec, [])
  | .missed spec =>
    let (c, started) := c.request s.submit spec root
    return (c, .begun started, submitted [started])
  | .begun (.waiting p request) => do
    match ← c.finish p with
    | (c, some result) => return (c, .begun (.done result), [])
    | (c, none) => return (c, .begun (.waiting p request), [])
  | .begun (.done result) => return (c, .begun (.done result), [])

def takeTurn (s : Session) (root : Path) (reply : String → Option Outcome) (b : Ongoing) :
    Turn → m Ongoing
  | .render i =>
    match b.tasks[i]? with
    | none => return b
    | some task => do
      let (coordinator, task, asked) ← s.advance b.coordinator root task
      return ⟨coordinator, b.tasks.set i task, b.submitted ++ asked⟩
  | .reply fingerprint =>
    match reply fingerprint with
    | none => return b
    | some outcome =>
      if fingerprint ∈ b.submitted then
        let completion := ⟨b.coordinator.router.origin, fingerprint, outcome⟩
        let router := (b.coordinator.router.dispatch completion).1
        return { b with coordinator := { b.coordinator with router } }
      else return b

def takeTurns (s : Session) (root : Path) (reply : String → Option Outcome) :
    Ongoing → List Turn → m Ongoing
  | b, [] => return b
  | b, turn :: turns => do
    let b ← s.takeTurn root reply b turn
    takeTurns s root reply b turns

/-- Brings a render to where it ends or waits for its outcome. -/
def begin (s : Session) (c : Coordinator) (root : Path) :
    Task → m (Coordinator × Started × List String)
  | .queued spec => do
    let (c, started) ← c.start s.submit spec root
    return (c, started, submitted [started])
  | .missed spec =>
    let (c, started) := c.request s.submit spec root
    return (c, started, submitted [started])
  | .begun started => return (c, started, [])

/-- Brings the renders of a batch there one after the other. -/
def startAll (s : Session) (c : Coordinator) (root : Path) :
    List Task → m (Coordinator × List Started × List String)
  | [] => return (c, [], [])
  | task :: tasks => do
    let (c, started, asked) ← s.begin c root task
    let (c, batch, rest) ← startAll s c root tasks
    return (c, started :: batch, asked ++ rest)

/-- Ends the renders of a batch one after the other; one that got no reply is given up. -/
def endAll (c : Coordinator) : List Started → m (Coordinator × List (Option RenderResult))
  | [] => return (c, [])
  | .done result :: rest => do
    let (c, results) ← endAll c rest
    return (c, some result :: results)
  | .waiting p _ :: rest => do
    match ← c.finish p with
    | (c, some result) =>
      let (c, results) ← endAll c rest
      return (c, some result :: results)
    | (c, none) =>
      let (c, results) ← endAll (c.abandon p) rest
      return (c, none :: results)

/-- Renders a batch at once.  The `turns` tell whose turn it is, as the files and the host's replies
come in.  What they leave is done in order: all renders make their requests, the host answers each
request with the reply to its fingerprint from the trusted origin, and the renders end; what has no
reply is given up with the batch.  The results stand in the order of the specs, with the
fingerprints of the requests in the order of submission. -/
def renderAll (s : Session) (specs : List Spec) (root : Path) (reply : String → Option Outcome)
    (turns : List Turn := []) : m (Session × List (Option RenderResult) × List String) := do
  let b ← s.takeTurns root reply ⟨s.coordinator, specs.map .queued, []⟩ turns
  let (c, batch, rest) ← s.startAll b.coordinator root b.tasks
  let submitted := b.submitted ++ rest
  let answers := submitted.filterMap fun f =>
    (reply f).map fun outcome => { origin := c.router.origin, fingerprint := f, outcome }
  let c := { c with router := c.router.listen answers }
  let (c, results) ← endAll c batch
  return ({ s with coordinator := c }, results, submitted)

/-- What a host asks of its session. -/
inductive Step where
  | start (spec : Spec) (root : Path)
  | dispatch (completion : Completion)
  | abort (render : Nat)
  | close
  | renderAll (specs : List Spec) (root : Path) (reply : String → Option Outcome)

inductive Answer where
  /-- How the render of this number began. -/
  | started (render : Nat) (started : Started)
  /-- How many listeners were resolved, and which renders ended how. -/
  | dispatched (delivered : Nat) (ended : List (Nat × RenderResult))
  /-- Whether the render was in flight. -/
  | aborted (inFlight : Bool)
  | closed
  | rendered (results : List (Option RenderResult)) (submitted : List String)

def step (s : Session) : Step → m (Session × Answer)
  | .start spec root => do
    let (s', started) ← s.start spec root
    return (s', .started s.renders.length started)
  | .dispatch completion => do
    let (s, delivered, ended) ← s.dispatch completion
    return (s, .dispatched delivered ended)
  | .abort i =>
    let (s, inFlight) := s.abort i
    return (s, .aborted inFlight)
  | .close => return (s.close, .closed)
  | .renderAll specs root reply => do
    let (s, results, submitted) ← s.renderAll specs root reply
    return (s, .rendered results submitted)

/-- What happens to a session and to the disk it works on. -/
inductive Event where
  | step (step : Step)
  /-- A completion comes, and just the renders that it resolves run to their end. -/
  | deliver (completion : Completion)
  /-- The renders of a fingerprint that were resolved run to their end. -/
  | poll (fingerprint : String)
  /-- The host puts a file or a directory on the disk. -/
  | put (path : Path) (entry : Entry)
  | remove (path : Path)

/-- One event; the host gets no answer for what it does to its files. -/
def handle (s : Session) : Event → StateM Disk (Session × Option Answer)
  | .step x => do
    let (s, a) ← s.step x
    return (s, some a)
  | .deliver completion => do
    let (s, delivered, ended) ← s.dispatch completion false
    return (s, some (.dispatched delivered ended))
  | .poll fingerprint => do
    let (s, ended) ← s.poll fingerprint
    return (s, some (.dispatched 0 ended))
  | .put path entry => do
    modify (·.put path entry)
    return (s, none)
  | .remove path => do
    modify fun d => d.remove (d.placeOf path)
    return (s, none)

/-- The session after a row of events, and the answers to them. -/
def run (s : Session) : List Event → StateM Disk (Session × List (Option Answer))
  | [] => return (s, [])
  | e :: es => do
    let (s, a) ← s.handle e
    let (s, as) ← s.run es
    return (s, a :: as)

end Session

end GraphBlock

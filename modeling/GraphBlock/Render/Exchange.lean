import GraphBlock.Render.Router

/-!
# Listeners in numbered slots

A router together with the listeners that were handed out.  Slot `n` holds the listener of the
`n`-th registration until it is dropped or waited on.  `run` is a history of such steps.
-/

namespace GraphBlock

structure Exchange where
  router : Router
  slots : List (Option Listener)
  deriving DecidableEq, Repr

namespace Exchange

def trusting (origin : String) : Exchange :=
  ⟨.trusting origin, []⟩

inductive Step where
  | register (fingerprint : String)
  | dispatch (completion : Completion)
  | listen (completions : List Completion)
  | drop (slot : Nat)
  /-- Asks once for the outcome, and ends the listener in any case. -/
  | wait (slot : Nat)
  deriving DecidableEq, Repr

inductive Answer where
  | registered (slot : Nat)
  | delivered (count : Nat)
  | closed
  /-- What the slot held was for this fingerprint; none if it was empty. -/
  | dropped (fingerprint : Option String)
  | outcome (outcome : Outcome)
  | unresolved
  /-- There was nothing to wait on. -/
  | vacant
  deriving DecidableEq, Repr

/-- Ends the listener in a slot. -/
def clear (x : Exchange) (slot : Nat) (l : Listener) : Exchange :=
  ⟨x.router.release l, x.slots.set slot none⟩

def listener? (x : Exchange) (slot : Nat) : Option Listener :=
  (x.slots[slot]?).join

def step (x : Exchange) : Step → Exchange × Answer
  | .register fingerprint =>
    let (router, l) := x.router.register fingerprint
    (⟨router, x.slots ++ [some l]⟩, .registered x.slots.length)
  | .dispatch c =>
    let (router, count) := x.router.dispatch c
    ({ x with router }, .delivered count)
  | .listen cs => ({ x with router := x.router.listen cs }, .closed)
  | .drop slot =>
    match x.listener? slot with
    | some l => (x.clear slot l, .dropped (some l.fingerprint))
    | none => (x, .dropped none)
  | .wait slot =>
    match x.listener? slot with
    | some l =>
      (x.clear slot l,
        match x.router.outcome? l with
        | some o => .outcome o
        | none => .unresolved)
    | none => (x, .vacant)

/-- The answers to a row of steps, and the state after them. -/
def run (x : Exchange) : List Step → Exchange × List Answer
  | [] => (x, [])
  | s :: ss =>
    let (x', a) := x.step s
    let (x'', as) := x'.run ss
    (x'', a :: as)

end Exchange

end GraphBlock

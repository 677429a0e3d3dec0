import GraphBlock.Render.Message

/-!
# Routing completions

A router trusts one origin.  It keeps, for each fingerprint somebody waits on, the numbers of the
listeners in the order of registration, and beside them the outcomes that were delivered and not
yet collected.  A completion from the trusted origin goes to all listeners of its fingerprint and
takes them off the registry; a listener that is released takes itself off.
-/

namespace GraphBlock

/-- A listener for one completion. -/
structure Listener where
  id : Nat
  fingerprint : String
  deriving DecidableEq, Repr

structure Router where
  origin : String
  /-- The waiting listeners of each fingerprint; no list is empty. -/
  waiting : List (String × List Nat)
  nextId : Nat
  /-- Outcomes by the listener they were delivered to. -/
  delivered : List (Nat × Outcome)
  deriving DecidableEq, Repr

namespace Router

def trusting (origin : String) : Router :=
  ⟨origin, [], 0, []⟩

def waitingOn (r : Router) (fingerprint : String) : List Nat :=
  (r.waiting.lookup fingerprint).getD []

/-- How many listeners wait on a fingerprint. -/
def pending (r : Router) (fingerprint : String) : Nat :=
  (r.waitingOn fingerprint).length

/-- Adds a listener behind those of the same fingerprint. -/
def enrol (fingerprint : String) (id : Nat) :
    List (String × List Nat) → List (String × List Nat)
  | [] => [(fingerprint, [id])]
  | x :: xs =>
    if x.1 = fingerprint then (x.1, x.2 ++ [id]) :: xs else x :: enrol fingerprint id xs

/-- Takes a listener off the list of a fingerprint, and the list with it if nothing is left. -/
def strike (fingerprint : String) (id : Nat) :
    List (String × List Nat) → List (String × List Nat)
  | [] => []
  | x :: xs =>
    if x.1 = fingerprint then
      let rest := x.2.filter (· ≠ id)
      if rest = [] then xs else (x.1, rest) :: xs
    else x :: strike fingerprint id xs

def register (r : Router) (fingerprint : String) : Router × Listener :=
  ({ r with waiting := enrol fingerprint r.nextId r.waiting, nextId := r.nextId + 1 },
    ⟨r.nextId, fingerprint⟩)

/-- Delivers a completion.  The number counts the listeners it resolves; it is zero if the origin
is not the trusted one or if nobody waits. -/
def dispatch (r : Router) (c : Completion) : Router × Nat :=
  if c.origin = r.origin then
    let ids := r.waitingOn c.fingerprint
    ({ r with
        waiting := r.waiting.filter (·.1 ≠ c.fingerprint)
        delivered := r.delivered ++ ids.map fun id => (id, c.outcome) }, ids.length)
  else (r, 0)

/-- Delivers completions in the order in which they come. -/
def listen (r : Router) (cs : List Completion) : Router :=
  cs.foldl (fun r c => (r.dispatch c).1) r

/-- What was delivered to a listener. -/
def outcome? (r : Router) (l : Listener) : Option Outcome :=
  r.delivered.lookup l.id

/-- Ends a listener, resolved or not. -/
def release (r : Router) (l : Listener) : Router :=
  { r with
    waiting := strike l.fingerprint l.id r.waiting
    delivered := r.delivered.filter (·.1 ≠ l.id) }

theorem lookup_enrol (f g : String) (id : Nat) : ∀ xs : List (String × List Nat),
    ((enrol f id xs).lookup g).getD [] =
      if g = f then (xs.lookup g).getD [] ++ [id] else (xs.lookup g).getD []
  | [] => by
    by_cases h : g = f
    · simp [enrol, h]
    · have h' : (g == f) = false := by simpa using h
      simp [enrol, List.lookup_cons, h, h']
  | (k, ids) :: xs => by
    have ih := lookup_enrol f g id xs
    simp only [enrol]
    by_cases hk : k = f
    · by_cases h : g = f
      · simp [hk, h]
      · have h' : (g == f) = false := by simpa using h
        simp [hk, h, h', List.lookup_cons]
    · simp only [hk, if_false, List.lookup_cons]
      by_cases hg : g = k
      · simp [hg, hk]
      · have hg' : (g == k) = false := by simpa using hg
        simp only [hg', ih]

/-- A new listener stands behind the others of its fingerprint. -/
theorem waitingOn_register (r : Router) (f g : String) :
    (r.register f).1.waitingOn g =
      if g = f then r.waitingOn g ++ [r.nextId] else r.waitingOn g :=
  lookup_enrol f g r.nextId r.waiting

theorem lookup_filter_ne {α β : Type} [BEq α] [LawfulBEq α] [DecidableEq α] (f g : α) :
    ∀ xs : List (α × β), (xs.filter (·.1 ≠ f)).lookup g = if g = f then none else xs.lookup g
  | [] => by simp
  | (k, v) :: xs => by
    have ih := lookup_filter_ne f g xs
    by_cases hk : k = f
    · rw [List.filter_cons_of_neg (by simp [hk]), ih]
      by_cases h : g = f
      · simp [h]
      · have h' : (g == k) = false := by simpa [hk] using h
        simp [h, List.lookup_cons, h']
    · rw [List.filter_cons_of_pos (by simp [hk])]
      simp only [List.lookup_cons, ih]
      by_cases hg : g = k
      · simp [hg, hk]
      · have hg' : (g == k) = false := by simpa using hg
        simp only [hg']

/-- A completion from the trusted origin leaves nobody waiting on its fingerprint, and any other
completion changes nothing. -/
theorem waitingOn_dispatch (r : Router) (c : Completion) (g : String) :
    (r.dispatch c).1.waitingOn g =
      if c.origin = r.origin ∧ g = c.fingerprint then [] else r.waitingOn g := by
  simp only [dispatch]
  by_cases ho : c.origin = r.origin
  · simp only [ho, if_true, true_and, waitingOn, lookup_filter_ne]
    split <;> rfl
  · simp [ho]

@[simp] theorem origin_dispatch (r : Router) (c : Completion) :
    (r.dispatch c).1.origin = r.origin := by
  simp only [dispatch]
  split <;> rfl

@[simp] theorem origin_register (r : Router) (f : String) : (r.register f).1.origin = r.origin :=
  rfl

@[simp] theorem origin_release (r : Router) (l : Listener) : (r.release l).origin = r.origin :=
  rfl

end Router

end GraphBlock

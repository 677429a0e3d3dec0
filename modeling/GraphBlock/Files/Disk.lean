import GraphBlock.Files.System

/-!
# A disk

A file tree as a value: the entries below the root with their places, and the working directory
from which relative paths start.  A path is walked name by name, so a name that is missing, too
long, or below a file is met in the order in which it is written.  `Disk` implements `FileSystem`
in its state monad; an operation that fails leaves the disk as it was.
-/

namespace GraphBlock

/-- Names from the root down. -/
abbrev Place := List (List Char)

inductive Entry where
  | file (contents : Bytes)
  | directory
  deriving DecidableEq, Repr

def Entry.kind : Entry → FileKind
  | file _ => .file
  | directory => .directory

structure Disk where
  entries : List (Place × Entry)
  workingDirectory : Place
  deriving DecidableEq, Repr

namespace Disk

/-- The entry at a place; the root is always a directory. -/
def entryAt? (d : Disk) (p : Place) : Option Entry :=
  if p = [] then some .directory else (d.entries.find? (·.1 == p)).map (·.2)

/-- Replaces the first entry of the place, or adds one at the end. -/
def setIn (p : Place) (e : Entry) : List (Place × Entry) → List (Place × Entry)
  | [] => [(p, e)]
  | x :: xs => if x.1 = p then (p, e) :: xs else x :: setIn p e xs

def set (d : Disk) (p : Place) (e : Entry) : Disk :=
  { d with entries := setIn p e d.entries }

theorem find?_setIn (p q : Place) (e : Entry) : ∀ xs : List (Place × Entry),
    ((setIn p e xs).find? (·.1 == q)).map (·.2) =
      if q = p then some e else (xs.find? (·.1 == q)).map (·.2)
  | [] => by
    by_cases h : q = p
    · simp [setIn, h]
    · simp [setIn, h, Ne.symm h]
  | x :: xs => by
    have ih := find?_setIn p q e xs
    simp only [setIn]
    by_cases hx : x.1 = p
    · by_cases h : q = p
      · simp [hx, h]
      · have h' : (p == q) = false := by simpa using Ne.symm h
        simp [hx, h, h']
    · simp only [hx, if_false, List.find?_cons]
      by_cases hq : x.1 = q
      · have h : q ≠ p := fun e => hx (hq.trans e)
        simp [hq, h]
      · have hq' : (x.1 == q) = false := by simpa using hq
        simp only [hq', ih]

/-- Only the place that is set changes. -/
theorem entryAt?_set (d : Disk) {p : Place} (hp : p ≠ []) (e : Entry) (q : Place) :
    (d.set p e).entryAt? q = if q = p then some e else d.entryAt? q := by
  by_cases hq : q = []
  · simp [entryAt?, hq, Ne.symm hp]
  · simp [entryAt?, hq, set, find?_setIn]

@[simp] theorem workingDirectory_set (d : Disk) (p : Place) (e : Entry) :
    (d.set p e).workingDirectory = d.workingDirectory := rfl

/-- Drops a place and everything below it. -/
def remove (d : Disk) (p : Place) : Disk :=
  { d with entries := d.entries.filter fun x => !p.isPrefixOf x.1 }

/-- The longest name, in bytes. -/
def maxNameLength : Nat := 255

/-- The longest path, in bytes. -/
def maxPathLength : Nat := 4095

/-- The step from a place to one of its names. -/
def step (d : Disk) (place : Place) (name : List Char) : Except IoError Place :=
  match d.entryAt? place with
  | none => .error .noSuchEntry
  | some (.file _) => .error .notADirectory
  | some .directory =>
    if name = ['.'] then .ok place
    else if name = ['.', '.'] then .ok place.dropLast
    else if maxNameLength < (Text.Utf8.encode name).length then .error .nameTooLong
    else if (d.entryAt? (place ++ [name])).isSome then .ok (place ++ [name])
    else .error .noSuchEntry

def walk (d : Disk) (start : Place) (names : List (List Char)) : Except IoError Place :=
  names.foldlM d.step start

/-- Refuses texts that are no path: with the character zero in them, empty, or too long. -/
def checkPath (p : Path) : Except IoError Unit :=
  if p.text.toList.contains '\x00' then .error .nulInName
  else if p.text = "" then .error .noSuchEntry
  else if maxPathLength < (Text.Utf8.encode p.text.toList).length then .error .nameTooLong
  else .ok ()

def start (d : Disk) (p : Path) : Place :=
  if p.isAbsolute then [] else d.workingDirectory

/-- The place and the entry that a path leads to.  A path that ends in a slash leads to no file. -/
def resolve (d : Disk) (p : Path) : Except IoError (Place × Entry) := do
  checkPath p
  let place ← d.walk (d.start p) p.names
  match d.entryAt? place with
  | none => .error .noSuchEntry
  | some (.file contents) =>
    if p.endsInSlash then .error .notADirectory else .ok (place, .file contents)
  | some .directory => .ok (place, .directory)

/-- The directory in which the last name of a path stands, and that name, where a file or a
directory may be made.  `occupied` is the failure if the last name is no name of its own. -/
def slot (d : Disk) (p : Path) (occupied : IoError) : Except IoError (Place × List Char) := do
  checkPath p
  match p.names.getLast? with
  | none => .error occupied
  | some name =>
    let parent ← d.walk (d.start p) p.names.dropLast
    match d.entryAt? parent with
    | none => .error .noSuchEntry
    | some (.file _) => .error .notADirectory
    | some .directory =>
      if name = ['.'] || name = ['.', '.'] then .error occupied else .ok (parent, name)

def read (d : Disk) (p : Path) : Except IoError Bytes := do
  match (← d.resolve p).2 with
  | .file contents => .ok contents
  | .directory => .error .isADirectory

/-- Where a write to the path goes: a file, or a name that is free. -/
def writable (d : Disk) (p : Path) : Except IoError Place := do
  let (parent, name) ← d.slot p .isADirectory
  if p.endsInSlash then .error .isADirectory
  else if maxNameLength < (Text.Utf8.encode name).length then .error .nameTooLong
  else match d.entryAt? (parent ++ [name]) with
    | some .directory => .error .isADirectory
    | _ => .ok (parent ++ [name])

/-- Where a directory can be made: at a name that is free. -/
def vacant (d : Disk) (p : Path) : Except IoError Place := do
  let (parent, name) ← d.slot p .alreadyExists
  if maxNameLength < (Text.Utf8.encode name).length then .error .nameTooLong
  else match d.entryAt? (parent ++ [name]) with
    | some _ => .error .alreadyExists
    | none => .ok (parent ++ [name])

instance : FileSystem (StateM Disk) where
  kindOf p := do return ((← get).resolve p).map fun r => r.2.kind
  read p := do return (← get).read p
  write p contents := do
    match (← get).writable p with
    | .error e => return .error e
    | .ok place => modify (·.set place (.file contents)); return .ok ()
  makeDirectory p := do
    match (← get).vacant p with
    | .error e => return .error e
    | .ok place => modify (·.set place .directory); return .ok ()

/-- The place of a path that is written without steps upwards. -/
def placeOf (d : Disk) (p : Path) : Place :=
  d.start p ++ p.names.filter (· ≠ ['.'])

/-- Puts an entry at a path, with the directories that it lacks. -/
def put (d : Disk) (p : Path) (e : Entry) : Disk :=
  let place := d.placeOf p
  let d := (List.range place.length).foldl (fun d n =>
    if (d.entryAt? (place.take n)).isSome then d else d.set (place.take n) .directory) d
  match e, d.entryAt? place with
  | .directory, some .directory => d
  | _, _ => d.set place e

/-- Everything below the working directory by its relative path, sorted by path. -/
def listing (d : Disk) : List (String × Entry) :=
  let below := d.entries.filterMap fun x =>
    if d.workingDirectory.isPrefixOf x.1 && x.1 ≠ d.workingDirectory then
      some (String.ofList (['/'].intercalate (x.1.drop d.workingDirectory.length)), x.2)
    else none
  below.mergeSort fun a b => a.1 ≤ b.1

/-- Nothing but the working directory, its ancestors and a directory for temporary files. -/
def fresh (workingDirectory temporary : Path) : Disk :=
  let d : Disk := ⟨[], []⟩
  { (d.put workingDirectory .directory).put temporary .directory with
    workingDirectory := workingDirectory.names }

end Disk

end GraphBlock

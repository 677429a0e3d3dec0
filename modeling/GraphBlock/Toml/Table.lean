/-!
# Tables of a TOML document

A document is a tree.  Each table remembers how it came to be, because that decides what may still
be added to it: a header opens a table once, a header that only passed through it leaves it open, a
dotted key adds only to tables that dotted keys made, and nothing is added to a table in braces.
-/

namespace GraphBlock.Toml

inductive TableKind where
  /-- Opened by a header of its own, or the root. -/
  | header
  /-- Passed by a longer header. -/
  | passed
  /-- Made by a dotted key. -/
  | dotted
  /-- Written in braces. -/
  | braces
  deriving DecidableEq, Repr

inductive Node where
  | string (s : String)
  | boolean (b : Bool)
  /-- A number.  It is not readable if it is out of range or is more or less than digits. -/
  | number (readable : Bool)
  | time
  | array (elements : List Node)
  /-- The tables that headers in double brackets opened, the last of them last. -/
  | tables (elements : List (List (String × Node)))
  | table (kind : TableKind) (entries : List (String × Node))

abbrev Entries := List (String × Node)

namespace Node

mutual

/-- All numbers in a value can be read. -/
def isReadable : Node → Bool
  | number readable => readable
  | string _ | boolean _ | time => true
  | array elements => allReadable elements
  | tables elements => tablesReadable elements
  | table _ entries => entriesReadable entries

def allReadable : List Node → Bool
  | [] => true
  | n :: ns => isReadable n && allReadable ns

def entryReadable : String × Node → Bool
  | (_, n) => isReadable n

def entriesReadable : List (String × Node) → Bool
  | [] => true
  | e :: es => entryReadable e && entriesReadable es

def tablesReadable : List (List (String × Node)) → Bool
  | [] => true
  | t :: ts => entriesReadable t && tablesReadable ts

end

end Node

namespace Entries

/-- Replaces the entry of a key in its place, or adds it at the end. -/
def set (key : String) (n : Node) : Entries → Entries
  | [] => [(key, n)]
  | e :: es => if e.1 = key then (key, n) :: es else e :: set key n es

/-- Changes the table at the end of a header's path.  On the way missing tables are made, and of
tables in double brackets the last is taken. -/
def modifyAt (path : List String) (f : Entries → Option Entries) (es : Entries) :
    Option Entries :=
  match path with
  | [] => f es
  | k :: ks =>
    match es.lookup k with
    | none => (modifyAt ks f []).map fun inner => set k (.table .passed inner) es
    | some (.table .braces _) => none
    | some (.table kind inner) =>
      (modifyAt ks f inner).map fun inner => set k (.table kind inner) es
    | some (.tables ts) =>
      match ts.getLast? with
      | none => none
      | some last =>
        (modifyAt ks f last).map fun inner => set k (.tables (ts.dropLast ++ [inner])) es
    | some _ => none

/-- Adds a value under a dotted key.  `direct` says whether the table takes keys directly; below it
only tables that dotted keys made do. -/
def insert (direct : Bool) (path : List String) (n : Node) (es : Entries) : Option Entries :=
  match path with
  | [] => none
  | [k] => if direct && (es.lookup k).isNone then some (set k n es) else none
  | k :: k' :: ks =>
    match es.lookup k with
    | none => (insert true (k' :: ks) n []).map fun inner => set k (.table .dotted inner) es
    | some (.table .dotted inner) =>
      (insert true (k' :: ks) n inner).map fun inner => set k (.table .dotted inner) es
    | some (.table .passed inner) =>
      (insert false (k' :: ks) n inner).map fun inner => set k (.table .passed inner) es
    | some (.tables ts) =>
      match ts.getLast? with
      | none => none
      | some last =>
        (insert false (k' :: ks) n last).map fun inner =>
          set k (.tables (ts.dropLast ++ [inner])) es
    | some _ => none

/-- Opens the table of a header: a new one, or one that headers have only passed. -/
def openTable (path : List String) (es : Entries) : Option Entries :=
  match path.getLast? with
  | none => none
  | some k =>
    modifyAt path.dropLast (fun parent =>
      match parent.lookup k with
      | none => some (set k (.table .header []) parent)
      | some (.table .passed inner) => some (set k (.table .header inner) parent)
      | some _ => none) es

/-- Opens one more of the tables of a header in double brackets. -/
def openElement (path : List String) (es : Entries) : Option Entries :=
  match path.getLast? with
  | none => none
  | some k =>
    modifyAt path.dropLast (fun parent =>
      match parent.lookup k with
      | none => some (set k (.tables [[]]) parent)
      | some (.tables ts) => some (set k (.tables (ts ++ [[]])) parent)
      | some _ => none) es

end Entries

/-- What a document consists of. -/
inductive Statement where
  | header (path : List String)
  | element (path : List String)
  | value (path : List String) (value : Node)

/-- Adds statements to a document, in the section that the last header opened. -/
def assemble (root : Entries) (current : List String) : List Statement → Option Entries
  | [] => some root
  | .header path :: rest => do assemble (← root.openTable path) path rest
  | .element path :: rest => do assemble (← root.openElement path) path rest
  | .value path n :: rest => do
    assemble (← root.modifyAt current (Entries.insert true path n)) current rest

end GraphBlock.Toml

import GraphBlock.Settings.Basic
import GraphBlock.Toml.Library

/-!
# Settings as a TOML document

`Settings.toSheet` states every setting, and `Settings.toToml` writes that with a library.
`Settings.ofToml?` reads a document in which any of them may be missing and others may stand; a
value of the wrong kind is refused, and so is a number that cannot be read, wherever it stands.  A
group of settings is a table, or an array of its values in order; what an array holds behind these
is not looked at.
-/

namespace GraphBlock

open Toml

namespace Settings

/-- A directory that is not set has no line. -/
def directoryLines (directory : Option Path) : List Line :=
  (directory.map fun p => ("directory", .string p.text)).toList

def toSheet (s : Settings) : Sheet :=
  ⟨[("file_prefix", .string s.filePrefix)],
    [("cache", [("enabled", .boolean s.cache.enabled), ("location", .string s.cache.location.name)]
        ++ directoryLines s.cache.directory),
      ("renderer", [("origin", .string s.renderer.origin)])]⟩

def toToml (s : Settings) (lib : Library := .standard) : String :=
  lib.write s.toSheet

end Settings

/-- The members of a group: by key, or by place in an array.  A time counts as a group without
members. -/
inductive Members where
  | named (entries : Entries)
  | listed (values : List Node)

namespace Members

def ofNode? : Node → Option Members
  | .table _ entries => some (named entries)
  | .array values => some (listed values)
  | .tables elements => some (listed (elements.map (.table .header)))
  | .time => some (named [])
  | .string _ | .boolean _ | .number _ => none

/-- The members under other keys can be read. -/
def othersReadable (g : Members) (keys : List String) : Bool :=
  match g with
  | named entries => entries.all fun e => keys.contains e.1 || e.2.isReadable
  | listed _ => true

def get? (g : Members) (key : String) (place : Nat) : Option Node :=
  match g with
  | named entries => entries.lookup key
  | listed values => values[place]?

/-- The member if it is there, read by `read`, and the default if it is not. -/
def read {α : Type} (g : Members) (key : String) (place : Nat) (default : α)
    (read : Node → Option α) : Option α :=
  match g.get? key place with
  | none => some default
  | some n => read n

end Members

def string? : Node → Option String
  | .string s => some s
  | _ => none

def boolean? : Node → Option Bool
  | .boolean b => some b
  | _ => none

namespace CacheLocation

def ofName? (s : String) : Option CacheLocation :=
  if s = "memory" then some memory else if s = "filesystem" then some filesystem else none

/-- A location is named by a string, or by the only key of a table that holds nothing else. -/
def ofNode? : Node → Option CacheLocation
  | .string s => ofName? s
  | .table _ [(key, .table _ [])] => ofName? key
  | .table _ [(key, .array [])] => ofName? key
  | _ => none

end CacheLocation

def CacheSettings.ofNode? (n : Node) : Option CacheSettings := do
  let g ← Members.ofNode? n
  guard (g.othersReadable ["enabled", "location", "directory"])
  let enabled ← g.read "enabled" 0 CacheSettings.default.enabled boolean?
  let location ← g.read "location" 1 CacheSettings.default.location CacheLocation.ofNode?
  let directory ← g.read "directory" 2 none fun n => (string? n).map fun s => some ⟨s⟩
  return ⟨enabled, location, directory⟩

def RendererSettings.ofNode? (n : Node) : Option RendererSettings := do
  let g ← Members.ofNode? n
  guard (g.othersReadable ["origin"])
  let origin ← g.read "origin" 0 RendererSettings.default.origin string?
  return ⟨origin⟩

namespace Settings

def ofEntries? (entries : Entries) : Option Settings := do
  let g := Members.named entries
  guard (g.othersReadable ["file_prefix", "cache", "renderer"])
  let filePrefix ← g.read "file_prefix" 0 Settings.default.filePrefix string?
  let cache ← g.read "cache" 1 .default CacheSettings.ofNode?
  let renderer ← g.read "renderer" 2 .default RendererSettings.ofNode?
  return ⟨filePrefix, cache, renderer⟩

/-- Nothing if the text is no TOML or a value has the wrong kind. -/
def ofToml? (text : String) (lib : Library := .standard) : Option Settings := do
  ofEntries? (← lib.read text)

end Settings

end GraphBlock

import GraphBlock.Toml.Document

/-!
# Documents of lines and sections

A `Sheet` is a document of the plainest form: lines with a string or a boolean each, and sections
of such lines.  A `Library` turns sheets into text and text into tables, in whatever style.  What
saves or loads settings takes the library as an argument; `Library.standard` is the one that runs.
-/

namespace GraphBlock.Toml

/-- A value that stands on one line. -/
inductive Value where
  | string (s : String)
  | boolean (b : Bool)

namespace Value

def write : Value → List Char
  | string s => Quoted.write s.toList
  | boolean b => (if b then "true" else "false").toList

def node : Value → Node
  | string s => .string s
  | boolean b => .boolean b

end Value

/-- A key and its value. -/
abbrev Line := String × Value

def writeLines (ls : List Line) : List Char :=
  ls.flatMap fun l => l.1.toList ++ ' ' :: '=' :: ' ' :: (l.2.write ++ ['\n'])

/-- Lines, and then sections of lines under a header each. -/
structure Sheet where
  top : List Line
  sections : List (String × List Line)

namespace Sheet

def writeSection (s : String × List Line) : List Char :=
  '\n' :: '[' :: (s.1.toList ++ ']' :: '\n' :: writeLines s.2)

def write (s : Sheet) : List Char :=
  writeLines s.top ++ s.sections.flatMap writeSection

end Sheet

/-- What writes and reads documents. -/
structure Library where
  write : Sheet → String
  /-- The root table, or nothing if the text is no document. -/
  read : String → Option Entries

/-- Writes a line for each value, and reads with `parse`. -/
def Library.standard : Library :=
  ⟨fun s => String.ofList s.write, parse⟩

end GraphBlock.Toml

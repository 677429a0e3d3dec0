import GraphBlock.Command.Run
import GraphBlock.Files.Disk

/-!
# Commands on a disk

`OnDisk` is a host made of values: a disk, and the bytes on the standard input.  `runOn` runs the
program there, and gives how it ended and the disk it left.
-/

namespace GraphBlock

/-- A host that reads the standard input from bytes and keeps its files on a disk. -/
abbrev OnDisk := ReaderT Bytes (StateM Disk)

instance : Host OnDisk where
  kindOf p := fun _ => FileSystem.kindOf p
  read p := fun _ => FileSystem.read p
  write p contents := fun _ => FileSystem.write p contents
  makeDirectory p := fun _ => FileSystem.makeDirectory p
  standardInput := read

/-- A run of the program with the arguments behind its name. -/
def runOn (d : Disk) (standardInput : Bytes) (colors : Bool) (places : Surroundings)
    (args : List String) (lib : Toml.Library := .standard) : Exit × Disk :=
  (runProgram colors places args lib : OnDisk Exit).run standardInput d

end GraphBlock

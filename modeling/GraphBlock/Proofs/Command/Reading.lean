import GraphBlock.Command.OnDisk

/-!
# Commands that only read

What asks for files and for the standard input and writes nothing leaves the disk as it is
(`OnDisk.Reads`), so what comes after it runs on the same disk (`OnDisk.Reads.run_bind`).  To read
a block or the settings is of this kind (`OnDisk.reads_loadSpec`, `OnDisk.reads_load`).
-/

namespace GraphBlock

namespace OnDisk

variable {α β : Type} {x : OnDisk α} {f : α → OnDisk β} {b : Bytes} {d : Disk}

/-- The disk is left as it is. -/
def Reads (x : OnDisk α) : Prop :=
  ∀ b d, (x.run b d).2 = d

theorem Reads.run_eq (h : Reads x) (b : Bytes) (d : Disk) : x.run b d = ((x.run b d).1, d) :=
  Prod.ext rfl (h b d)

theorem run_bind_of {a : α} {d' : Disk} (h : x.run b d = (a, d')) :
    (x >>= f).run b d = (f a).run b d' := by
  change (f (x.run b d).1).run b (x.run b d).2 = _
  rw [h]

theorem Reads.run_bind (h : Reads x) (f : α → OnDisk β) (b : Bytes) (d : Disk) :
    (x >>= f).run b d = (f (x.run b d).1).run b d :=
  run_bind_of (h.run_eq b d)

theorem reads_pure (a : α) : Reads (pure a) := fun _ _ => rfl

theorem Reads.bind (h : Reads x) (hf : ∀ a, Reads (f a)) : Reads (x >>= f) := fun b d => by
  rw [h.run_bind]
  exact hf _ b d

theorem reads_kindOf (p : Path) : Reads (FileSystem.kindOf p) := fun _ _ => rfl

theorem reads_read (p : Path) : Reads (FileSystem.read p) := fun _ _ => rfl

theorem reads_standardInput : Reads Host.standardInput := fun _ _ => rfl

theorem reads_exists? (p : Path) : Reads (FileSystem.exists? p) :=
  (reads_kindOf p).bind fun r => by
    rcases r with e | k <;> exact reads_pure _

theorem reads_present (p : Path) : Reads (FileSystem.present p) :=
  (reads_exists? p).bind fun r => by
    rcases r with e | b <;> exact reads_pure _

theorem reads_readText (p : Path) : Reads (FileSystem.readText p) :=
  (reads_read p).bind fun r => by
    rcases r with e | bytes
    · exact reads_pure _
    · dsimp only
      split <;> exact reads_pure _

theorem reads_readSource (input : Path) : Reads (Command.readSource input) := by
  rw [Command.readSource]
  split
  · refine reads_standardInput.bind fun bytes => ?_
    split <;> exact reads_pure _
  · refine (reads_readText input).bind fun r => ?_
    rcases r with e | s <;> exact reads_pure _

theorem reads_loadSpec (input : Path) : Reads (Command.loadSpec input) :=
  (reads_readSource input).bind fun r => by
    rcases r with e | s
    · exact reads_pure _
    · dsimp only
      split <;> exact reads_pure _

theorem reads_loadFrom (p : Path) (lib : Toml.Library) : Reads (Settings.loadFrom p lib) :=
  (reads_readText p).bind fun r => by
    rcases r with e | s
    · exact reads_pure _
    · dsimp only
      split <;> exact reads_pure _

theorem reads_load (p : Path) (lib : Toml.Library) : Reads (Settings.load p lib) :=
  (reads_present p).bind fun there => by
    cases there with
    | true => exact reads_loadFrom p lib
    | false => exact reads_pure _

theorem run_exists? (p : Path) (b : Bytes) (d : Disk) :
    (FileSystem.exists? p : OnDisk _).run b d = ((match d.resolve p with
      | .ok _ => .ok true
      | .error e => if e.kind = .notFound then .ok false else .error e), d) := by
  have hkind : ((FileSystem.kindOf p : OnDisk _).run b d).1
      = (d.resolve p).map fun r => r.2.kind := rfl
  rw [FileSystem.exists?, (reads_kindOf p).run_bind, hkind]
  rcases d.resolve p with e | r <;> rfl

theorem run_present (p : Path) (b : Bytes) (d : Disk) :
    (FileSystem.present p : OnDisk Bool).run b d = ((d.resolve p).isOk, d) := by
  rw [FileSystem.present, (reads_exists? p).run_bind, run_exists?]
  rcases d.resolve p with e | r
  · by_cases he : e.kind = .notFound <;> simp only [he, if_true, if_false] <;> rfl
  · rfl

end OnDisk

end GraphBlock

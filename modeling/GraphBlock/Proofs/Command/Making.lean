import GraphBlock.Proofs.Command.Reading
import GraphBlock.Proofs.Files.Lineage
import GraphBlock.Proofs.Files.Made

/-!
# Commands that make directories

What reads, and makes directories at some paths, does nothing else to the disk (`OnDisk.Makes`).
To make a directory with the ancestors that it lacks is of this kind (`OnDisk.makes_makeLineage`),
and so is to make the parent of a settings file, where the paths are ancestors of the file's
(`OnDisk.makes_makeParent`).
-/

namespace GraphBlock

open Disk

namespace OnDisk

variable {α β : Type} {x : OnDisk α} {f : α → OnDisk β} {ps ps' : List Path} {p : Path}

/-- Nothing happens to the disk but that directories are made at these paths. -/
def Makes (ps : List Path) (x : OnDisk α) : Prop :=
  ∀ b d, Made ps d (x.run b d).2

theorem Reads.makes (h : Reads x) : Makes ps x := fun b d => by
  rw [h b d]
  exact .refl ps d

theorem Makes.bind (h : Makes ps x) (hf : ∀ a, Makes ps (f a)) : Makes ps (x >>= f) :=
  fun b d => (h b d).trans (hf _ b _)

theorem Makes.mono (h : Makes ps x) (hps : ∀ p ∈ ps, p ∈ ps') : Makes ps' x :=
  fun b d => (h b d).mono hps

theorem makes_pure (a : α) : Makes ps (pure a : OnDisk α) :=
  (reads_pure a).makes

theorem makes_makeDirectory (hp : p ∈ ps) : Makes ps (FileSystem.makeDirectory p) :=
  fun _ d => made_makeDirectory hp d

theorem reads_isDirectory (p : Path) : Reads (FileSystem.isDirectory p) :=
  (reads_kindOf p).bind fun r => by
    rcases r with e | k
    · exact reads_pure _
    · cases k <;> exact reads_pure _

theorem makes_makeLineage : ∀ ps : List Path, Makes ps (FileSystem.makeLineage ps)
  | [] => makes_pure _
  | p :: ancestors => by
    have hothers := (makes_makeLineage ancestors).mono fun q => List.mem_cons_of_mem p
    have hfirst : Makes (p :: ancestors) (FileSystem.makeDirectory p) :=
      makes_makeDirectory List.mem_cons_self
    have hthere : ∀ g : Bool → Except IoError Unit, Makes (p :: ancestors)
        (FileSystem.isDirectory p >>= fun there => pure (g there)) := fun _ =>
      ((reads_isDirectory p).bind fun _ => reads_pure _).makes
    refine hfirst.bind fun r => ?_
    rcases r with e | u
    · dsimp only
      split_ifs
      · refine hothers.bind fun r => ?_
        rcases r with e | u
        · exact makes_pure _
        · refine hfirst.bind fun r => ?_
          rcases r with e | u
          · exact hthere _
          · exact makes_pure _
      · exact hthere _
    · exact makes_pure _

/-- The parent is made, and its ancestors. -/
theorem makes_makeParent (p : Path) : Makes p.lineage.tail (Settings.makeParent p) := by
  rw [Settings.makeParent]
  rcases hp : p.parent? with _ | parent
  · exact makes_pure _
  · dsimp only
    rw [FileSystem.makeDirectories, Path.lineage_of_parent? hp]
    refine (makes_makeLineage _).bind fun r => ?_
    rcases r with e | u <;> exact makes_pure _

end OnDisk

end GraphBlock

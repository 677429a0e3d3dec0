import GraphBlock.Command.OnDisk
import GraphBlock.Main
import GraphBlock.Proofs.Cache.DirectChild
import GraphBlock.Proofs.Cache.Families
import GraphBlock.Proofs.Cache.MissingDirectory
import GraphBlock.Proofs.Cache.OneFile
import GraphBlock.Proofs.Cache.Prefixes
import GraphBlock.Proofs.Command.EntryReport
import GraphBlock.Proofs.Command.InitSettings
import GraphBlock.Proofs.Render.Batch
import GraphBlock.Proofs.Render.Entries
import GraphBlock.Proofs.Render.Failures
import GraphBlock.Proofs.Render.Isolation
import GraphBlock.Proofs.Render.Streams
import GraphBlock.Proofs.Render.Submissions
import GraphBlock.Proofs.Report.Help
import GraphBlock.Proofs.Spec.Bodies
import GraphBlock.Proofs.Spec.Compiled
import GraphBlock.Proofs.Spec.Edits
import GraphBlock.Proofs.Spec.Faults
import GraphBlock.Proofs.Spec.LineEnds
import GraphBlock.Proofs.Spec.Resolution
import GraphBlock.Proofs.Spec.Seam
import GraphBlock.Proofs.Render.Settled

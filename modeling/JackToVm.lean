import JackToVm.Main
import JackToVm.Writer
import JackToVm.Proofs.StackDepth
import JackToVm.Proofs.Preservation
import JackToVm.Proofs.Provenance
import JackToVm.Proofs.Unambiguity
import JackToVm.Proofs.Jumps
import JackToVm.Proofs.Layout
import JackToVm.Proofs.Independence
import JackToVm.Proofs.Printing
import JackToVm.Proofs.Constants
import JackToVm.Proofs.Prefixes
import JackToVm.Proofs.Violations
import JackToVm.Proofs.Runs
import JackToVm.Proofs.Tiling
import JackToVm.Proofs.History
import JackToVm.Proofs.TreeLog
import JackToVm.Proofs.Orders
import JackToVm.Proofs.Batch
import JackToVm.Proofs.ProgramText
import JackToVm.Proofs.Spacing
import JackToVm.Proofs.Online
import JackToVm.Proofs.Markup
import JackToVm.Proofs.Decoding
import JackToVm.Proofs.Respelling
import JackToVm.Proofs.Calls
import JackToVm.Proofs.Locations
import JackToVm.Proofs.Guards
import JackToVm.Proofs.Termination

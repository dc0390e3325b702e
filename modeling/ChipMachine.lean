import ChipMachine.Main
import ChipMachine.Machine.Operation
import ChipMachine.Proofs.Addressing.Bisimulation
import ChipMachine.Proofs.Calls.Refinement
import ChipMachine.Proofs.Rewinding
import ChipMachine.Proofs.Safety
import ChipMachine.Proofs.Scrolling
import ChipMachine.Proofs.Dialects
import ChipMachine.Proofs.Freshness
import ChipMachine.Proofs.Session.Uploading
import ChipMachine.Proofs.Session.Working
import ChipMachine.Proofs.Session.Showing
import ChipMachine.Proofs.Session.Filming
import ChipMachine.Proofs.Footprint
import ChipMachine.Proofs.Replaying
import ChipMachine.Proofs.Timers
import ChipMachine.Proofs.Session.Sounding
import ChipMachine.Proofs.Coding
import ChipMachine.Proofs.Inputs
import ChipMachine.Proofs.Session.Holding
import ChipMachine.Proofs.Session.Failing
import ChipMachine.Proofs.Loading
import ChipMachine.Proofs.Alignment
import ChipMachine.Proofs.Faults
import ChipMachine.Proofs.Drawing
import ChipMachine.Proofs.Arithmetic
import ChipMachine.Proofs.Batching
import ChipMachine.Proofs.Session.Picturing
import ChipMachine.Proofs.Redrawing
import ChipMachine.Proofs.Transfers
import ChipMachine.Proofs.Session.Playing
import ChipMachine.Proofs.Waiting
import ChipMachine.Proofs.Programs
import ChipMachine.Proofs.Tracing
import ChipMachine.Proofs.Naming
import ChipMachine.Proofs.Session.Sizing

import Patchbay.Main
import Patchbay.Promotion
import Patchbay.Proofs.Net.Order
import Patchbay.Proofs.Net.Wiring
import Patchbay.Proofs.Net.WellFormed
import Patchbay.Proofs.Net.Demand
import Patchbay.Proofs.Graph.Loading
import Patchbay.Proofs.Graph.History
import Patchbay.Proofs.Graph.Nesting
import Patchbay.Proofs.Graph.Punctual
import Patchbay.Proofs.Plan.Buffer
import Patchbay.Proofs.Plan.Trials
import Patchbay.Proofs.Plan.Placement
import Patchbay.Proofs.Plan.Reads
import Patchbay.Proofs.Plan.Layout
import Patchbay.Proofs.Graph.Layout
import Patchbay.Proofs.Plan.Rendering
import Patchbay.Proofs.Plan.Block
import Patchbay.Proofs.Plan.Run
import Patchbay.Proofs.Plan.Steady
import Patchbay.Proofs.Plan.Evaluate
import Patchbay.Proofs.Builtin.Kernels
import Patchbay.Proofs.Graph.Regular
import Patchbay.Proofs.Plan.FirstBlock
import Patchbay.Proofs.Plan.Shared
import Patchbay.Proofs.Plan.Alike
import Patchbay.Proofs.Plan.Recompile
import Patchbay.Proofs.Plan.Static
import Patchbay.Proofs.Graph.Early
import Patchbay.Proofs.Plan.Folding
import Patchbay.Proofs.Net.Settled
import Patchbay.Proofs.Net.Inputs
import Patchbay.Proofs.Net.Renaming
import Patchbay.Proofs.Net.Passes
import Patchbay.Proofs.Net.RenamedOrder
import Patchbay.Proofs.Graph.Kinds
import Patchbay.Proofs.Graph.Wrapped
import Patchbay.Proofs.Plan.Wrapped
import Patchbay.Proofs.Graph.Transparent
import Patchbay.Proofs.Plan.Retried
import Patchbay.Proofs.Plan.Renamed
import Patchbay.Proofs.Graph.Reloading
import Patchbay.Proofs.Graph.Checks
import Patchbay.Proofs.Plan.Mismatch
import Patchbay.Proofs.Graph.Reloadable
import Patchbay.Proofs.Graph.Agreement
import Patchbay.Proofs.Graph.Cycles
import Patchbay.Graph.Editing
import Patchbay.Proofs.Graph.Editing
import Patchbay.Plan.Guarded
import Patchbay.Plan.GuardedTrial
import Patchbay.Graph.Guarded
import Patchbay.Proofs.Plan.Guarded
import Patchbay.Proofs.Graph.Intact
import Patchbay.Channel.Calls
import Patchbay.Proofs.Channel.Upkeep
import Patchbay.Proofs.Channel.Handoff
import Patchbay.Proofs.Net.Adoption
import Patchbay.Proofs.Graph.Wildcards
import Patchbay.Proofs.Graph.Provenance
import Patchbay.Proofs.Graph.FixedLengths
import Patchbay.Proofs.Graph.Resolution
import Patchbay.Proofs.Graph.Arrivals
import Patchbay.Proofs.Plan.Confined
import Patchbay.Proofs.Graph.Faults
import Patchbay.Proofs.Graph.NestedFaults
import Patchbay.Proofs.Net.GuardedOrder
import Patchbay.Proofs.Plan.GuardedTrials
import Patchbay.Proofs.Graph.GuardedLoading
import Patchbay.Proofs.Graph.SafeLoads
import Patchbay.Proofs.Decimal.Whole
import Patchbay.Proofs.Graph.Literals
import Patchbay.Proofs.Graph.Records
import Patchbay.Proofs.Graph.Defaults
import Patchbay.Proofs.Graph.NormalForm
import Patchbay.Proofs.Graph.Refusals
import Patchbay.Proofs.Patch.Check
import Patchbay.Proofs.Graph.Known
import Patchbay.Proofs.Plan.Schedule
import Patchbay.Proofs.Graph.Calls
import Patchbay.Proofs.Graph.Watching
import Patchbay.Proofs.Graph.Measures
import Patchbay.Proofs.Graph.Undoing
import Patchbay.Proofs.Builtin.Broadcast
import Patchbay.Proofs.Builtin.Overwriting
import Patchbay.Proofs.Plan.Limits
import Patchbay.Proofs.Graph.Limits
import Patchbay.Net.Worklist
import Patchbay.Proofs.Net.Worklist
import Patchbay.Proofs.Graph.Upstream

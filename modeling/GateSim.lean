import GateSim.Main
import GateSim.Proofs.Build
import GateSim.Proofs.Consistent
import GateSim.Proofs.Cycle
import GateSim.Proofs.Description
import GateSim.Proofs.Draft
import GateSim.Proofs.Events
import GateSim.Proofs.Gate
import GateSim.Proofs.Grammar
import GateSim.Proofs.Outline
import GateSim.Proofs.Parameter
import GateSim.Proofs.PinMap
import GateSim.Proofs.Pins
import GateSim.Proofs.Registry
import GateSim.Proofs.Session
import GateSim.Proofs.Settle
import GateSim.Proofs.Acyclic
import GateSim.Proofs.Synchronous
import GateSim.Proofs.Construction
import GateSim.Proofs.Phases
import GateSim.Proofs.Invariant
import GateSim.Proofs.Engine
import GateSim.Proofs.Embedding
import GateSim.Proofs.Parts
import GateSim.Proofs.Reorder
import GateSim.Proofs.Rearrange
import GateSim.Proofs.Mirror
import GateSim.Proofs.Order
import GateSim.Proofs.Beginning
import GateSim.Proofs.FirstFault
import GateSim.Proofs.Walk
import GateSim.Proofs.Scan
import GateSim.Proofs.SyntaxError
import GateSim.Proofs.Recovery
import GateSim.Proofs.Renaming
import GateSim.Proofs.Tables
import GateSim.Proofs.Rebuild
import GateSim.Proofs.Calls
import GateSim.Proofs.Twins
import GateSim.Proofs.InStep
import GateSim.Proofs.Reuse
import GateSim.Proofs.Rerun
import GateSim.Proofs.Cold
import GateSim.Proofs.Places
import GateSim.Proofs.Layout
import GateSim.Proofs.Accepted
import GateSim.Proofs.Samples
import GateSim.Proofs.Traces
import GateSim.Proofs.Recoding
import GateSim.Proofs.Sketch
import GateSim.Proofs.Independence
import GateSim.Proofs.DeviceNames
import GateSim.Proofs.RenamedText
import GateSim.Proofs.Renamed
import GateSim.Proofs.Lexing
import GateSim.Proofs.Loading
import GateSim.Proofs.Coherence
import GateSim.Proofs.Snapshot
import GateSim.Proofs.CycleFault
import GateSim.Proofs.Statistics
import GateSim.Proofs.Dialogue
import GateSim.Proofs.Ready
import GateSim.Proofs.Passes
import GateSim.Proofs.Course
import GateSim.Proofs.FlipFlops
import GateSim.Proofs.Sources
import GateSim.Proofs.Monotone
import GateSim.Proofs.Quiescence
import GateSim.Proofs.Restart
import GateSim.Proofs.Creation
import GateSim.Proofs.Connections
import GateSim.Proofs.Demand
import GateSim.Proofs.Reports
import GateSim.Proofs.Positions
import GateSim.Proofs.Clauses
import GateSim.Proofs.Refusals
import GateSim.Proofs.Declarations
import GateSim.Proofs.Effects
import GateSim.Proofs.Signals
import GateSim.Proofs.FailedCalls
import GateSim.Proofs.Commands
import GateSim.Proofs.SwitchCommands
import GateSim.Proofs.Interning

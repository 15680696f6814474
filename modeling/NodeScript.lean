import NodeScript.Main
import NodeScript.Proofs.Load.Exact
import NodeScript.Proofs.Run.Acyclic
import NodeScript.Proofs.Run.CallLimit
import NodeScript.Proofs.Run.Effects
import NodeScript.Proofs.Run.Position
import NodeScript.Proofs.Run.Reach
import NodeScript.Proofs.Run.Termination
import NodeScript.Proofs.Value.Equality
import NodeScript.Tree.Numbering
import NodeScript.Proofs.Load.Limit
import NodeScript.Proofs.Load.Trail
import NodeScript.Proofs.Json.Path
import NodeScript.Proofs.Load.Stacks
import NodeScript.Proofs.Load.Image
import NodeScript.Proofs.Text.LineEnd
import NodeScript.Proofs.Diff.Notice
import NodeScript.Proofs.Diff.Script
import NodeScript.Proofs.Diff.Walk
import NodeScript.Proofs.Value.Calculation
import NodeScript.Proofs.Run.Output
import NodeScript.Proofs.Run.Fuel
import NodeScript.Proofs.Run.Return
import NodeScript.Proofs.Value.Message
import NodeScript.Proofs.Run.Provenance
import NodeScript.Proofs.Run.SlotValue
import NodeScript.Proofs.Run.Arguments
import NodeScript.Proofs.Run.Unmentioned
import NodeScript.Proofs.Command.Sequence
import NodeScript.Proofs.Json.Proper
import NodeScript.Proofs.Value.Integer
import NodeScript.Proofs.Value.Iteration
import NodeScript.Proofs.Run.Footprint
import NodeScript.Proofs.Value.Rendering
import NodeScript.Proofs.Value.Equivalence
import NodeScript.Proofs.Value.Indexing
import NodeScript.Proofs.Load.KeyOrder
import NodeScript.Proofs.Value.Joining
import NodeScript.Proofs.Value.FloatText
import NodeScript.Proofs.Run.Reading
import NodeScript.Proofs.Decimal.Rounding
import NodeScript.Proofs.Decimal.RoundTrip
import NodeScript.Proofs.Tree.Faithful
import NodeScript.Proofs.Load.Origin
import NodeScript.Proofs.Load.Dispatch

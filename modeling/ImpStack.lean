import ImpStack.Bytecode.Check
import ImpStack.Bytecode.Listing
import ImpStack.Json.Bytecode
import ImpStack.Json.Limits
import ImpStack.Pipeline
import ImpStack.Proofs.Emission
import ImpStack.Proofs.NameTable
import ImpStack.Proofs.Placement
import ImpStack.Proofs.Region
import ImpStack.Proofs.Layout
import ImpStack.Proofs.Control
import ImpStack.Proofs.ControlFlow
import ImpStack.Proofs.HostCalls
import ImpStack.Proofs.Evaluation
import ImpStack.Proofs.Trace
import ImpStack.Proofs.Refinement
import ImpStack.Proofs.Simulation
import ImpStack.Proofs.Correctness
import ImpStack.Proofs.Discipline
import ImpStack.Proofs.StackEffect
import ImpStack.Proofs.Traversal
import ImpStack.Proofs.Action
import ImpStack.Proofs.Session
import ImpStack.Proofs.Invariant
import ImpStack.Proofs.Bounds
import ImpStack.Proofs.Faults
import ImpStack.Proofs.StackFloor
import ImpStack.Proofs.Containment
import ImpStack.Proofs.CallContext
import ImpStack.Proofs.Locality
import ImpStack.Proofs.Position
import ImpStack.Proofs.Relocation
import ImpStack.Proofs.DeclarationOrder
import ImpStack.Proofs.Reports
import ImpStack.Proofs.FailedStep
import ImpStack.Proofs.Rejection
import ImpStack.Proofs.FloatOrder
import ImpStack.Proofs.IntegerRounding
import ImpStack.Proofs.Operators
import ImpStack.Proofs.Comparison
import ImpStack.Proofs.Extremes
import ImpStack.Proofs.Termination
import ImpStack.Proofs.CountedLoop
import ImpStack.Proofs.StrictOrder
import ImpStack.Proofs.NumeralForm
import ImpStack.Proofs.LiteralForm
import ImpStack.Proofs.IntegerTrees
import ImpStack.Proofs.DoubleParts
import ImpStack.Proofs.ExactRounding
import ImpStack.Proofs.DecimalReading
import ImpStack.Proofs.PrintedNumerals
import ImpStack.Proofs.PrintedDoubles
import ImpStack.Proofs.ReadBack
import ImpStack.Proofs.OperandChecks
import ImpStack.Proofs.Drafting
import ImpStack.Proofs.ProgramDraft
import ImpStack.Proofs.JsonNumerals
import ImpStack.Proofs.JsonText
import ImpStack.Proofs.JsonRoundTrip
import ImpStack.Proofs.ShownConstants
import ImpStack.Proofs.SourceNames
import ImpStack.Proofs.ShownInstructions
import ImpStack.Proofs.ListedPrograms

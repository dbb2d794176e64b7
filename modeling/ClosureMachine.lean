import ClosureMachine.CommandLine.Directory
import ClosureMachine.CommandLine.FileError
import ClosureMachine.CommandLine.LogFilter
import ClosureMachine.CommandLine.Options
import ClosureMachine.CommandLine.Session
import ClosureMachine.Compile.Basic
import ClosureMachine.Compile.Emit
import ClosureMachine.Compile.Error
import ClosureMachine.Demo
import ClosureMachine.Fault
import ClosureMachine.Heap.Basic
import ClosureMachine.Heap.Collect
import ClosureMachine.Heap.Environment
import ClosureMachine.Heap.Frame
import ClosureMachine.Heap.Function
import ClosureMachine.Heap.OperandStack
import ClosureMachine.Heap.Value
import ClosureMachine.Heap.Word
import ClosureMachine.Host.Basic
import ClosureMachine.Host.Primitive
import ClosureMachine.Host.StringTable
import ClosureMachine.Log
import ClosureMachine.Machine.Basic
import ClosureMachine.Machine.Control
import ClosureMachine.Machine.Run
import ClosureMachine.Machine.Step
import ClosureMachine.Main
import ClosureMachine.Number.Basic
import ClosureMachine.Number.Shortest
import ClosureMachine.Number.Text
import ClosureMachine.Pattern.Basic
import ClosureMachine.Pattern.Error
import ClosureMachine.Pattern.Meaning
import ClosureMachine.Pattern.Parser
import ClosureMachine.Pattern.Tree
import ClosureMachine.Program.Basic
import ClosureMachine.Program.Listing
import ClosureMachine.Program.Log
import ClosureMachine.Scope
import ClosureMachine.Text.Blank
import ClosureMachine.Text.Column
import ClosureMachine.Text.Terminal
import ClosureMachine.Tree.Basic
import ClosureMachine.Tree.Declarations
import ClosureMachine.Tree.StackDemand
import ClosureMachine.Wire.Decoder
import ClosureMachine.Wire.Tree
import ClosureMachine.Proofs.Actions
import ClosureMachine.Proofs.Heap.Words
import ClosureMachine.Proofs.Heap.Graph
import ClosureMachine.Proofs.Heap.Copying
import ClosureMachine.Proofs.Heap.Collection
import ClosureMachine.Proofs.Heap.Tidy
import ClosureMachine.Proofs.Host.Meaning
import ClosureMachine.Proofs.Ideal.Node
import ClosureMachine.Proofs.Ideal.Represent
import ClosureMachine.Proofs.Ideal.Relocate
import ClosureMachine.Proofs.Ideal.Allocate
import ClosureMachine.Proofs.Heap.Histories
import ClosureMachine.Proofs.Heap.Isomorphism
import ClosureMachine.Proofs.Heap.Layout
import ClosureMachine.Proofs.Heap.Shapes
import ClosureMachine.Proofs.Heap.Allocation
import ClosureMachine.Proofs.Heap.Bounds
import ClosureMachine.Proofs.HeapSafety
import ClosureMachine.Proofs.Ideal.Access
import ClosureMachine.Proofs.Ideal.Update
import ClosureMachine.Proofs.Ideal.Machine
import ClosureMachine.Proofs.Ideal.Simulation
import ClosureMachine.Proofs.Ideal.Refinement
import ClosureMachine.Proofs.Ideal.Room
import ClosureMachine.Proofs.Transparency
import ClosureMachine.Proofs.Ideal.Roles
import ClosureMachine.Proofs.Ideal.Preservation
import ClosureMachine.Proofs.Ideal.Boot
import ClosureMachine.Proofs.MemorySafety
import ClosureMachine.Proofs.Names
import ClosureMachine.Proofs.StringSafety
import ClosureMachine.Proofs.Source.Evaluate
import ClosureMachine.Proofs.Ideal.Instructions
import ClosureMachine.Proofs.Ideal.Moves
import ClosureMachine.Proofs.Ideal.Later
import ClosureMachine.Proofs.Compile.Code
import ClosureMachine.Proofs.Compile.Opened
import ClosureMachine.Proofs.Compile.Points
import ClosureMachine.Proofs.Ideal.Activations
import ClosureMachine.Proofs.Ideal.Progress
import ClosureMachine.Proofs.CodeSafety
import ClosureMachine.Proofs.Ideal.Costs
import ClosureMachine.Proofs.Tail.Plain
import ClosureMachine.Proofs.Tail.Images
import ClosureMachine.Proofs.Tail.Control
import ClosureMachine.Proofs.Tail.Tandem
import ClosureMachine.Proofs.Tail.Memory
import ClosureMachine.Proofs.TailCalls
import ClosureMachine.Proofs.Source.Layout
import ClosureMachine.Proofs.Source.Expressions
import ClosureMachine.Proofs.Source.Calls
import ClosureMachine.Proofs.Source.Trees
import ClosureMachine.Proofs.Source.Runs
import ClosureMachine.Proofs.Source.Adequacy
import ClosureMachine.Proofs.Compile.WellFormed
import ClosureMachine.Proofs.Wire.Fields
import ClosureMachine.Proofs.Wire.RoundTrip
import ClosureMachine.Proofs.Wire.Spellings
import ClosureMachine.Proofs.Wire.Shortest
import ClosureMachine.Proofs.Compile.Sites
import ClosureMachine.Proofs.Ideal.Constants
import ClosureMachine.Proofs.Constancy
import ClosureMachine.Proofs.Compile.Emitted
import ClosureMachine.Proofs.Compile.Orderly
import ClosureMachine.Proofs.Compile.Patching
import ClosureMachine.Proofs.CodeLayout
import ClosureMachine.Proofs.Compile.Flow
import ClosureMachine.Proofs.Compile.Derived
import ClosureMachine.Proofs.StackBounds
import ClosureMachine.Proofs.Compile.Nesting
import ClosureMachine.Proofs.Ideal.Figures
import ClosureMachine.Proofs.Ideal.Peak
import ClosureMachine.Proofs.Ideal.Passages
import ClosureMachine.Proofs.Ideal.Segments
import ClosureMachine.Proofs.Ideal.Pace
import ClosureMachine.Proofs.ControlShape
import ClosureMachine.Proofs.RunLength
import ClosureMachine.Proofs.Host.Interning
import ClosureMachine.Proofs.Ideal.Undisturbed
import ClosureMachine.Proofs.Ideal.AnyCode
import ClosureMachine.Proofs.CallReturn
import ClosureMachine.Proofs.Heap.Stages
import ClosureMachine.Proofs.ScanLoop
import ClosureMachine.Proofs.Heap.Sound
import ClosureMachine.Proofs.OperandStacks

import Hinting.Bytecode.Encode
import Hinting.Limits.Json
import Hinting.Limits.Toml
import Hinting.Machine.Call
import Hinting.Machine.Snapshot
import Hinting.Value.Numeric
import Hinting.Proofs.Memory.Invariant
import Hinting.Proofs.Memory.Locality
import Hinting.Proofs.Memory.Capacity
import Hinting.Proofs.Memory.Atomicity
import Hinting.Proofs.Machine.Action
import Hinting.Proofs.Machine.FontProgram
import Hinting.Proofs.Machine.Operands
import Hinting.Proofs.Machine.Agreement
import Hinting.Proofs.Machine.Correspondence
import Hinting.Proofs.Machine.Simulation
import Hinting.Proofs.Machine.Shift
import Hinting.Proofs.Machine.Rest
import Hinting.Proofs.Machine.Levels
import Hinting.Proofs.Program.Marker
import Hinting.Proofs.Program.Sequence
import Hinting.Proofs.Program.Conditional
import Hinting.Proofs.Program.Expansion
import Hinting.Proofs.Program.Locality
import Hinting.Proofs.Program.Resolution
import Hinting.Proofs.Program.Capacity
import Hinting.Proofs.Program.Definition
import Hinting.Proofs.Program.Skipping
import Hinting.Proofs.Bytecode.Encoding
import Hinting.Proofs.Bytecode.Reading
import Hinting.Proofs.Bytecode.Writing
import Hinting.Proofs.Bytecode.Concatenation
import Hinting.Proofs.Bytecode.Disassembly
import Hinting.Proofs.Bytecode.Offsets
import Hinting.Proofs.Bytecode.Lines
import Hinting.Proofs.Bytecode.Resumption
import Hinting.Proofs.Bytecode.Shortest
import Hinting.Proofs.Stepping.Atomicity
import Hinting.Proofs.Stepping.Instructions
import Hinting.Proofs.Stepping.Entering
import Hinting.Proofs.Stepping.Lasting
import Hinting.Proofs.Stepping.Surroundings
import Hinting.Proofs.Stepping.Transition
import Hinting.Proofs.Stepping.Nesting
import Hinting.Proofs.Stepping.Phases
import Hinting.Proofs.Stepping.Completion
import Hinting.Proofs.Stepping.Requests
import Hinting.Proofs.Stepping.Budget
import Hinting.Proofs.Stepping.Retention
import Hinting.Proofs.Stepping.Sources
import Hinting.Proofs.Stepping.Definitions
import Hinting.Proofs.Stepping.Recording
import Hinting.Proofs.Stepping.Trails
import Hinting.Proofs.Session.History
import Hinting.Proofs.Session.Termination
import Hinting.Proofs.Session.Calls
import Hinting.Proofs.Session.Conditionals
import Hinting.Proofs.Session.Forgetting
import Hinting.Proofs.Session.Definitions
import Hinting.Proofs.Session.Nesting
import Hinting.Proofs.Session.Shape
import Hinting.Proofs.Stepping.Malformation
import Hinting.Proofs.Session.Malformation
import Hinting.Proofs.Stepping.Depth
import Hinting.Proofs.Memory.Shape
import Hinting.Proofs.Checked.Agreement
import Hinting.Proofs.Session.Definedness
import Hinting.Proofs.Json.Snapshot
import Hinting.Proofs.Json.Document
import Hinting.Proofs.Arithmetic.Operands
import Hinting.Proofs.Arithmetic.Comparison
import Hinting.Proofs.Arithmetic.Product
import Hinting.Proofs.Arithmetic.Quotient
import Hinting.Proofs.Arithmetic.Rounding
import Hinting.Proofs.Arithmetic.Representation
import Hinting.Proofs.Memory.Elements
import Hinting.Proofs.Memory.Registers
import Hinting.Proofs.Memory.Writes
import Hinting.Proofs.Session.Registers
import Hinting.Proofs.Enumeration
import Hinting.Proofs.Stepping.Registers
import Hinting.Proofs.Session.Snapshot

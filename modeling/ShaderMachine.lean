import ShaderMachine.Assembler.Builder
import ShaderMachine.Assembler.Immediate
import ShaderMachine.Assembler.Source
import ShaderMachine.Assembler.Statement
import ShaderMachine.Batch
import ShaderMachine.Budget
import ShaderMachine.CommandLine.Arguments
import ShaderMachine.CommandLine.Execution
import ShaderMachine.CommandLine.Failure
import ShaderMachine.CommandLine.Files
import ShaderMachine.CommandLine.Help
import ShaderMachine.CommandLine.Report
import ShaderMachine.Decimal.Binary32
import ShaderMachine.Decimal.Format
import ShaderMachine.Decimal.Reading
import ShaderMachine.Decimal.Shortest
import ShaderMachine.Document.Json
import ShaderMachine.Document.JsonText
import ShaderMachine.Document.Node
import ShaderMachine.Document.Toml
import ShaderMachine.Document.Toml.Scalar
import ShaderMachine.Document.Toml.Table
import ShaderMachine.Document.Yaml
import ShaderMachine.Document.Yaml.Cursor
import ShaderMachine.Document.Yaml.Scalar
import ShaderMachine.Event
import ShaderMachine.Fault
import ShaderMachine.Function
import ShaderMachine.Instruction.Basic
import ShaderMachine.Instruction.Decode
import ShaderMachine.Instruction.Encode
import ShaderMachine.Instruction.Listing
import ShaderMachine.Interpreter
import ShaderMachine.Machine.Execution
import ShaderMachine.Machine.State
import ShaderMachine.Machine.Step
import ShaderMachine.Main
import ShaderMachine.Manifest
import ShaderMachine.Manifest.Format
import ShaderMachine.Manifest.Json
import ShaderMachine.Manifest.Reading
import ShaderMachine.Memory.Globals
import ShaderMachine.Memory.Slots
import ShaderMachine.Memory.Stack
import ShaderMachine.Numeral
import ShaderMachine.Opcode
import ShaderMachine.Program
import ShaderMachine.Scalar
import ShaderMachine.Text.Blank
import ShaderMachine.Text.Escape
import ShaderMachine.Text.Path
import ShaderMachine.Word
import ShaderMachine.Proofs.Instruction.Codec
import ShaderMachine.Proofs.Instruction.Tiling
import ShaderMachine.Proofs.Assembler.Decoding
import ShaderMachine.Proofs.Machine.Locality
import ShaderMachine.Proofs.Machine.Run
import ShaderMachine.Proofs.Machine.Invocation
import ShaderMachine.Proofs.Assembler.Running
import ShaderMachine.Proofs.Assembler.Transparency
import ShaderMachine.Proofs.Assembler.Tokens
import ShaderMachine.Proofs.Assembler.Statements
import ShaderMachine.Proofs.Assembler.Reassembly
import ShaderMachine.Proofs.Machine.Budget
import ShaderMachine.Proofs.Instruction.Faults
import ShaderMachine.Proofs.Machine.Convention
import ShaderMachine.Proofs.Machine.Session
import ShaderMachine.Proofs.Batch
import ShaderMachine.Proofs.Memory.Sizes
import ShaderMachine.Proofs.Machine.Height
import ShaderMachine.Proofs.Machine.Location
import ShaderMachine.Proofs.Assembler.Relisting
import ShaderMachine.Proofs.Checked.Access
import ShaderMachine.Proofs.Checked.Memory
import ShaderMachine.Proofs.Checked.Step
import ShaderMachine.Proofs.Checked.Reading
import ShaderMachine.Proofs.Checked.Run
import ShaderMachine.Proofs.Instruction.Appended
import ShaderMachine.Proofs.Machine.Coincidence
import ShaderMachine.Proofs.Machine.Appended
import ShaderMachine.Proofs.Machine.SingleLane
import ShaderMachine.Proofs.Memory.Writes
import ShaderMachine.Proofs.Assembler.Drafting
import ShaderMachine.Proofs.Machine.Footprint
import ShaderMachine.Proofs.Machine.GlobalWrites
import ShaderMachine.Proofs.Assembler.Acceptance
import ShaderMachine.Proofs.Program.Layout
import ShaderMachine.Proofs.Memory.Contents
import ShaderMachine.Proofs.Machine.Words
import ShaderMachine.Proofs.Machine.LaneArithmetic
import ShaderMachine.Proofs.Machine.Tracing
import ShaderMachine.Proofs.Assembler.Naming
import ShaderMachine.Proofs.Assembler.Targets
import ShaderMachine.Proofs.Machine.Gather
import ShaderMachine.Proofs.Machine.Scatter
import ShaderMachine.Proofs.Machine.Shuffle
import ShaderMachine.Proofs.Machine.Assignment
import ShaderMachine.Proofs.Assembler.Immediates
import ShaderMachine.Proofs.Scalar.Division
import ShaderMachine.Proofs.Assembler.Formatting
import ShaderMachine.Proofs.Program.Loading
import ShaderMachine.Proofs.Instruction.Extent
import ShaderMachine.Proofs.Document.JsonText
import ShaderMachine.Proofs.Manifest.RoundTrip

import StackMachine.CommandLine.Folder
import StackMachine.Main
import StackMachine.Proofs.Machine.Damage
import StackMachine.Proofs.Machine.Invariant
import StackMachine.Proofs.Machine.Agreement
import StackMachine.Proofs.Machine.Steps
import StackMachine.Proofs.Assembly.ControlFlow
import StackMachine.Proofs.Assembly.Resolution
import StackMachine.Proofs.Disassembly.RoundTrip
import StackMachine.Proofs.Disassembly.Reread
import StackMachine.Proofs.Disassembly.Execution
import StackMachine.Proofs.Machine.PlainMachine
import StackMachine.Proofs.Machine.Extension
import StackMachine.Proofs.Machine.Larger
import StackMachine.Proofs.Machine.Storage
import StackMachine.Proofs.Assembly.Concatenation
import StackMachine.Proofs.Assembly.References
import StackMachine.Proofs.Machine.Output
import StackMachine.Proofs.Machine.Running
import StackMachine.Proofs.Assembly.Excess
import StackMachine.Proofs.CommandLine.Assembler
import StackMachine.Proofs.Assembly.Tiling
import StackMachine.Proofs.Operand.Longest
import StackMachine.Proofs.Assembly.Offsets
import StackMachine.Proofs.Assembly.Spacing
import StackMachine.Proofs.GuardedStack.Strict
import StackMachine.Proofs.GuardedStack.Resizing
import StackMachine.Proofs.Operand.Binary
import StackMachine.Proofs.Disassembly.Composition
import StackMachine.Proofs.Machine.Reading
import StackMachine.Proofs.Program.Format
import StackMachine.Proofs.Machine.Screen
import StackMachine.Proofs.Journal.Calendar
import StackMachine.Proofs.Labels
import StackMachine.Proofs.Program.Reads
import StackMachine.Proofs.Operand.Within

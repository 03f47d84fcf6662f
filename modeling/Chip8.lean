import Chip8.CommandLine
import Chip8.Debugger
import Chip8.Disassembly
import Chip8.Main
import Chip8.Proofs.Accesses
import Chip8.Proofs.BreakpointEdits
import Chip8.Proofs.Breakpoints
import Chip8.Proofs.Corruption
import Chip8.Proofs.Countdown
import Chip8.Proofs.Coupled
import Chip8.Proofs.Cycle
import Chip8.Proofs.Decoding
import Chip8.Proofs.Display
import Chip8.Proofs.Drawing
import Chip8.Proofs.Failing
import Chip8.Proofs.Faults
import Chip8.Proofs.FlatMemory
import Chip8.Proofs.Journal
import Chip8.Proofs.Keeping
import Chip8.Proofs.KeyWaits
import Chip8.Proofs.Labels
import Chip8.Proofs.Loading
import Chip8.Proofs.Loops
import Chip8.Proofs.Memory
import Chip8.Proofs.Operands
import Chip8.Proofs.Pacing
import Chip8.Proofs.Passes
import Chip8.Proofs.Reassembly
import Chip8.Proofs.Recording
import Chip8.Proofs.Redo
import Chip8.Proofs.Redrawing
import Chip8.Proofs.Reference
import Chip8.Proofs.Refinement
import Chip8.Proofs.RegisterTransfers
import Chip8.Proofs.Representation
import Chip8.Proofs.Restart
import Chip8.Proofs.Runs
import Chip8.Proofs.Sessions
import Chip8.Proofs.Settings
import Chip8.Proofs.Simulation
import Chip8.Proofs.SourceEdits
import Chip8.Proofs.Subroutines
import Chip8.Proofs.Tone
import Chip8.Proofs.Torus
import Chip8.Proofs.Undo
import Chip8.Value.Json

import Chip8.Main
import Chip8.Proofs.Instruction.Words
import Chip8.Proofs.Machine.Runs
import Chip8.Proofs.Screen.Plot
import Chip8.Proofs.Machine.Range
import Chip8.Proofs.Guarded.Effect
import Chip8.Proofs.Guarded.Machine
import Chip8.Proofs.Instruction.Faults
import Chip8.Proofs.Machine.Undo
import Chip8.Proofs.Machine.Faults
import Chip8.Proofs.Machine.Redraw
import Chip8.Proofs.Session.Screen
import Chip8.Proofs.Machine.Waiting
import Chip8.Proofs.Rom.Delivery
import Chip8.Proofs.Machine.Calls
import Chip8.Proofs.Machine.Reset
import Chip8.Proofs.Machine.Replay
import Chip8.Proofs.Machine.Loading
import Chip8.Proofs.Machine.Chance
import Chip8.Proofs.Machine.Bursts
import Chip8.Proofs.Session.Passes
import Chip8.Proofs.Session.Keys
import Chip8.Proofs.Session.Timers
import Chip8.Proofs.Machine.Abreast
import Chip8.Proofs.Machine.Dialects
import Chip8.Proofs.Machine.KeyTiming
import Chip8.Proofs.Session.Outages
import Chip8.Proofs.Machine.Outputs
import Chip8.Proofs.Screen.Overdrawing
import Chip8.Proofs.Instruction.Arithmetic
import Chip8.Proofs.Instruction.Changes
import Chip8.Proofs.Instruction.Transfers
import Chip8.Proofs.Session.Ignored
import Chip8.Proofs.Session.Tone
import Chip8.Proofs.Screen.Colours
import Chip8.Proofs.CommandLine.ReadBack
import Chip8.Proofs.Instruction.Mnemonics

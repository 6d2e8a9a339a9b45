import ChipEight.Instruction.Encoding
import ChipEight.Machine.Operation
import ChipEight.Main
import ChipEight.Proofs.Numeral
import ChipEight.Proofs.Instruction.Fields
import ChipEight.Proofs.Instruction.Listing
import ChipEight.Proofs.Instruction.Encoding
import ChipEight.Proofs.Instruction.Disassembly
import ChipEight.Proofs.Instruction.Assembly
import ChipEight.Proofs.Memory.Blocks
import ChipEight.Proofs.Memory.Image
import ChipEight.Proofs.Memory.Untouched
import ChipEight.Proofs.Memory.Contents
import ChipEight.Proofs.Memory.Stores
import ChipEight.Proofs.Display.Framebuffer
import ChipEight.Proofs.Display.Toggling
import ChipEight.Proofs.Display.Drawing
import ChipEight.Proofs.Display.Superposition
import ChipEight.Proofs.Display.Translation
import ChipEight.Proofs.Machine.Effect
import ChipEight.Proofs.Machine.StepRules
import ChipEight.Proofs.Machine.Runs
import ChipEight.Proofs.Machine.Bounds
import ChipEight.Proofs.Machine.History
import ChipEight.Proofs.Machine.Simulation
import ChipEight.Proofs.Machine.Alike
import ChipEight.Proofs.Machine.Coherence
import ChipEight.Proofs.Machine.Loading
import ChipEight.Proofs.Machine.Reload
import ChipEight.Proofs.Machine.KeyWait
import ChipEight.Proofs.Machine.ExternalEvents
import ChipEight.Proofs.Machine.Cycles
import ChipEight.Proofs.Machine.Countdowns
import ChipEight.Proofs.Machine.Dump
import ChipEight.Proofs.Machine.Footprints
import ChipEight.Proofs.Machine.Faults
import ChipEight.Proofs.Machine.Randomness
import ChipEight.Proofs.Machine.Halting
import ChipEight.Proofs.Machine.Anomalies
import ChipEight.Proofs.Machine.Adjustment
import ChipEight.Proofs.Machine.Dialects
import ChipEight.Proofs.Machine.Calls
import ChipEight.Proofs.Machine.Trace
import ChipEight.Proofs.Machine.Presentation
import ChipEight.Proofs.Machine.DirtyFlag
import ChipEight.Proofs.Machine.Palettes
import ChipEight.Proofs.Machine.Arithmetic
import ChipEight.Proofs.Machine.BlockTransfer
import ChipEight.Proofs.Machine.ControlFlow
import ChipEight.Proofs.Machine.Sprites
import ChipEight.Proofs.Machine.Decimal
import ChipEight.Proofs.Machine.Glyphs
import ChipEight.Proofs.App.Occurrences
import ChipEight.Proofs.App.Redraw
import ChipEight.Proofs.App.Keyboard
import ChipEight.Proofs.App.Loop
import ChipEight.Proofs.App.Run
import ChipEight.Proofs.App.Title
import ChipEight.Proofs.CommandLine.RoundTrip

import Chip8Console.CallStack
import Chip8Console.CommandLine.Options
import Chip8Console.CommandLine.Session
import Chip8Console.Fault
import Chip8Console.Files.Path
import Chip8Console.Files.Place
import Chip8Console.Files.Tree
import Chip8Console.Host.Basic
import Chip8Console.Host.Ending
import Chip8Console.Host.Loop
import Chip8Console.Instruction.Basic
import Chip8Console.Instruction.Text
import Chip8Console.Keypad.Key
import Chip8Console.Keypad.Keyboard
import Chip8Console.Keypad.Keys
import Chip8Console.Keypad.Layout
import Chip8Console.Keypad.Line
import Chip8Console.Keypad.Signal
import Chip8Console.Keypad.Typing
import Chip8Console.Keystream
import Chip8Console.Machine.Basic
import Chip8Console.Machine.Decimal
import Chip8Console.Machine.Dump
import Chip8Console.Machine.Exec
import Chip8Console.Main
import Chip8Console.Nibble
import Chip8Console.Notice
import Chip8Console.ProgramSearch
import Chip8Console.Proofs.CallStack
import Chip8Console.Proofs.Host.Changes
import Chip8Console.Proofs.Host.Course
import Chip8Console.Proofs.Host.Frames
import Chip8Console.Proofs.Host.Hearing
import Chip8Console.Proofs.Host.InstructionCount
import Chip8Console.Proofs.Host.Itinerary
import Chip8Console.Proofs.Host.KeypadAgreement
import Chip8Console.Proofs.Host.Lockstep
import Chip8Console.Proofs.Host.LongerRun
import Chip8Console.Proofs.Host.Mute
import Chip8Console.Proofs.Host.Onsets
import Chip8Console.Proofs.Host.Pacing
import Chip8Console.Proofs.Host.Quitting
import Chip8Console.Proofs.Host.Resting
import Chip8Console.Proofs.Host.SameClock
import Chip8Console.Proofs.Host.Service
import Chip8Console.Proofs.Host.Session
import Chip8Console.Proofs.Host.Speaker
import Chip8Console.Proofs.Host.Spending
import Chip8Console.Proofs.Host.Splitting
import Chip8Console.Proofs.Host.TimerRate
import Chip8Console.Proofs.Host.Timing
import Chip8Console.Proofs.Host.ToneEdges
import Chip8Console.Proofs.Host.Waiting
import Chip8Console.Proofs.Instruction.Assembly
import Chip8Console.Proofs.Instruction.Encoding
import Chip8Console.Proofs.Instruction.Fields
import Chip8Console.Proofs.Keypad.Holding
import Chip8Console.Proofs.Keypad.Layout
import Chip8Console.Proofs.Keypad.Levels
import Chip8Console.Proofs.Keypad.Tables
import Chip8Console.Proofs.Machine.Action
import Chip8Console.Proofs.Machine.Arithmetic
import Chip8Console.Proofs.Machine.Bare.Basic
import Chip8Console.Proofs.Machine.Bare.Cells
import Chip8Console.Proofs.Machine.Bare.Perform
import Chip8Console.Proofs.Machine.Bare.Run
import Chip8Console.Proofs.Machine.Bounds
import Chip8Console.Proofs.Machine.Calls
import Chip8Console.Proofs.Machine.Drawing
import Chip8Console.Proofs.Machine.Fault
import Chip8Console.Proofs.Machine.Independence
import Chip8Console.Proofs.Machine.Interleaving
import Chip8Console.Proofs.Machine.KeyTests
import Chip8Console.Proofs.Machine.KeyWait
import Chip8Console.Proofs.Machine.Keypad
import Chip8Console.Proofs.Machine.Loading
import Chip8Console.Proofs.Machine.Painting
import Chip8Console.Proofs.Machine.Parking
import Chip8Console.Proofs.Machine.Operation
import Chip8Console.Proofs.Machine.RandomWords
import Chip8Console.Proofs.Machine.Saving
import Chip8Console.Proofs.Machine.Stamping
import Chip8Console.Proofs.Machine.Untimed
import Chip8Console.Proofs.Ram.Accesses
import Chip8Console.Proofs.Ram.LoadAddress
import Chip8Console.Proofs.Ram.Overlay
import Chip8Console.Proofs.Ram.Reading
import Chip8Console.Proofs.Screen.Planes
import Chip8Console.Proofs.Screen.Precision
import Chip8Console.Proofs.Screen.Toggling
import Chip8Console.Proofs.Text.Hex
import Chip8Console.Proofs.Timers.Pacer
import Chip8Console.Proofs.Timers.Settling
import Chip8Console.Proofs.Timers.Spans
import Chip8Console.Ram.Basic
import Chip8Console.Ram.ByteSource
import Chip8Console.Ram.Font
import Chip8Console.Ram.Image
import Chip8Console.Screen.Basic
import Chip8Console.Screen.Precision
import Chip8Console.Screen.Raster
import Chip8Console.Screen.Sprite
import Chip8Console.Terminal.Basic
import Chip8Console.Terminal.Canvas
import Chip8Console.Terminal.Escape
import Chip8Console.Text.Digits
import Chip8Console.Text.Hex
import Chip8Console.Text.Interval
import Chip8Console.Text.Quoted
import Chip8Console.Text.Shapeless
import Chip8Console.Timers.Basic
import Chip8Console.Timers.Pacer
import Chip8Console.Timers.Tone

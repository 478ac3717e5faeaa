import Chip8.Clock.Schedule
import Chip8.Keypad.Hold
import Chip8.Keypad.Layout
import Chip8.Main
import Chip8.Session.Operation
import Chip8.Terminal
import Chip8.Proofs.Timetable
import Chip8.Proofs.CatchUp
import Chip8.Proofs.Procedure
import Chip8.Proofs.Decoding
import Chip8.Proofs.Faults
import Chip8.Proofs.Reachable
import Chip8.Proofs.Encoding
import Chip8.Proofs.KeyWait
import Chip8.Proofs.Polling
import Chip8.Proofs.Tone
import Chip8.Proofs.Ticks
import Chip8.Proofs.Frames
import Chip8.Proofs.Halt
import Chip8.Proofs.RealTime
import Chip8.Proofs.Looks
import Chip8.Proofs.Picture
import Chip8.Proofs.Footprint
import Chip8.Proofs.Subroutine
import Chip8.Proofs.Guarded
import Chip8.Proofs.Bounds
import Chip8.Proofs.Dialects
import Chip8.Proofs.Interleaving
import Chip8.Proofs.RandomDraws
import Chip8.Proofs.Timers
import Chip8.Proofs.FreshStart
import Chip8.Proofs.Display
import Chip8.Proofs.Landings
import Chip8.Proofs.DrawingOrder
import Chip8.Proofs.LitPixels
import Chip8.Proofs.Flags
import Chip8.Proofs.Transfers
import Chip8.Proofs.Drift
import Chip8.Proofs.Latest
import Chip8.Proofs.LatestWrite
import Chip8.Proofs.HeldKeys
import Chip8.Proofs.RegisterNumbers
import Chip8.Proofs.ScreenText

import Chip8.Clock
import Chip8.Keypad.Script
import Chip8.Session.Procedure

/-!
A console: a session that a clock drives, with keys coming in and screens and a tone going out.

Before each instruction the next look of the key script is taken.  The tone follows the sound
timer after every instruction and every timer tick, and each timer tick hands out the screen if it
changed.  The first fault halts the instructions for good; the timers go on.  What goes out is kept
as a record of events.
-/

namespace Chip8

inductive Event
  | frame (screen : Screen)
  | tone (on : Bool)
  deriving DecidableEq, Repr

namespace Event

def frames (events : List Event) : List Screen :=
  events.filterMap fun
    | frame screen => some screen
    | tone _ => none

def tones (events : List Event) : List Bool :=
  events.filterMap fun
    | frame _ => none
    | tone on => some on

def toneAfter (events : List Event) : Bool :=
  (tones events).getLast?.getD false

/-- The screen seen after events, if any was shown. -/
def frameAfter? (events : List Event) : Option Screen :=
  (frames events).getLast?

end Event

structure Console where
  session : Session
  script : KeyScript
  clock : Clock
  /-- The tone that was switched on or off last. -/
  tone : Bool
  /-- The fault that halted the instructions. -/
  halted : Option Fault
  /-- The events so far, the latest first. -/
  record : List Event
  deriving DecidableEq, Repr

namespace Console

/-- A console about to start, at a rate of instructions per second. -/
def new (session : Session) (script : KeyScript) (rate : Nat) : Console where
  session := session
  script := script
  clock := .ofRate rate
  tone := false
  halted := none
  record := []

/-- The events so far, the earliest first. -/
def events (c : Console) : List Event :=
  c.record.reverse

def emit (c : Console) (event : Event) : Console :=
  { c with record := event :: c.record }

/-- Switch the tone to follow the sound timer; only a change is an event. -/
def followTone (c : Console) : Console :=
  if c.session.sounds = c.tone then c
  else { c.emit (.tone c.session.sounds) with tone := c.session.sounds }

/-- Hand out the screen if it changed. -/
def showFrame (c : Console) : Console :=
  match c.session.present with
  | (some screen, taken) => { c.emit (.frame screen) with session := taken }
  | (none, _) => c

/-- Take the next look at the keys. -/
def readKeys (c : Console) : Console :=
  { c with
    script := c.script.next
    session := c.session.showKeys c.script.next.held }

/-- Execute one instruction; a fault halts the console. -/
def runInstruction (c : Console) : Console :=
  match c.session.step with
  | ⟨after, none⟩ => followTone { c with session := after }
  | ⟨after, some fault⟩ => { c with session := after, halted := some fault }

def instructionTick (c : Console) : Console :=
  match c.halted with
  | some _ => c
  | none => c.readKeys.runInstruction

def timerTick (c : Console) : Console :=
  (followTone { c with session := c.session.countDown }).showFrame

def tick (c : Console) : Tick → Console
  | .instruction => c.instructionTick
  | .timer => c.timerTick

def tickAll (c : Console) (ticks : List Tick) : Console :=
  ticks.foldl tick c

/-- Process ticks that are due at or before `now`, at most `limit` of them. -/
def process (now : Nat) : Nat → Console → Console
  | 0, c => c
  | limit + 1, c =>
      match c.clock.next? now with
      | none => c
      | some (tick, clock) => process now limit (({ c with clock }).tick tick)

/-- Process every tick that is due at or before `now`.  The fault is the one that halted the
instructions, now or earlier. -/
def catchUp (c : Console) (now : Nat) : Outcome Console :=
  let after := process now (c.clock.pending now) c
  ⟨after, after.halted⟩

/-- Catch up with one reading of the time after another, whether or not one meets a fault. -/
def catchUpAll (c : Console) (readings : List Nat) : Console :=
  readings.foldl (fun console now => (console.catchUp now).state) c

/-- Catch up with one reading of the time after another, up to the first fault. -/
def play (c : Console) : List Nat → Outcome Console
  | [] => .done c
  | now :: later =>
      match c.catchUp now with
      | ⟨after, none⟩ => after.play later
      | ⟨after, some fault⟩ => .stopped after fault

end Console

end Chip8

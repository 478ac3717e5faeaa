import Chip8.Console
import Chip8.Options.CommandLine
import Chip8.Screen.Text

/-!
Running a program without keys and without a screen.

A run ends with a report: an exit code, what is printed, and the line that says what went wrong.
The screen is printed when the program has ended, also when a fault ended it; nothing is printed
when it could not start.
-/

namespace Chip8.Headless

structure Report where
  exitCode : Nat
  output : String
  errorLine : Option String
  deriving DecidableEq, Repr

def causeLine (cause : String) : String :=
  "Error: " ++ cause

/-- The cause when there is no file where the program should be. -/
def missingFile : String :=
  "Os " ++ Fault.braced "code: 2, kind: NotFound, message: \"No such file or directory\""

def versionText : String :=
  "chip8-vm 0.1.0\n"

def helpText : String :=
  "chip8-vm 0.1.0\n\nUSAGE:\n    chip8-vm [FLAGS] [OPTIONS] <input>\n"

/-- A run that printed something and ended well. -/
def Report.printed (output : String) : Report :=
  ⟨0, output, none⟩

def Report.failed (errorLine : Option String) : Report :=
  ⟨1, "", errorLine⟩

/-- The report of a command line that starts no program. -/
def Report.ofRefusal : Refusal → Report
  | .help => .printed helpText
  | .version => .printed versionText
  | _ => .failed none

/-- The report of a run that ended with this console. -/
def Report.ofOutcome (ended : Outcome Console) : Report where
  exitCode := if ended.fault.isSome then 1 else 0
  output := ended.state.session.machine.screen.toText
  errorLine := ended.fault.map fun fault => causeLine fault.diagnosis

/-- The console for options and the bytes of a program, or the report of why there is none.  When
the program cannot be read, the cause takes its place. -/
def start (options : Options) (program : Except String (List UInt8)) (fresh : UInt64) :
    Except Report Console :=
  match program with
  | .error cause => .error (.failed (some (causeLine cause)))
  | .ok bytes =>
      match (Session.new options.dialect (options.randomBytes fresh)).boot bytes with
      | ⟨_, some fault⟩ => .error (.failed (some (causeLine fault.diagnosis)))
      | ⟨session, none⟩ => .ok (.new session .silent options.instructionRate)

/-- A run may go on at a time. -/
def before (limit : Option Nat) (now : Nat) : Bool :=
  match limit with
  | none => true
  | some limit => decide (now < limit)

/-- Run with readings of the time that are exact: each is the deadline of the next tick.  The run
ends with a fault, when the limit is reached, or after so many readings. -/
def playExactly (limit : Option Nat) : Nat → Console → Nat → Outcome Console
  | 0, console, _ => .done console
  | readings + 1, console, now =>
      if before limit now then
        match console.catchUp now with
        | ⟨after, some fault⟩ => .stopped after fault
        | ⟨after, none⟩ => playExactly limit readings after after.clock.deadline
      else
        .done console

/-- The report of a command line, run with exact readings of the time.  `file` gives the bytes
that stand where an input says, or why they cannot be read, and `fresh` is the seed where none is
chosen. -/
def run (words : List String) (file : String → Except String (List UInt8)) (fresh : UInt64)
    (readings : Nat) : Report :=
  match CommandLine.read words with
  | .error refusal => .ofRefusal refusal
  | .ok options =>
      match start options (file options.input) fresh with
      | .error report => report
      | .ok console => .ofOutcome (playExactly options.limit? readings console 0)

end Chip8.Headless

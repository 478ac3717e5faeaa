import Chip8.Session.Procedure

/-!
Everything that can be done to a session, as data.

An `Operation` is one of the operations of a session with its arguments, and a `Reply` is what it
answers.  A history is a list of operations; `Session.run` goes through one and `Session.replies`
collects the answers.
-/

namespace Chip8

inductive Operation
  /-- Start over with a program. -/
  | boot (program : List UInt8)
  /-- Start over without a program. -/
  | restart
  /-- Fetch and execute one instruction. -/
  | step
  | perform (instruction : Instruction)
  /-- Execute given instructions up to the first that fails. -/
  | performAll (instructions : List Instruction)
  /-- Take a new look at the keypad. -/
  | showKeys (keypad : Keypad)
  | countDown
  | present
  deriving DecidableEq, Repr

inductive Reply
  | done
  | stopped (fault : Fault)
  /-- The timers ticked, and the tone is now on or off. -/
  | tone (on : Bool)
  /-- The screen, if it had changed. -/
  | frame (screen : Option Screen)
  deriving DecidableEq, Repr

/-- The answer of an operation that a fault may stop. -/
def Reply.ofFault? : Option Fault → Reply
  | none => .done
  | some fault => .stopped fault

namespace Session

/-- Answer an operation by its outcome. -/
def answer (outcome : Outcome Session) : Reply × Session :=
  (.ofFault? outcome.fault, outcome.state)

/-- Do one thing: what it answers, and the session afterwards. -/
def apply (s : Session) : Operation → Reply × Session
  | .boot program => answer (s.boot program)
  | .restart => (.done, s.restart)
  | .step => answer s.step
  | .perform instruction => answer (s.perform instruction)
  | .performAll instructions => answer (s.performAll instructions)
  | .showKeys keypad => (.done, s.showKeys keypad)
  | .countDown => (.tone s.countDown.sounds, s.countDown)
  | .present => (.frame s.present.1, s.present.2)

def run (s : Session) (history : List Operation) : Session :=
  history.foldl (fun session operation => (session.apply operation).2) s

def replies (s : Session) : List Operation → List Reply
  | [] => []
  | operation :: rest => (s.apply operation).1 :: (s.apply operation).2.replies rest

theorem run_append (s : Session) (earlier later : List Operation) :
    s.run (earlier ++ later) = (s.run earlier).run later := by
  simp [run]

theorem length_replies (s : Session) (history : List Operation) :
    (s.replies history).length = history.length := by
  induction history generalizing s with
  | nil => rfl
  | cons operation rest ih => simp [replies, ih]

end Session

end Chip8

import Chip8.Proofs.Halt
import Chip8.Proofs.KeyWait

/-!
Which look at the keys an instruction tick runs with.

Every instruction tick of a console takes one look, before its step, until the console is halted; so
the number of the tick is the number of the look.  A wait for a key that began with one look ends at
the first later tick whose look shows a press, and that tick executes what comes after the wait.
-/

namespace Chip8

namespace KeyScript

/-- The look that a request is answered with; requests are counted from one.  The last look answers
all further ones, and without looks no key is down. -/
def look (looks : List Keypad) (request : Nat) : Keypad :=
  if request = 0 then .released else looks.getD (min request looks.length - 1) .released

/-- No key goes down from the answer to a request to the next answer. -/
def Rests (looks : List Keypad) (request : Nat) : Prop :=
  ∀ key, Keypad.wentDown (look looks request) (look looks (request + 1)) key = false

theorem exists_lowestPress_of_not_rests {looks : List Keypad} {request : Nat}
    (hpress : ¬ Rests looks request) :
    ∃ key, Keypad.LowestPress (look looks request) (look looks (request + 1)) key := by
  cases hfirst : Keypad.firstPressed? (look looks request) (look looks (request + 1)) with
  | none => exact absurd ((Keypad.firstPressed?_eq_none_iff _ _).1 hfirst) hpress
  | some key => exact ⟨key, Keypad.firstPressed?_eq_some_iff.1 hfirst⟩

/-- The script of some looks after a number of requests. -/
def afterRequests (looks : List Keypad) (requests : Nat) : KeyScript :=
  ⟨looks.drop requests, look looks requests⟩

theorem afterRequests_zero (looks : List Keypad) : afterRequests looks 0 = ofList looks := by
  simp [afterRequests, look, ofList]

theorem next_afterRequests (looks : List Keypad) (requests : Nat) :
    (afterRequests looks requests).next = afterRequests looks (requests + 1) := by
  by_cases hmore : requests < looks.length
  · have hcount : min (requests + 1) looks.length - 1 = requests := by omega
    have hlook : look looks (requests + 1) = looks[requests] := by
      rw [look, if_neg (Nat.succ_ne_zero requests), hcount]
      exact (List.getElem_eq_getD Keypad.released).symm
    simp only [afterRequests, hlook, List.drop_eq_getElem_cons hmore, next]
  · -- The script is used up; before the first request that means that it was empty.
    have hused : looks.length ≤ requests := Nat.le_of_not_lt hmore
    have hlook : look looks (requests + 1) = look looks requests := by
      by_cases hfirst : requests = 0
      · subst hfirst
        have hnone : looks = [] := List.eq_nil_of_length_eq_zero (Nat.le_zero.1 hused)
        simp [look, hnone]
      · rw [look, look, if_neg (Nat.succ_ne_zero requests), if_neg hfirst,
          Nat.min_eq_right hused, Nat.min_eq_right (Nat.le_succ_of_le hused)]
    simp only [afterRequests, hlook, List.drop_of_length_le hused,
      List.drop_of_length_le (Nat.le_succ_of_le hused), next]

end KeyScript

open KeyScript

namespace Session

theorem keypad_showKeys (s : Session) (keypad : Keypad) :
    (s.showKeys keypad).machine.keypad = keypad := by
  obtain ⟨registers, activity, hshown⟩ := s.exists_showKeys_eq keypad
  rw [hshown]

theorem keypad_step (s : Session) : s.step.state.machine.keypad = s.machine.keypad := by
  cases hexecuted : s.executed? with
  | none => rw [step_of_executed?_eq_none hexecuted]
  | some instruction =>
      obtain ⟨-, -, after, hexecute, hstep⟩ := step_of_executed? hexecuted
      obtain ⟨machine, hmachine, rfl⟩ := exists_of_map_eq_ok hexecute
      rw [hstep]
      exact (Machine.view_of_execute hmachine).1

theorem executed?_of_awaiting {s : Session} {register : UInt8}
    (hactivity : s.activity = .awaitingKey register) : s.executed? = none := by
  simp only [executed?, hactivity]

/-- What the instruction that begins a wait for a key does. -/
theorem step_of_executed?_awaitKey {s : Session} {register : UInt8}
    (hexecuted : s.executed? = some (.awaitKey register)) :
    s.step = .done { s with machine := s.machine.advance, activity := .awaitingKey register } := by
  obtain ⟨-, -, after, hexecute, hstep⟩ := step_of_executed? hexecuted
  cases hexecute
  exact hstep

/-- The session with another look at the keypad, which presses nothing. -/
def withKeypad (s : Session) (keypad : Keypad) : Session :=
  { s with machine := { s.machine with keypad } }

theorem afterTimerTicks_withKeypad (s : Session) (keypad : Keypad) (count : Nat) :
    (s.withKeypad keypad).afterTimerTicks count = (s.afterTimerTicks count).withKeypad keypad :=
  rfl

end Session

namespace Console

variable {c : Console} {looks : List Keypad} {register : UInt8} {count : Nat}

/-- The look that the next instruction tick takes. -/
theorem readKeys_session (hscript : c.script = afterRequests looks count) :
    c.readKeys.session = c.session.showKeys (look looks (count + 1)) := by
  rw [readKeys, hscript, next_afterRequests]
  rfl

theorem instructionTick_script_of_afterRequests (hrunning : c.halted = none)
    (hscript : c.script = afterRequests looks count) :
    (c.tick .instruction).script = afterRequests looks (count + 1) := by
  rw [instructionTick_script hrunning, hscript, next_afterRequests]

/-- As long as a console is not halted, each of its instruction ticks has taken one look. -/
theorem script_tickAll (hscript : c.script = afterRequests looks count) {ticks : List Tick}
    (hrunning : (c.tickAll ticks).halted = none) :
    (c.tickAll ticks).script = afterRequests looks (count + ticks.count .instruction) := by
  induction ticks generalizing c count with
  | nil => exact hscript
  | cons tick rest ih =>
      cases tick with
      | timer =>
          rw [Tick.count_instruction_cons_timer]
          exact ih (c.timerTick_script.trans hscript) hrunning
      | instruction =>
          have hnow : c.halted = none := halted_eq_none_of_tickAll hrunning
          rw [List.count_cons_self, Nat.add_comm (rest.count _) 1, ← Nat.add_assoc]
          exact ih (instructionTick_script_of_afterRequests hnow hscript) hrunning

/-- A console that waits for a key; its latest look is the one with the number `count`. -/
structure Waiting (looks : List Keypad) (register : UInt8) (count : Nat) (c : Console) : Prop where
  running : c.halted = none
  script : c.script = afterRequests looks count
  keypad : c.session.machine.keypad = look looks count
  activity : c.session.activity = .awaitingKey register

theorem Waiting.timerTick (h : c.Waiting looks register count) :
    (c.tick .timer).Waiting looks register count where
  running := c.timerTick_halted.trans h.running
  script := c.timerTick_script.trans h.script
  keypad := by
    rw [timerTick_session]
    exact h.keypad
  activity := by
    rw [timerTick_session]
    exact h.activity

theorem Waiting.readKeys_of_rests (h : c.Waiting looks register count)
    (hrests : Rests looks count) :
    c.readKeys.session = c.session.withKeypad (look looks (count + 1)) := by
  rw [readKeys_session h.script]
  exact Session.showKeys_of_none h.activity (h.keypad ▸ hrests)

theorem Waiting.executed?_of_rests (h : c.Waiting looks register count)
    (hrests : Rests looks count) :
    c.executed? = none := by
  rw [executed?, h.running]
  apply Session.executed?_of_awaiting
  rw [h.readKeys_of_rests hrests]
  exact h.activity

/-- An instruction tick without a press only takes its look. -/
theorem Waiting.session_of_rests (h : c.Waiting looks register count)
    (hrests : Rests looks count) :
    (c.tick .instruction).session = c.session.withKeypad (look looks (count + 1)) := by
  rw [instructionTick_session h.running, h.readKeys_of_rests hrests]
  exact Session.step_of_executed?_eq_none (Session.executed?_of_awaiting h.activity)

theorem Waiting.instructionTick (h : c.Waiting looks register count)
    (hrests : Rests looks count) :
    (c.tick .instruction).Waiting looks register (count + 1) where
  running := by
    have hstill : (c.session.withKeypad (look looks (count + 1))).activity =
        .awaitingKey register := h.activity
    rw [instructionTick_halted h.running, h.readKeys_of_rests hrests,
      Session.step_of_awaiting hstill]
    rfl
  script := instructionTick_script_of_afterRequests h.running h.script
  keypad := by
    rw [h.session_of_rests hrests]
    rfl
  activity := by
    rw [h.session_of_rests hrests]
    exact h.activity

/-- Ticks whose looks press nothing leave a console waiting, with its timers run down and its latest
look kept. -/
theorem Waiting.tickAll (h : c.Waiting looks register count) {ticks : List Tick}
    (hrests : ∀ request, count ≤ request → request < count + ticks.count .instruction →
      Rests looks request) :
    (c.tickAll ticks).Waiting looks register (count + ticks.count .instruction) ∧
      (c.tickAll ticks).session =
        (c.session.afterTimerTicks (ticks.count .timer)).withKeypad
          (look looks (count + ticks.count .instruction)) := by
  induction ticks generalizing c count with
  | nil =>
      refine ⟨h, ?_⟩
      change c.session = (c.session.afterTimerTicks 0).withKeypad (look looks count)
      rw [Session.afterTimerTicks_zero, ← h.keypad]
      rfl
  | cons tick rest ih =>
      cases tick with
      | timer =>
          rw [Tick.count_instruction_cons_timer] at hrests ⊢
          obtain ⟨hwaiting, hsession⟩ := ih h.timerTick hrests
          refine ⟨hwaiting, ?_⟩
          rw [List.count_cons_self, Nat.add_comm (rest.count .timer) 1,
            ← Session.afterTimerTicks_afterTimerTicks, ← timerTick_session]
          exact hsession
      | instruction =>
          have hnumber : count + (Tick.instruction :: rest).count .instruction =
              count + 1 + rest.count .instruction := by
            rw [List.count_cons_self]
            omega
          rw [hnumber] at hrests ⊢
          -- The look of this tick presses nothing, and the looks of the rest are counted from it.
          have hnow := hrests count (Nat.le_refl count) (by omega)
          obtain ⟨hwaiting, hsession⟩ := ih (h.instructionTick hnow) fun request hrequest =>
            hrests request (Nat.le_of_succ_le hrequest)
          refine ⟨hwaiting, ?_⟩
          rw [Tick.count_timer_cons_instruction]
          rw [h.session_of_rests hnow, Session.afterTimerTicks_withKeypad] at hsession
          exact hsession

/-- The first press ends the wait: the lowest key pressed goes to the register, and instructions are
executed again. -/
theorem Waiting.readKeys_of_press (h : c.Waiting looks register count) {key : Nat}
    (hpress : Keypad.LowestPress (look looks count) (look looks (count + 1)) key) :
    c.readKeys.session =
      { c.session with
        machine :=
          { c.session.machine with
            keypad := look looks (count + 1)
            registers := c.session.machine.registers.set register (UInt8.ofNat key) }
        activity := .running } := by
  rw [readKeys_session h.script]
  exact Session.showKeys_of_lowestPress h.activity (h.keypad ▸ hpress)

/-- The tick of that press executes what comes next in memory. -/
theorem Waiting.step_of_press (h : c.Waiting looks register count) {key : Nat}
    (hpress : Keypad.LowestPress (look looks count) (look looks (count + 1)) key) :
    c.readKeys.session.step =
      match c.session.machine.nextInstruction with
      | .ok instruction => c.readKeys.session.perform instruction
      | .error fault => .stopped c.readKeys.session fault := by
  rw [h.readKeys_of_press hpress]
  exact Session.step_of_running rfl

/-- A wait for a key begins with the instruction for it. -/
theorem waiting_of_awaitKey (hrunning : c.halted = none)
    (hscript : c.script = afterRequests looks count)
    (hexecuted : c.executed? = some (.awaitKey register)) :
    (c.tick .instruction).session =
        { c.readKeys.session with
          machine := c.readKeys.session.machine.advance
          activity := .awaitingKey register } ∧
      (c.tick .instruction).Waiting looks register (count + 1) := by
  rw [executed?, hrunning] at hexecuted
  have hstep := Session.step_of_executed?_awaitKey hexecuted
  have hsession := instructionTick_session hrunning
  rw [hstep] at hsession
  refine ⟨hsession, ?_, instructionTick_script_of_afterRequests hrunning hscript, ?_, ?_⟩
  · rw [instructionTick_halted hrunning, hstep]
    rfl
  · rw [hsession]
    change c.readKeys.session.machine.keypad = _
    rw [readKeys_session hscript]
    exact Session.keypad_showKeys c.session _
  · rw [hsession]
    rfl

/-- The instruction ticks of a console, up to the one that fails, run with one look after the other,
whatever readings of the time made them due.  When a tick begins to wait for a key, the ticks after
it execute nothing until the first one whose look presses a key that was up in the look before; that
tick gives the lowest such key to the register and executes the instruction behind the wait. -/
theorem looks_of_ticks (session : Session) (looks : List Keypad) (rate : Nat)
    (readings : List Nat) :
    let start := Console.new session (.ofList looks) rate
    let ticks := Schedule.ticks rate readings
    start.catchUpAll readings =
        { start.tickAll ticks with clock := start.clock.passAll ticks } ∧
      ∀ earlier,
        let before := start.tickAll earlier
        let number := earlier.count .instruction + 1
        let begun := before.tick .instruction
        before.halted = none →
        begun = before.readKeys.runInstruction ∧
        before.readKeys.session.machine.keypad = look looks number ∧
        begun.session.machine.keypad = look looks number ∧
        begun.script.pending = looks.drop number ∧
        ∀ register between,
          let latest := number + between.count .instruction
          let waiting := begun.tickAll between
          let resumed := waiting.readKeys.session
          before.executed? = some (.awaitKey register) →
          (∀ request, number ≤ request → request < latest → Rests looks request) →
          begun.session =
            { before.readKeys.session with
              machine := before.readKeys.session.machine.advance
              activity := .awaitingKey register } ∧
          waiting.halted = none ∧
          waiting.session =
            (begun.session.afterTimerTicks (between.count .timer)).withKeypad
              (look looks latest) ∧
          (Rests looks latest → waiting.executed? = none) ∧
          (¬ Rests looks latest →
            ∃ key, Keypad.LowestPress (look looks latest) (look looks (latest + 1)) key) ∧
          ∀ key, Keypad.LowestPress (look looks latest) (look looks (latest + 1)) key →
            resumed =
              { waiting.session with
                machine :=
                  { waiting.session.machine with
                    keypad := look looks (latest + 1)
                    registers :=
                      waiting.session.machine.registers.set register (UInt8.ofNat key) }
                activity := .running } ∧
            waiting.tick .instruction = waiting.readKeys.runInstruction ∧
            resumed.step =
              match begun.session.machine.nextInstruction with
              | .ok instruction => resumed.perform instruction
              | .error fault => .stopped resumed fault := by
  intro start ticks
  refine ⟨catchUpAll_new session _ rate readings, ?_⟩
  intro earlier before number begun hrunning
  have hscript : before.script = afterRequests looks (earlier.count .instruction) := by
    have hstart : start.script = afterRequests looks 0 := (afterRequests_zero looks).symm
    rw [← Nat.zero_add (earlier.count .instruction)]
    exact script_tickAll hstart hrunning
  have hkeypad : before.readKeys.session.machine.keypad = look looks number := by
    rw [readKeys_session hscript]
    exact Session.keypad_showKeys before.session _
  refine ⟨instructionTick_of_running hrunning, hkeypad, ?_, ?_, ?_⟩
  · rw [instructionTick_session hrunning, Session.keypad_step]
    exact hkeypad
  · rw [instructionTick_script_of_afterRequests hrunning hscript]
    rfl
  · intro register between latest waiting resumed hexecuted hrests
    obtain ⟨hbegun, hwait⟩ := waiting_of_awaitKey hrunning hscript hexecuted
    obtain ⟨hwaiting, hsession⟩ := hwait.tickAll hrests
    refine ⟨hbegun, hwaiting.running, hsession, hwaiting.executed?_of_rests,
      exists_lowestPress_of_not_rests, ?_⟩
    intro key hpress
    have hnext : waiting.session.machine.nextInstruction =
        begun.session.machine.nextInstruction :=
      congrArg (fun after => after.machine.nextInstruction) hsession
    refine ⟨hwaiting.readKeys_of_press hpress, instructionTick_of_running hwaiting.running, ?_⟩
    rw [← hnext]
    exact hwaiting.step_of_press hpress

/-- A program that clears the screen, waits for a key and then goes on in a loop. -/
def waitingProgram : List UInt8 :=
  [0x00, 0xE0, 0xF2, 0x0A, 0x12, 0x04]

/-- Key `9` is held when the wait begins and let go; then keys `3` and `9` go down together. -/
def waitingLooks : List Keypad :=
  [.released, .single 9, .single 9, .released, .ofPredicate fun key => key == 3 || key == 9]

theorem looks_of_ticks_wait :
    let start := Console.new (Session.plain.boot waitingProgram).state (.ofList waitingLooks) 700
    let before := start.tickAll [.instruction]
    let begun := before.tick .instruction
    let waiting := begun.tickAll [.instruction, .timer, .instruction]
    before.halted = none ∧ before.executed? = some (.awaitKey 2) ∧
      begun.session.machine.keypad = look waitingLooks 2 ∧
      (∀ request, 2 ≤ request → request < 4 → Rests waitingLooks request) ∧
      waiting.halted = none ∧
      Keypad.LowestPress (look waitingLooks 4) (look waitingLooks 5) 3 ∧
      waiting.readKeys.session =
        { waiting.session with
          machine :=
            { waiting.session.machine with
              keypad := look waitingLooks 5
              registers := waiting.session.machine.registers.set 2 3 }
          activity := .running } := by
  have hbefore : ((Console.new (Session.plain.boot waitingProgram).state
      (.ofList waitingLooks) 700).tickAll [.instruction]).halted = none := by
    decide +kernel
  have hexecuted : ((Console.new (Session.plain.boot waitingProgram).state
      (.ofList waitingLooks) 700).tickAll [.instruction]).executed? = some (.awaitKey 2) := by
    decide +kernel
  have hrests : ∀ request, 2 ≤ request → request < 4 → Rests waitingLooks request := by
    intro request hfirst hlast
    have hrequest : request = 2 ∨ request = 3 := by omega
    rcases hrequest with rfl | rfl
    · exact (Keypad.firstPressed?_eq_none_iff _ _).1 (by decide)
    · exact (Keypad.firstPressed?_eq_none_iff _ _).1 (by decide)
  have hpress : Keypad.LowestPress (look waitingLooks 4) (look waitingLooks 5) 3 := by decide
  obtain ⟨-, -, hkeypad, -, hwait⟩ := (looks_of_ticks (Session.plain.boot waitingProgram).state
    waitingLooks 700 []).2 [.instruction] hbefore
  obtain ⟨-, hrunning, -, -, -, hpressed⟩ := hwait 2 [.instruction, .timer, .instruction]
    hexecuted hrests
  exact ⟨hbefore, hexecuted, hkeypad, hrests, hrunning, hpress, (hpressed 3 hpress).1⟩

end Console

end Chip8

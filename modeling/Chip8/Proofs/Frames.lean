import Chip8.Proofs.Ticks
import Mathlib.Data.List.Induction

/-!
No change of the screen is lost on the way out of a console, and none goes out twice.

Only two kinds of instruction write to the screen, and both mark it as changed; a timer tick hands
out a marked screen and takes the mark away.  So the mark stands just when something was drawn since
the latest timer tick, and without it the frame handed out last is what the screen shows.
-/

namespace Chip8

namespace Session

theorem screen_of_step (s : Session) :
    (∃ instruction, s.executed? = some instruction ∧ instruction.Draws) ∧
        s.step.state.machine.redraw = true ∨
      (¬ ∃ instruction, s.executed? = some instruction ∧ instruction.Draws) ∧
        s.step.state.machine.screen = s.machine.screen ∧
        s.step.state.machine.redraw = s.machine.redraw := by
  cases hexecuted : s.executed? with
  | none =>
      rw [step_of_executed?_eq_none hexecuted]
      exact .inr ⟨by simp, rfl, rfl⟩
  | some instruction =>
      obtain ⟨-, -, after, hexecute, hstep⟩ := step_of_executed? hexecuted
      obtain ⟨machine, hmachine, rfl⟩ := exists_of_map_eq_ok hexecute
      rw [hstep]
      rcases (Machine.view_of_execute hmachine).2 with ⟨hdraws, hredraw⟩ | ⟨hdraws, hsame⟩
      · exact .inl ⟨⟨instruction, rfl, hdraws⟩, hredraw⟩
      · exact .inr ⟨by simpa using hdraws, hsame⟩

theorem screen_showKeys (s : Session) (keypad : Keypad) :
    (s.showKeys keypad).machine.screen = s.machine.screen ∧
      (s.showKeys keypad).machine.redraw = s.machine.redraw := by
  obtain ⟨registers, activity, hshown⟩ := s.exists_showKeys_eq keypad
  rw [hshown]
  exact ⟨rfl, rfl⟩

theorem screen_boot (s : Session) (program : List UInt8) :
    (s.boot program).state.machine.screen = .blank ∧
      (s.boot program).state.machine.redraw = false := by
  obtain ⟨memory, hbooted⟩ := s.exists_boot_eq program
  rw [hbooted]
  exact ⟨rfl, rfl⟩

end Session

namespace Console

/-- The instruction that the next instruction tick executes writes to the screen. -/
def Draws (c : Console) : Prop :=
  ∃ instruction, c.executed? = some instruction ∧ instruction.Draws

/-- One of the ticks was an instruction tick that wrote to the screen, and no timer tick came after
it. -/
def DrewSinceTimer (start : Console) (ticks : List Tick) : Prop :=
  ∃ earlier later, ticks = earlier ++ .instruction :: later ∧ .timer ∉ later ∧
    (start.tickAll earlier).Draws

theorem screen_of_instructionTick (c : Console) :
    c.Draws ∧ (c.tick .instruction).session.machine.redraw = true ∨
      ¬ c.Draws ∧ (c.tick .instruction).session.machine.screen = c.session.machine.screen ∧
        (c.tick .instruction).session.machine.redraw = c.session.machine.redraw := by
  cases hhalted : c.halted with
  | some fault =>
      rw [instructionTick_of_halted hhalted]
      exact .inr ⟨by simp [Draws, executed?, hhalted], rfl, rfl⟩
  | none =>
      have hexecuted : c.executed? = c.readKeys.session.executed? := by
        simp only [executed?, hhalted]
      have hkeys := c.session.screen_showKeys c.script.next.held
      rw [instructionTick_session hhalted, Draws, hexecuted, ← hkeys.1, ← hkeys.2]
      exact c.readKeys.session.screen_of_step

theorem not_drewSinceTimer_nil (start : Console) : ¬ start.DrewSinceTimer [] := by
  rintro ⟨earlier, later, hticks, -, -⟩
  cases earlier with
  | nil => cases hticks
  | cons tick rest => cases hticks

/-- A list that ends with a tick and has another one inside: the two are the same, or the end comes
after it. -/
theorem concat_eq_append_cons {ticks earlier later : List Tick} {last tick : Tick}
    (hticks : ticks ++ [last] = earlier ++ tick :: later) :
    ticks = earlier ∧ last = tick ∧ later = [] ∨
      ∃ rest, ticks = earlier ++ tick :: rest ∧ later = rest ++ [last] := by
  cases later using List.reverseRecOn with
  | nil =>
      obtain ⟨hearlier, hlast⟩ := List.append_inj' hticks rfl
      exact .inl ⟨hearlier, (List.cons.inj hlast).1, rfl⟩
  | append_singleton rest other =>
      rw [← List.cons_append, ← List.append_assoc] at hticks
      obtain ⟨hearlier, hlast⟩ := List.append_inj' hticks rfl
      rw [(List.cons.inj hlast).1]
      exact .inr ⟨rest, hearlier, rfl⟩

theorem not_drewSinceTimer_concat_timer (start : Console) (ticks : List Tick) :
    ¬ start.DrewSinceTimer (ticks ++ [.timer]) := by
  rintro ⟨earlier, later, hticks, htimer, -⟩
  rcases concat_eq_append_cons hticks with ⟨-, hlast, -⟩ | ⟨rest, -, rfl⟩
  · cases hlast
  · exact htimer (List.mem_append_right rest List.mem_cons_self)

theorem drewSinceTimer_concat_instruction (start : Console) (ticks : List Tick) :
    start.DrewSinceTimer (ticks ++ [.instruction]) ↔
      start.DrewSinceTimer ticks ∨ (start.tickAll ticks).Draws := by
  constructor
  · rintro ⟨earlier, later, hticks, htimer, hdraws⟩
    rcases concat_eq_append_cons hticks with ⟨rfl, -, -⟩ | ⟨rest, hrest, rfl⟩
    · exact .inr hdraws
    · exact .inl ⟨earlier, rest, hrest, fun hmem => htimer (List.mem_append_left _ hmem), hdraws⟩
  · rintro (⟨earlier, later, rfl, htimer, hdraws⟩ | hdraws)
    · refine ⟨earlier, later ++ [.instruction], by simp, ?_, hdraws⟩
      simpa using htimer
    · exact ⟨ticks, [], rfl, nofun, hdraws⟩

/-- What has gone out of a console agrees with its screen: the mark of a change stands just when
something was drawn since the latest timer tick, and without it the latest frame is the screen. -/
structure Presented (start : Console) (ticks : List Tick) : Prop where
  mark : (start.tickAll ticks).session.machine.redraw = true ↔ start.DrewSinceTimer ticks
  latest : (start.tickAll ticks).session.machine.redraw = false →
    (Event.frameAfter? (start.tickAll ticks).events).getD .blank =
      (start.tickAll ticks).session.machine.screen

variable {start : Console} {ticks : List Tick}

theorem Presented.concat_instruction (h : start.Presented ticks) :
    start.Presented (ticks ++ [.instruction]) := by
  have hframes := frames_instructionTick (start.tickAll ticks)
  rcases screen_of_instructionTick (start.tickAll ticks) with
    ⟨hdraws, hredraw⟩ | ⟨hdraws, hscreen, hredraw⟩
  · refine ⟨?_, ?_⟩
    · rw [tickAll_concat, hredraw, drewSinceTimer_concat_instruction]
      simp [hdraws]
    · rw [tickAll_concat, hredraw]
      nofun
  · refine ⟨?_, ?_⟩
    · rw [tickAll_concat, hredraw, h.mark, drewSinceTimer_concat_instruction]
      simp [hdraws]
    · rw [tickAll_concat, hredraw, hscreen, Event.frameAfter?, hframes]
      exact h.latest

theorem Presented.concat_timer (h : start.Presented ticks) :
    start.Presented (ticks ++ [.timer]) := by
  have hframes := frames_timerTick (start.tickAll ticks)
  refine ⟨?_, ?_⟩
  · rw [tickAll_concat, redraw_timerTick]
    simp [not_drewSinceTimer_concat_timer]
  · intro _
    have hscreen : ((start.tickAll ticks).tick .timer).session.machine.screen =
        (start.tickAll ticks).session.machine.screen := by
      rw [timerTick_session]
      rfl
    rw [tickAll_concat, hscreen, Event.frameAfter?, hframes]
    cases hredraw : (start.tickAll ticks).session.machine.redraw with
    | true =>
        rw [if_pos rfl, List.getLast?_concat]
        rfl
    | false =>
        rw [if_neg Bool.false_ne_true, List.append_nil]
        exact h.latest hredraw

theorem presented_boot (s : Session) (program : List UInt8) (script : KeyScript) (rate : Nat)
    (ticks : List Tick) : (Console.new (s.boot program).state script rate).Presented ticks := by
  obtain ⟨hscreen, hredraw⟩ := s.screen_boot program
  induction ticks using List.reverseRecOn with
  | nil =>
      -- Nothing has gone out of a console yet whose screen is blank and not marked.
      refine ⟨?_, ?_⟩
      · change (s.boot program).state.machine.redraw = true ↔ _
        rw [hredraw]
        simp [not_drewSinceTimer_nil]
      · intro _
        exact hscreen.symm
  | append_singleton earlier tick ih =>
      cases tick with
      | instruction => exact ih.concat_instruction
      | timer => exact ih.concat_timer

/-- Frames go out with timer ticks only, one for each timer tick that has something new to show: an
instruction that writes to the screen was executed since the timer tick before it.  Whenever there
is nothing new the frame that went out last is what the screen shows.  The console began with a
program just loaded, and readings of the time make it process the ticks of the timetable; the fault
that halts it changes nothing about its frames. -/
theorem frames_of_ticks (s : Session) (program : List UInt8) (script : KeyScript) (rate : Nat)
    (readings : List Nat) :
    let start := Console.new (s.boot program).state script rate
    let ticks := Schedule.ticks rate readings
    start.catchUpAll readings =
        { start.tickAll ticks with clock := start.clock.passAll ticks } ∧
      ∀ earlier,
        let c := start.tickAll earlier
        (c.session.machine.redraw = false →
          (Event.frameAfter? c.events).getD .blank = c.session.machine.screen) ∧
        Event.frames (c.tick .instruction).events = Event.frames c.events ∧
        (c.tick .timer).session.machine.redraw = false ∧
        (start.DrewSinceTimer earlier →
          Event.frames (c.tick .timer).events =
            Event.frames c.events ++ [c.session.machine.screen]) ∧
        (¬ start.DrewSinceTimer earlier →
          Event.frames (c.tick .timer).events = Event.frames c.events) := by
  intro start ticks
  refine ⟨catchUpAll_new _ script rate readings, ?_⟩
  intro earlier c
  have hpresented : start.Presented earlier := presented_boot s program script rate earlier
  refine ⟨hpresented.latest, frames_instructionTick c, redraw_timerTick c, ?_, ?_⟩
  · intro hdrew
    rw [frames_timerTick, if_pos (hpresented.mark.2 hdrew)]
  · intro hquiet
    rw [frames_timerTick, if_neg (mt hpresented.mark.1 hquiet), List.append_nil]

/-- A program that clears the screen and then goes on in a loop. -/
def clearingProgram : List UInt8 :=
  [0x00, 0xE0, 0x12, 0x02]

/-- The first timer tick shows the screen, and the second one has nothing to show. -/
theorem frames_of_ticks_clear :
    let start := Console.new (Session.plain.boot clearingProgram).state .silent 700
    let cleared := start.tickAll [.instruction]
    let looping := start.tickAll [.instruction, .timer, .instruction]
    start.DrewSinceTimer [.instruction] ∧
      Event.frames (cleared.tick .timer).events =
        Event.frames cleared.events ++ [cleared.session.machine.screen] ∧
      looping.session.machine.redraw = false ∧
      (Event.frameAfter? looping.events).getD .blank = looping.session.machine.screen ∧
      ¬ start.DrewSinceTimer [.instruction, .timer, .instruction] ∧
      Event.frames (looping.tick .timer).events = Event.frames looping.events := by
  have hticks := (frames_of_ticks .plain clearingProgram .silent 700 []).2
  obtain ⟨-, -, -, hcleared, -⟩ := hticks [.instruction]
  obtain ⟨hlatest, -, -, -, hlooping⟩ := hticks [.instruction, .timer, .instruction]
  have hdrew : (Console.new (Session.plain.boot clearingProgram).state .silent
      700).DrewSinceTimer [.instruction] :=
    ⟨[], [], rfl, nofun, .clear, by decide +kernel, trivial⟩
  have hredraw : ((Console.new (Session.plain.boot clearingProgram).state .silent
      700).tickAll [.instruction, .timer, .instruction]).session.machine.redraw = false := by
    decide +kernel
  have hmark := (presented_boot .plain clearingProgram .silent 700
    [.instruction, .timer, .instruction]).mark
  rw [hredraw] at hmark
  have hquiet := mt hmark.2 Bool.false_ne_true
  exact ⟨hdrew, hcleared hdrew, hredraw, hlatest hredraw, hquiet, hlooping hquiet⟩

end Console

end Chip8

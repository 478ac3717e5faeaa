import Chip8.Proofs.Ticks

/-!
A fault halts the instructions of a console for good, and nothing else.

For a halted console an instruction tick is no tick at all: it takes no look at the keys, executes
nothing and keeps the fault.  So whatever ticks follow, what they leave is the console as it was
when it halted, with its timers run down by the timer ticks among them and its screen handed out by
the first of those.
-/

namespace Chip8

namespace Console

theorem followTone_withScript (c : Console) (script : KeyScript) :
    followTone { c with script } = { c.followTone with script } := by
  unfold followTone
  split
  · rfl
  · rfl

theorem showFrame_withScript (c : Console) (script : KeyScript) :
    showFrame { c with script } = { c.showFrame with script } := by
  unfold showFrame
  split
  · rename_i hpresent
    simp only [hpresent]
    rfl
  · rename_i hpresent
    simp only [hpresent]

theorem timerTick_withScript (c : Console) (script : KeyScript) :
    ({ c with script }).tick .timer = { c.tick .timer with script } := by
  simp only [tick, timerTick]
  rw [← showFrame_withScript, ← followTone_withScript]

variable {c : Console} {fault : Fault}

theorem halted_tickAll (hhalted : c.halted = some fault) (ticks : List Tick) :
    (c.tickAll ticks).halted = some fault := by
  induction ticks generalizing c with
  | nil => exact hhalted
  | cons tick rest ih =>
      cases tick with
      | instruction => exact ih ((instructionTick_of_halted hhalted).symm ▸ hhalted)
      | timer => exact ih (c.timerTick_halted.trans hhalted)

theorem halted_eq_none_of_tickAll {ticks : List Tick} (hrunning : (c.tickAll ticks).halted = none) :
    c.halted = none := by
  cases hhalted : c.halted with
  | none => rfl
  | some fault =>
      rw [halted_tickAll hhalted] at hrunning
      cases hrunning

/-- What ticks leave of the session of a halted console. -/
theorem session_tickAll_of_halted (hhalted : c.halted = some fault) (ticks : List Tick) :
    (c.tickAll ticks).session = c.session.afterTimerTicks (ticks.count .timer) := by
  induction ticks generalizing c with
  | nil => exact c.session.afterTimerTicks_zero.symm
  | cons tick rest ih =>
      cases tick with
      | instruction =>
          change ((c.tick .instruction).tickAll rest).session = _
          rw [instructionTick_of_halted hhalted, ih hhalted, Tick.count_timer_cons_instruction]
      | timer =>
          change ((c.tick .timer).tickAll rest).session = _
          rw [ih (c.timerTick_halted.trans hhalted), timerTick_session, List.count_cons_self,
            Session.afterTimerTicks_afterTimerTicks, Nat.add_comm]

/-- The screen that was still to be shown when a console halted goes out with the first timer tick,
and no other screen does. -/
theorem frames_tickAll_of_halted (hhalted : c.halted = some fault) (ticks : List Tick) :
    Event.frames (c.tickAll ticks).events =
      Event.frames c.events ++
        if c.session.machine.redraw ∧ .timer ∈ ticks then [c.session.machine.screen] else [] := by
  induction ticks generalizing c with
  | nil => simp [tickAll]
  | cons tick rest ih =>
      cases tick with
      | instruction =>
          change Event.frames ((c.tick .instruction).tickAll rest).events = _
          rw [instructionTick_of_halted hhalted, ih hhalted]
          simp
      | timer =>
          change Event.frames ((c.tick .timer).tickAll rest).events = _
          rw [ih (c.timerTick_halted.trans hhalted), redraw_timerTick, frames_timerTick]
          simp

/-- A halted console has no use for keys. -/
theorem tickAll_withScript_of_halted (hhalted : c.halted = some fault) (ticks : List Tick)
    (script : KeyScript) :
    ({ c with script }).tickAll ticks = { c.tickAll ticks with script } := by
  induction ticks generalizing c with
  | nil => rfl
  | cons tick rest ih =>
      cases tick with
      | instruction =>
          change (({ c with script }).tick .instruction).tickAll rest =
            { (c.tick .instruction).tickAll rest with script }
          rw [instructionTick_of_halted hhalted,
            instructionTick_of_halted (c := { c with script }) hhalted]
          exact ih hhalted
      | timer =>
          change (({ c with script }).tick .timer).tickAll rest =
            { (c.tick .timer).tickAll rest with script }
          rw [timerTick_withScript]
          exact ih (c.timerTick_halted.trans hhalted)

/-- The step of an instruction tick fails, and that halts the console. -/
theorem halted_of_fault (hrunning : c.halted = none)
    (hfault : c.readKeys.session.step.fault = some fault) :
    (c.tick .instruction).halted = some fault :=
  (instructionTick_halted hrunning).trans hfault

/-- Of the beginnings of a list of ticks those are halted that reach beyond the tick that failed. -/
theorem halted_of_prefix {earlier later ticks : List Tick}
    (hrunning : (c.tickAll earlier).halted = none)
    (hfault : (c.tickAll earlier).readKeys.session.step.fault = some fault)
    (hbegins : ticks <+: earlier ++ .instruction :: later) :
    (c.tickAll ticks).halted = if earlier.length < ticks.length then some fault else none := by
  split
  · -- The tick that failed is among them, and nothing after it changes that.
    rename_i hbeyond
    have hfailed : earlier ++ [.instruction] <+: earlier ++ .instruction :: later :=
      ⟨later, by simp⟩
    have hlength : (earlier ++ [Tick.instruction]).length ≤ ticks.length := by
      rw [List.length_append]
      exact hbeyond
    obtain ⟨passed, rfl⟩ := List.prefix_of_prefix_length_le hfailed hbegins hlength
    rw [tickAll_append, tickAll_concat]
    exact halted_tickAll (halted_of_fault hrunning hfault) passed
  · -- They stop short of that tick, and what runs until then has run all along.
    rename_i hwithin
    obtain ⟨missing, rfl⟩ := List.prefix_of_prefix_length_le hbegins
      (List.prefix_append earlier _) (Nat.le_of_not_lt hwithin)
    rw [tickAll_append] at hrunning
    exact halted_eq_none_of_tickAll hrunning

/-- Once the step of an instruction tick has failed, the console catches up with that very fault
each time, and whatever ticks follow, they execute nothing, take no look at the keys and leave
everything as it was at the fault but the timers and a screen still to be shown: with each timer
tick the timers lose one until they stand at zero, and the first of them hands out the screen. -/
theorem halt_of_fault (session : Session) (script : KeyScript) (rate : Nat) (readings : List Nat)
    (earlier later : List Tick) (fault : Fault)
    (hticks : Schedule.ticks rate readings = earlier ++ .instruction :: later)
    (hrunning : ((Console.new session script rate).tickAll earlier).halted = none)
    (hfault : ((Console.new session script rate).tickAll earlier).readKeys.session.step.fault =
      some fault) :
    let start := Console.new session script rate
    let failed := (start.tickAll earlier).tick .instruction
    (∀ past now future, readings = past ++ now :: future →
      ((start.catchUpAll past).catchUp now).fault =
        if earlier.length < (Schedule.ticks rate (past ++ [now])).length then some fault
        else none) ∧
    start.catchUpAll readings =
      { failed.tickAll later with
        clock := start.clock.passAll (Schedule.ticks rate readings) } ∧
    ∀ passed : List Tick,
      let c := failed.tickAll passed
      let count := passed.count .timer
      c.halted = some fault ∧
      c.executed? = none ∧
      (∀ other, ({ failed with script := other }).tickAll passed = { c with script := other }) ∧
      c.session = failed.session.afterTimerTicks count ∧
      c.session.machine.delayTimer.toNat = failed.session.machine.delayTimer.toNat - count ∧
      c.session.machine.soundTimer.toNat = failed.session.machine.soundTimer.toNat - count ∧
      Event.frames c.events =
        Event.frames failed.events ++
          if failed.session.machine.redraw ∧ 0 < count then [failed.session.machine.screen]
          else [] := by
  intro start failed
  have hhalted : failed.halted = some fault := halted_of_fault hrunning hfault
  refine ⟨?_, ?_, ?_⟩
  · intro past now future hreadings
    have hbegins : Schedule.ticks rate (past ++ [now]) <+: earlier ++ .instruction :: later := by
      rw [← hticks, hreadings, List.append_cons past now future]
      exact Schedule.ticks_prefix_append rate (past ++ [now]) future
    change ((start.catchUpAll past).catchUp now).state.halted = _
    rw [← catchUpAll_append_singleton, catchUpAll_new]
    exact halted_of_prefix hrunning hfault hbegins
  · rw [catchUpAll_new, hticks, tickAll_append]
    rfl
  · intro passed c count
    have hsession : c.session = failed.session.afterTimerTicks count :=
      session_tickAll_of_halted hhalted passed
    have hstill : c.halted = some fault := halted_tickAll hhalted passed
    refine ⟨hstill, ?_, tickAll_withScript_of_halted hhalted passed, hsession, ?_, ?_, ?_⟩
    · simp only [executed?, hstill]
    · rw [hsession]
      exact Machine.toNat_ticked _ count
    · rw [hsession]
      exact Machine.toNat_ticked _ count
    · rw [frames_tickAll_of_halted hhalted]
      simp only [count, List.count_pos_iff]

/-- A program that sets the delay timer to two, clears the screen and returns from no call. -/
def returningProgram : List UInt8 :=
  [0x60, 0x02, 0xF0, 0x15, 0x00, 0xE0, 0x00, 0xEE]

theorem halt_of_fault_return :
    let start := Console.new (Session.plain.boot returningProgram).state .silent 200
    let earlier := [Tick.instruction, .instruction, .instruction]
    let later := [Tick.timer, .instruction, .instruction, .instruction, .timer, .instruction,
      .instruction]
    let failed := (start.tickAll earlier).tick .instruction
    Schedule.ticks 200 [16000000, 40000000, 20000000] = earlier ++ .instruction :: later ∧
      (start.tickAll earlier).halted = none ∧
      (start.tickAll earlier).readKeys.session.step.fault = some .stackUnderflow ∧
      ((start.catchUpAll [16000000, 40000000]).catchUp 20000000).fault = some .stackUnderflow ∧
      (failed.tickAll later).session = failed.session.afterTimerTicks 2 := by
  have hticks : Schedule.ticks 200 [16000000, 40000000, 20000000] =
      [Tick.instruction, .instruction, .instruction] ++ .instruction ::
        [Tick.timer, .instruction, .instruction, .instruction, .timer, .instruction,
          .instruction] := by
    have hlatest : [16000000, 40000000, 20000000].max? = some 40000000 := rfl
    rw [Schedule.ticks_eq_drain hlatest]
    decide +kernel
  obtain ⟨hcatchUp, -, hpassed⟩ :=
    halt_of_fault (Session.plain.boot returningProgram).state .silent 200 _ _ _ .stackUnderflow
      hticks (by decide +kernel) (by decide +kernel)
  obtain ⟨-, -, -, hsession, -⟩ := hpassed [.timer, .instruction, .instruction, .instruction,
    .timer, .instruction, .instruction]
  have hlast := hcatchUp [16000000, 40000000] 20000000 [] rfl
  rw [List.cons_append, List.cons_append, List.nil_append, hticks] at hlast
  exact ⟨hticks, by decide +kernel, by decide +kernel, hlast, hsession⟩

end Console

end Chip8

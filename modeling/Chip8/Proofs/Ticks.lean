import Chip8.Proofs.CatchUp
import Chip8.Proofs.Polling
import Chip8.Proofs.Reachable
import Chip8.Proofs.Tone

/-!
What one tick does to each part of a console.

A timer tick runs the timers down and hands out a changed screen; of the session it changes nothing
else.  An instruction tick takes a look at the keys and a step, and sends no screen; the step leaves
the keypad alone, and only two kinds of instruction write to the screen.  Of two lists of readings
of the time one has seen the beginning of the ticks that the other has seen.
-/

namespace Chip8

namespace Schedule

open Clock

/-- They are what a new clock hands out up to the latest of the readings. -/
theorem ticks_eq_drain {rate latest : Nat} {readings : List Nat}
    (hlatest : readings.max? = some latest) :
    ticks rate readings = ((ofRate rate).drain latest).1 := by
  rw [drain_eq_due, due_ofRate, ticks, seen, hlatest]

theorem seen_prefix_of_max?_le {rate : Nat} {readings others : List Nat}
    (hmax : ∀ latest ∈ readings.max?, ∃ later ∈ others.max?, latest ≤ later) :
    seen (periodOfRate rate) readings <+: seen (periodOfRate rate) others := by
  unfold seen
  cases hlatest : readings.max? with
  | none => exact List.nil_prefix
  | some latest =>
      obtain ⟨later, hlater, hle⟩ := hmax latest hlatest
      rw [Option.mem_def.1 hlater]
      exact upTo_prefix_upTo rate hle

/-- Further readings only add ticks at the end. -/
theorem ticks_prefix_append (rate : Nat) (readings more : List Nat) :
    ticks rate readings <+: ticks rate (readings ++ more) := by
  apply List.IsPrefix.map
  apply seen_prefix_of_max?_le
  intro latest hlatest
  have hmem : latest ∈ readings ++ more :=
    List.mem_append_left more (List.max?_mem hlatest)
  cases hlater : (readings ++ more).max? with
  | none =>
      rw [List.max?_eq_none_iff.1 hlater] at hmem
      cases hmem
  | some later => exact ⟨later, rfl, (List.max?_eq_some_iff.1 hlater).2 latest hmem⟩

/-- Of two lists of readings one has seen the beginning of what the other has seen. -/
theorem ticks_prefix_total (rate : Nat) (readings others : List Nat) :
    ticks rate readings <+: ticks rate others ∨ ticks rate others <+: ticks rate readings := by
  cases hlatest : readings.max? with
  | none => exact .inl (by simp [ticks, seen, hlatest])
  | some latest =>
      cases hlater : others.max? with
      | none => exact .inr (by simp [ticks, seen, hlater])
      | some later =>
          rcases Nat.le_total latest later with hle | hle
          · left
            apply List.IsPrefix.map
            exact seen_prefix_of_max?_le (by simp [hlatest, hlater, hle])
          · right
            apply List.IsPrefix.map
            exact seen_prefix_of_max?_le (by simp [hlatest, hlater, hle])

end Schedule

namespace Tick

theorem count_instruction_cons_timer (rest : List Tick) :
    (timer :: rest).count instruction = rest.count instruction :=
  List.count_cons_of_ne (by simp)

theorem count_timer_cons_instruction (rest : List Tick) :
    (instruction :: rest).count timer = rest.count timer :=
  List.count_cons_of_ne (by simp)

end Tick

namespace Event

theorem frames_append (earlier later : List Event) :
    frames (earlier ++ later) = frames earlier ++ frames later :=
  List.filterMap_append

end Event

/-- The instruction writes to the screen. -/
def Instruction.Draws : Instruction → Prop
  | clear => True
  | draw _ _ _ => True
  | _ => False

namespace Machine

theorem passBlock_view (m : Machine) (dialect : Dialect) (length : Nat) :
    (m.passBlock dialect length).keypad = m.keypad ∧
      (m.passBlock dialect length).screen = m.screen ∧
      (m.passBlock dialect length).redraw = m.redraw := by
  rw [passBlock]
  split
  · exact ⟨rfl, rfl, rfl⟩
  · exact ⟨rfl, rfl, rfl⟩

/-- An instruction leaves the keypad alone.  It marks the screen as changed, or else it leaves
screen and mark alone, too. -/
theorem view_of_execute {m after : Machine} {dialect : Dialect} {randomByte : UInt8}
    {instruction : Instruction}
    (hexecute : m.execute dialect randomByte instruction = .ok after) :
    after.keypad = m.keypad ∧
      (instruction.Draws ∧ after.redraw = true ∨
        ¬ instruction.Draws ∧ after.screen = m.screen ∧ after.redraw = m.redraw) := by
  cases instruction with
  | clear =>
      cases hexecute
      exact ⟨rfl, .inl ⟨trivial, rfl⟩⟩
  | draw x y height =>
      obtain ⟨drawn, hdraw, rfl⟩ := exists_of_map_eq_ok hexecute
      obtain ⟨sprite, -, rfl⟩ := exists_of_map_eq_ok hdraw
      exact ⟨rfl, .inl ⟨trivial, rfl⟩⟩
  | ret =>
      obtain ⟨⟨address, returned⟩, hpop, rfl⟩ := exists_of_map_eq_ok hexecute
      obtain ⟨⟨_, calls⟩, -, hreturned⟩ := exists_of_map_eq_ok hpop
      cases hreturned
      exact ⟨rfl, .inr ⟨id, rfl, rfl⟩⟩
  | call address =>
      obtain ⟨called, hpush, rfl⟩ := exists_of_map_eq_ok hexecute
      obtain ⟨calls, -, rfl⟩ := exists_of_map_eq_ok hpush
      exact ⟨rfl, .inr ⟨id, rfl, rfl⟩⟩
  | skipIf condition =>
      rw [execute] at hexecute
      cases hexecute
      split
      · exact ⟨rfl, .inr ⟨id, rfl, rfl⟩⟩
      · exact ⟨rfl, .inr ⟨id, rfl, rfl⟩⟩
  | decimal x =>
      obtain ⟨stored, hstore, rfl⟩ := exists_of_map_eq_ok hexecute
      obtain ⟨memory, -, rfl⟩ := exists_of_map_eq_ok hstore
      exact ⟨rfl, .inr ⟨id, rfl, rfl⟩⟩
  | dump x =>
      obtain ⟨dumped, hdump, rfl⟩ := exists_of_map_eq_ok hexecute
      rw [dump] at hdump
      split at hdump
      · obtain ⟨stored, hstore, rfl⟩ := exists_of_map_eq_ok hdump
        obtain ⟨memory, -, rfl⟩ := exists_of_map_eq_ok hstore
        obtain ⟨hkeypad, hscreen⟩ := passBlock_view _ dialect (x.toNat + 1)
        exact ⟨hkeypad, .inr ⟨id, hscreen⟩⟩
      · cases hdump
  | restore x =>
      obtain ⟨restored, hrestore, rfl⟩ := exists_of_map_eq_ok hexecute
      obtain ⟨values, -, rfl⟩ := exists_of_map_eq_ok hrestore
      obtain ⟨hkeypad, hscreen⟩ := passBlock_view _ dialect (x.toNat + 1)
      exact ⟨hkeypad, .inr ⟨id, hscreen⟩⟩
  | _ =>
      cases hexecute
      exact ⟨rfl, .inr ⟨id, rfl, rfl⟩⟩

/-- A timer loses one with each tick until it stands at zero. -/
theorem toNat_ticked (timer : UInt8) (count : Nat) :
    (ticked timer count).toNat = timer.toNat - count := by
  have htimer := timer.toNat_lt
  rw [ticked, UInt8.toNat_ofNat']
  exact Nat.mod_eq_of_lt (by omega)

theorem ticked_ticked (timer : UInt8) (earlier later : Nat) :
    ticked (ticked timer earlier) later = ticked timer (earlier + later) := by
  apply UInt8.toNat_inj.1
  rw [toNat_ticked, toNat_ticked, toNat_ticked, Nat.sub_sub]

theorem ticked_one (timer : UInt8) : ticked timer 1 = tick timer := by
  rw [← ticked_tick, ticked_zero]

end Machine

namespace Session

/-- The session after a number of timer ticks and nothing else: the timers ran down, and the first
of the ticks took the screen. -/
def afterTimerTicks (s : Session) (count : Nat) : Session :=
  { s with
    machine :=
      { s.machine with
        delayTimer := Machine.ticked s.machine.delayTimer count
        soundTimer := Machine.ticked s.machine.soundTimer count
        redraw := s.machine.redraw && count == 0 } }

@[simp] theorem afterTimerTicks_zero (s : Session) : s.afterTimerTicks 0 = s := by
  simp [afterTimerTicks]

theorem present_countDown (s : Session) : s.countDown.present.2 = s.afterTimerTicks 1 := by
  cases hredraw : s.machine.redraw with
  | true =>
      simp [countDown, Machine.countDown, present, Machine.present, afterTimerTicks,
        Machine.ticked_one, hredraw]
  | false =>
      simp [countDown, Machine.countDown, present, Machine.present, afterTimerTicks,
        Machine.ticked_one, hredraw]

theorem afterTimerTicks_afterTimerTicks (s : Session) (earlier later : Nat) :
    (s.afterTimerTicks earlier).afterTimerTicks later = s.afterTimerTicks (earlier + later) := by
  have hmark : ((s.machine.redraw && earlier == 0) && later == 0) =
      (s.machine.redraw && earlier + later == 0) := by
    rw [Bool.and_assoc]
    congr 1
    cases earlier with
    | zero => simp
    | succ earlier => simp [Nat.succ_add]
  simp only [afterTimerTicks, Machine.ticked_ticked, hmark]

theorem toList_present (s : Session) :
    s.present.1.toList = if s.machine.redraw then [s.machine.screen] else [] := by
  rw [present, Machine.present]
  split
  · rfl
  · rfl

/-- The instruction that a step executes.  There is none while a key is waited for, and none when
the step fails. -/
def executed? (s : Session) : Option Instruction :=
  match s.activity, s.machine.nextInstruction, s.step.fault with
  | .running, .ok instruction, none => some instruction
  | _, _, _ => none

theorem step_of_executed? {s : Session} {instruction : Instruction}
    (hexecuted : s.executed? = some instruction) :
    s.activity = .running ∧ s.machine.nextInstruction = .ok instruction ∧
      ∃ after, s.execute instruction = .ok after ∧ s.step = .done after := by
  unfold executed? at hexecuted
  split at hexecuted
  · rename_i hactivity hnext hfault
    cases hexecuted
    have hstep : s.step = .ofExcept s (s.execute instruction) := by
      rw [step_of_running hactivity, hnext]
      exact perform_eq s instruction
    rw [hstep] at hfault ⊢
    refine ⟨hactivity, hnext, ?_⟩
    cases hexecute : s.execute instruction with
    | ok after => exact ⟨after, rfl, rfl⟩
    | error fault =>
        rw [hexecute] at hfault
        cases hfault
  · cases hexecuted

/-- A step that executes nothing leaves the session as it was. -/
theorem step_of_executed?_eq_none {s : Session} (hexecuted : s.executed? = none) :
    s.step.state = s := by
  cases hactivity : s.activity with
  | awaitingKey register =>
      rw [step_of_awaiting hactivity]
      rfl
  | running =>
      cases hnext : s.machine.nextInstruction with
      | error fault =>
          rw [step_of_running hactivity, hnext]
          rfl
      | ok instruction =>
          cases hfault : s.step.fault with
          | none =>
              simp only [executed?, hactivity, hnext, hfault] at hexecuted
              cases hexecuted
          | some fault =>
              rw [step_of_fault hfault]
              rfl

end Session

namespace Console

/-- The instruction that an instruction tick executes. -/
def executed? (c : Console) : Option Instruction :=
  match c.halted with
  | none => c.readKeys.session.executed?
  | some _ => none

variable (c : Console)

/-! ### The parts of a tick -/

@[simp] theorem followTone_session : c.followTone.session = c.session := by
  unfold followTone
  split
  · rfl
  · rfl

@[simp] theorem followTone_script : c.followTone.script = c.script := by
  unfold followTone
  split
  · rfl
  · rfl

@[simp] theorem followTone_halted : c.followTone.halted = c.halted := by
  unfold followTone
  split
  · rfl
  · rfl

@[simp] theorem frames_followTone : Event.frames c.followTone.events = Event.frames c.events := by
  unfold followTone
  split
  · rfl
  · change Event.frames (c.emit (.tone c.session.sounds)).events = _
    rw [events_emit, Event.frames_append]
    exact List.append_nil _

@[simp] theorem showFrame_session : c.showFrame.session = c.session.present.2 := by
  unfold showFrame
  split
  · rename_i hpresent
    rw [hpresent]
  · rename_i hpresent
    unfold Session.present Machine.present at hpresent ⊢
    split at hpresent
    · cases hpresent
    · rename_i hredraw
      rw [if_neg hredraw]

@[simp] theorem showFrame_script : c.showFrame.script = c.script := by
  unfold showFrame
  split
  · rfl
  · rfl

@[simp] theorem showFrame_halted : c.showFrame.halted = c.halted := by
  unfold showFrame
  split
  · rfl
  · rfl

theorem frames_showFrame :
    Event.frames c.showFrame.events = Event.frames c.events ++ c.session.present.1.toList := by
  unfold showFrame
  split
  · rename_i screen taken hpresent
    change Event.frames (c.emit (.frame screen)).events = _
    rw [events_emit, Event.frames_append, hpresent]
    rfl
  · rename_i hpresent
    rw [hpresent]
    exact (List.append_nil _).symm

theorem runInstruction_session : c.runInstruction.session = c.session.step.state := by
  unfold runInstruction
  split
  · rename_i hstep
    rw [followTone_session, hstep]
  · rename_i hstep
    rw [hstep]

theorem runInstruction_script : c.runInstruction.script = c.script := by
  unfold runInstruction
  split
  · rw [followTone_script]
  · rfl

theorem runInstruction_halted {c : Console} (hhalted : c.halted = none) :
    c.runInstruction.halted = c.session.step.fault := by
  unfold runInstruction
  split
  · rename_i hstep
    rw [followTone_halted, hstep]
    exact hhalted
  · rename_i hstep
    rw [hstep]

theorem frames_runInstruction :
    Event.frames c.runInstruction.events = Event.frames c.events := by
  unfold runInstruction
  split
  · rw [frames_followTone]
    rfl
  · rfl

/-! ### Timer ticks -/

theorem timerTick_session : (c.tick .timer).session = c.session.afterTimerTicks 1 := by
  rw [← Session.present_countDown]
  simp only [tick, timerTick, showFrame_session, followTone_session]

theorem redraw_timerTick : (c.tick .timer).session.machine.redraw = false := by
  rw [timerTick_session]
  exact Bool.and_false _

theorem timerTick_script : (c.tick .timer).script = c.script := by
  simp only [tick, timerTick, showFrame_script, followTone_script]

theorem timerTick_halted : (c.tick .timer).halted = c.halted := by
  simp only [tick, timerTick, showFrame_halted, followTone_halted]

/-- A timer tick hands out the screen just when it changed. -/
theorem frames_timerTick :
    Event.frames (c.tick .timer).events =
      Event.frames c.events ++
        if c.session.machine.redraw then [c.session.machine.screen] else [] := by
  simp only [tick, timerTick, frames_showFrame, followTone_session, frames_followTone,
    Session.toList_present]
  rfl

/-! ### Instruction ticks -/

variable {c} {fault : Fault}

theorem instructionTick_of_running (hhalted : c.halted = none) :
    c.tick .instruction = c.readKeys.runInstruction := by
  simp only [tick, instructionTick, hhalted]

theorem instructionTick_of_halted (hhalted : c.halted = some fault) :
    c.tick .instruction = c := by
  simp only [tick, instructionTick, hhalted]

theorem instructionTick_session (hhalted : c.halted = none) :
    (c.tick .instruction).session = c.readKeys.session.step.state := by
  rw [instructionTick_of_running hhalted, runInstruction_session]

theorem instructionTick_halted (hhalted : c.halted = none) :
    (c.tick .instruction).halted = c.readKeys.session.step.fault := by
  rw [instructionTick_of_running hhalted]
  exact runInstruction_halted hhalted

theorem instructionTick_script (hhalted : c.halted = none) :
    (c.tick .instruction).script = c.script.next := by
  rw [instructionTick_of_running hhalted, runInstruction_script]
  rfl

variable (c) in
theorem frames_instructionTick :
    Event.frames (c.tick .instruction).events = Event.frames c.events := by
  cases hhalted : c.halted with
  | some fault => rw [instructionTick_of_halted hhalted]
  | none =>
      rw [instructionTick_of_running hhalted, frames_runInstruction]
      rfl

end Console

end Chip8

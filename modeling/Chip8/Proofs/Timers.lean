import Chip8.Proofs.Executions
import Chip8.Proofs.Ticks

/-!
What the timers read.

A timer is set by an instruction of its own and counts down with every tick, stopping at zero.
Nothing else moves it, so between two settings it reads the value of the first of them less the
ticks since, and after a start it reads zero until it is set.
-/

namespace Chip8

inductive Timer
  | delay
  | sound
  deriving DecidableEq

namespace Timer

def read : Timer → Machine → UInt8
  | delay, m => m.delayTimer
  | sound, m => m.soundTimer

/-- The instruction that sets the timer to a register. -/
def setting : Timer → UInt8 → Instruction
  | delay => .setDelay
  | sound => .setSound

/-- The instruction sets the timer to some register. -/
def isSetBy : Timer → Instruction → Bool
  | delay, .setDelay _ => true
  | sound, .setSound _ => true
  | _, _ => false

variable {timer : Timer} {m after : Machine} {dialect : Dialect} {randomByte : UInt8}
  {instruction : Instruction}

theorem isSetBy_iff : timer.isSetBy instruction = true ↔ ∃ x, instruction = timer.setting x := by
  constructor
  · intro hset
    cases timer with
    | delay =>
        cases instruction with
        | setDelay x => exact ⟨x, rfl⟩
        | _ => cases hset
    | sound =>
        cases instruction with
        | setSound x => exact ⟨x, rfl⟩
        | _ => cases hset
  · rintro ⟨x, rfl⟩
    cases timer with
    | _ => rfl

theorem read_of_execute (hother : timer.isSetBy instruction = false)
    (hexecute : m.execute dialect randomByte instruction = .ok after) :
    timer.read after = timer.read m := by
  have hchanges := Machine.changesOnly_of_execute hexecute
  cases timer with
  | delay =>
      cases instruction with
      | setDelay x => cases hother
      | _ => exact hchanges.delayTimer rfl
  | sound =>
      cases instruction with
      | setSound x => cases hother
      | _ => exact hchanges.soundTimer rfl

theorem read_of_execute_setting {x : UInt8}
    (hexecute : m.execute dialect randomByte (timer.setting x) = .ok after) :
    timer.read after = m.registers.get x := by
  cases timer with
  | delay => cases hexecute; rfl
  | sound => cases hexecute; rfl

theorem read_countDown (timer : Timer) (m : Machine) :
    timer.read m.countDown = Machine.ticked (timer.read m) 1 := by
  rw [Machine.ticked_one]
  cases timer with
  | _ => rfl

end Timer

namespace Session

/-- Nothing that a history executes sets the timer. -/
def NeverSets (s : Session) (timer : Timer) (history : List Operation) : Prop :=
  ∀ execution ∈ s.executions history, timer.isSetBy execution.instruction = false

instance (s : Session) (timer : Timer) (history : List Operation) :
    Decidable (s.NeverSets timer history) :=
  inferInstanceAs (Decidable (∀ _ ∈ _, _))

/-- What a timer was last set to in a history, and how often the timers ticked since then: zero and
all the ticks of the history if it was never set. -/
inductive LatestSetting (s : Session) (timer : Timer) : List Operation → UInt8 → Nat → Prop
  | never {history : List Operation} (hnever : s.NeverSets timer history) :
      s.LatestSetting timer history 0 (history.count .countDown)
  | set {earlier later : List Operation} {x : UInt8}
      (hexecuted : (s.run earlier).executed? = some (timer.setting x))
      (hnever : (s.run earlier).step.state.NeverSets timer later) :
      s.LatestSetting timer (earlier ++ .step :: later) ((s.run earlier).machine.registers.get x)
        (later.count .countDown)

variable {s : Session} {timer : Timer}

theorem neverSets_nil : s.NeverSets timer [] := by
  simp [NeverSets, executions]

theorem neverSets_of_executionsOf_eq_nil {operation : Operation}
    (hnone : s.executionsOf operation = []) : s.NeverSets timer [operation] := by
  simp [NeverSets, executions, hnone]

theorem neverSets_append {earlier later : List Operation} :
    s.NeverSets timer (earlier ++ later) ↔
      s.NeverSets timer earlier ∧ (s.run earlier).NeverSets timer later := by
  rw [NeverSets, executions_append, List.forall_mem_append]
  rfl

theorem neverSets_step :
    s.NeverSets timer [.step] ↔
      ∀ instruction, s.executed? = some instruction → timer.isSetBy instruction = false := by
  rw [NeverSets, executions, executions, List.append_nil]
  exact forall_executionsOf_step (p := fun _ i => timer.isSetBy i = false)

/-- Only a step can set a timer. -/
theorem neverSets_or_setting {operation : Operation} (hgoing : operation.GoesOn) :
    s.NeverSets timer [operation] ∨
      operation = .step ∧ ∃ x, s.executed? = some (timer.setting x) := by
  obtain rfl | ⟨keypad, rfl⟩ | rfl | rfl := hgoing.cases
  · by_cases hset : ∃ x, s.executed? = some (timer.setting x)
    · exact .inr ⟨rfl, hset⟩
    · refine .inl (neverSets_step.2 ?_)
      intro instruction hexecuted
      refine Bool.eq_false_iff.2 fun hsets => ?_
      obtain ⟨x, rfl⟩ := Timer.isSetBy_iff.1 hsets
      exact hset ⟨x, hexecuted⟩
  · exact .inl (neverSets_of_executionsOf_eq_nil rfl)
  · exact .inl (neverSets_of_executionsOf_eq_nil rfl)
  · exact .inl (neverSets_of_executionsOf_eq_nil rfl)

theorem read_step (hnever : s.NeverSets timer [.step]) :
    timer.read s.step.state.machine = timer.read s.machine := by
  cases hexecuted : s.executed? with
  | none => rw [step_of_executed?_eq_none hexecuted]
  | some instruction =>
      obtain ⟨-, -, after, hexecute, hstep⟩ := step_of_executed? hexecuted
      obtain ⟨machine, hmachine, rfl⟩ := exists_of_map_eq_ok hexecute
      rw [hstep]
      exact Timer.read_of_execute (neverSets_step.1 hnever instruction hexecuted) hmachine

/-- A step that sets a timer leaves in it what the register held. -/
theorem read_step_setting {x : UInt8} (hexecuted : s.executed? = some (timer.setting x)) :
    timer.read s.step.state.machine = s.machine.registers.get x := by
  obtain ⟨-, -, after, hexecute, hstep⟩ := step_of_executed? hexecuted
  obtain ⟨machine, hmachine, rfl⟩ := exists_of_map_eq_ok hexecute
  rw [hstep]
  exact Timer.read_of_execute_setting hmachine

theorem read_showKeys (s : Session) (timer : Timer) (keypad : Keypad) :
    timer.read (s.showKeys keypad).machine = timer.read s.machine := by
  obtain ⟨registers, activity, hshown⟩ := s.exists_showKeys_eq keypad
  rw [hshown]
  cases timer with
  | _ => rfl

theorem read_present (s : Session) (timer : Timer) :
    timer.read s.present.2.machine = timer.read s.machine := by
  unfold present Machine.present
  split
  · cases timer with
    | _ => rfl
  · rfl

/-- Between the settings of a timer only the ticks move it. -/
theorem read_apply {operation : Operation} (hgoing : operation.GoesOn)
    (hnever : s.NeverSets timer [operation]) :
    timer.read (s.apply operation).2.machine =
      Machine.ticked (timer.read s.machine) ([operation].count .countDown) := by
  obtain rfl | ⟨keypad, rfl⟩ | rfl | rfl := hgoing.cases
  · exact (read_step hnever).trans (Machine.ticked_zero _).symm
  · exact (s.read_showKeys timer keypad).trans (Machine.ticked_zero _).symm
  · exact timer.read_countDown s.machine
  · exact (s.read_present timer).trans (Machine.ticked_zero _).symm

theorem read_run {history : List Operation} (hgoing : ∀ operation ∈ history, operation.GoesOn)
    (hnever : s.NeverSets timer history) :
    timer.read (s.run history).machine =
      Machine.ticked (timer.read s.machine) (history.count .countDown) := by
  induction history generalizing s with
  | nil => exact (Machine.ticked_zero _).symm
  | cons operation rest ih =>
      obtain ⟨hfirst, hrest⟩ := List.forall_mem_cons.1 hgoing
      rw [← List.singleton_append, neverSets_append] at hnever
      rw [← List.singleton_append, run_append, ih hrest hnever.2, List.count_append,
        ← Machine.ticked_ticked]
      exact congrArg (Machine.ticked · _) (read_apply hfirst hnever.1)

namespace LatestSetting

variable {history later : List Operation} {value : UInt8} {ticks : Nat}

theorem append (hlatest : s.LatestSetting timer history value ticks)
    (hnever : (s.run history).NeverSets timer later) :
    s.LatestSetting timer (history ++ later) value (ticks + later.count .countDown) := by
  cases hlatest with
  | never hnone =>
      rw [← List.count_append]
      exact .never (neverSets_append.2 ⟨hnone, hnever⟩)
  | @set earlier middle x hexecuted hnone =>
      rw [run_append] at hnever
      rw [List.append_assoc, List.cons_append, ← List.count_append]
      exact .set hexecuted (neverSets_append.2 ⟨hnone, hnever⟩)

theorem exists_of_goesOn (s : Session) (timer : Timer)
    (hgoing : ∀ operation ∈ history, operation.GoesOn) :
    ∃ value ticks, s.LatestSetting timer history value ticks := by
  induction history using List.reverseRecOn with
  | nil => exact ⟨0, 0, .never neverSets_nil⟩
  | append_singleton history operation ih =>
      obtain ⟨hearlier, hlast⟩ := List.forall_mem_append.1 hgoing
      rcases neverSets_or_setting (hlast operation List.mem_cons_self) with
        hnever | ⟨rfl, x, hexecuted⟩
      · obtain ⟨value, ticks, hlatest⟩ := ih hearlier
        exact ⟨value, _, hlatest.append hnever⟩
      · exact ⟨_, 0, .set hexecuted neverSets_nil⟩

/-- A timer that was at zero reads what it was last set to, less the ticks since. -/
theorem toNat_read (hzero : timer.read s.machine = 0)
    (hgoing : ∀ operation ∈ history, operation.GoesOn)
    (hlatest : s.LatestSetting timer history value ticks) :
    (timer.read (s.run history).machine).toNat = value.toNat - ticks := by
  cases hlatest with
  | never hnever => rw [read_run hgoing hnever, hzero, Machine.toNat_ticked]
  | @set earlier later x hexecuted hnever =>
      obtain ⟨-, hlater⟩ := List.forall_mem_append.1 hgoing
      rw [run_append, ← Machine.toNat_ticked, ← read_step_setting hexecuted]
      exact congrArg UInt8.toNat (read_run (List.forall_mem_cons.1 hlater).2 hnever)

end LatestSetting

/-- After a start both timers are at zero, whether the program fits or not. -/
theorem read_boot (s : Session) (program : List UInt8) (timer : Timer) :
    timer.read (s.boot program).state.machine = 0 := by
  obtain ⟨memory, hbooted⟩ := s.exists_boot_eq program
  rw [hbooted]
  cases timer with
  | _ => rfl

/-- A step that reads the delay timer puts what it reads into the register. -/
theorem get_step_readDelay {x : UInt8} (hexecuted : s.executed? = some (.readDelay x)) :
    s.step.state.machine.registers.get x = s.machine.delayTimer := by
  obtain ⟨-, -, after, hexecute, hstep⟩ := step_of_executed? hexecuted
  cases hexecute
  rw [hstep]
  exact Registers.get_set_self _ _ _

/-- Since a start, through steps that may wait or fail, looks at the keypad, ticks and frames, each
timer reads what it was last set to less the ticks since, and never less than zero.  Reading the
delay timer gives that value, and a tick tells that the tone is on just as long as the sound timer
has some of it left. -/
theorem timers_of_run (s : Session) (program : List UInt8) (history : List Operation)
    (hgoing : ∀ operation ∈ history, operation.GoesOn) :
    let start := (s.boot program).state
    let t := start.run history
    (∀ timer, ∃ value ticks, start.LatestSetting timer history value ticks) ∧
    (∀ timer value ticks, start.LatestSetting timer history value ticks →
      (timer.read t.machine).toNat = value.toNat - ticks) ∧
    (∀ x value ticks, t.executed? = some (.readDelay x) →
      start.LatestSetting .delay history value ticks →
      (t.step.state.machine.registers.get x).toNat = value.toNat - ticks) ∧
    ∀ value ticks, start.LatestSetting .sound history value ticks →
      (t.apply .countDown).1 = .tone (decide (ticks + 1 < value.toNat)) ∧
        (0 < (t.apply .countDown).2.machine.soundTimer ↔ ticks + 1 < value.toNat) ∧
        (t.apply .countDown).2.sounds = decide (ticks + 1 < value.toNat) := by
  intro start t
  have hread : ∀ timer value ticks, start.LatestSetting timer history value ticks →
      (timer.read t.machine).toNat = value.toNat - ticks :=
    fun timer value ticks => LatestSetting.toNat_read (s.read_boot program timer) hgoing
  refine ⟨fun timer => LatestSetting.exists_of_goesOn start timer hgoing, hread, ?_, ?_⟩
  · intro x value ticks hexecuted hlatest
    rw [get_step_readDelay hexecuted]
    exact hread .delay value ticks hlatest
  · intro value ticks hlatest
    have hafter : t.countDown.machine.soundTimer.toNat = value.toNat - ticks - 1 := by
      rw [← hread .sound value ticks hlatest]
      exact Machine.toNat_tick _
    have hpos : 0 < t.countDown.machine.soundTimer ↔ ticks + 1 < value.toNat := by
      rw [UInt8.lt_iff_toNat_lt, hafter, UInt8.toNat_zero]
      omega
    have hsounds : t.countDown.sounds = decide (ticks + 1 < value.toNat) := decide_eq_decide.2 hpos
    exact ⟨congrArg Reply.tone hsounds, hpos, hsounds⟩

/-- A program that sets the delay timer to `3`, waits for a key, sets the sound timer to the number
of the key, and reads the delay timer. -/
def timingProgram : List UInt8 :=
  [0x60, 0x03, 0xF0, 0x15, 0xF2, 0x0A, 0xF2, 0x18, 0xF1, 0x07]

theorem timers_of_run_wait :
    let start := (plain.boot timingProgram).state
    let history :=
      [Operation.step, .step, .countDown, .step, .step, .showKeys (.single 0x7), .step, .countDown,
        .present]
    let t := start.run history
    (∀ operation ∈ history, operation.GoesOn) ∧
      start.LatestSetting .delay history 3 2 ∧ start.LatestSetting .sound history 7 1 ∧
      t.executed? = some (.readDelay 1) ∧
      (Timer.delay.read t.machine).toNat = 1 ∧ (Timer.sound.read t.machine).toNat = 6 ∧
      (t.step.state.machine.registers.get 1).toNat = 1 ∧
      (t.apply .countDown).1 = .tone true := by
  intro start history t
  have hgoing : ∀ operation ∈ history, operation.GoesOn := by decide
  let beforeDelay := start.run [.step]
  let beforeSound := start.run (history.take 6)
  obtain ⟨⟨hdelay, hthree, hdelayed⟩, ⟨hsound, hseven, hsounded⟩, hexecuted⟩ :
      (beforeDelay.executed? = some (.setDelay 0) ∧ beforeDelay.machine.registers.get 0 = 3 ∧
        beforeDelay.step.state.NeverSets .delay (history.drop 2)) ∧
      (beforeSound.executed? = some (.setSound 2) ∧ beforeSound.machine.registers.get 2 = 7 ∧
        beforeSound.step.state.NeverSets .sound (history.drop 7)) ∧
      t.executed? = some (.readDelay 1) := by
    decide +kernel
  have hlatest : start.LatestSetting .delay history 3 2 := by
    rw [← hthree]
    exact .set hdelay hdelayed
  have hlatest' : start.LatestSetting .sound history 7 1 := by
    rw [← hseven]
    exact .set hsound hsounded
  obtain ⟨-, hread, hregister, htick⟩ := timers_of_run plain timingProgram history hgoing
  obtain ⟨hreply, -, -⟩ := htick 7 1 hlatest'
  refine ⟨hgoing, hlatest, hlatest', hexecuted, ?_, ?_, ?_, ?_⟩
  · exact hread .delay 3 2 hlatest
  · exact hread .sound 7 1 hlatest'
  · rw [hregister 1 3 2 hexecuted hlatest]
    rfl
  · rw [hreply]
    rfl

end Session

end Chip8

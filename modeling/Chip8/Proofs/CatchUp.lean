import Chip8.Console
import Chip8.Proofs.Timetable

/-!
A console is where the timetable puts it, whatever the readings of the time that drove it.

The ticks change everything but the clock and never look at it, so a console that has caught up is
the old console after the ticks that were due.  Two readings in a row catch up like the later of
them, and a list of readings like its latest.
-/

namespace Chip8

namespace Console

/-! ### Ticks do not touch the clock -/

theorem followTone_withClock (c : Console) (clock : Clock) :
    followTone { c with clock } = { c.followTone with clock } := by
  unfold followTone
  split
  · rfl
  · rfl

theorem showFrame_withClock (c : Console) (clock : Clock) :
    showFrame { c with clock } = { c.showFrame with clock } := by
  unfold showFrame
  split
  · rename_i screen taken hpresent
    simp only [hpresent]
    rfl
  · rename_i taken hpresent
    simp only [hpresent]

theorem runInstruction_withClock (c : Console) (clock : Clock) :
    runInstruction { c with clock } = { c.runInstruction with clock } := by
  unfold runInstruction
  split
  · rename_i after hstep
    simp only [hstep]
    exact followTone_withClock { c with session := after } clock
  · rename_i after fault hstep
    simp only [hstep]

theorem tick_withClock (c : Console) (clock : Clock) (tick : Tick) :
    ({ c with clock }).tick tick = { c.tick tick with clock } := by
  cases tick with
  | instruction =>
      simp only [Console.tick, instructionTick]
      split
      · rfl
      · exact runInstruction_withClock c.readKeys clock
  | timer =>
      simp only [Console.tick, timerTick]
      rw [← showFrame_withClock, ← followTone_withClock]

theorem tickAll_withClock (c : Console) (clock : Clock) (ticks : List Tick) :
    ({ c with clock }).tickAll ticks = { c.tickAll ticks with clock } := by
  induction ticks generalizing c with
  | nil => rfl
  | cons tick rest ih =>
      have hrest := ih (c.tick tick)
      rw [← tick_withClock] at hrest
      exact hrest

theorem tickAll_append (c : Console) (earlier later : List Tick) :
    c.tickAll (earlier ++ later) = (c.tickAll earlier).tickAll later :=
  List.foldl_append

theorem tickAll_concat (c : Console) (earlier : List Tick) (tick : Tick) :
    c.tickAll (earlier ++ [tick]) = (c.tickAll earlier).tick tick :=
  tickAll_append c earlier [tick]

/-! ### Catching up -/

theorem process_pending (c : Console) (now : Nat) :
    process now (c.clock.pending now) c =
      { c.tickAll ((c.clock.due now).map Timed.tick) with clock := c.clock.settle now } := by
  induction hpending : c.clock.pending now generalizing c with
  | zero =>
      have hdue := Clock.due_of_next?_eq_none ((Clock.next?_eq_none_iff c.clock now).2 hpending)
      rw [Clock.settle, hdue]
      rfl
  | succ limit ih =>
      rw [process]
      split
      · rename_i hnext
        rw [(Clock.next?_eq_none_iff c.clock now).1 hnext] at hpending
        cases hpending
      · rename_i tick after hnext
        have hcount := Clock.pending_of_next? hnext
        obtain ⟨rfl, hdue⟩ := Clock.due_of_next?_eq_some hnext
        rw [tick_withClock, ih { c.tick tick with clock := c.clock.pass tick } (by
          simp only
          omega)]
        rw [hdue, Clock.settle_of_next?_eq_some hnext, tickAll_withClock]
        rfl

/-- A console that has caught up is the old one after the ticks that were due. -/
theorem catchUp_state (c : Console) (now : Nat) :
    (c.catchUp now).state =
      { c.tickAll ((c.clock.due now).map Timed.tick) with clock := c.clock.settle now } :=
  process_pending c now

/-- Two readings in a row catch up like the later of them, in whichever order they come. -/
theorem catchUp_catchUp (c : Console) (now later : Nat) :
    ((c.catchUp now).state.catchUp later).state = (c.catchUp (max now later)).state := by
  rw [catchUp_state, catchUp_state, catchUp_state, tickAll_withClock]
  simp only
  rw [← tickAll_append, ← List.map_append, ← Clock.due_max, ← Clock.settle_max]

theorem catchUpAll_cons (c : Console) (now : Nat) (later : List Nat) :
    c.catchUpAll (now :: later) = (c.catchUp now).state.catchUpAll later :=
  rfl

/-- A list of readings catches up like its latest. -/
theorem catchUpAll_eq_max (c : Console) (readings : List Nat) :
    c.catchUpAll readings = c.catchUpAll readings.max?.toList := by
  induction readings generalizing c with
  | nil => rfl
  | cons now rest ih =>
      rw [catchUpAll_cons, ih, List.max?_cons]
      cases rest.max? with
      | none => rfl
      | some latest => exact catchUp_catchUp c now latest

/-- Readings of the time take a new console where the ticks of the timetable take it. -/
theorem catchUpAll_new (session : Session) (script : KeyScript) (rate : Nat)
    (readings : List Nat) :
    let start := Console.new session script rate
    let ticks := Schedule.ticks rate readings
    start.catchUpAll readings =
      { start.tickAll ticks with clock := start.clock.passAll ticks } := by
  intro start ticks
  rw [catchUpAll_eq_max]
  simp only [ticks, Schedule.ticks, Schedule.seen]
  cases readings.max? with
  | none => rfl
  | some latest =>
      have hdue : start.clock.due latest = Schedule.upTo (Clock.periodOfRate rate) latest :=
        Schedule.due_ofRate rate latest
      change (start.catchUp latest).state = _
      rw [catchUp_state, Clock.settle, hdue]

theorem catchUpAll_append_singleton (c : Console) (earlier : List Nat) (now : Nat) :
    c.catchUpAll (earlier ++ [now]) = ((c.catchUpAll earlier).catchUp now).state := by
  rw [catchUpAll, List.foldl_append]
  rfl

/-- A new console that has caught up with readings of the time, in whatever order they came, is
where the ticks of the timetable up to the latest of them take it. -/
theorem catchUpAll_new_eq_tickAll (session : Session) (script : KeyScript) (rate : Nat)
    (readings : List Nat) :
    let start := Console.new session script rate
    let seen := Schedule.seen (Clock.periodOfRate rate) readings
    (∀ entry, entry ∈ seen ↔ Schedule.Lists (Clock.periodOfRate rate) entry ∧
      ∃ now ∈ readings, entry.time ≤ now) ∧
    seen.Pairwise Schedule.Before ∧
    start.catchUpAll readings =
      { start.tickAll (seen.map Timed.tick) with
        clock := start.clock.passAll (seen.map Timed.tick) } ∧
    start.catchUpAll readings = start.catchUpAll readings.max?.toList ∧
    ∀ earlier now fault, ((start.catchUpAll earlier).catchUp now).fault = some fault ↔
      (start.catchUpAll (earlier ++ [now])).halted = some fault := by
  intro start seen
  refine ⟨fun entry => Schedule.mem_seen, Schedule.pairwise_seen rate readings, ?_,
    catchUpAll_eq_max start readings, ?_⟩
  · exact catchUpAll_new session script rate readings
  · intro earlier now fault
    rw [catchUpAll_append_singleton]
    exact Iff.rfl

end Console

end Chip8

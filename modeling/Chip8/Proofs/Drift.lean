import Chip8.Proofs.Polling

/-!
How far ahead of its rate a clock runs because its periods are whole nanoseconds.

A second is as many truncated periods as the rate says and a remainder.  The remainders of several
seconds add up, and whenever they reach a period there is a tick more than the rate asks for.
-/

namespace Chip8

namespace Clock

open Schedule

/-- A period for `parts` ticks a second, rounded down to whole nanoseconds. -/
def truncated (parts : Nat) : Nat :=
  second / parts

/-- What the truncated periods of a second leave of it. -/
def leftOver (parts : Nat) : Nat :=
  second % parts

theorem timerPeriod_eq_truncated : timerPeriod = truncated timerRate :=
  rfl

variable {parts rate : Nat}

theorem truncated_pos (hparts : 0 < parts) (hlimit : parts ≤ second) : 0 < truncated parts :=
  Nat.div_pos hlimit hparts

theorem periodOfRate_eq_truncated (hrate : 0 < rate) (hlimit : rate ≤ second) :
    periodOfRate rate = truncated rate := by
  rw [periodOfRate, Nat.max_eq_right hrate]
  exact Nat.max_eq_right (truncated_pos hrate hlimit)

/-- In whole seconds the remainders give the ticks beyond the rate. -/
theorem div_truncated (hperiod : 0 < truncated parts) (seconds : Nat) :
    seconds * second / truncated parts =
      seconds * parts + seconds * leftOver parts / truncated parts := by
  have hsecond : second = parts * truncated parts + leftOver parts := (Nat.div_add_mod _ _).symm
  have hseconds : seconds * second =
      seconds * leftOver parts + seconds * parts * truncated parts := by
    rw [Nat.mul_assoc, Nat.add_comm, ← Nat.mul_add, ← hsecond]
  rw [hseconds, Nat.add_mul_div_right _ _ hperiod, Nat.add_comm]

/-- The rate is kept exactly until the remainders make up a period. -/
theorem div_truncated_eq_iff (hperiod : 0 < truncated parts) (seconds : Nat) :
    seconds * second / truncated parts = seconds * parts ↔
      seconds * leftOver parts < truncated parts := by
  rw [div_truncated hperiod, Nat.add_eq_left, Nat.div_eq_zero_iff_lt hperiod]

theorem leftOver_lt_truncated (hparts : 0 < parts) (hsquare : parts * (parts + 1) ≤ second) :
    leftOver parts < truncated parts := by
  have hshort : parts + 1 ≤ truncated parts :=
    (Nat.le_div_iff_mul_le hparts).2 (Nat.mul_comm parts _ ▸ hsquare)
  exact Nat.lt_of_lt_of_le (Nat.mod_lt second hparts) (Nat.le_of_succ_le hshort)

/-- Truncated periods are never too few. -/
theorem mul_div_second_le (hperiod : 0 < truncated parts) (now : Nat) :
    now * parts / second ≤ now / truncated parts := by
  have hparts : 0 < parts := by
    rcases Nat.eq_zero_or_pos parts with hzero | hpos
    · rw [hzero, truncated, Nat.div_zero] at hperiod
      exact absurd hperiod (Nat.lt_irrefl 0)
    · exact hpos
  have hwhole : now * parts / second * second ≤ now * parts := Nat.div_mul_le_self _ _
  have hfits : truncated parts * parts ≤ second := Nat.div_mul_le_self second parts
  rw [Nat.le_div_iff_mul_le hperiod]
  apply Nat.le_of_mul_le_mul_right _ hparts
  calc now * parts / second * truncated parts * parts
      = now * parts / second * (truncated parts * parts) := Nat.mul_assoc _ _ _
    _ ≤ now * parts / second * second := Nat.mul_le_mul_left _ hfits
    _ ≤ now * parts := hwhole

/-- A new clock that is drained has ticked once for each period that is over, and once at the
start. -/
theorem count_drain_ofRate (rate now : Nat) :
    (((ofRate rate).drain now).1).count .instruction = now / periodOfRate rate + 1 ∧
      (((ofRate rate).drain now).1).count .timer = now / timerPeriod := by
  rw [drain_eq_due, due_ofRate]
  exact count_upTo (periodOfRate rate) now

theorem next_drain_ofRate_le (rate now : Nat) :
    ((ofRate rate).drain now).2.nextInstruction ≤ now + periodOfRate rate ∧
      ((ofRate rate).drain now).2.nextTimer ≤ now + timerPeriod := by
  have hdrains : Drains now (ofRate rate) ((ofRate rate).drain now).1 ((ofRate rate).drain now).2 :=
    drains_iff.2 rfl
  have hsame : ∀ reading ∈ List.replicate ((ofRate rate).drain now).1.length now,
      reading ≤ now := fun _ hreading => Nat.le_of_eq (List.eq_of_mem_replicate hreading)
  have hbound := next_le_of_polls (c := ofRate rate) hsame (Nat.zero_le _) (Nat.le_add_left _ _)
  rw [hdrains.polls] at hbound
  exact hbound

/-- However late the reading, no tick of the rate is missing. -/
theorem nominal_le_count_drain (rate now : Nat) :
    now * 60 / second ≤ (((ofRate rate).drain now).1).count .timer ∧
      (1 ≤ rate → rate ≤ second →
        now * rate / second + 1 ≤ (((ofRate rate).drain now).1).count .instruction) := by
  obtain ⟨hinstructions, htimers⟩ := count_drain_ofRate rate now
  constructor
  · rw [htimers]
    exact mul_div_second_le timerPeriod_pos now
  · intro hrate hlimit
    rw [hinstructions, periodOfRate_eq_truncated hrate hlimit]
    exact Nat.succ_le_succ (mul_div_second_le (truncated_pos hrate hlimit) now)

theorem count_timer_drain_seconds (rate seconds : Nat) :
    let ticks := ((ofRate rate).drain (seconds * second)).1
    ticks.count .timer = 60 * seconds + 40 * seconds / 16666666 ∧
    (ticks.count .timer = 60 * seconds ↔ seconds ≤ 416666) := by
  intro ticks
  have htimerPeriod : 0 < truncated timerRate := timerPeriod_pos
  obtain ⟨-, htimers⟩ := count_drain_ofRate rate (seconds * second)
  rw [timerPeriod_eq_truncated] at htimers
  constructor
  · rw [htimers, div_truncated htimerPeriod, Nat.mul_comm seconds, Nat.mul_comm seconds]
    rfl
  · rw [htimers, Nat.mul_comm 60]
    refine (div_truncated_eq_iff htimerPeriod seconds).trans ?_
    change seconds * 40 < 16666666 ↔ seconds ≤ 416666
    omega

theorem count_instruction_drain_seconds (hrate : 1 ≤ rate) (hlimit : rate ≤ second)
    (seconds : Nat) :
    let ticks := ((ofRate rate).drain (seconds * second)).1
    ticks.count .instruction =
      seconds * rate + 1 + seconds * (second % rate) / (second / rate) ∧
    (ticks.count .instruction = seconds * rate + 1 ↔
      seconds * (second % rate) < second / rate) := by
  intro ticks
  have hperiod := truncated_pos hrate hlimit
  obtain ⟨hinstructions, -⟩ := count_drain_ofRate rate (seconds * second)
  rw [periodOfRate_eq_truncated hrate hlimit] at hinstructions
  constructor
  · rw [hinstructions, div_truncated hperiod, Nat.add_right_comm]
    rfl
  · rw [hinstructions, Nat.add_right_cancel_iff]
    exact div_truncated_eq_iff hperiod seconds

/-- A clock never hands out fewer ticks than its rates ask for; after whole seconds it is ahead by
the ticks that its truncated periods make room for. -/
theorem count_drain_seconds (rate seconds : Nat) :
    (∀ now,
      (∀ ticks last, Drains now (ofRate rate) ticks last ↔
        (ticks, last) = (ofRate rate).drain now) ∧
      ((ofRate rate).drain now).2.nextInstruction ≤ now + periodOfRate rate ∧
      ((ofRate rate).drain now).2.nextTimer ≤ now + timerPeriod ∧
      now * 60 / second ≤ (((ofRate rate).drain now).1).count .timer ∧
      (1 ≤ rate → rate ≤ second →
        now * rate / second + 1 ≤ (((ofRate rate).drain now).1).count .instruction)) ∧
    let ticks := ((ofRate rate).drain (seconds * second)).1
    ticks.count .timer = 60 * seconds + 40 * seconds / 16666666 ∧
    (ticks.count .timer = 60 * seconds ↔ seconds ≤ 416666) ∧
    (1 ≤ rate → rate ≤ second →
      ticks.count .instruction =
        seconds * rate + 1 + seconds * (second % rate) / (second / rate) ∧
      (ticks.count .instruction = seconds * rate + 1 ↔
        seconds * (second % rate) < second / rate) ∧
      (seconds = 1 → rate * (rate + 1) ≤ second → ticks.count .instruction = rate + 1)) := by
  constructor
  · intro now
    obtain ⟨hnextInstruction, hnextTimer⟩ := next_drain_ofRate_le rate now
    exact ⟨fun _ _ => drains_iff, hnextInstruction, hnextTimer, nominal_le_count_drain rate now⟩
  · intro ticks
    obtain ⟨htimers, htimersExact⟩ := count_timer_drain_seconds rate seconds
    refine ⟨htimers, htimersExact, ?_⟩
    intro hrate hlimit
    obtain ⟨hinstructions, hexact⟩ := count_instruction_drain_seconds hrate hlimit seconds
    refine ⟨hinstructions, hexact, ?_⟩
    rintro rfl hsquare
    rw [Nat.one_mul rate, Nat.one_mul (second % rate)] at hexact
    exact hexact.2 (leftOver_lt_truncated hrate hsquare)

/-- After nearly five days at the standard rate the instructions are 87 ahead, and the timers have
just gained their first tick. -/
theorem count_drain_seconds_standard :
    let start := ofRate standardRate
    let instructions (seconds : Nat) := ((start.drain (seconds * second)).1).count .instruction
    let timers (seconds : Nat) := ((start.drain (seconds * second)).1).count .timer
    1 ≤ standardRate ∧ standardRate ≤ second ∧ standardRate * (standardRate + 1) ≤ second ∧
      instructions 1 = 701 ∧ timers 416666 = 60 * 416666 ∧
      instructions 416667 = 416667 * 700 + 88 ∧ timers 416667 = 60 * 416667 + 1 := by
  intro start instructions timers
  have hrate : 1 ≤ standardRate := by decide
  have hlimit : standardRate ≤ second := by decide
  have hsquare : standardRate * (standardRate + 1) ≤ second := by decide
  obtain ⟨-, -, -, hfirst⟩ := count_drain_seconds standardRate 1
  obtain ⟨-, -, hexact, -⟩ := count_drain_seconds standardRate 416666
  obtain ⟨-, htimers, -, hlater⟩ := count_drain_seconds standardRate 416667
  obtain ⟨-, -, hone⟩ := hfirst hrate hlimit
  obtain ⟨hinstructions, -⟩ := hlater hrate hlimit
  exact ⟨hrate, hlimit, hsquare, hone rfl hsquare, hexact.2 (by decide), hinstructions, htimers⟩

end Clock

end Chip8

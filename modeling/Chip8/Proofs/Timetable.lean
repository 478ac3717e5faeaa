import Chip8.Clock.Schedule

/-!
The ticks a clock hands out are those of the timetable, one after another and none twice.

`Clock.due` lists what a clock in any state still has to hand out up to a time.  Taking one tick
removes its head, and waiting longer only adds to its end, so that a first reading and a later one
together see what the later one alone would see.
-/

namespace Chip8

namespace Schedule

/-- Entries of one kind, the first at `next` and each later one a period after the one before. -/
def progression (tick : Tick) (next period : Nat) : Nat → List Timed
  | 0 => []
  | count + 1 => ⟨next, tick⟩ :: progression tick (next + period) period count

theorem mem_progression {tick : Tick} {next period count : Nat} {entry : Timed} :
    entry ∈ progression tick next period count ↔
      entry.tick = tick ∧ ∃ k < count, entry.time = next + k * period := by
  induction count generalizing next with
  | zero => simp [progression]
  | succ count ih =>
      rw [progression, List.mem_cons, ih]
      constructor
      · rintro (rfl | ⟨htick, k, hk, htime⟩)
        · exact ⟨rfl, 0, by omega, by simp⟩
        · refine ⟨htick, k + 1, by omega, ?_⟩
          rw [htime, Nat.succ_mul]
          omega
      · rintro ⟨htick, k, hk, htime⟩
        cases k with
        | zero =>
            left
            cases entry
            simp_all
        | succ k =>
            refine .inr ⟨htick, k, by omega, ?_⟩
            rw [htime, Nat.succ_mul]
            omega

theorem eq_of_mem_head?_progression {tick : Tick} {next period count : Nat} {entry : Timed}
    (hentry : entry ∈ (progression tick next period count).head?) : entry = ⟨next, tick⟩ := by
  cases count with
  | zero => cases hentry
  | succ count => exact (Option.mem_some.1 hentry).symm

theorem progression_eq_map_range (tick : Tick) (next period count : Nat) :
    progression tick next period count =
      (List.range count).map fun k => ⟨next + k * period, tick⟩ := by
  induction count generalizing next with
  | zero => rfl
  | succ count ih =>
      rw [progression, ih, List.range_succ_eq_map, List.map_cons, List.map_map]
      congr 1
      · simp
      · apply List.map_congr_left
        intro k _
        simp only [Function.comp_apply, Nat.succ_mul, Timed.mk.injEq, and_true]
        omega

/-- An entry that is not later than the first of another list comes first in the merge. -/
theorem cons_merge_of_head {first : Timed} {rest others : List Timed}
    (hfirst : ∀ other ∈ others.head?, notLater first other = true) :
    (first :: rest).merge others notLater = first :: rest.merge others notLater := by
  cases others with
  | nil => simp
  | cons other others => rw [List.cons_merge_cons, if_pos (hfirst other rfl)]

theorem merge_cons_of_head {first : Timed} {rest others : List Timed}
    (hfirst : ∀ other ∈ others.head?, notLater other first = false) :
    others.merge (first :: rest) notLater = first :: others.merge rest notLater := by
  cases others with
  | nil => simp
  | cons other others =>
      have hlate : ¬ notLater other first = true := by simp [hfirst other rfl]
      rw [List.cons_merge_cons, if_neg hlate]

end Schedule

namespace Clock

open Schedule

theorem lt_dueCount_iff {next period now k : Nat} (hperiod : 0 < period) :
    k < dueCount next period now ↔ next + k * period ≤ now := by
  rw [dueCount]
  split
  · rename_i hdue
    rw [Nat.lt_succ_iff, Nat.le_div_iff_mul_le hperiod]
    omega
  · rename_i hlate
    have : next ≤ next + k * period := Nat.le_add_right next (k * period)
    omega

/-- The entries that a clock still has to hand out up to a time. -/
def due (c : Clock) (now : Nat) : List Timed :=
  (progression .timer c.nextTimer timerPeriod (dueCount c.nextTimer timerPeriod now)).merge
    (progression .instruction c.nextInstruction c.period
      (dueCount c.nextInstruction c.period now)) notLater

theorem mem_due {c : Clock} {now : Nat} {entry : Timed} :
    entry ∈ c.due now ↔
      entry.time ≤ now ∧
        (entry.tick = .timer ∧ (∃ k, entry.time = c.nextTimer + k * timerPeriod) ∨
          entry.tick = .instruction ∧ ∃ k, entry.time = c.nextInstruction + k * c.period) := by
  rw [due, List.mem_merge, mem_progression, mem_progression]
  constructor
  · rintro (⟨htick, k, hk, htime⟩ | ⟨htick, k, hk, htime⟩)
    · rw [lt_dueCount_iff timerPeriod_pos, ← htime] at hk
      exact ⟨hk, .inl ⟨htick, k, htime⟩⟩
    · rw [lt_dueCount_iff c.period_pos, ← htime] at hk
      exact ⟨hk, .inr ⟨htick, k, htime⟩⟩
  · rintro ⟨hnow, ⟨htick, k, htime⟩ | ⟨htick, k, htime⟩⟩
    · exact .inl ⟨htick, k, (lt_dueCount_iff timerPeriod_pos).2 (htime ▸ hnow), htime⟩
    · exact .inr ⟨htick, k, (lt_dueCount_iff c.period_pos).2 (htime ▸ hnow), htime⟩

/-- The kind of tick that is next says how the two deadlines stand. -/
theorem next?_cases {c after : Clock} {now : Nat} {tick : Tick}
    (hnext : c.next? now = some (tick, after)) :
    (tick = .timer ∧ after = c.passTimer ∧ c.nextTimer ≤ c.nextInstruction ∧
        c.nextTimer ≤ now) ∨
      (tick = .instruction ∧ after = c.passInstruction ∧ c.nextInstruction < c.nextTimer ∧
        c.nextInstruction ≤ now) := by
  rw [next?] at hnext
  split at hnext
  · rename_i htimer
    cases hnext
    exact .inl ⟨rfl, rfl, htimer⟩
  · rename_i htimer
    split at hnext
    · rename_i hinstruction
      cases hnext
      exact .inr ⟨rfl, rfl, by omega, hinstruction⟩
    · cases hnext

/-- What `next?` hands out is the first entry of `due`, and the others stay due. -/
theorem due_of_next?_eq_some {c after : Clock} {now : Nat} {tick : Tick}
    (hnext : c.next? now = some (tick, after)) :
    after = c.pass tick ∧ c.due now = ⟨c.deadline, tick⟩ :: after.due now := by
  rcases next?_cases hnext with ⟨rfl, rfl, horder, hnow⟩ | ⟨rfl, rfl, horder, hnow⟩
  · refine ⟨rfl, ?_⟩
    have hdeadline : c.deadline = c.nextTimer := Nat.min_eq_right horder
    rw [due, dueCount_advance timerPeriod_pos hnow, progression, hdeadline]
    apply cons_merge_of_head
    intro entry hentry
    rw [eq_of_mem_head?_progression hentry]
    simpa [notLater] using horder
  · refine ⟨rfl, ?_⟩
    have hdeadline : c.deadline = c.nextInstruction := Nat.min_eq_left (Nat.le_of_lt horder)
    rw [due, dueCount_advance c.period_pos hnow, progression, hdeadline]
    apply merge_cons_of_head
    intro entry hentry
    rw [eq_of_mem_head?_progression hentry]
    simpa [notLater] using horder

theorem due_of_next?_eq_none {c : Clock} {now : Nat} (hnext : c.next? now = none) :
    c.due now = [] := by
  have hpending := (next?_eq_none_iff c now).1 hnext
  rw [pending] at hpending
  have htimer : dueCount c.nextTimer timerPeriod now = 0 := by omega
  have hinstruction : dueCount c.nextInstruction c.period now = 0 := by omega
  rw [due, htimer, hinstruction]
  exact List.nil_merge _

/-- A tick that is due stays the next one, however late the reading. -/
theorem next?_of_le {c : Clock} {now later : Nat} {next : Tick × Clock}
    (hnext : c.next? now = some next) (hle : now ≤ later) : c.next? later = some next := by
  rw [next?] at hnext ⊢
  split at hnext
  · rename_i htimer
    rw [if_pos ⟨htimer.1, Nat.le_trans htimer.2 hle⟩]
    exact hnext
  · rename_i htimer
    split at hnext
    · rename_i hinstruction
      have hwait : ¬ (c.nextTimer ≤ c.nextInstruction ∧ c.nextTimer ≤ later) := by omega
      rw [if_neg hwait, if_pos (Nat.le_trans hinstruction hle)]
      exact hnext
    · cases hnext

theorem next?_eq_none_of_le {c : Clock} {now later : Nat} (hnext : c.next? later = none)
    (hle : now ≤ later) : c.next? now = none := by
  cases hnow : c.next? now with
  | none => rfl
  | some next =>
      rw [next?_of_le hnow hle] at hnext
      cases hnext

/-- What happens up to a time follows from what happens with each tick that is due by then. -/
theorem due_induction (now : Nat) {motive : Clock → Prop}
    (settled : ∀ c : Clock, c.next? now = none → motive c)
    (tick : ∀ (c : Clock) (tick : Tick), c.next? now = some (tick, c.pass tick) →
      motive (c.pass tick) → motive c) (c : Clock) : motive c := by
  induction hpending : c.pending now generalizing c with
  | zero => exact settled c ((next?_eq_none_iff c now).2 hpending)
  | succ count ih =>
      cases hnext : c.next? now with
      | none => exact settled c hnext
      | some next =>
          obtain ⟨kind, after⟩ := next
          obtain ⟨rfl, -⟩ := due_of_next?_eq_some hnext
          have hcount := pending_of_next? hnext
          exact tick c kind hnext (ih (c.pass kind) (by omega))

/-- The clock when it has handed out all that was due by a time. -/
def settle (c : Clock) (now : Nat) : Clock :=
  c.passAll ((c.due now).map Timed.tick)

theorem settle_of_next?_eq_some {c : Clock} {now : Nat} {tick : Tick}
    (hnext : c.next? now = some (tick, c.pass tick)) :
    c.settle now = (c.pass tick).settle now := by
  obtain ⟨-, hdue⟩ := due_of_next?_eq_some hnext
  rw [settle, hdue]
  rfl

/-- Two readings together find what the later of them would find alone. -/
theorem due_max (c : Clock) (now later : Nat) :
    c.due (max now later) = c.due now ++ (c.settle now).due later := by
  induction c using due_induction now with
  | settled c hnext =>
      have hdue := due_of_next?_eq_none hnext
      rw [settle, hdue]
      rcases Nat.le_total now later with hle | hle
      · rw [Nat.max_eq_right hle]
        rfl
      · rw [Nat.max_eq_left hle, hdue]
        exact (due_of_next?_eq_none (next?_eq_none_of_le hnext hle)).symm
  | tick c tick hnext ih =>
      obtain ⟨-, hdue⟩ := due_of_next?_eq_some hnext
      obtain ⟨-, hmax⟩ := due_of_next?_eq_some (next?_of_le hnext (Nat.le_max_left now later))
      rw [hmax, ih, hdue, settle_of_next?_eq_some hnext, List.cons_append]

theorem settle_max (c : Clock) (now later : Nat) :
    c.settle (max now later) = (c.settle now).settle later := by
  rw [settle, due_max, List.map_append, passAll, List.foldl_append]
  rfl

theorem before_of_mem_due {c : Clock} {now : Nat} {tick : Tick} {entry : Timed}
    (hnext : c.next? now = some (tick, c.pass tick)) (hentry : entry ∈ (c.pass tick).due now) :
    Before ⟨c.deadline, tick⟩ entry := by
  have htimerPeriod := timerPeriod_pos
  have hperiod := c.period_pos
  obtain ⟨-, hkind⟩ := mem_due.1 hentry
  rcases next?_cases hnext with ⟨rfl, -, horder, -⟩ | ⟨rfl, -, horder, -⟩
  · have hdeadline : c.deadline = c.nextTimer := Nat.min_eq_right horder
    rw [hdeadline]
    rcases hkind with ⟨-, k, htime⟩ | ⟨htick, k, htime⟩
    · simp only [pass, passTimer] at htime
      have hlater : c.nextTimer < entry.time := by omega
      exact .inl hlater
    · simp only [pass, passTimer] at htime
      have hnotEarlier : c.nextTimer ≤ entry.time := by omega
      -- The one pair of equal times: the timer tick goes ahead of the instruction tick.
      rcases Nat.eq_or_lt_of_le hnotEarlier with hsame | hlater
      · exact .inr ⟨hsame, rfl, htick⟩
      · exact .inl hlater
  · have hdeadline : c.deadline = c.nextInstruction := Nat.min_eq_left (Nat.le_of_lt horder)
    rw [hdeadline]
    have hlater : c.nextInstruction < entry.time := by
      rcases hkind with ⟨-, k, htime⟩ | ⟨-, k, htime⟩
      · simp only [pass, passInstruction] at htime
        omega
      · simp only [pass, passInstruction] at htime
        omega
    exact .inl hlater

/-- A clock hands out its ticks in the order of the timetable. -/
theorem pairwise_due (c : Clock) (now : Nat) : (c.due now).Pairwise Before := by
  induction c using due_induction now with
  | settled c hnext =>
      rw [due_of_next?_eq_none hnext]
      exact List.Pairwise.nil
  | tick c tick hnext ih =>
      obtain ⟨-, hdue⟩ := due_of_next?_eq_some hnext
      rw [hdue]
      exact List.Pairwise.cons (fun _ hentry => before_of_mem_due hnext hentry) ih

end Clock

namespace Schedule

open Clock

theorem dueCount_zero (period now : Nat) : dueCount 0 period now = now / period + 1 := by
  simp [dueCount]

theorem dueCount_self {period : Nat} (now : Nat) (hperiod : 0 < period) :
    dueCount period period now = now / period := by
  rw [dueCount, Nat.div_eq now period]
  simp only [hperiod, true_and]

/-- A new clock has the whole timetable before it. -/
theorem due_ofRate (rate now : Nat) : (ofRate rate).due now = upTo (periodOfRate rate) now := by
  have htimers : progression .timer timerPeriod timerPeriod (now / timerPeriod) =
      timers (now / timerPeriod) := by
    rw [progression_eq_map_range, timers]
    apply List.map_congr_left
    intro k _
    simp only [Nat.succ_mul, Timed.mk.injEq, and_true]
    omega
  have hinstructions :
      progression .instruction 0 (periodOfRate rate) (now / periodOfRate rate + 1) =
        instructions (periodOfRate rate) (now / periodOfRate rate + 1) := by
    rw [progression_eq_map_range, instructions]
    simp only [Nat.zero_add]
  simp only [due, ofRate, dueCount_zero, dueCount_self now timerPeriod_pos, htimers,
    hinstructions, upTo]

/-- The timetable up to a time lists just the ticks of the two periods up to that time. -/
theorem mem_upTo {rate now : Nat} {entry : Timed} :
    entry ∈ upTo (periodOfRate rate) now ↔
      Lists (periodOfRate rate) entry ∧ entry.time ≤ now := by
  rw [← due_ofRate, mem_due, and_comm]
  apply and_congr_left
  intro _
  obtain ⟨time, _ | _⟩ := entry
  · simp [Lists, ofRate]
  · simp only [Lists, ofRate, true_and, reduceCtorEq, false_and, or_false]
    constructor
    · rintro ⟨k, hk⟩
      exact ⟨k + 1, Nat.succ_pos k, by rw [hk, Nat.succ_mul, Nat.add_comm]⟩
    · rintro ⟨j, hj, htime⟩
      exact ⟨j - 1, by rw [htime, Nat.add_comm, ← Nat.succ_mul, Nat.succ_eq_add_one,
        Nat.sub_add_cancel hj]⟩

theorem pairwise_upTo (rate now : Nat) : (upTo (periodOfRate rate) now).Pairwise Before := by
  rw [← due_ofRate]
  exact pairwise_due _ now

theorem mem_seen {rate : Nat} {readings : List Nat} {entry : Timed} :
    entry ∈ seen (periodOfRate rate) readings ↔
      Lists (periodOfRate rate) entry ∧ ∃ now ∈ readings, entry.time ≤ now := by
  rw [seen]
  split
  · rename_i latest hlatest
    obtain ⟨hmem, hle⟩ := List.max?_eq_some_iff.1 hlatest
    rw [mem_upTo]
    apply and_congr_right
    intro _
    constructor
    · intro htime
      exact ⟨latest, hmem, htime⟩
    · rintro ⟨now, hnow, htime⟩
      exact Nat.le_trans htime (hle now hnow)
  · rename_i hnone
    rw [List.max?_eq_none_iff.1 hnone]
    simp

theorem pairwise_seen (rate : Nat) (readings : List Nat) :
    (seen (periodOfRate rate) readings).Pairwise Before := by
  rw [seen]
  split
  · exact pairwise_upTo rate _
  · exact List.Pairwise.nil

/-- The ticks that readings of the time have seen fall due. -/
def ticks (rate : Nat) (readings : List Nat) : List Tick :=
  (seen (periodOfRate rate) readings).map Timed.tick

end Schedule

end Chip8

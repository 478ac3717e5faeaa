import Chip8.Proofs.Timetable

/-!
A clock that is asked for one tick at a time, at readings that may jump back and forth, hands out
the timetable from its start.

`Schedule.entry` numbers the entries of the timetable.  A clock that `HasGiven` so many of them has
just the later ones left, and that is all there is to know about it: which tick a reading gets,
when the next deadline falls, and how many ticks are out once no more of them are due.
-/

namespace Chip8

namespace Schedule

open Clock

/-- Up to the time of instruction tick `n` there are more than `n` ticks. -/
theorem lt_length_upTo (rate n : Nat) :
    n < (upTo (periodOfRate rate) (n * periodOfRate rate)).length := by
  have hperiod : 0 < periodOfRate rate := (ofRate rate).period_pos
  rw [length_upTo, Nat.mul_div_cancel n hperiod]
  exact Nat.lt_of_lt_of_le (Nat.lt_succ_self n) (Nat.le_add_left (n + 1) _)

/-- The entry of the timetable that `n` others precede. -/
def entry (rate n : Nat) : Timed :=
  (upTo (periodOfRate rate) (n * periodOfRate rate)).get ⟨n, lt_length_upTo rate n⟩

/-- Waiting longer only adds entries to the end of the timetable. -/
theorem upTo_prefix_upTo (rate : Nat) {now later : Nat} (hle : now ≤ later) :
    upTo (periodOfRate rate) now <+: upTo (periodOfRate rate) later := by
  have hsplit := due_max (ofRate rate) now later
  rw [Nat.max_eq_right hle, due_ofRate, due_ofRate] at hsplit
  exact ⟨_, hsplit.symm⟩

theorem getElem?_upTo {rate now n : Nat} (hn : n < (upTo (periodOfRate rate) now).length) :
    (upTo (periodOfRate rate) now)[n]? = some (entry rate n) := by
  have hown : (upTo (periodOfRate rate) (n * periodOfRate rate))[n]? = some (entry rate n) :=
    List.getElem?_eq_getElem (lt_length_upTo rate n)
  rcases Nat.le_total now (n * periodOfRate rate) with hle | hle
  · obtain ⟨rest, hrest⟩ := upTo_prefix_upTo rate hle
    rw [← hown, ← hrest, List.getElem?_append_left hn]
  · obtain ⟨rest, hrest⟩ := upTo_prefix_upTo rate hle
    rw [← hown, ← hrest, List.getElem?_append_left (lt_length_upTo rate n)]

theorem upTo_eq_map_entry (rate now : Nat) :
    upTo (periodOfRate rate) now =
      (List.range (upTo (periodOfRate rate) now).length).map (entry rate) := by
  apply List.ext_getElem?
  intro n
  rcases Nat.lt_or_ge n (upTo (periodOfRate rate) now).length with hn | hn
  · rw [getElem?_upTo hn, List.getElem?_map, List.getElem?_range hn]
    rfl
  · rw [List.getElem?_eq_none hn, List.getElem?_eq_none (by simpa using hn)]

/-- The numbered entries are just the ticks of the two periods. -/
theorem lists_iff_exists_entry {rate : Nat} {listed : Timed} :
    Lists (periodOfRate rate) listed ↔ ∃ n, entry rate n = listed := by
  constructor
  · intro hlists
    have hmem : listed ∈ upTo (periodOfRate rate) listed.time :=
      mem_upTo.2 ⟨hlists, Nat.le_refl _⟩
    obtain ⟨n, hn, hget⟩ := List.getElem_of_mem hmem
    refine ⟨n, Option.some.inj ?_⟩
    rw [← getElem?_upTo hn, List.getElem?_eq_getElem hn, hget]
  · rintro ⟨n, rfl⟩
    have hmem : entry rate n ∈ upTo (periodOfRate rate) (n * periodOfRate rate) :=
      List.get_mem _ _
    exact (mem_upTo.1 hmem).1

theorem not_before_self (listed : Timed) : ¬ Before listed listed := by
  rintro (hlt | ⟨-, htimer, hinstruction⟩)
  · exact Nat.lt_irrefl _ hlt
  · rw [htimer] at hinstruction
    cases hinstruction

theorem before_entry (rate : Nat) {m n : Nat} (hlt : m < n) :
    Before (entry rate m) (entry rate n) := by
  have hn := lt_length_upTo rate n
  have hm := Nat.lt_trans hlt hn
  have hbefore := List.pairwise_iff_getElem.1 (pairwise_upTo rate (n * periodOfRate rate)) m n hm
    hn hlt
  have hfirst := getElem?_upTo hm
  rw [List.getElem?_eq_getElem hm] at hfirst
  rw [Option.some.inj hfirst] at hbefore
  exact hbefore

theorem eq_of_entry_eq {rate m n : Nat} (hentry : entry rate m = entry rate n) : m = n := by
  rcases Nat.lt_trichotomy m n with hlt | heq | hlt
  · have hbefore := before_entry rate hlt
    rw [hentry] at hbefore
    exact (not_before_self _ hbefore).elim
  · exact heq
  · have hbefore := before_entry rate hlt
    rw [hentry] at hbefore
    exact (not_before_self _ hbefore).elim

/-- An entry falls due by a time just when the timetable up to that time reaches it. -/
theorem time_entry_le_iff {rate n now : Nat} :
    (entry rate n).time ≤ now ↔ n < (upTo (periodOfRate rate) now).length := by
  constructor
  · intro htime
    have hlists : Lists (periodOfRate rate) (entry rate n) := lists_iff_exists_entry.2 ⟨n, rfl⟩
    obtain ⟨m, hm, hget⟩ := List.getElem_of_mem (mem_upTo.2 ⟨hlists, htime⟩)
    have hsame := getElem?_upTo hm
    rw [List.getElem?_eq_getElem hm, hget] at hsame
    rw [eq_of_entry_eq (Option.some.inj hsame)]
    exact hm
  · intro hn
    exact (mem_upTo.1 (List.mem_of_getElem? (getElem?_upTo hn))).2

theorem map_tick_range (count : Nat) (time : Nat → Nat) (tick : Tick) :
    ((List.range count).map fun n => (⟨time n, tick⟩ : Timed)).map Timed.tick =
      List.replicate count tick := by
  rw [List.map_map]
  exact List.map_const'.trans (by rw [List.length_range])

theorem count_upTo (period now : Nat) :
    ((upTo period now).map Timed.tick).count .instruction = now / period + 1 ∧
      ((upTo period now).map Timed.tick).count .timer = now / timerPeriod := by
  have hmerge : (upTo period now).Perm
      (timers (now / timerPeriod) ++ instructions period (now / period + 1)) :=
    List.merge_perm_append notLater
  have hperm := hmerge.map Timed.tick
  rw [List.map_append, timers, instructions, map_tick_range, map_tick_range] at hperm
  constructor
  · rw [hperm.count_eq, List.count_append]
    simp [List.count_replicate]
  · rw [hperm.count_eq, List.count_append]
    simp [List.count_replicate]

end Schedule

namespace Clock

open Schedule

/-- Ask once for a tick: what is handed out, and the clock afterwards. -/
def poll (c : Clock) (now : Nat) : Option Tick × Clock :=
  match c.next? now with
  | some (tick, after) => (some tick, after)
  | none => (none, c)

/-- Ask once at each reading: the ticks handed out, and the clock afterwards. -/
def polls (c : Clock) : List Nat → List Tick × Clock
  | [] => ([], c)
  | now :: later =>
      ((c.poll now).1.toList ++ ((c.poll now).2.polls later).1, ((c.poll now).2.polls later).2)

/-- Asking at one reading until nothing is handed out any more. -/
inductive Drains (now : Nat) : Clock → List Tick → Clock → Prop
  | settled {c : Clock} (hpoll : c.poll now = (none, c)) : Drains now c [] c
  | tick {c after last : Clock} {tick : Tick} {ticks : List Tick}
      (hpoll : c.poll now = (some tick, after)) (hrest : Drains now after ticks last) :
      Drains now c (tick :: ticks) last

theorem deadline_le_deadline_pass (c : Clock) (tick : Tick) :
    c.deadline ≤ (c.pass tick).deadline := by
  cases tick with
  | instruction =>
      simp only [deadline, pass, passInstruction]
      omega
  | timer =>
      simp only [deadline, pass, passTimer]
      omega

/-- The clock has handed out the first `count` entries of the timetable and nothing else: what it
has left up to any time is what comes after them. -/
def HasGiven (rate count : Nat) (c : Clock) : Prop :=
  ∀ now, c.due now = (upTo (periodOfRate rate) now).drop count

theorem hasGiven_ofRate (rate : Nat) : HasGiven rate 0 (ofRate rate) := by
  intro now
  rw [due_ofRate, List.drop_zero]

variable {rate count now : Nat} {c : Clock}

/-- What a clock hands out next is the entry that comes after those it has given. -/
theorem HasGiven.next? (hgiven : HasGiven rate count c) :
    c.deadline = (entry rate count).time ∧
      c.next? c.deadline = some ((entry rate count).tick, c.pass (entry rate count).tick) := by
  cases hnext : c.next? c.deadline with
  | none => exact absurd ((next?_eq_none_iff_lt c c.deadline).1 hnext) (Nat.lt_irrefl _)
  | some next =>
      obtain ⟨tick, after⟩ := next
      obtain ⟨rfl, hdue⟩ := due_of_next?_eq_some hnext
      rw [hgiven c.deadline] at hdue
      have hfirst := congrArg List.head? hdue
      rw [List.head?_drop, List.head?_cons] at hfirst
      have hlength := (List.getElem?_eq_some_iff.1 hfirst).1
      rw [getElem?_upTo hlength] at hfirst
      rw [Option.some.inj hfirst]
      exact ⟨rfl, rfl⟩

theorem HasGiven.poll (hgiven : HasGiven rate count c) (now : Nat) :
    c.poll now =
      if (entry rate count).time ≤ now then
        (some (entry rate count).tick, c.pass (entry rate count).tick)
      else (none, c) := by
  obtain ⟨hdeadline, hnext⟩ := hgiven.next?
  rw [Clock.poll, ← hdeadline]
  split
  · rename_i tick after hnow
    have hdue : c.deadline ≤ now := by
      apply Nat.le_of_not_lt
      intro hearly
      rw [(next?_eq_none_iff_lt c now).2 hearly] at hnow
      cases hnow
    rw [next?_of_le hnext hdue] at hnow
    cases hnow
    rw [if_pos hdue]
  · rename_i hnone
    rw [if_neg (Nat.not_le_of_lt ((next?_eq_none_iff_lt c now).1 hnone))]

/-- Handing out a tick takes the next entry off what is left. -/
theorem HasGiven.pass (hgiven : HasGiven rate count c) :
    HasGiven rate (count + 1) (c.pass (entry rate count).tick) := by
  intro now
  obtain ⟨-, hnext⟩ := hgiven.next?
  rcases Nat.lt_or_ge now c.deadline with hearly | hdue
  · have hafter := Nat.lt_of_lt_of_le hearly (c.deadline_le_deadline_pass (entry rate count).tick)
    rw [due_of_next?_eq_none ((next?_eq_none_iff_lt _ now).2 hafter)]
    have hnone := hgiven now
    rw [due_of_next?_eq_none ((next?_eq_none_iff_lt c now).2 hearly)] at hnone
    rw [← List.drop_drop, ← hnone, List.drop_nil]
  · obtain ⟨-, hlisted⟩ := due_of_next?_eq_some (next?_of_le hnext hdue)
    rw [← List.drop_drop, ← hgiven now, hlisted]
    rfl

theorem HasGiven.polls_cons (hgiven : HasGiven rate count c) (now : Nat) (later : List Nat) :
    c.polls (now :: later) =
      if (entry rate count).time ≤ now then
        ((entry rate count).tick :: ((c.pass (entry rate count).tick).polls later).1,
          ((c.pass (entry rate count).tick).polls later).2)
      else c.polls later := by
  rw [Clock.polls, hgiven.poll now]
  split
  · rfl
  · rfl

/-- Asking at one reading after another hands out one entry after another. -/
theorem HasGiven.polls (hgiven : HasGiven rate count c) (readings : List Nat) :
    HasGiven rate (count + (c.polls readings).1.length) (c.polls readings).2 ∧
      (c.polls readings).1 =
        (List.range' count (c.polls readings).1.length).map fun n => (entry rate n).tick := by
  induction readings generalizing c count with
  | nil => exact ⟨hgiven, rfl⟩
  | cons now later ih =>
      rw [hgiven.polls_cons]
      split
      · obtain ⟨hlast, hticks⟩ := ih hgiven.pass
        constructor
        · rw [List.length_cons, Nat.add_comm _ 1, ← Nat.add_assoc]
          exact hlast
        · rw [List.length_cons, List.range'_succ, List.map_cons, ← hticks]
      · exact ih hgiven

/-- Readings that are not after a time get no entries but those up to that time. -/
theorem HasGiven.length_polls_le (hgiven : HasGiven rate count c) {readings : List Nat}
    (hcount : count ≤ (upTo (periodOfRate rate) now).length)
    (hreadings : ∀ reading ∈ readings, reading ≤ now) :
    count + (c.polls readings).1.length ≤ (upTo (periodOfRate rate) now).length := by
  induction readings generalizing c count with
  | nil => exact hcount
  | cons reading later ih =>
      have hlater : ∀ other ∈ later, other ≤ now := fun other hother =>
        hreadings other (List.mem_cons_of_mem reading hother)
      rw [hgiven.polls_cons]
      split
      · rename_i htime
        have hroom : count < (upTo (periodOfRate rate) now).length :=
          time_entry_le_iff.1 (Nat.le_trans htime (hreadings reading List.mem_cons_self))
        have hrest := ih hgiven.pass hroom hlater
        rw [List.length_cons, Nat.add_comm _ 1, ← Nat.add_assoc]
        exact hrest
      · exact ih hgiven hcount hlater

/-! ### Draining -/

theorem drains_due (c : Clock) (now : Nat) :
    Drains now c ((c.due now).map Timed.tick) (c.settle now) := by
  induction c using due_induction now with
  | settled c hnext =>
      rw [settle, due_of_next?_eq_none hnext]
      exact .settled (by rw [poll, hnext])
  | tick c tick hnext ih =>
      obtain ⟨-, hdue⟩ := due_of_next?_eq_some hnext
      rw [settle_of_next?_eq_some hnext, hdue]
      exact .tick (by rw [poll, hnext]) ih

theorem Drains.unique {c last other : Clock} {ticks others : List Tick}
    (hdrains : Drains now c ticks last) (hother : Drains now c others other) :
    ticks = others ∧ last = other := by
  induction hdrains generalizing others other with
  | settled hpoll =>
      cases hother with
      | settled _ => exact ⟨rfl, rfl⟩
      | tick hpoll' _ =>
          rw [hpoll] at hpoll'
          cases hpoll'
  | tick hpoll _ ih =>
      cases hother with
      | settled hpoll' =>
          rw [hpoll] at hpoll'
          cases hpoll'
      | tick hpoll' hrest =>
          rw [hpoll] at hpoll'
          cases hpoll'
          obtain ⟨hticks, hlast⟩ := ih hrest
          exact ⟨by rw [hticks], hlast⟩

theorem drain_eq_due (c : Clock) (now : Nat) :
    c.drain now = ((c.due now).map Timed.tick, c.settle now) := by
  rw [drain]
  induction c using due_induction now with
  | settled c hnext =>
      rw [(next?_eq_none_iff c now).1 hnext, settle, due_of_next?_eq_none hnext]
      rfl
  | tick c tick hnext ih =>
      obtain ⟨-, hdue⟩ := due_of_next?_eq_some hnext
      rw [pending_of_next? hnext, take, hnext]
      simp only
      rw [ih, hdue, settle_of_next?_eq_some hnext]
      rfl

/-- Asking until nothing is handed out comes to an end, with the ticks and the clock that `drain`
gives. -/
theorem drains_iff {last : Clock} {ticks : List Tick} :
    Drains now c ticks last ↔ (ticks, last) = c.drain now := by
  rw [drain_eq_due, Prod.mk.injEq]
  constructor
  · intro hdrains
    exact hdrains.unique (drains_due c now)
  · rintro ⟨rfl, rfl⟩
    exact drains_due c now

/-! ### All the ticks handed out -/

/-- A deadline is at most one period ahead of the readings that moved it on. -/
theorem next_le_of_polls {c : Clock} {limit : Nat} {readings : List Nat}
    (hreadings : ∀ reading ∈ readings, reading ≤ limit)
    (hinstruction : c.nextInstruction ≤ limit + c.period)
    (htimer : c.nextTimer ≤ limit + timerPeriod) :
    (c.polls readings).2.nextInstruction ≤ limit + c.period ∧
      (c.polls readings).2.nextTimer ≤ limit + timerPeriod := by
  induction readings generalizing c with
  | nil => exact ⟨hinstruction, htimer⟩
  | cons now later ih =>
      have hnow := hreadings now List.mem_cons_self
      have hlater : ∀ other ∈ later, other ≤ limit := fun other hother =>
        hreadings other (List.mem_cons_of_mem now hother)
      rw [polls, poll]
      split
      · rename_i tick after hnext
        rcases next?_cases hnext with ⟨-, rfl, -, hdue⟩ | ⟨-, rfl, -, hdue⟩
        · exact ih hlater hinstruction (Nat.add_le_add_right (Nat.le_trans hdue hnow) _)
        · exact ih hlater (Nat.add_le_add_right (Nat.le_trans hdue hnow) _) htimer
      · exact ih hlater hinstruction htimer

/-- Draining is asking at the same reading as often as there are ticks to hand out. -/
theorem Drains.polls {last : Clock} {ticks : List Tick} (hdrains : Drains now c ticks last) :
    c.polls (List.replicate ticks.length now) = (ticks, last) := by
  induction hdrains with
  | settled hpoll => rfl
  | tick hpoll _ ih =>
      rw [List.length_cons, List.replicate_succ, Clock.polls, hpoll, ih]
      rfl

theorem Drains.poll_last {last : Clock} {ticks : List Tick} (hdrains : Drains now c ticks last) :
    last.poll now = (none, last) := by
  induction hdrains with
  | settled hpoll => exact hpoll
  | tick _ _ ih => exact ih

/-- A drained clock has given all the entries up to the reading, and those that earlier readings
got beyond it. -/
theorem HasGiven.drain (hgiven : HasGiven rate count c) (now : Nat) :
    HasGiven rate (count + (c.drain now).1.length) (c.drain now).2 ∧
      (c.drain now).1 =
        (List.range' count (c.drain now).1.length).map (fun n => (entry rate n).tick) ∧
      now < (entry rate (count + (c.drain now).1.length)).time := by
  have hdrains : Drains now c (c.drain now).1 (c.drain now).2 := drains_iff.2 rfl
  obtain ⟨hlast, hticks⟩ := hgiven.polls (List.replicate (c.drain now).1.length now)
  rw [hdrains.polls] at hlast hticks
  refine ⟨hlast, hticks, ?_⟩
  have hnone := hdrains.poll_last
  rw [hlast.poll now] at hnone
  split at hnone
  · cases hnone
  · rename_i hlate
    exact Nat.lt_of_not_le hlate

/-- A drained clock that was not ahead of the reading has given the entries up to it. -/
theorem HasGiven.length_drain (hgiven : HasGiven rate count c)
    (hcount : count ≤ (upTo (periodOfRate rate) now).length) :
    count + (c.drain now).1.length = (upTo (periodOfRate rate) now).length := by
  have hdrains : Drains now c (c.drain now).1 (c.drain now).2 := drains_iff.2 rfl
  have hsame : ∀ reading ∈ List.replicate (c.drain now).1.length now, reading ≤ now :=
    fun _ hreading => Nat.le_of_eq (List.eq_of_mem_replicate hreading)
  have hle := hgiven.length_polls_le hcount hsame
  rw [hdrains.polls] at hle
  obtain ⟨-, -, hlate⟩ := hgiven.drain now
  apply Nat.le_antisymm hle
  apply Nat.le_of_not_lt
  intro hlt
  exact Nat.not_le_of_lt hlate (time_entry_le_iff.2 hlt)

/-- A clock that is asked at any readings, in whatever order, hands out the entries of the
timetable one after another, each at the first reading that is not before it; asking on and on at
one reading comes to an end, and no deadline runs ahead of the readings by more than its period. -/
theorem polls_ofRate (rate : Nat) (readings : List Nat) :
    (∀ listed, Lists (periodOfRate rate) listed ↔ ∃ n, entry rate n = listed) ∧
    (∀ m n, m < n → Before (entry rate m) (entry rate n)) ∧
    let ticks := ((ofRate rate).polls readings).1
    let c := ((ofRate rate).polls readings).2
    let next := entry rate ticks.length
    ticks = (List.range ticks.length).map (fun n => (entry rate n).tick) ∧
    c.deadline = next.time ∧
    (∀ now, c.poll now =
      if next.time ≤ now then (some next.tick, c.pass next.tick) else (none, c)) ∧
    (∀ limit, (∀ reading ∈ readings, reading ≤ limit) →
      c.nextInstruction ≤ limit + periodOfRate rate ∧ c.nextTimer ≤ limit + timerPeriod) ∧
    ∀ now,
      (∀ more last, Drains now c more last ↔ (more, last) = c.drain now) ∧
      (c.drain now).2.deadline = (entry rate (ticks.length + (c.drain now).1.length)).time ∧
      now < (c.drain now).2.deadline ∧
      ((∀ reading ∈ readings, reading ≤ now) →
        let all := ticks ++ (c.drain now).1
        all = (upTo (periodOfRate rate) now).map Timed.tick ∧
        all.count .instruction = now / periodOfRate rate + 1 ∧
        all.count .timer = now / timerPeriod) := by
  refine ⟨fun _ => lists_iff_exists_entry, fun _ _ => before_entry rate, ?_⟩
  intro ticks c next
  obtain ⟨hgiven, hticks⟩ := (hasGiven_ofRate rate).polls readings
  rw [Nat.zero_add] at hgiven
  refine ⟨?_, hgiven.next?.1, hgiven.poll, ?_, ?_⟩
  · rw [List.range_eq_range']
    exact hticks
  · intro limit hreadings
    exact next_le_of_polls hreadings (Nat.zero_le _) (Nat.le_add_left _ _)
  · intro now
    obtain ⟨hlast, hmore, hlate⟩ := hgiven.drain now
    refine ⟨fun _ _ => drains_iff, hlast.next?.1, ?_, ?_⟩
    · rw [hlast.next?.1]
      exact hlate
    · intro hreadings all
      have hfirst := (hasGiven_ofRate rate).length_polls_le (Nat.zero_le _) hreadings
      rw [Nat.zero_add] at hfirst
      have hlength := hgiven.length_drain hfirst
      have hall : all = (upTo (periodOfRate rate) now).map Timed.tick := by
        rw [upTo_eq_map_entry, ← hlength, List.map_map, List.range_eq_range',
          ← List.range'_append_1, List.map_append, Nat.zero_add]
        exact congr (congrArg _ hticks) hmore
      rw [hall]
      exact ⟨rfl, count_upTo (periodOfRate rate) now⟩

theorem polls_ofRate_late_reading :
    let readings := [40000000, 0, 20000000]
    let ticks := ((ofRate 120).polls readings).1
    let c := ((ofRate 120).polls readings).2
    (∀ reading ∈ readings, reading ≤ 40000000) ∧
      (ticks ++ (c.drain 40000000).1).count .instruction = 5 ∧
      (ticks ++ (c.drain 40000000).1).count .timer = 2 := by
  intro readings ticks c
  have hreadings : ∀ reading ∈ readings, reading ≤ 40000000 := by decide
  obtain ⟨-, -, -, -, -, -, hdrain⟩ := polls_ofRate 120 readings
  obtain ⟨-, -, -, hcounts⟩ := hdrain 40000000
  obtain ⟨-, hinstructions, htimers⟩ := hcounts hreadings
  exact ⟨hreadings, hinstructions, htimers⟩

end Clock

end Chip8

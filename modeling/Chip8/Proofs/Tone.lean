import Chip8.Console
import Chip8.Proofs.Procedure

/-!
The tone of a console follows the sound timer of its session.

What the record tells of the tone never depends on the session, and following the tone brings the
two together again.  A step that fails leaves the sound timer alone, which is why nothing has to
be followed after it.
-/

namespace Chip8

namespace Event

/-- The values take turns, `first` being the one to begin. -/
def Alternates (first : Bool) : List Bool → Prop
  | [] => True
  | value :: rest => value = first ∧ Alternates (!first) rest

theorem Alternates.append_singleton {first : Bool} {values : List Bool}
    (hvalues : Alternates first values) :
    Alternates first (values ++ [!values.getLast?.getD (!first)]) := by
  induction values generalizing first with
  | nil => exact ⟨Bool.not_not first, trivial⟩
  | cons value rest ih =>
      obtain ⟨rfl, hrest⟩ := hvalues
      refine ⟨rfl, ?_⟩
      have hlonger := ih hrest
      rw [Bool.not_not] at hlonger
      rwa [List.getLast?_cons, Option.getD_some]

theorem tones_append_frame (events : List Event) (screen : Screen) :
    tones (events ++ [.frame screen]) = tones events := by
  simp [tones]

theorem tones_append_tone (events : List Event) (on : Bool) :
    tones (events ++ [.tone on]) = tones events ++ [on] := by
  simp [tones]

theorem toneAfter_append_tone (events : List Event) (on : Bool) :
    toneAfter (events ++ [.tone on]) = on := by
  rw [toneAfter, tones_append_tone, List.getLast?_concat]
  rfl

end Event

namespace Session

variable (s : Session)

@[simp] theorem sounds_boot (program : List UInt8) : (s.boot program).state.sounds = false := by
  obtain ⟨memory, hbooted⟩ := s.exists_boot_eq program
  rw [hbooted]
  rfl

@[simp] theorem sounds_showKeys (keypad : Keypad) : (s.showKeys keypad).sounds = s.sounds := by
  obtain ⟨registers, activity, hshown⟩ := s.exists_showKeys_eq keypad
  rw [hshown]
  rfl

@[simp] theorem sounds_present : s.present.2.sounds = s.sounds := by
  simp only [present, Machine.present]
  split
  · rfl
  · rfl

theorem sounds_eq_true_iff : s.sounds = true ↔ s.machine.soundTimer ≠ 0 := by
  rw [sounds, Machine.sounds, decide_eq_true_iff]
  exact UInt8.pos_iff_ne_zero

end Session

namespace Console

@[simp] theorem events_emit (c : Console) (event : Event) :
    (c.emit event).events = c.events ++ [event] :=
  List.reverse_cons

/-- What went out of the console accounts for its tone. -/
structure Accounted (c : Console) : Prop where
  latest : Event.toneAfter c.events = c.tone
  alternates : Event.Alternates true (Event.tones c.events)

/-- The tone is accounted for, and it is on while the sound timer runs. -/
structure InTune (c : Console) : Prop extends Accounted c where
  sounds : c.session.sounds = c.tone

variable {c : Console}

/-- Only a change of the sound timer can put a console out of tune, and following it mends that. -/
theorem Accounted.followTone (hc : c.Accounted) : c.followTone.InTune := by
  unfold Console.followTone
  split
  · rename_i hsame
    exact ⟨hc, hsame⟩
  · rename_i hchange
    have hflip : c.session.sounds = !c.tone := Bool.eq_not_of_ne hchange
    refine ⟨⟨?_, ?_⟩, rfl⟩
    · change Event.toneAfter (c.emit (.tone c.session.sounds)).events = c.session.sounds
      rw [events_emit, Event.toneAfter_append_tone]
    · change Event.Alternates true (Event.tones (c.emit (.tone c.session.sounds)).events)
      rw [events_emit, Event.tones_append_tone, hflip, ← hc.latest]
      exact hc.alternates.append_singleton

theorem Accounted.emit_frame (hc : c.Accounted) (screen : Screen) :
    (c.emit (.frame screen)).Accounted := by
  refine ⟨?_, ?_⟩
  · rw [events_emit, Event.toneAfter, Event.tones_append_frame]
    exact hc.latest
  · rw [events_emit, Event.tones_append_frame]
    exact hc.alternates

theorem InTune.showFrame (hc : c.InTune) : c.showFrame.InTune := by
  have hsounds := c.session.sounds_present
  unfold Console.showFrame
  split
  · rename_i screen taken hpresent
    rw [hpresent] at hsounds
    have hshown := hc.emit_frame screen
    exact ⟨⟨hshown.latest, hshown.alternates⟩, hsounds.trans hc.sounds⟩
  · exact hc

theorem InTune.readKeys (hc : c.InTune) : c.readKeys.InTune :=
  ⟨⟨hc.latest, hc.alternates⟩, (c.session.sounds_showKeys _).trans hc.sounds⟩

/-- A step that fails has not touched the sound timer. -/
theorem InTune.runInstruction (hc : c.InTune) : c.runInstruction.InTune := by
  unfold Console.runInstruction
  split
  · -- Whatever the instruction did to the sound timer is followed at once.
    exact Accounted.followTone ⟨hc.latest, hc.alternates⟩
  · rename_i after fault hstep
    have hstay := Session.step_of_fault (congrArg Outcome.fault hstep)
    have hafter : after = c.session := by
      rw [hstep] at hstay
      exact congrArg Outcome.state hstay
    rw [hafter]
    exact ⟨⟨hc.latest, hc.alternates⟩, hc.sounds⟩

theorem InTune.tick (hc : c.InTune) (tick : Tick) : (c.tick tick).InTune := by
  cases tick with
  | instruction =>
      simp only [Console.tick, instructionTick]
      split
      · exact hc
      · exact hc.readKeys.runInstruction
  | timer =>
      have hcounted : ({ c with session := c.session.countDown }).Accounted :=
        ⟨hc.latest, hc.alternates⟩
      exact hcounted.followTone.showFrame

theorem InTune.process (hc : c.InTune) (now limit : Nat) : (c.process now limit).InTune := by
  induction limit generalizing c with
  | zero => exact hc
  | succ limit ih =>
      rw [Console.process]
      split
      · exact hc
      · rename_i tick clock hnext
        have hclock : ({ c with clock }).InTune := ⟨⟨hc.latest, hc.alternates⟩, hc.sounds⟩
        exact ih (hclock.tick tick)

theorem InTune.catchUpAll (hc : c.InTune) (readings : List Nat) :
    (c.catchUpAll readings).InTune := by
  induction readings generalizing c with
  | nil => exact hc
  | cons now later ih => exact ih (hc.process now _)

theorem inTune_new {s : Session} (hsilent : s.sounds = false) (script : KeyScript) (rate : Nat) :
    (Console.new s script rate).InTune :=
  ⟨⟨rfl, trivial⟩, hsilent⟩

/-- After every tick that a console has processed, its tone is on exactly while the sound timer
runs, the tone that went out last is this tone, and the tones that went out were on and off by
turns, on first.  The console began with a program just loaded and met any readings of the
time. -/
theorem tone_of_process (s : Session) (program : List UInt8) (script : KeyScript) (rate : Nat)
    (readings : List Nat) (now limit : Nat) :
    let start := Console.new (s.boot program).state script rate
    let c := process now limit (start.catchUpAll readings)
    (c.tone = true ↔ c.session.machine.soundTimer ≠ 0) ∧
      c.tone = Event.toneAfter c.events ∧
      Event.Alternates true (Event.tones c.events) := by
  intro start c
  have hstart : start.InTune := inTune_new (s.sounds_boot program) script rate
  have hc : c.InTune := (hstart.catchUpAll readings).process now limit
  refine ⟨?_, hc.latest.symm, hc.alternates⟩
  rw [← hc.sounds]
  exact c.session.sounds_eq_true_iff

end Console

end Chip8

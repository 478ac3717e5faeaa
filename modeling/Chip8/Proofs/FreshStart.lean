import Chip8.Proofs.Procedure
import Chip8.Session.Operation

/-!
What a new start leaves of what was before.

A session that starts over with a program keeps its dialect and the position of its random bytes,
and nothing else: whether the program fits or not, everything is as in a session just created, but
for the program in memory.  So two sessions with the same dialect and random bytes cannot be told
apart after they start over with the same program.  Copying a program alone changes the bytes that
it covers and nothing else.
-/

namespace Chip8

/-- The memory of a machine just switched on, with a program in its place and zeros elsewhere. -/
structure Memory.HoldsOnly (m : Memory) (program : List UInt8) : Prop where
  font : ∀ i < 80, some (m.peek i) = Font.rows[i]?
  below : ∀ address, 80 ≤ address → address < 0x200 → m.peek address = 0
  inside : ∀ i < program.length, some (m.peek (0x200 + i)) = program[i]?
  above : ∀ address, 0x200 + program.length ≤ address → m.peek address = 0

namespace Memory

variable {m : Memory} {program : List UInt8}

/-- The largest program ends where memory ends. -/
theorem fits_program_iff : Fits programStart program.length ↔ program.length ≤ 3584 := by
  change 512 + program.length ≤ 4096 ↔ program.length ≤ 3584
  omega

theorem storeProgram_of_le (m : Memory) (hfits : program.length ≤ 3584) :
    m.storeProgram program = .ok (m.pokeAll 0x200 program) := by
  rw [storeProgram, if_pos (show program.length ≤ programLimit from hfits), store,
    if_pos (fits_program_iff.2 hfits)]
  rfl

theorem storeProgram_of_lt (m : Memory) (hlarge : 3584 < program.length) :
    m.storeProgram program = .error (.programTooLarge program.length 3584) :=
  if_neg (Nat.not_le_of_lt hlarge)

theorem peek_pokeAll_program (m : Memory) (hfits : program.length ≤ 3584) (address : Nat) :
    (m.pokeAll 0x200 program).peek address =
      if 0x200 ≤ address ∧ address < 0x200 + program.length then
        program.getD (address - 0x200) 0
      else m.peek address := by
  rw [peek_pokeAll m 0x200 program address (by simp only [size]; omega)]
  by_cases hstart : 0x200 ≤ address
  · by_cases hstop : address < 0x200 + program.length
    · have hinside : address - 0x200 < program.length := by omega
      rw [if_pos hstart, if_pos ⟨hstart, hstop⟩, List.getD_eq_getElem?_getD,
        List.getElem?_eq_getElem hinside]
      rfl
    · have hbehind : program.length ≤ address - 0x200 := by omega
      rw [if_pos hstart, if_neg fun h => hstop h.2, List.getElem?_eq_none hbehind]
      rfl
  · rw [if_neg hstart, if_neg fun h => hstart h.1]

theorem peek_pokeAll_program_outside (m : Memory) (hfits : program.length ≤ 3584) {address : Nat}
    (houtside : address < 0x200 ∨ 0x200 + program.length ≤ address) :
    (m.pokeAll 0x200 program).peek address = m.peek address := by
  have hnot : ¬ (0x200 ≤ address ∧ address < 0x200 + program.length) := by omega
  rw [peek_pokeAll_program m hfits, if_neg hnot]

theorem peek_initial_of_le {address : Nat} (hbehind : 80 ≤ address) :
    initial.peek address = 0 := by
  have hrows : Font.rows.length ≤ address := hbehind
  rw [peek_initial, List.getElem?_eq_none hrows]
  rfl

theorem holdsOnly_initial (hfits : program.length ≤ 3584) :
    (initial.pokeAll 0x200 program).HoldsOnly program where
  font i hi := by
    have hrow : i < Font.rows.length := hi
    have hbefore : i < 0x200 := by omega
    rw [peek_pokeAll_program_outside initial hfits (.inl hbefore), peek_initial,
      List.getElem?_eq_getElem hrow]
    rfl
  below address hfont hbefore := by
    rw [peek_pokeAll_program_outside initial hfits (.inl hbefore), peek_initial_of_le hfont]
  inside i hi := by
    have hinside : 0x200 ≤ 0x200 + i ∧ 0x200 + i < 0x200 + program.length := by omega
    rw [peek_pokeAll_program initial hfits, if_pos hinside, Nat.add_sub_cancel_left,
      List.getD_eq_getElem?_getD, List.getElem?_eq_getElem hi]
    rfl
  above address hbehind := by
    have hfont : 80 ≤ address := by omega
    rw [peek_pokeAll_program_outside initial hfits (.inr hbehind), peek_initial_of_le hfont]

end Memory

namespace Procedure

/-- Start over in place: a new machine, no wait for a key, no skipped routines. -/
def restart : Procedure Unit := do
  edit fun _ => .initial
  modify fun s => { s with activity := .running }
  modify fun s => { s with skipped := [] }

/-- Copy a program into memory in place. -/
def storeProgram (program : List UInt8) : Procedure Unit := do
  require (program.length ≤ Memory.programLimit)
    (.programTooLarge program.length Memory.programLimit)
  writeBytes Memory.programStart program

/-- Start over with a program in place. -/
def boot (program : List UInt8) : Procedure Unit := do
  restart
  storeProgram program

theorem run_restart (s : Session) : restart.run s = .ok () s.restart :=
  rfl

theorem run_storeProgram (s : Session) (program : List UInt8) :
    (storeProgram program).run s =
      match s.machine.storeProgram program with
      | .ok machine => .ok () { s with machine }
      | .error fault => .error fault s := by
  rw [Machine.storeProgram, Memory.storeProgram]
  by_cases hlimit : program.length ≤ Memory.programLimit
  · rw [storeProgram, require, if_pos hlimit, if_pos hlimit, run_bind_of_ok (EStateM.run_pure _ s),
      run_writeBytes]
    cases s.machine.memory.store Memory.programStart program with
    | ok memory => rfl
    | error fault => rfl
  · rw [storeProgram, require, if_neg hlimit, if_neg hlimit]
    rfl

theorem outcome_boot (s : Session) (program : List UInt8) :
    (boot program).outcome s = s.boot program := by
  rw [outcome, boot, run_bind_of_ok (run_restart s), run_storeProgram, Session.boot]
  cases s.restart.machine.storeProgram program with
  | ok machine => rfl
  | error fault => rfl

/-- Copying a program that fits changes memory where the program goes. -/
theorem exists_outcome_storeProgram (s : Session) {program : List UInt8}
    (hfits : program.length ≤ 3584) :
    ∃ memory, s.machine.storeProgram program = .ok { s.machine with memory } ∧
      (storeProgram program).outcome s = .done { s with machine := { s.machine with memory } } ∧
      ∀ address, memory.peek address =
        if 0x200 ≤ address ∧ address < 0x200 + program.length then
          program.getD (address - 0x200) 0
        else s.machine.memory.peek address := by
  have hstored : s.machine.storeProgram program =
      .ok { s.machine with memory := s.machine.memory.pokeAll 0x200 program } := by
    rw [Machine.storeProgram, Memory.storeProgram_of_le _ hfits]
    rfl
  refine ⟨_, hstored, ?_, s.machine.memory.peek_pokeAll_program hfits⟩
  rw [outcome, run_storeProgram, hstored]

/-- A program that does not fit changes nothing. -/
theorem outcome_storeProgram_of_lt (s : Session) {program : List UInt8}
    (hlarge : 3584 < program.length) :
    s.machine.storeProgram program = .error (.programTooLarge program.length 3584) ∧
      (storeProgram program).outcome s =
        .stopped s (.programTooLarge program.length 3584) := by
  have hfault : s.machine.storeProgram program =
      .error (.programTooLarge program.length 3584) := by
    rw [Machine.storeProgram, Memory.storeProgram_of_lt _ hlarge]
    rfl
  refine ⟨hfault, ?_⟩
  rw [outcome, run_storeProgram, hfault]

end Procedure

namespace Session

theorem boot_congr {s t : Session} (hdialect : t.dialect = s.dialect)
    (hrandom : t.random = s.random) (program : List UInt8) :
    t.boot program = s.boot program := by
  have hrestart : t.restart = s.restart := by rw [restart, restart, hdialect, hrandom]
  rw [boot, boot, hrestart]

theorem exists_boot_of_le (s : Session) {program : List UInt8}
    (hfits : program.length ≤ 3584) :
    ∃ memory : Memory, memory.HoldsOnly program ∧
      s.boot program =
        .done { new s.dialect s.random with machine := { Machine.initial with memory } } := by
  refine ⟨_, Memory.holdsOnly_initial hfits, ?_⟩
  rw [boot, Machine.storeProgram, Memory.storeProgram_of_le _ hfits]
  rfl

theorem boot_of_lt (s : Session) {program : List UInt8} (hlarge : 3584 < program.length) :
    s.boot program =
      .stopped (new s.dialect s.random) (.programTooLarge program.length 3584) := by
  rw [boot, Machine.storeProgram, Memory.storeProgram_of_lt _ hlarge]
  rfl

/-- A session that starts over with a program is as a session just created with the program in
memory, or, when the program is too large, as one that starts over without a program.  So from there
on it does the same and answers the same as any other session with its dialect and its random bytes,
whatever was done to the two before.  Copying a program into memory without starting over changes
the bytes under the program, or nothing when the program is too large. -/
theorem boot_forgets (s : Session) (program : List UInt8) :
    (Procedure.boot program).outcome s = s.boot program ∧
    (program.length ≤ 3584 → ∃ memory : Memory, memory.HoldsOnly program ∧
      s.boot program =
        .done { new s.dialect s.random with machine := { Machine.initial with memory } } ∧
      (s.boot program).state.machine.counter = 0x200) ∧
    (3584 < program.length →
      s.boot program = .stopped s.restart (.programTooLarge program.length 3584)) ∧
    (∀ t : Session, t.dialect = s.dialect → t.random = s.random →
      t.boot program = s.boot program ∧
      ∀ later, t.replies (.boot program :: later) = s.replies (.boot program :: later) ∧
        t.run (.boot program :: later) = s.run (.boot program :: later)) ∧
    (program.length ≤ 3584 →
      ∃ memory, s.machine.storeProgram program = .ok { s.machine with memory } ∧
        (Procedure.storeProgram program).outcome s =
          .done { s with machine := { s.machine with memory } } ∧
        ∀ address, memory.peek address =
          if 0x200 ≤ address ∧ address < 0x200 + program.length then
            program.getD (address - 0x200) 0
          else s.machine.memory.peek address) ∧
    (3584 < program.length →
      s.machine.storeProgram program = .error (.programTooLarge program.length 3584) ∧
        (Procedure.storeProgram program).outcome s =
          .stopped s (.programTooLarge program.length 3584)) := by
  refine ⟨Procedure.outcome_boot s program, ?_, fun hlarge => s.boot_of_lt hlarge, ?_,
    Procedure.exists_outcome_storeProgram s, Procedure.outcome_storeProgram_of_lt s⟩
  · intro hfits
    obtain ⟨memory, hholds, hboot⟩ := s.exists_boot_of_le hfits
    refine ⟨memory, hholds, hboot, ?_⟩
    rw [hboot]
    rfl
  · intro t hdialect hrandom
    have hboot := boot_congr hdialect hrandom program
    refine ⟨hboot, fun later => ⟨?_, ?_⟩⟩
    · simp only [replies, apply, hboot]
    · simp only [run, List.foldl_cons, apply, hboot]

/-- A session that was used and waits for a key starts over like a new one once its random bytes are
back at the first of them; the programs are the largest that fits and one a byte longer. -/
theorem boot_forgets_waiting :
    let fresh := new .standard (.ofBytes [0xAB, 0x6D])
    let used := fresh.run
      [.performAll [.random 1 0xFF, .random 2 0xFF, .setSound 1, .routine 0x123, .draw 1 2 5],
        .showKeys (.single 7), .performAll [.call 0x300, .dump 2, .awaitKey 4]]
    let full : List UInt8 := List.replicate 3584 0x60
    let large : List UInt8 := List.replicate 3585 0x60
    used.activity = .awaitingKey 4 ∧
      (used.dialect = fresh.dialect ∧ used.random = fresh.random) ∧
      full.length ≤ 3584 ∧ 3584 < large.length ∧
      used.boot full = fresh.boot full ∧
      used.boot large = .stopped used.restart (.programTooLarge large.length 3584) ∧
      (Procedure.storeProgram large).outcome used =
        .stopped used (.programTooLarge large.length 3584) ∧
      used.replies [.boot full, .step, .showKeys (.single 3), .present] =
        fresh.replies [.boot full, .step, .showKeys (.single 3), .present] := by
  intro fresh used full large
  obtain ⟨hwaiting, hdialect, hrandom⟩ : used.activity = .awaitingKey 4 ∧
      used.dialect = fresh.dialect ∧ used.random = fresh.random := by
    decide +kernel
  have hfull : full.length ≤ 3584 := Nat.le_of_eq List.length_replicate
  have hlarge : 3584 < large.length := Nat.lt_of_lt_of_eq (by decide) List.length_replicate.symm
  obtain ⟨-, -, -, hsame, -, -⟩ := boot_forgets fresh full
  obtain ⟨hboot, hlater⟩ := hsame used hdialect hrandom
  obtain ⟨-, -, htoolarge, -, -, hstored⟩ := boot_forgets used large
  exact ⟨hwaiting, ⟨hdialect, hrandom⟩, hfull, hlarge, hboot, htoolarge hlarge,
    (hstored hlarge).2, (hlater _).1⟩

end Session

end Chip8

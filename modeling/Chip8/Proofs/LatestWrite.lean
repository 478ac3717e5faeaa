import Chip8.Proofs.Latest
import Chip8.Proofs.Procedure

/-!
The latest write decides.

A byte that is read from memory is the one that the latest successful write to its address has left
there, however the writes overlap and whichever of them failed.  What does not lie inside memory is
refused: the first address outside is reported, but only of a range that has an end.  The end of a
range is a number of 64 bits, and a read of nearly that many bytes has none.
-/

namespace Chip8

/-- Bytes to be written from an address on. -/
structure Write where
  start : UInt16
  bytes : List UInt8
  deriving DecidableEq, Repr

/-- The byte that a write puts at an address.  A write that does not lie inside memory puts none
anywhere. -/
def Write.byteAt? (write : Write) (address : Nat) : Option UInt8 :=
  if write.start.toNat + write.bytes.length ≤ 4096 ∧ write.start.toNat ≤ address then
    write.bytes[address - write.start.toNat]?
  else none

/-- The byte that a write leaves at an address. -/
theorem Memory.peek_store {m m' : Memory} {write : Write}
    (hstore : m.store write.start write.bytes = .ok m') (address : Nat) :
    m'.peek address = (write.byteAt? address).getD (m.peek address) := by
  have hfits : write.start.toNat + write.bytes.length ≤ 4096 :=
    ((store_eq_ok_iff m m' _ _).1 hstore).1
  rw [peek_of_store hstore, Write.byteAt?]
  by_cases hstart : write.start.toNat ≤ address
  · rw [if_pos hstart, if_pos ⟨hfits, hstart⟩]
  · rw [if_neg hstart, if_neg (fun hinside => hstart hinside.2), Option.getD_none]

namespace Session

variable (s : Session)

/-- Write bytes to memory in place. -/
def attempt (write : Write) : Outcome Session :=
  (Procedure.writeBytes write.start write.bytes).outcome s

/-- Writes one after another, whether or not one fails. -/
def attemptAll (writes : List Write) : Session :=
  writes.foldl (fun session write => (session.attempt write).state) s

/-- The session with other bytes in its memory. -/
def withMemory (memory : Memory) : Session :=
  { s with machine := { s.machine with memory } }

theorem attempt_of_fits {write : Write}
    (hfits : write.start.toNat + write.bytes.length ≤ 4096) :
    ∃ memory, s.attempt write = .done (s.withMemory memory) ∧
      ∀ address, memory.peek address =
        (write.byteAt? address).getD (s.machine.memory.peek address) := by
  have hstore :=
    (Memory.store_eq_ok_iff s.machine.memory _ write.start write.bytes).2 ⟨hfits, rfl⟩
  refine ⟨_, ?_, Memory.peek_store hstore⟩
  rw [attempt, Procedure.outcome, Procedure.run_writeBytes, hstore]
  rfl

theorem attempt_of_not_fits {write : Write}
    (hbeyond : ¬ write.start.toNat + write.bytes.length ≤ 4096) :
    s.attempt write = .stopped s (Memory.refusal write.start write.bytes.length) := by
  have hfits : ¬ Memory.Fits write.start write.bytes.length := hbeyond
  rw [attempt, Procedure.outcome, Procedure.run_writeBytes, Memory.store, if_neg hfits]

/-- Whether it succeeds or not, a write changes nothing but memory, and there only what it says. -/
theorem exists_state_attempt (write : Write) :
    ∃ memory, (s.attempt write).state = s.withMemory memory ∧
      ∀ address, memory.peek address =
        (write.byteAt? address).getD (s.machine.memory.peek address) := by
  by_cases hfits : write.start.toNat + write.bytes.length ≤ 4096
  · obtain ⟨memory, hdone, hpeek⟩ := s.attempt_of_fits hfits
    exact ⟨memory, congrArg Outcome.state hdone, hpeek⟩
  · have hsilent : ∀ address, write.byteAt? address = none := fun _ =>
      if_neg fun hinside => hfits hinside.1
    refine ⟨s.machine.memory, congrArg Outcome.state (s.attempt_of_not_fits hfits), ?_⟩
    intro address
    rw [hsilent, Option.getD_none]

theorem peek_attempt (write : Write) (address : Nat) :
    some ((s.attempt write).state.machine.memory.peek address) =
      (write.byteAt? address).or (some (s.machine.memory.peek address)) := by
  obtain ⟨memory, hstate, hpeek⟩ := s.exists_state_attempt write
  rw [hstate, Option.or_some, ← hpeek]
  rfl

theorem attemptAll_eq (writes : List Write) :
    s.attemptAll writes = s.withMemory (s.attemptAll writes).machine.memory := by
  induction writes generalizing s with
  | nil => rfl
  | cons write rest ih =>
      obtain ⟨memory, hstate, -⟩ := s.exists_state_attempt write
      have hrest := ih (s.withMemory memory)
      rw [attemptAll, List.foldl_cons, hstate]
      exact hrest

/-- A byte of memory is what the latest write to it has left there. -/
theorem peek_attemptAll (writes : List Write) (address : Nat) :
    (s.attemptAll writes).machine.memory.peek address =
      (latest? (Write.byteAt? · address) writes).getD (s.machine.memory.peek address) := by
  have hview := view_foldl (fun session => some (session.machine.memory.peek address))
    (fun session write => session.peek_attempt write address) s writes
  rw [Option.or_some] at hview
  exact Option.some.inj hview

theorem run_readBytes_eq (start : UInt16) (length : Nat) :
    (Procedure.readBytes start length).run s =
      if start.toNat + length ≤ 4096 then
        .ok ((List.range' start.toNat length).map s.machine.memory.peek) s
      else .error (Memory.refusal start length) s := by
  rw [Procedure.run_readBytes, Memory.load]
  by_cases hfits : Memory.Fits start length
  · have hinside : start.toNat + length ≤ 4096 := hfits
    rw [if_pos hfits, if_pos hinside]
  · have hbeyond : ¬ start.toNat + length ≤ 4096 := hfits
    rw [if_neg hfits, if_neg hbeyond]

/-- Bytes can be written and read just where they lie inside memory, which an empty range does also
at its very end.  Elsewhere nothing changes, and the first address outside is reported of a range
whose end is a number of 64 bits; no other range is reported as outside.  After any writes, some of
which may have failed, a byte that is read is the one that the latest successful write to its
address put there, or the one that was there before them, and nothing but memory has changed. -/
theorem reads_latest_write (s : Session) (writes : List Write) :
    let after := s.attemptAll writes
    after = s.withMemory after.machine.memory ∧
    (∀ write : Write,
      if write.start.toNat + write.bytes.length ≤ 4096 then
        ∃ memory, after.attempt write = .done (after.withMemory memory)
      else
        after.attempt write = .stopped after
          (if write.start.toNat + write.bytes.length < UInt64.size then
            .addressOutOfRange (max write.start.toNat 4096)
          else .endOverflow write.start write.bytes.length)) ∧
    ∀ (start : UInt16) (length : Nat),
      (Procedure.readBytes start length).run after =
        if start.toNat + length ≤ 4096 then
          .ok ((List.range' start.toNat length).map fun address =>
            (latest? (Write.byteAt? · address) writes).getD (s.machine.memory.peek address)) after
        else
          .error
            (if start.toNat + length < UInt64.size then .addressOutOfRange (max start.toNat 4096)
            else .endOverflow start length) after := by
  intro after
  refine ⟨s.attemptAll_eq writes, ?_, ?_⟩
  · intro write
    split
    · rename_i hfits
      obtain ⟨memory, hdone, -⟩ := after.attempt_of_fits hfits
      exact ⟨memory, hdone⟩
    · rename_i hbeyond
      exact after.attempt_of_not_fits hbeyond
  · intro start length
    have hpeek : after.machine.memory.peek = fun address =>
        (latest? (Write.byteAt? · address) writes).getD (s.machine.memory.peek address) :=
      funext (s.peek_attemptAll writes)
    rw [run_readBytes_eq, hpeek]
    rfl

/-- The longest read at address `1` has no end.  It leaves memory and is not reported as outside. -/
theorem readBytes_not_outside :
    let length := UInt64.size - 1
    ¬ (1 : UInt16).toNat + length ≤ 4096 ∧
      (Procedure.readBytes 1 length).run plain = .error (.endOverflow 1 length) plain ∧
      ∀ address,
        (Procedure.readBytes 1 length).run plain ≠ .error (.addressOutOfRange address) plain := by
  intro length
  have hbeyond : ¬ (1 : UInt16).toNat + length ≤ 4096 := by decide
  have hread : (Procedure.readBytes 1 length).run plain =
      .error (.endOverflow 1 length) plain := by
    rw [run_readBytes_eq, if_neg hbeyond, Memory.refusal_of_not_lt (by decide)]
  refine ⟨hbeyond, hread, ?_⟩
  intro address hreported
  rw [hread] at hreported
  cases hreported

end Session

/-- The second write overlaps the first, and the third does not lie inside memory. -/
example :
    let writes : List Write := [⟨0xFFD, [1, 2, 3]⟩, ⟨0xFFC, [4, 5]⟩, ⟨0xFFE, [6, 7, 8]⟩]
    [0xFFC, 0xFFD, 0xFFE, 0xFFF].map (fun address => latest? (Write.byteAt? · address) writes) =
      [some 4, some 5, some 2, some 3] := by
  decide

end Chip8

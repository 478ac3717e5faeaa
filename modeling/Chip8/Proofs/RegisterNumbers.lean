import Chip8.Proofs.Footprint
import Chip8.Proofs.KeyWait
import Chip8.Proofs.Transfers

/-!
Register numbers of two digits.

An instruction that is built by hand can name a register by any byte.  Of the number only the last
hexadecimal digit counts, at once and also when a key ends a wait that began with it, so a number
can be replaced by its last digit.  A block transfer takes its number for a count as well.  A
restore that counts beyond `VF` begins again at `V0`, so that of the bytes for one register the last
stays, and a dump that counts beyond `VF` is refused.
-/

namespace Chip8

/-- The test with the last digit of each register number. -/
def Condition.reduced : Condition → Condition
  | equalsByte x byte => equalsByte (x % 16) byte
  | differsByte x byte => differsByte (x % 16) byte
  | equalsRegister x y => equalsRegister (x % 16) (y % 16)
  | differsRegister x y => differsRegister (x % 16) (y % 16)
  | keyDown x => keyDown (x % 16)
  | keyUp x => keyUp (x % 16)

namespace Instruction

/-- The instruction with the last digit of each register number. -/
def reduced : Instruction → Instruction
  | skipIf condition => skipIf condition.reduced
  | setByte x byte => setByte (x % 16) byte
  | addByte x byte => addByte (x % 16) byte
  | alu operation x y => alu operation (x % 16) (y % 16)
  | random x mask => random (x % 16) mask
  | draw x y height => draw (x % 16) (y % 16) height
  | readDelay x => readDelay (x % 16)
  | awaitKey x => awaitKey (x % 16)
  | setDelay x => setDelay (x % 16)
  | setSound x => setSound (x % 16)
  | addIndex x => addIndex (x % 16)
  | glyph x => glyph (x % 16)
  | decimal x => decimal (x % 16)
  | dump x => dump (x % 16)
  | restore x => restore (x % 16)
  | instruction => instruction

/-- The number of the instruction is the last of a row of registers. -/
def isTransfer : Instruction → Bool
  | dump _ => true
  | restore _ => true
  | _ => false

theorem registers_reduced (instruction : Instruction) :
    instruction.reduced.registers = instruction.registers.map (· % 16) := by
  cases instruction with
  | skipIf condition =>
      cases condition with
      | _ => rfl
  | _ => rfl

end Instruction

/-- The activity with the last digit of the register that waits. -/
def Activity.reduced : Activity → Activity
  | running => running
  | awaitingKey register => awaitingKey (register % 16)

theorem Activity.reduced_mod (register : UInt8) :
    (awaitingKey (register % 16)).reduced = (awaitingKey register).reduced := by
  have hmod : register % 16 % 16 = register % 16 := by
    rw [← UInt8.toNat_inj, UInt8.toNat_mod, UInt8.toNat_mod]
    exact Nat.mod_mod _ _
  rw [reduced, reduced, hmod]

/-- The session with the last digit of the register that waits. -/
def Session.reduced (s : Session) : Session :=
  { s with activity := s.activity.reduced }

namespace Registers

theorem combine_mod (r : Registers) (dialect : Dialect) (operation : AluOp) (x y : UInt8) :
    r.combine dialect operation (x % 16) (y % 16) = r.combine dialect operation x y := by
  simp only [combine, get_mod, set_mod]

/-- A value stays in its register if none of those behind it goes there too. -/
theorem get_setAll_append_cons (r : Registers) (start : UInt8) (earlier : List UInt8)
    (value : UInt8) (later : List UInt8) {number : UInt8}
    (hplace : (start.toNat + earlier.length) % 16 = number.toNat % 16)
    (hlast : ∀ i < later.length,
      (start.toNat + (earlier.length + 1) + i) % 16 ≠ number.toNat % 16) :
    (r.setAll start (earlier ++ value :: later)).get number = value := by
  have hnext := toNat_next_mod start
  induction earlier generalizing r start with
  | nil =>
      rw [List.nil_append, setAll, get_setAll_of_not_named]
      · rw [get_set, if_pos]
        exact hplace.symm
      · intro i hi
        have hlater := hlast i hi
        simp only [List.length_nil] at hlater
        omega
  | cons first rest ih =>
      simp only [List.length_cons] at hplace hlast
      rw [List.cons_append, setAll, ih _ _ _ _ (toNat_next_mod _)]
      · omega
      · intro i hi
        have hlater := hlast i hi
        omega

/-- The bytes of a block go to the registers in turn, and of those for one register the last
stays. -/
theorem get_setAll_block (r : Registers) (m : Memory) (start : Nat) {number : UInt8} {last j : Nat}
    (hj : j ≤ last) (hplace : j % 16 = number.toNat % 16)
    (hlast : ∀ i ≤ last, i % 16 = number.toNat % 16 → i ≤ j) :
    (r.setAll 0 ((List.range' start (last + 1)).map m.peek)).get number = m.peek (start + j) := by
  have hlength : last + 1 = j + (last - j + 1) := by omega
  have hsplit : List.range' start (last + 1) =
      List.range' start j ++ (start + j) :: List.range' (start + j + 1) (last - j) := by
    rw [hlength, ← List.range'_append_1, List.range'_succ]
  rw [hsplit, List.map_append, List.map_cons]
  apply get_setAll_append_cons
  · rw [List.length_map, List.length_range', UInt8.toNat_zero, Nat.zero_add]
    exact hplace
  · intro i hi hsame
    simp only [List.length_map, List.length_range', UInt8.toNat_zero, Nat.zero_add] at hi hsame
    have hle := hlast (j + 1 + i) (by omega) hsame
    omega

theorem get_setAll_block_of_lt (r : Registers) (m : Memory) (start : Nat) {number : UInt8}
    {last : Nat} (hnumber : number < 16) (hbehind : last < number.toNat) :
    (r.setAll 0 ((List.range' start (last + 1)).map m.peek)).get number = r.get number := by
  have hbound : number.toNat < 16 := hnumber
  apply get_setAll_of_not_named
  intro i hi
  simp only [List.length_map, List.length_range'] at hi
  rw [UInt8.toNat_zero]
  omega

end Registers

namespace Machine

variable (m : Machine)

theorem holds_reduced (condition : Condition) : condition.reduced.holds m = condition.holds m := by
  cases condition with
  | _ => simp only [Condition.reduced, Condition.holds, Registers.get_mod]

/-- An instruction that is no transfer does the same with reduced numbers. -/
theorem execute_reduced (dialect : Dialect) (randomByte : UInt8) {instruction : Instruction}
    (htransfer : instruction.isTransfer = false) :
    m.execute dialect randomByte instruction.reduced =
      m.execute dialect randomByte instruction := by
  cases instruction with
  | skipIf condition => simp only [Instruction.reduced, execute, holds_reduced]
  | alu operation x y => simp only [Instruction.reduced, execute, Registers.combine_mod]
  | draw x y height =>
      simp only [Instruction.reduced, execute, drawFromIndex, Registers.get_mod]
  | addIndex x => simp only [Instruction.reduced, execute, addToIndex, Registers.get_mod]
  | dump x => cases htransfer
  | restore x => cases htransfer
  | _ => simp only [Instruction.reduced, execute, put, Registers.get_mod, Registers.set_mod]

end Machine

namespace Session

variable {s t : Session} {instruction : Instruction}

/-- Replacing numbers by their last digits changes what the session waits for, and no more. -/
theorem exists_perform_reduced (s : Session) (htransfer : instruction.isTransfer = false) :
    ∃ after fault activity,
      s.perform instruction = ⟨after, fault⟩ ∧
      s.perform instruction.reduced = ⟨{ after with activity }, fault⟩ ∧
      (activity = after.activity ∨ ∃ x, instruction = .awaitKey x ∧
        after.activity = .awaitingKey x ∧ activity = .awaitingKey (x % 16)) := by
  have hbyte : s.randomByteFor instruction.reduced = s.randomByteFor instruction := by
    cases instruction with
    | _ => rfl
  rw [perform_eq, perform_eq, execute, execute, hbyte, Machine.execute_reduced _ _ _ htransfer]
  cases s.machine.execute s.dialect (s.randomByteFor instruction) instruction with
  | error fault => exact ⟨s, some fault, s.activity, rfl, rfl, .inl rfl⟩
  | ok machine =>
      cases instruction with
      | awaitKey x => exact ⟨_, none, _, rfl, rfl, .inr ⟨x, rfl, rfl, rfl⟩⟩
      | _ => exact ⟨_, none, _, rfl, rfl, .inl rfl⟩

/-- Sessions that are the same with last digits are the same, or wait with different numbers of one
register. -/
theorem eq_or_awaiting_of_reduced_eq (hsame : s.reduced = t.reduced) :
    s = t ∨ ∃ register other, t.activity = .awaitingKey register ∧
      s = { t with activity := .awaitingKey other } ∧ other % 16 = register % 16 := by
  obtain ⟨machine, dialect, random, activity, skipped⟩ := s
  obtain ⟨_, _, _, activity', _⟩ := t
  simp only [reduced, Session.mk.injEq] at hsame
  obtain ⟨rfl, rfl, rfl, hactivity, rfl⟩ := hsame
  cases activity with
  | running =>
      cases activity' with
      | running => exact .inl rfl
      | awaitingKey register => cases hactivity
  | awaitingKey other =>
      cases activity' with
      | running => cases hactivity
      | awaitingKey register =>
          exact .inr ⟨register, other, rfl, rfl, Activity.awaitingKey.inj hactivity⟩

theorem account_congr (hsame : s.reduced = t.reduced) (instruction : Instruction) :
    (s.account instruction).reduced = (t.account instruction).reduced := by
  rcases eq_or_awaiting_of_reduced_eq hsame with rfl | ⟨register, other, hwait, rfl, hdigit⟩
  · rfl
  · cases instruction with
    | awaitKey x => rfl
    | _ => simp only [account, reduced, Activity.reduced, hwait, hdigit]

theorem perform_congr (hsame : s.reduced = t.reduced) (instruction : Instruction) :
    (s.perform instruction).fault = (t.perform instruction).fault ∧
      (s.perform instruction).state.reduced = (t.perform instruction).state.reduced := by
  have haccount := account_congr hsame instruction
  rcases eq_or_awaiting_of_reduced_eq hsame with rfl | ⟨register, other, -, rfl, -⟩
  · exact ⟨rfl, rfl⟩
  · have hbyte : { t with activity := .awaitingKey other }.randomByteFor instruction =
        t.randomByteFor instruction := by
      cases instruction with
      | _ => rfl
    rw [perform_eq, perform_eq, execute, execute, hbyte]
    cases t.machine.execute t.dialect (t.randomByteFor instruction) instruction with
    | error fault => exact ⟨rfl, hsame⟩
    | ok machine =>
        exact ⟨rfl, congrArg (fun session : Session => { session with machine }) haccount⟩

theorem performAll_congr (hsame : s.reduced = t.reduced) (instructions : List Instruction) :
    (s.performAll instructions).fault = (t.performAll instructions).fault ∧
      (s.performAll instructions).state.reduced = (t.performAll instructions).state.reduced := by
  induction instructions generalizing s t with
  | nil => exact ⟨rfl, hsame⟩
  | cons instruction rest ih =>
      have hfirst := perform_congr hsame instruction
      rw [performAll_cons, performAll_cons]
      rcases hs : s.perform instruction with ⟨after, fault⟩
      rcases ht : t.perform instruction with ⟨after', fault'⟩
      rw [hs, ht] at hfirst
      obtain ⟨rfl, hafter⟩ := hfirst
      cases fault with
      | none => exact ih hafter
      | some fault => exact ⟨rfl, hafter⟩

theorem step_congr (hsame : s.reduced = t.reduced) :
    s.step.fault = t.step.fault ∧ s.step.state.reduced = t.step.state.reduced := by
  rcases eq_or_awaiting_of_reduced_eq hsame with rfl | ⟨register, other, hwait, rfl, -⟩
  · exact ⟨rfl, rfl⟩
  · have hstep : { t with activity := .awaitingKey other }.step = .done _ := step_of_awaiting rfl
    rw [step_of_awaiting hwait, hstep]
    exact ⟨rfl, hsame⟩

/-- The key that ends a wait goes to the register of the last digit. -/
theorem showKeys_congr (hsame : s.reduced = t.reduced) (keypad : Keypad) :
    (s.showKeys keypad).reduced = (t.showKeys keypad).reduced := by
  rcases eq_or_awaiting_of_reduced_eq hsame with rfl | ⟨register, other, hwait, rfl, hdigit⟩
  · rfl
  · simp only [showKeys, hwait]
    cases t.machine.keypad.firstPressed? keypad with
    | none => simp only [reduced, Activity.reduced, hdigit]
    | some key =>
        have hput : ∀ m : Machine, ∀ value, m.put other value = m.put register value := by
          intro m value
          rw [Machine.put, ← Registers.set_mod, hdigit, Registers.set_mod, Machine.put]
        simp only [reduced, hput]

/-- What a session answers and comes to does not depend on how the register that waits is
written. -/
theorem apply_congr (hsame : s.reduced = t.reduced) (operation : Operation) :
    (s.apply operation).1 = (t.apply operation).1 ∧
      (s.apply operation).2.reduced = (t.apply operation).2.reduced := by
  rcases eq_or_awaiting_of_reduced_eq hsame with rfl | ⟨_, _, -, rfl, -⟩
  · exact ⟨rfl, rfl⟩
  · cases operation with
    | boot program => exact ⟨rfl, rfl⟩
    | restart => exact ⟨rfl, rfl⟩
    | step =>
        obtain ⟨hfault, hstate⟩ := step_congr hsame
        exact ⟨congrArg Reply.ofFault? hfault, hstate⟩
    | perform instruction =>
        obtain ⟨hfault, hstate⟩ := perform_congr hsame instruction
        exact ⟨congrArg Reply.ofFault? hfault, hstate⟩
    | performAll instructions =>
        obtain ⟨hfault, hstate⟩ := performAll_congr hsame instructions
        exact ⟨congrArg Reply.ofFault? hfault, hstate⟩
    | showKeys keypad => exact ⟨rfl, showKeys_congr hsame keypad⟩
    | countDown => exact ⟨rfl, congrArg Session.countDown hsame⟩
    | present => exact ⟨rfl, congrArg (fun session => session.present.2) hsame⟩

theorem run_congr (hsame : s.reduced = t.reduced) (history : List Operation) :
    s.replies history = t.replies history ∧ (s.run history).reduced = (t.run history).reduced := by
  induction history generalizing s t with
  | nil => exact ⟨rfl, hsame⟩
  | cons operation rest ih =>
      obtain ⟨hreply, hnext⟩ := apply_congr hsame operation
      obtain ⟨hreplies, hrun⟩ := ih hnext
      refine ⟨?_, hrun⟩
      rw [replies, replies, hreply, hreplies]

/-- A press that ends a wait puts the key into the register of the last digit. -/
theorem showKeys_of_press {x : UInt8} {keypad : Keypad} {key : Nat}
    (hwait : s.activity = .awaitingKey x)
    (hpress : Keypad.LowestPress s.machine.keypad keypad key) :
    s.showKeys keypad =
      { s with
        machine :=
          { s.machine with
            keypad
            registers := s.machine.registers.set (x % 16) (UInt8.ofNat key) }
        activity := .running } := by
  rw [showKeys_of_lowestPress hwait hpress, Registers.set_mod]

/-- A dump that counts beyond `VF` is refused. -/
theorem perform_dump_of_lt (s : Session) {x : UInt8} (hx : 15 < x) :
    s.perform (.dump x) = .stopped s (.noSuchRegister x) := by
  have hbeyond : ¬ x < 16 := by
    rw [UInt8.lt_iff_toNat_lt] at hx ⊢
    exact Nat.not_lt.2 hx
  rw [perform_eq, execute, Machine.execute, Machine.dump, if_neg hbeyond]
  rfl

/-- What the registers hold after a restore of any count. -/
theorem get_restored (r : Registers) (m : Memory) (start : Nat) (x number : UInt8)
    (hnumber : number < 16) :
    let after := r.setAll 0 ((List.range' start (x.toNat + 1)).map m.peek)
    if number ≤ x then
      ∃ j ≤ x.toNat, j % 16 = number.toNat ∧
        (∀ i ≤ x.toNat, i % 16 = number.toNat → i ≤ j) ∧ after.get number = m.peek (start + j)
    else after.get number = r.get number := by
  intro after
  have hbound : number.toNat < 16 := hnumber
  split
  · rename_i hle
    rw [UInt8.le_iff_toNat_le] at hle
    -- the highest place up to the last one that falls on the register
    let j := x.toNat - (x.toNat - number.toNat) % 16
    have hj : j ≤ x.toNat := Nat.sub_le _ _
    have hplace : j % 16 = number.toNat := by omega
    have hlast : ∀ i ≤ x.toNat, i % 16 = number.toNat → i ≤ j := by
      intro i hi hsame
      omega
    refine ⟨j, hj, hplace, hlast, ?_⟩
    have hdigit : number.toNat % 16 = number.toNat := Nat.mod_eq_of_lt hbound
    exact r.get_setAll_block m start hj (hplace.trans hdigit.symm)
      fun i hi hsame => hlast i hi (hsame.trans hdigit)
  · rename_i hlt
    rw [UInt8.le_iff_toNat_le, Nat.not_le] at hlt
    exact r.get_setAll_block_of_lt m start hnumber hlt

theorem toNat_indexBehind_mod (s : Session) (x : UInt8) :
    (s.indexBehind (x.toNat + 1)).toNat =
      if s.dialect.advancesIndex then (s.machine.index.toNat + (x.toNat + 1)) % 65536
      else s.machine.index.toNat := by
  rw [indexBehind]
  split
  · rw [UInt16.toNat_add, UInt16.toNat_ofNat']
    omega
  · rfl

/-- For every instruction that is no block transfer the numbers of its registers can be replaced by
their last digits.  It ends alike and leaves the same session, but for the number that a wait for a
key is recorded with, and from there on everything is answered alike and comes to the same; the key
that ends the wait goes to the register of the last digit.  A restore that counts beyond `VF` begins
again at `V0`, so that each register has the last of the bytes that fell on it; a register beyond
the count stays as it was, and the index passes the block if the dialect says so.  A dump that
counts beyond `VF` is refused and changes nothing. -/
theorem numbers_by_last_digit (s : Session) :
    (∀ instruction : Instruction, instruction.isTransfer = false →
      instruction.reduced.registers = instruction.registers.map (· % 16) ∧
      ∃ after fault activity,
        s.perform instruction = ⟨after, fault⟩ ∧
        s.perform instruction.reduced = ⟨{ after with activity }, fault⟩ ∧
        (activity = after.activity ∨ ∃ x, instruction = .awaitKey x ∧
          after.activity = .awaitingKey x ∧ activity = .awaitingKey (x % 16)) ∧
        ∀ history,
          { after with activity }.replies history = after.replies history ∧
          ({ after with activity }.run history).reduced = (after.run history).reduced) ∧
    (∀ x keypad key, s.activity = .awaitingKey x →
      Keypad.LowestPress s.machine.keypad keypad key →
      s.showKeys keypad =
        { s with
          machine :=
            { s.machine with
              keypad
              registers := s.machine.registers.set (x % 16) (UInt8.ofNat key) }
          activity := .running }) ∧
    (∀ x : UInt8, s.machine.index.toNat + (x.toNat + 1) ≤ 4096 →
      ∃ registers index,
        s.perform (.restore x) = .done { s with machine := { s.machine with
          registers
          index
          counter := s.machine.counter + 2 } } ∧
        (∀ number < 16,
          if number ≤ x then
            ∃ j ≤ x.toNat, j % 16 = number.toNat ∧
              (∀ i ≤ x.toNat, i % 16 = number.toNat → i ≤ j) ∧
              registers.get number = s.machine.memory.peek (s.machine.index.toNat + j)
          else registers.get number = s.machine.registers.get number) ∧
        index.toNat =
          if s.dialect.advancesIndex then (s.machine.index.toNat + (x.toNat + 1)) % 65536
          else s.machine.index.toNat) ∧
    ∀ x, 15 < x → s.perform (.dump x) = .stopped s (.noSuchRegister x) := by
  refine ⟨?_, ?_, ?_, fun x hx => s.perform_dump_of_lt hx⟩
  · intro instruction htransfer
    obtain ⟨after, fault, activity, hperform, hreduced, hactivity⟩ :=
      s.exists_perform_reduced htransfer
    refine ⟨instruction.registers_reduced, after, fault, activity, hperform, hreduced, hactivity,
      ?_⟩
    have hsame : { after with activity }.reduced = after.reduced := by
      rcases hactivity with rfl | ⟨x, -, hwait, rfl⟩
      · rfl
      · simp only [reduced, hwait, Activity.reduced_mod]
    exact run_congr hsame
  · intro x keypad key hwait hpress
    exact showKeys_of_press hwait hpress
  · intro x hfits
    exact ⟨_, _, s.perform_restore x hfits,
      fun number hnumber => get_restored _ _ _ x number hnumber, s.toNat_indexBehind_mod x⟩

/-- A wait with the number `0x13` that the key 5 ends, a restore of 17 bytes of the font, and a dump
of 17 registers. -/
theorem numbers_by_last_digit_seventeen :
    let waiting := (plain.perform (.awaitKey 0x13)).state
    let restored := (plain.perform (.restore 16)).state.machine
    (Instruction.awaitKey 0x13).isTransfer = false ∧
      (plain.perform (.awaitKey 3)).state.machine = waiting.machine ∧
      waiting.activity = .awaitingKey 0x13 ∧
      Keypad.LowestPress waiting.machine.keypad (.single 5) 5 ∧
      (waiting.showKeys (.single 5)).machine.registers.get 3 = 5 ∧
      plain.machine.index.toNat + ((16 : UInt8).toNat + 1) ≤ 4096 ∧
      restored.registers.get 0 = 0x10 ∧ restored.index.toNat = 17 ∧
      (15 : UInt8) < 16 ∧ plain.perform (.dump 16) = .stopped plain (.noSuchRegister 16) := by
  intro waiting restored
  have htransfer : (Instruction.awaitKey 0x13).isTransfer = false := rfl
  have hwait : waiting.activity = .awaitingKey 0x13 := rfl
  have hpress : Keypad.LowestPress waiting.machine.keypad (.single 5) 5 := by decide
  have hfits : plain.machine.index.toNat + ((16 : UInt8).toNat + 1) ≤ 4096 := by decide
  obtain ⟨-, after, fault, activity, hperform, hreduced, -⟩ :=
    (numbers_by_last_digit plain).1 (.awaitKey 0x13) htransfer
  have hshown := (numbers_by_last_digit waiting).2.1 0x13 (.single 5) 5 hwait hpress
  obtain ⟨-, -, hrestore, hdump⟩ := numbers_by_last_digit plain
  obtain ⟨registers, index, hrestored, hregisters, hindex⟩ := hrestore 16 hfits
  refine ⟨htransfer, ?_, hwait, hpress, ?_, hfits, ?_, ?_, by decide, hdump 16 (by decide)⟩
  · change (plain.perform (Instruction.awaitKey 0x13).reduced).state.machine =
      (plain.perform (.awaitKey 0x13)).state.machine
    rw [hperform, hreduced]
  · rw [hshown]
    rfl
  · obtain ⟨j, hj, hplace, hlast, hbyte⟩ := hregisters 0 (by decide)
    have hsixteen := hlast 16 (by decide) (by decide)
    obtain rfl : j = 16 := Nat.le_antisymm hj hsixteen
    simp only [restored, hrestored]
    rw [Outcome.done, hbyte]
    exact Memory.peek_initial 16
  · simp only [restored, hrestored]
    exact hindex

end Session

end Chip8

import Chip8.Proofs.Faults

/-!
Writing an instruction as a word and reading it back.

A word is the one that its own fields make up, so that what `decode` takes from a word `encode`
puts back, and the other way round.  Only the last digit of the words `5XYN` and `9XYN` is lost.
With the bytes of an instruction at the program counter, a step is that instruction.
-/

namespace Chip8

namespace Word

/-- The word with the last digit zero. -/
def clearLast (w : Word) : Word :=
  16 * (w / 16)

variable {w : Word} {family : UInt8}

theorem ofAddress_nnn (hfamily : w.family = family) : ofAddress family w.nnn = w := by
  subst hfamily
  apply UInt16.toNat_inj.1
  rw [toNat_ofAddress w.family_lt w.nnn_lt, toNat_family, toNat_nnn]
  omega

theorem ofByte_nn (hfamily : w.family = family) : ofByte family w.x w.nn = w := by
  subst hfamily
  apply UInt16.toNat_inj.1
  rw [toNat_ofByte w.family_lt w.x_lt, toNat_family, toNat_x, toNat_nn]
  omega

theorem ofDigits_n (hfamily : w.family = family) : ofDigits family w.x w.y w.n = w := by
  subst hfamily
  apply UInt16.toNat_inj.1
  rw [toNat_ofDigits w.family_lt w.x_lt w.y_lt w.n_lt, ← toNat_eq_digits]

theorem toNat_clearLast (w : Word) : w.clearLast.toNat = 16 * (w.toNat / 16) := by
  have hw := w.toNat_lt
  rw [clearLast, UInt16.toNat_mul, UInt16.toNat_div]
  change 16 * (w.toNat / 16) % 65536 = _
  omega

theorem ofDigits_zero (hfamily : w.family = family) : ofDigits family w.x w.y 0 = w.clearLast := by
  subst hfamily
  apply UInt16.toNat_inj.1
  rw [toNat_ofDigits w.family_lt w.x_lt w.y_lt (by decide), toNat_clearLast, toNat_family, toNat_x,
    toNat_y]
  change 4096 * (w.toNat / 4096) + 256 * (w.toNat / 256 % 16) + 16 * (w.toNat / 16 % 16) + 0 = _
  omega

end Word

namespace Instruction

/-- Reading the word of an instruction gives the instruction. -/
theorem decode_encode {instruction : Instruction} (hencodable : instruction.Encodable) :
    decode instruction.encode = some instruction := by
  obtain ⟨hregisters, hoperands⟩ := hencodable
  cases instruction with
  | routine address =>
      obtain ⟨haddress, hclear, hret⟩ := hoperands
      simp [encode, decode, Word.family_ofAddress, Word.nnn_ofAddress, haddress, decodeRoutine]
  | clear | ret => rfl
  | jump address | call address | setIndex address | jumpOffset address =>
      have haddress : address < 4096 := hoperands
      simp [encode, decode, Word.family_ofAddress, Word.nnn_ofAddress, haddress]
  | setByte x byte | addByte x byte | random x byte =>
      have hx : x < 16 := hregisters x List.mem_cons_self
      simp [encode, decode, Word.fields_ofByte, hx]
  | skipIf condition =>
      cases condition with
      | equalsByte x byte | differsByte x byte =>
          have hx : x < 16 := hregisters x List.mem_cons_self
          simp [encode, decode, Word.fields_ofByte, hx]
      | equalsRegister x y | differsRegister x y =>
          have hx : x < 16 := hregisters x List.mem_cons_self
          have hy : y < 16 := hregisters y (List.mem_cons_of_mem x List.mem_cons_self)
          simp [encode, decode, Word.fields_ofDigits, hx, hy]
      | keyDown x | keyUp x =>
          have hx : x < 16 := hregisters x List.mem_cons_self
          simp [encode, decode, Word.fields_ofByte, hx, decodeKey?]
  | alu operation x y =>
      have hx : x < 16 := hregisters x List.mem_cons_self
      have hy : y < 16 := hregisters y (List.mem_cons_of_mem x List.mem_cons_self)
      simp [encode, decode, Word.fields_ofDigits, hx, hy, operation.code_lt]
  | draw x y height =>
      have hx : x < 16 := hregisters x List.mem_cons_self
      have hy : y < 16 := hregisters y (List.mem_cons_of_mem x List.mem_cons_self)
      have hheight : height < 16 := hoperands
      simp [encode, decode, Word.fields_ofDigits, hx, hy, hheight]
  | readDelay x | awaitKey x | setDelay x | setSound x | addIndex x | glyph x | decimal x
  | dump x | restore x =>
      have hx : x < 16 := hregisters x List.mem_cons_self
      simp [encode, decode, Word.fields_ofByte, hx, decodeMisc?]

/-- Writing the instruction of a word gives the word, but for the last digit where that carries no
meaning. -/
theorem encode_of_decode {w : Word} {instruction : Instruction}
    (hdecode : decode w = some instruction) :
    instruction.encode = if w.family = 0x5 ∨ w.family = 0x9 then w.clearLast else w := by
  rw [decode] at hdecode
  split at hdecode
  case h_1 hfamily =>
    cases hdecode
    have hword : Word.ofAddress 0x0 w.nnn = w := Word.ofAddress_nnn hfamily
    unfold decodeRoutine
    split
    case h_3 => simp [encode, hfamily, hword]
    all_goals
      rename_i haddress
      rw [haddress] at hword
      subst hword
      rfl
  case h_6 hfamily | h_10 hfamily =>
    cases hdecode
    simp [encode, hfamily, Word.ofDigits_zero]
  case h_9 hfamily =>
    obtain ⟨operation, hcode, rfl⟩ := Option.map_eq_some_iff.1 hdecode
    simp [encode, hfamily, AluOp.code_of_ofCode? hcode, Word.ofDigits_n]
  case h_15 hfamily =>
    unfold decodeKey? at hdecode
    split at hdecode
    case h_3 => cases hdecode
    all_goals
      rename_i hbyte
      cases hdecode
      simp [encode, hfamily, ← hbyte, Word.ofByte_nn]
  case h_16 =>
    have hfamily : w.family = 0xF := w.family_eq_last (by simp_all)
    unfold decodeMisc? at hdecode
    split at hdecode
    case h_10 => cases hdecode
    all_goals
      rename_i hbyte
      cases hdecode
      simp [encode, hfamily, ← hbyte, Word.ofByte_nn]
  all_goals
    rename_i hfamily
    cases hdecode
    simp [encode, hfamily, Word.ofAddress_nnn, Word.ofByte_nn, Word.ofDigits_n]

end Instruction

namespace Machine

/-- The bytes of an instruction at the program counter are fetched as that instruction. -/
theorem nextInstruction_of_encode {m : Machine} {instruction : Instruction}
    (hencodable : instruction.Encodable) (hcounter : m.counter ≤ 0xFFE)
    (hhigh : m.memory.peek m.counter.toNat = instruction.encode.high)
    (hlow : m.memory.peek (m.counter.toNat + 1) = instruction.encode.low) :
    m.nextInstruction = .ok instruction := by
  have hinside : ¬ 0xFFE < m.counter.toNat := Nat.not_lt.2 hcounter
  have hfetch : m.fetch = .ok instruction.encode := by
    rw [fetch_eq, if_neg hinside, hhigh, hlow, Word.ofBytes_high_low]
  rw [nextInstruction, hfetch]
  simp only [Instruction.decode_encode hencodable]

end Machine

namespace Session

/-- A step on the word of an instruction is that instruction, and a word that is read as an
instruction is the word of that instruction, but for the last digit where it carries no meaning. -/
theorem step_eq_perform_of_encode :
    (∀ (instruction : Instruction) (s : Session), instruction.Encodable → s.activity = .running →
      s.machine.counter ≤ 0xFFE →
      s.machine.memory.peek s.machine.counter.toNat = instruction.encode.high →
      s.machine.memory.peek (s.machine.counter.toNat + 1) = instruction.encode.low →
      s.step = s.perform instruction) ∧
    ∀ (w : Word) (instruction : Instruction), Instruction.decode w = some instruction →
      instruction.Encodable ∧
        instruction.encode = if w.family = 0x5 ∨ w.family = 0x9 then w.clearLast else w := by
  constructor
  · intro instruction s hencodable hactivity hcounter hhigh hlow
    rw [step_of_running hactivity,
      Machine.nextInstruction_of_encode hencodable hcounter hhigh hlow]
  · intro w instruction hdecode
    exact ⟨Instruction.encodable_of_decode hdecode, Instruction.encode_of_decode hdecode⟩

theorem step_eq_perform_of_encode_last_word :
    let sprite := Instruction.draw 0xA 0xB 0xC
    let start : Session :=
      { plain with
        machine :=
          { Machine.initial with
            memory := (Memory.zero.poke 0xFFE 0xDA).poke 0xFFF 0xBC
            counter := 0xFFE } }
    sprite.Encodable ∧ start.activity = .running ∧ start.step = start.perform sprite ∧
      Instruction.decode 0x5AB7 = some (.skipIf (.equalsRegister 0xA 0xB)) ∧
      (Instruction.skipIf (.equalsRegister 0xA 0xB)).encode = (0x5AB7 : Word).clearLast := by
  intro sprite start
  have hencodable : sprite.Encodable := by decide
  have hhigh : start.machine.memory.peek 0xFFE = sprite.encode.high := by
    show ((Memory.zero.poke 0xFFE 0xDA).poke 0xFFF 0xBC).peek 0xFFE = _
    rw [Memory.peek_poke _ _ _ _ (by decide), Memory.peek_poke _ _ _ _ (by decide)]
    decide
  have hlow : start.machine.memory.peek 0xFFF = sprite.encode.low := by
    show ((Memory.zero.poke 0xFFE 0xDA).poke 0xFFF 0xBC).peek 0xFFF = _
    rw [Memory.peek_poke _ _ _ _ (by decide)]
    decide
  obtain ⟨hstep, hword⟩ := step_eq_perform_of_encode
  have hdecode : Instruction.decode 0x5AB7 = some (.skipIf (.equalsRegister 0xA 0xB)) := rfl
  exact ⟨hencodable, rfl, hstep sprite start hencodable rfl (by decide) hhigh hlow, hdecode,
    (hword 0x5AB7 _ hdecode).2⟩

end Session

end Chip8

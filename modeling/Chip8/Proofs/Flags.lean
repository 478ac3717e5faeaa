import Chip8.Proofs.Procedure

/-!
Results and flags.

An instruction that sets `VF` takes its operands out of the registers before it writes to any of
them.  The result, cut to a byte, goes to `VX`, and then the flag to `VF`.  So the flag always says
what happened to the operands as they were, whichever of the two is in `VF`, and it is what `VF`
holds at the end even where the result was meant to go there.
-/

namespace Chip8

/-- What registers hold after a number and a flag were put into them: `VF` holds the flag, `VX`,
unless it is `VF`, the number cut to a byte, and all the others hold what they held before. -/
structure Registers.Flagged (before : Registers) (x : UInt8) (number : Int) (raised : Prop)
    [Decidable raised] (after : Registers) : Prop where
  flag : (after.get Registers.flag).toNat = if raised then 1 else 0
  result : x.toNat % 16 ≠ 15 → ((after.get x).toNat : Int) = number % 256
  others : ∀ other : UInt8, other.toNat % 16 ≠ x.toNat % 16 → other.toNat % 16 ≠ 15 →
    after.get other = before.get other

/-- An instruction goes on to the next one with a number in `VX` and a flag in `VF`, and changes
nothing else. -/
def Session.Computes (s : Session) (instruction : Instruction) (x : UInt8) (number : Int)
    (raised : Prop) [Decidable raised] : Prop :=
  ∃ registers, s.machine.registers.Flagged x number raised registers ∧
    s.perform instruction = .done { s with machine := { s.machine with
      registers
      counter := s.machine.counter + 2 } }

namespace AluOp

variable (dialect : Dialect) (vx vy : UInt8)

theorem toNat_result_add :
    ((add.result dialect vx vy).toNat : Int) = ((vx.toNat : Int) + vy.toNat) % 256 := by
  rw [result, UInt8.toNat_add]
  omega

theorem toNat_result_sub :
    ((sub.result dialect vx vy).toNat : Int) = ((vx.toNat : Int) - vy.toNat) % 256 := by
  have hvy := vy.toNat_lt
  rw [result, UInt8.toNat_sub]
  omega

theorem toNat_result_subFrom :
    ((subFrom.result dialect vx vy).toNat : Int) = ((vy.toNat : Int) - vx.toNat) % 256 :=
  toNat_result_sub dialect vy vx

theorem toNat_shifted :
    (shifted dialect vx vy).toNat = if dialect.shiftsY then vy.toNat else vx.toNat := by
  rw [shifted, apply_ite UInt8.toNat]

theorem toNat_result_shiftRight :
    ((shiftRight.result dialect vx vy).toNat : Int) =
      ((shifted dialect vx vy).toNat / 2 : Nat) % 256 := by
  have hbound := (shifted dialect vx vy).toNat_lt
  rw [result, UInt8.toNat_div]
  change (((shifted dialect vx vy).toNat / 2 : Nat) : Int) = _
  omega

theorem toNat_result_shiftLeft :
    ((shiftLeft.result dialect vx vy).toNat : Int) =
      (2 * (shifted dialect vx vy).toNat : Nat) % 256 := by
  rw [result, UInt8.toNat_mul]
  change ((2 * (shifted dialect vx vy).toNat % 256 : Nat) : Int) = _
  omega

theorem lowest_testBit (byte : UInt8) : byte % 2 = 1 ↔ byte.toNat.testBit 0 = true := by
  rw [← UInt8.toNat_inj, UInt8.toNat_mod, Nat.testBit_zero, decide_eq_true_eq]
  rfl

theorem highest_testBit (byte : UInt8) : 128 ≤ byte ↔ byte.toNat.testBit 7 = true := by
  have hbound := byte.toNat_lt
  rw [UInt8.le_iff_toNat_le, Nat.testBit_eq_decide_div_mod_eq, decide_eq_true_eq]
  change 128 ≤ byte.toNat ↔ byte.toNat / 128 % 2 = 1
  omega

end AluOp

namespace Registers

@[simp] theorem toNat_get_setFlag (r : Registers) (raised : Prop) [Decidable raised] :
    ((r.setFlag (decide raised)).get flag).toNat = if raised then 1 else 0 := by
  rw [setFlag, get_set_self]
  split
  · rename_i hraised
    rw [decide_eq_true hraised]
    rfl
  · rename_i hraised
    rw [decide_eq_false hraised]
    rfl

/-- The flag is written after the result. -/
theorem flagged_setFlag (r : Registers) (x value : UInt8) {number : Int} (raised : Prop)
    [Decidable raised] (hvalue : (value.toNat : Int) = number % 256) :
    r.Flagged x number raised ((r.set x value).setFlag (decide raised)) where
  flag := toNat_get_setFlag _ raised
  result hx := by
    rw [setFlag, get_set_of_ne _ _ hx, get_set_self, hvalue]
  others other hx hflag := by
    rw [setFlag, get_set_of_ne _ _ hflag, get_set_of_ne _ _ hx]

end Registers

namespace Machine

variable (m : Machine) (x : UInt8)

theorem toNat_index_addToIndex (dialect : Dialect) :
    (m.addToIndex dialect x).index.toNat =
      (m.index.toNat + (m.registers.get x).toNat) % 65536 := by
  rw [addToIndex, UInt16.toNat_add, UInt8.toNat_toUInt16]

variable {dialect : Dialect}

theorem toNat_flag_addToIndex (hflags : dialect.flagsIndex = true) :
    ((m.addToIndex dialect x).registers.get Registers.flag).toNat =
      if 0xFFF < m.index.toNat + (m.registers.get x).toNat then 1 else 0 := by
  simp only [addToIndex, hflags, if_pos, UInt8.toNat_toUInt16, Registers.toNat_get_setFlag]

theorem registers_addToIndex (hflags : dialect.flagsIndex = false) :
    (m.addToIndex dialect x).registers = m.registers := by
  rw [addToIndex, hflags]
  rfl

theorem get_addToIndex (dialect : Dialect) {other : UInt8} (hother : other.toNat % 16 ≠ 15) :
    (m.addToIndex dialect x).registers.get other = m.registers.get other := by
  cases hflags : dialect.flagsIndex with
  | true =>
      rw [addToIndex, hflags]
      exact Registers.get_set_of_ne _ _ hother
  | false => rw [registers_addToIndex m x hflags]

end Machine

namespace Session

variable (s : Session) (x y : UInt8)

theorem perform_alu (operation : AluOp) :
    s.perform (.alu operation x y) = .done { s with machine := { s.machine with
      registers := s.machine.registers.combine s.dialect operation x y
      counter := s.machine.counter + 2 } } := by
  rw [perform_eq]
  rfl

/-- An operation computes what its result and its flag say of the operands. -/
theorem computes_alu {operation : AluOp} {number : Int} {raised : Prop} [Decidable raised]
    (hflag : operation.flag? s.dialect (s.machine.registers.get x) (s.machine.registers.get y) =
      some (decide raised))
    (hresult : ((operation.result s.dialect (s.machine.registers.get x)
      (s.machine.registers.get y)).toNat : Int) = number % 256) :
    s.Computes (.alu operation x y) x number raised := by
  refine ⟨_, s.machine.registers.flagged_setFlag x _ raised hresult, ?_⟩
  rw [perform_alu]
  simp only [Registers.combine, hflag]

theorem perform_addIndex :
    s.perform (.addIndex x) =
      .done { s with machine := (s.machine.addToIndex s.dialect x).advance } := by
  rw [perform_eq]
  rfl

/-- Every operation that sets the flag takes both its operands as they were before it, also where
they are in one register or in `VF`: the result, taken modulo 256, ends in `VX`, the flag in `VF`,
where it stays even if `VX` is `VF`, and no other register changes.  Adding to the index takes the
sum modulo 65536 and changes no register but `VF`, and this only in a dialect that asks for the
flag. -/
theorem flags_from_operands (s : Session) (x y : UInt8) :
    let m := s.machine
    let vx := (m.registers.get x).toNat
    let vy := (m.registers.get y).toNat
    let source := if s.dialect.shiftsY then vy else vx
    s.Computes (.alu .add x y) x (vx + vy) (255 < vx + vy) ∧
    s.Computes (.alu .sub x y) x (vx - vy) (vy ≤ vx) ∧
    s.Computes (.alu .subFrom x y) x (vy - vx) (vx ≤ vy) ∧
    s.Computes (.alu .shiftRight x y) x (source / 2 : Nat) (source.testBit 0 = true) ∧
    s.Computes (.alu .shiftLeft x y) x (2 * source : Nat) (source.testBit 7 = true) ∧
    ∃ index registers,
      s.perform (.addIndex x) = .done { s with machine := { m with
        index
        registers
        counter := m.counter + 2 } } ∧
      index.toNat = (m.index.toNat + vx) % 65536 ∧
      (s.dialect.flagsIndex = true → (registers.get Registers.flag).toNat =
        if 0xFFF < m.index.toNat + vx then 1 else 0) ∧
      (s.dialect.flagsIndex = false → registers = m.registers) ∧
      ∀ other : UInt8, other.toNat % 16 ≠ 15 →
        registers.get other = m.registers.get other := by
  intro m vx vy source
  have hsource : (AluOp.shifted s.dialect (m.registers.get x) (m.registers.get y)).toNat =
      source := AluOp.toNat_shifted _ _ _
  refine ⟨?_, ?_, ?_, ?_, ?_, ?_⟩
  · exact computes_alu s x y rfl (AluOp.toNat_result_add _ _ _)
  · exact computes_alu s x y rfl (AluOp.toNat_result_sub _ _ _)
  · exact computes_alu s x y rfl (AluOp.toNat_result_subFrom _ _ _)
  · rw [← hsource]
    refine computes_alu s x y ?_ (AluOp.toNat_result_shiftRight _ _ _)
    exact congrArg some (decide_eq_decide.2 (AluOp.lowest_testBit _))
  · rw [← hsource]
    refine computes_alu s x y ?_ (AluOp.toNat_result_shiftLeft _ _ _)
    exact congrArg some (decide_eq_decide.2 (AluOp.highest_testBit _))
  · refine ⟨_, _, s.perform_addIndex x, ?_, ?_, ?_, ?_⟩
    · exact m.toNat_index_addToIndex x s.dialect
    · intro hflags
      exact m.toNat_flag_addToIndex x hflags
    · intro hflags
      exact m.registers_addToIndex x hflags
    · intro other hother
      exact m.get_addToIndex x s.dialect hother

/-- A sum and a shift in the flag register itself, a difference from the flag register, and a sum
beyond the range of the index. -/
theorem flags_from_operands_aliased :
    let flag := Registers.flag
    let m : Machine := { Machine.initial with
      registers := (Registers.zero.set flag 200).set 1 7
      index := 0xFFFF }
    let s : Session := { plain with
      machine := m
      dialect := { Dialect.standard with flagsIndex := true } }
    let after (instruction : Instruction) := (s.perform instruction).state.machine
    ((after (.alu .add flag flag)).registers.get flag).toNat = 1 ∧
      ((after (.alu .shiftLeft flag 1)).registers.get flag).toNat = 0 ∧
      ((after (.alu .sub 1 flag)).registers.get 1).toNat = 63 ∧
      ((after (.alu .sub 1 flag)).registers.get flag).toNat = 0 ∧
      s.dialect.flagsIndex = true ∧ (after (.addIndex flag)).index.toNat = 199 ∧
      ((after (.addIndex flag)).registers.get flag).toNat = 1 := by
  intro flag m s after
  obtain ⟨⟨_, hsum, hadd⟩, -, -, -, -, _, _, haddIndex, hindex, hraised, -, -⟩ :=
    flags_from_operands s flag flag
  obtain ⟨-, -, -, -, ⟨_, hshifted, hshift⟩, -⟩ := flags_from_operands s flag 1
  obtain ⟨-, ⟨_, hdifference, hsub⟩, -⟩ := flags_from_operands s 1 flag
  have hdialect : s.dialect.flagsIndex = true := rfl
  refine ⟨?_, ?_, ?_, ?_, hdialect, ?_, ?_⟩
  · simp only [after, hadd]
    exact hsum.flag.trans (by decide)
  · simp only [after, hshift]
    exact hshifted.flag.trans (by decide)
  · simp only [after, hsub]
    exact Int.ofNat.inj ((hdifference.result (by decide)).trans (by decide))
  · simp only [after, hsub]
    exact hdifference.flag.trans (by decide)
  · simp only [after, haddIndex]
    exact hindex.trans (by decide)
  · simp only [after, haddIndex]
    exact (hraised hdialect).trans (by decide)

end Session

end Chip8

import Chip8.Instruction.Coding

/-!
Which words hold an instruction, and which operands an instruction read from a word has.
-/

namespace Chip8

/-- The word is no instruction. -/
def Word.Unknown (w : Word) : Prop :=
  w.family = 0x8 ∧ w.n ∈ [0x8, 0x9, 0xA, 0xB, 0xC, 0xD, 0xF] ∨
    w.family = 0xE ∧ w.nn ∉ [0x9E, 0xA1] ∨
    w.family = 0xF ∧ w.nn ∉ [0x07, 0x0A, 0x15, 0x18, 0x1E, 0x29, 0x33, 0x55, 0x65]

instance (w : Word) : Decidable w.Unknown :=
  inferInstanceAs (Decidable (_ ∨ _ ∨ _))

namespace Word

theorem family_lt (w : Word) : w.family < 16 := by
  have hw := w.toNat_lt
  change w.family.toNat < 16
  rw [toNat_family]
  omega

theorem x_lt (w : Word) : w.x < 16 := by
  change w.x.toNat < 16
  rw [toNat_x]
  omega

theorem y_lt (w : Word) : w.y < 16 := by
  change w.y.toNat < 16
  rw [toNat_y]
  omega

theorem n_lt (w : Word) : w.n < 16 := by
  change w.n.toNat < 16
  rw [toNat_n]
  omega

theorem nnn_lt (w : Word) : w.nnn < 4096 := by
  change w.nnn.toNat < 4096
  rw [toNat_nnn]
  omega

/-- The last digit is left when no other is the family. -/
theorem family_eq_last (w : Word)
    (hothers : w.family ∉
      [0x0, 0x1, 0x2, 0x3, 0x4, 0x5, 0x6, 0x7, 0x8, 0x9, 0xA, 0xB, 0xC, 0xD, 0xE]) :
    w.family = 0xF := by
  have hdigits : ∀ d : Fin 16, UInt8.ofNat d ∉
      [0x0, 0x1, 0x2, 0x3, 0x4, 0x5, 0x6, 0x7, 0x8, 0x9, 0xA, 0xB, 0xC, 0xD, 0xE] →
      UInt8.ofNat d = 0xF := by
    decide
  have hd := hdigits ⟨w.family.toNat, w.family_lt⟩
  rw [UInt8.ofNat_toNat] at hd
  exact hd hothers

/-- The family and the address make up the word. -/
theorem eq_of_family_of_nnn {v w : Word} (hfamily : v.family = w.family) (hnnn : v.nnn = w.nnn) :
    v = w := by
  apply UInt16.toNat_inj.1
  have hhigh := congrArg UInt8.toNat hfamily
  have hlow := congrArg UInt16.toNat hnnn
  rw [toNat_family, toNat_family] at hhigh
  rw [toNat_nnn, toNat_nnn] at hlow
  omega

theorem eq_return_iff (w : Word) : w = 0x00EE ↔ w.family = 0x0 ∧ w.nnn = 0x0EE := by
  constructor
  · intro hw
    subst hw
    exact ⟨rfl, rfl⟩
  · rintro ⟨hfamily, hnnn⟩
    exact eq_of_family_of_nnn hfamily hnnn

end Word

theorem AluOp.ofCode?_eq_none_iff {digit : UInt8} (hdigit : digit < 16) :
    ofCode? digit = none ↔ digit ∈ [0x8, 0x9, 0xA, 0xB, 0xC, 0xD, 0xF] := by
  have hdigits : ∀ d : Fin 16, ofCode? (UInt8.ofNat d) = none ↔
      UInt8.ofNat d ∈ [0x8, 0x9, 0xA, 0xB, 0xC, 0xD, 0xF] := by
    decide
  have hd := hdigits ⟨digit.toNat, hdigit⟩
  rwa [UInt8.ofNat_toNat] at hd

namespace Instruction

theorem decodeKey?_eq_none_iff (x byte : UInt8) :
    decodeKey? x byte = none ↔ byte ∉ [0x9E, 0xA1] := by
  unfold decodeKey?
  split
  · simp
  · simp
  · rename_i hdown hup
    simp only [List.mem_cons, List.not_mem_nil, or_false, not_or, true_iff]
    exact ⟨hdown, hup⟩

theorem decodeMisc?_eq_none_iff (x byte : UInt8) :
    decodeMisc? x byte = none ↔
      byte ∉ [0x07, 0x0A, 0x15, 0x18, 0x1E, 0x29, 0x33, 0x55, 0x65] := by
  unfold decodeMisc?
  split
  case h_10 =>
    simp only [List.mem_cons, List.not_mem_nil, or_false, not_or, true_iff]
    refine ⟨?_, ?_, ?_, ?_, ?_, ?_, ?_, ?_, ?_⟩
    all_goals assumption
  all_goals simp

/-- The families that always hold an instruction take up all but the last case of `decode`. -/
theorem decode_eq_none_iff (w : Word) : decode w = none ↔ w.Unknown := by
  rw [decode]
  split
  case h_9 hfamily =>
    simp [Word.Unknown, hfamily, AluOp.ofCode?_eq_none_iff w.n_lt]
  case h_15 hfamily =>
    simp only [Word.Unknown, hfamily]
    rw [decodeKey?_eq_none_iff]
    simp
  case h_16 =>
    have hfamily : w.family = 0xF := w.family_eq_last (by simp_all)
    simp only [Word.Unknown, hfamily]
    rw [decodeMisc?_eq_none_iff]
    simp
  all_goals
    rename_i hfamily
    simp [Word.Unknown, hfamily]

/-- The operands of an instruction read from a word are digits of that word. -/
theorem encodable_of_decode {w : Word} {instruction : Instruction}
    (hdecode : decode w = some instruction) : instruction.Encodable := by
  have hx := w.x_lt
  have hy := w.y_lt
  have hnnn := w.nnn_lt
  rw [decode] at hdecode
  split at hdecode
  case h_1 =>
    cases hdecode
    unfold decodeRoutine
    split
    case h_3 hclear hret =>
      simp only [Encodable, registers, List.not_mem_nil, false_implies, implies_true, true_and]
      exact ⟨hnnn, hclear, hret⟩
    all_goals simp [Encodable, registers]
  case h_9 =>
    obtain ⟨operation, -, rfl⟩ := Option.map_eq_some_iff.1 hdecode
    simp [Encodable, registers, hx, hy]
  case h_14 =>
    cases hdecode
    simp [Encodable, registers, hx, hy, w.n_lt]
  case h_15 =>
    unfold decodeKey? at hdecode
    split at hdecode
    case h_3 => cases hdecode
    all_goals
      cases hdecode
      simp [Encodable, registers, hx]
  case h_16 =>
    unfold decodeMisc? at hdecode
    split at hdecode
    case h_10 => cases hdecode
    all_goals
      cases hdecode
      simp [Encodable, registers, hx]
  all_goals
    cases hdecode
    simp [Encodable, registers, hx, hy, hnnn]

end Instruction

end Chip8

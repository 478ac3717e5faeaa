import Chip8.Fault
import Chip8.Word

/-!
The address space: 4096 bytes, read and written in ranges that must lie inside it.

The view of a memory is `peek`, one byte per address.  A range operation succeeds exactly when the
range `Fits`; `peek_of_store` says which bytes a successful write changes, and `load_eq_ok_iff`
which bytes a successful read returns.  The end of a range is a number of 64 bits, and a range that
has no such end stops the program instead of being reported as outside.
-/

namespace Chip8

/-- The bytes at the addresses `0` to `0xFFF`. -/
@[ext]
structure Memory where
  cells : Vector UInt8 4096
  deriving DecidableEq, Repr

namespace Memory

def size : Nat := 4096

def programStart : UInt16 := 0x200

def programLimit : Nat := size - programStart.toNat

def zero : Memory :=
  ⟨Vector.replicate 4096 0⟩

/-- The byte at an address; zero beyond the last one. -/
def peek (m : Memory) (address : Nat) : UInt8 :=
  (m.cells[address]?).getD 0

/-- Put a byte at an address; beyond the last one there is nothing to change. -/
def poke (m : Memory) (address : Nat) (byte : UInt8) : Memory :=
  ⟨m.cells.setIfInBounds address byte⟩

def pokeAll (m : Memory) (start : Nat) : List UInt8 → Memory
  | [] => m
  | byte :: rest => (m.poke start byte).pokeAll (start + 1) rest

/-- A range lies inside the address space.  An empty one may sit at its very end. -/
def Fits (start : UInt16) (length : Nat) : Prop :=
  start.toNat + length ≤ size

instance (start : UInt16) (length : Nat) : Decidable (Fits start length) :=
  inferInstanceAs (Decidable (_ ≤ _))

/-- The limit of the ends of ranges. -/
def endLimit : Nat := UInt64.size

/-- The first address outside of a range that does not fit. -/
def outside (start : UInt16) : Fault :=
  .addressOutOfRange (max start.toNat size)

/-- The fault of a range that does not fit.  It is outside, if it has an end at all. -/
def refusal (start : UInt16) (length : Nat) : Fault :=
  if start.toNat + length < endLimit then outside start else .endOverflow start length

def load (m : Memory) (start : UInt16) (length : Nat) : Except Fault (List UInt8) :=
  if Fits start length then
    .ok ((List.range' start.toNat length).map m.peek)
  else
    .error (refusal start length)

/-- Write bytes at consecutive addresses, all of them or none. -/
def store (m : Memory) (start : UInt16) (bytes : List UInt8) : Except Fault Memory :=
  if Fits start bytes.length then
    .ok (m.pokeAll start.toNat bytes)
  else
    .error (refusal start bytes.length)

/-- Read a word, its high byte first. -/
def loadWord (m : Memory) (start : UInt16) : Except Fault Word :=
  if Fits start 2 then
    .ok (Word.ofBytes (m.peek start.toNat) (m.peek (start.toNat + 1)))
  else
    .error (outside start)

def storeProgram (m : Memory) (program : List UInt8) : Except Fault Memory :=
  if program.length ≤ programLimit then
    m.store programStart program
  else
    .error (.programTooLarge program.length programLimit)

theorem peek_zero (address : Nat) : zero.peek address = 0 := by
  simp only [peek, zero, Vector.getElem?_replicate]
  split <;> rfl

theorem peek_of_size_le (m : Memory) {address : Nat} (h : size ≤ address) :
    m.peek address = 0 := by
  simp only [size] at h
  simp [peek, h]

theorem peek_poke (m : Memory) (address other : Nat) (byte : UInt8) (h : address < size) :
    (m.poke address byte).peek other = if other = address then byte else m.peek other := by
  simp only [size] at h
  simp only [peek, poke, Vector.getElem?_setIfInBounds]
  by_cases heq : address = other
  · subst heq
    simp [h]
  · simp [heq, Ne.symm heq]

theorem ext_peek {m m' : Memory}
    (h : ∀ address, address < size → m.peek address = m'.peek address) : m = m' := by
  apply Memory.ext
  apply Vector.ext
  intro i hi
  have := h i hi
  simpa [peek, hi] using this

theorem peek_pokeAll (m : Memory) (start : Nat) (bytes : List UInt8) (other : Nat)
    (h : start + bytes.length ≤ size) :
    (m.pokeAll start bytes).peek other =
      if start ≤ other then (bytes[other - start]?).getD (m.peek other) else m.peek other := by
  induction bytes generalizing m start with
  | nil => simp [pokeAll]
  | cons byte rest ih =>
      simp only [List.length_cons] at h
      rw [pokeAll, ih _ _ (by omega), peek_poke _ _ _ _ (by omega)]
      by_cases hlater : start + 1 ≤ other
      · have hindex : other - start = (other - (start + 1)) + 1 := by omega
        have hne : other ≠ start := by omega
        have hle : start ≤ other := by omega
        simp [hlater, hle, hne, hindex]
      · rw [if_neg hlater]
        by_cases heq : other = start
        · subst heq
          simp
        · have hlt : ¬ start ≤ other := by omega
          simp [heq, hlt]

theorem refusal_of_lt {start : UInt16} {length : Nat} (hend : start.toNat + length < endLimit) :
    refusal start length = outside start :=
  if_pos hend

theorem refusal_of_not_lt {start : UInt16} {length : Nat}
    (hend : ¬ start.toNat + length < endLimit) :
    refusal start length = .endOverflow start length :=
  if_neg hend

/-- A range of no more than 256 bytes has an end. -/
theorem refusal_of_le (start : UInt16) {length : Nat} (hlength : length ≤ 256) :
    refusal start length = outside start := by
  have hstart := start.toNat_lt
  apply refusal_of_lt
  rw [endLimit, UInt64.size]
  omega

theorem load_eq_ok_iff (m : Memory) (start : UInt16) (length : Nat) (bytes : List UInt8) :
    m.load start length = .ok bytes ↔
      Fits start length ∧ bytes = (List.range' start.toNat length).map m.peek := by
  unfold load
  split <;> simp_all [eq_comm]

/-- Reading a word is reading two bytes. -/
theorem loadWord_eq (m : Memory) (start : UInt16) :
    m.loadWord start =
      (m.load start 2).map fun bytes => Word.ofBytes (bytes.getD 0 0) (bytes.getD 1 0) := by
  rw [loadWord, load, refusal_of_le start (by decide)]
  split
  · rfl
  · rfl

theorem store_eq_ok_iff (m m' : Memory) (start : UInt16) (bytes : List UInt8) :
    m.store start bytes = .ok m' ↔
      Fits start bytes.length ∧ m' = m.pokeAll start.toNat bytes := by
  rw [store]
  split <;> simp_all [eq_comm]

/-- A write that succeeds puts each byte at its address and leaves all other addresses alone. -/
theorem peek_of_store {m m' : Memory} {start : UInt16} {bytes : List UInt8}
    (h : m.store start bytes = .ok m') (other : Nat) :
    m'.peek other =
      if start.toNat ≤ other then (bytes[other - start.toNat]?).getD (m.peek other)
      else m.peek other := by
  obtain ⟨hfits, rfl⟩ := (store_eq_ok_iff m m' start bytes).1 h
  exact peek_pokeAll m start.toNat bytes other hfits

end Memory

end Chip8

import Mathlib.Algebra.Ring.Nat
import Mathlib.Data.List.Forall2
import Chip8.Proofs.Reachable

/-!
Registers that are put away in memory and fetched back.

A dump writes the first registers to memory from the index on, and a restore reads them from there.
Dumps that move the index on lay their blocks end to end, so restores of the same sizes, begun at
the same address, take them up one by one, whatever the registers held in the meantime.
-/

namespace Chip8

namespace Memory

/-- Memory has the bytes of a list from an address on. -/
def Holds (m : Memory) (start : Nat) (bytes : List UInt8) : Prop :=
  (List.range' start bytes.length).map m.peek = bytes

variable (m : Memory) (start : Nat)

theorem holds_append {m : Memory} {start : Nat} {first second : List UInt8} :
    m.Holds start (first ++ second) ↔
      m.Holds start first ∧ m.Holds (start + first.length) second := by
  rw [Holds, List.length_append, ← List.range'_append_1, List.map_append]
  constructor
  · intro hholds
    exact List.append_inj hholds (by rw [List.length_map, List.length_range'])
  · rintro ⟨hfirst, hsecond⟩
    rw [hfirst, hsecond]

theorem pokeAll_append (first second : List UInt8) :
    m.pokeAll start (first ++ second) =
      (m.pokeAll start first).pokeAll (start + first.length) second := by
  induction first generalizing m start with
  | nil => rfl
  | cons byte rest ih =>
      rw [List.cons_append, pokeAll, ih, pokeAll, List.length_cons, Nat.add_assoc start 1,
        Nat.add_comm 1]

theorem holds_pokeAll {bytes : List UInt8} (hfits : start + bytes.length ≤ size) :
    (m.pokeAll start bytes).Holds start bytes := by
  apply List.ext_getElem?
  intro i
  by_cases hi : i < bytes.length
  · rw [List.getElem?_map, List.getElem?_range' hi, Option.map_some, Nat.one_mul,
      peek_pokeAll m start bytes _ hfits, if_pos (Nat.le_add_right start i),
      Nat.add_sub_cancel_left, List.getElem?_eq_getElem hi, Option.getD_some]
  · have hbehind : bytes.length ≤ i := Nat.le_of_not_lt hi
    rw [List.getElem?_eq_none hbehind, List.getElem?_eq_none (by simpa using hbehind)]

/-- Bytes that are there already change nothing. -/
theorem pokeAll_of_holds {m : Memory} {start : Nat} {bytes : List UInt8}
    (hfits : start + bytes.length ≤ size) (hholds : m.Holds start bytes) :
    m.pokeAll start bytes = m := by
  apply ext_peek
  intro address _
  rw [peek_pokeAll m start bytes address hfits]
  split
  · rename_i hstart
    rcases Nat.lt_or_ge (address - start) bytes.length with hinside | hbehind
    · have hbyte : bytes[address - start]? = some (m.peek address) := by
        rw [← hholds, List.getElem?_map, List.getElem?_range' hinside, Nat.one_mul,
          Nat.add_sub_cancel' hstart]
        rfl
      rw [hbyte, Option.getD_some]
    · rw [List.getElem?_eq_none hbehind, Option.getD_none]
  · rfl

end Memory

namespace Registers

/-- Values that do not reach beyond `VF` go to consecutive registers, and the registers before and
behind them stay. -/
theorem get_setAll (r : Registers) (start : UInt8) (values : List UInt8) {number : UInt8}
    (hnumber : number < 16) (hroom : start.toNat + values.length ≤ 16) :
    (r.setAll start values).get number =
      if start.toNat ≤ number.toNat then
        (values[number.toNat - start.toNat]?).getD (r.get number)
      else r.get number := by
  have hbound : number.toNat < 16 := hnumber
  induction values generalizing r start with
  | nil => simp [setAll]
  | cons value rest ih =>
      simp only [List.length_cons] at hroom
      have hnext : (start + 1).toNat = start.toNat + 1 := by
        rw [UInt8.toNat_add]
        change (start.toNat + 1) % 256 = _
        omega
      have hset : (r.set start value).get number =
          if number.toNat = start.toNat then value else r.get number := by
        rw [get_set, Nat.mod_eq_of_lt hbound, Nat.mod_eq_of_lt (by omega : start.toNat < 16)]
      rw [setAll, ih _ _ (by omega), hnext, hset]
      by_cases hlater : start.toNat + 1 ≤ number.toNat
      · have hindex : number.toNat - start.toNat = (number.toNat - (start.toNat + 1)) + 1 := by
          omega
        rw [if_pos hlater, if_pos (by omega : start.toNat ≤ number.toNat), hindex,
          List.getElem?_cons_succ, if_neg (by omega : ¬ number.toNat = start.toNat)]
      · rw [if_neg hlater]
        by_cases hsame : number.toNat = start.toNat
        · rw [if_pos hsame, hsame, if_pos (Nat.le_refl _), Nat.sub_self, List.getElem?_cons_zero,
            Option.getD_some]
        · rw [if_neg hsame, if_neg (by omega : ¬ start.toNat ≤ number.toNat)]

/-- The first registers of one machine in place of those of another. -/
theorem get_setAll_first (r other : Registers) {count : Nat} (hcount : count ≤ 16)
    {number : UInt8} (hnumber : number < 16) :
    (r.setAll 0 (other.first count)).get number =
      if number.toNat < count then other.get number else r.get number := by
  have hbound : number.toNat < 16 := hnumber
  have hlength := other.length_first hcount
  have hroom : (0 : UInt8).toNat + (other.first count).length ≤ 16 := by
    rw [hlength, UInt8.toNat_zero, Nat.zero_add]
    exact hcount
  rw [get_setAll r 0 _ hnumber hroom]
  change ((other.first count)[number.toNat]?).getD (r.get number) = _
  split
  · rename_i hinside
    rw [getElem?_first other hinside hbound, UInt8.ofNat_toNat, Option.getD_some]
  · rename_i hbehind
    rw [List.getElem?_eq_none (by omega), Option.getD_none]

theorem first_setAll (r : Registers) {values : List UInt8} (hroom : values.length ≤ 16) :
    (r.setAll 0 values).first values.length = values := by
  have hzero : (0 : UInt8).toNat = 0 := UInt8.toNat_zero
  apply List.ext_getElem?
  intro i
  by_cases hi : i < values.length
  · have hbound : i < 16 := Nat.lt_of_lt_of_le hi hroom
    have hnumber : (UInt8.ofNat i).toNat = i :=
      UInt8.toNat_ofNat_of_lt' (Nat.lt_trans hbound (by decide))
    have hregister : UInt8.ofNat i < 16 := by
      rw [UInt8.lt_iff_toNat_lt, hnumber]
      exact hbound
    rw [getElem?_first _ hi hbound, get_setAll r 0 values hregister (by omega), hnumber, hzero,
      if_pos (Nat.zero_le i), Nat.sub_zero, List.getElem?_eq_getElem hi, Option.getD_some]
  · have hbehind : values.length ≤ i := Nat.le_of_not_lt hi
    rw [List.getElem?_eq_none hbehind, List.getElem?_eq_none]
    rw [length_first _ hroom]
    exact hbehind

/-- Of the first registers the first ones. -/
theorem first_append_drop (r : Registers) {few count : Nat} (hle : few ≤ count) :
    r.first few ++ (r.first count).drop few = r.first count := by
  have htake : r.first few = (r.first count).take few := by
    rw [first, first, List.take_take, Nat.min_eq_left hle]
  rw [htake, List.take_append_drop]

theorem fits_first (r : Registers) (start : UInt16) {x : UInt8} (hx : x < 16) :
    Memory.Fits start (r.first (x.toNat + 1)).length ↔ start.toNat + (x.toNat + 1) ≤ 4096 := by
  have hcount : x.toNat + 1 ≤ 16 := hx
  rw [Memory.Fits, length_first _ hcount]
  rfl

end Registers

theorem Machine.passBlock_eq (m : Machine) (dialect : Dialect) (length : Nat) :
    m.passBlock dialect length =
      { m with
        index := if dialect.advancesIndex then m.index + UInt16.ofNat length else m.index } := by
  unfold passBlock
  split
  · rfl
  · rfl

namespace Session

/-- The session with other values in its registers. -/
def withRegisters (s : Session) (registers : Registers) : Session :=
  { s with machine := { s.machine with registers } }

/-- The session with its index at another address. -/
def withIndex (s : Session) (index : UInt16) : Session :=
  { s with machine := { s.machine with index } }

/-- Where the index is after a block transfer. -/
def indexBehind (s : Session) (length : Nat) : UInt16 :=
  if s.dialect.advancesIndex then s.machine.index + UInt16.ofNat length else s.machine.index

theorem perform_dump (s : Session) {x : UInt8} (hx : x < 16)
    (hfits : s.machine.index.toNat + (x.toNat + 1) ≤ 4096) :
    s.perform (.dump x) = .done { s with machine := { s.machine with
      memory := s.machine.memory.pokeAll s.machine.index.toNat
        (s.machine.registers.first (x.toNat + 1))
      index := s.indexBehind (x.toNat + 1)
      counter := s.machine.counter + 2 } } := by
  have hroom := (s.machine.registers.fits_first s.machine.index hx).2 hfits
  have hstore := (Memory.store_eq_ok_iff s.machine.memory _ s.machine.index _).2 ⟨hroom, rfl⟩
  rw [perform_eq, execute, Machine.execute, Machine.dump, if_pos hx, Machine.store, hstore]
  simp only [Except.map, Machine.passBlock_eq]
  rfl

theorem perform_restore (s : Session) (x : UInt8)
    (hfits : s.machine.index.toNat + (x.toNat + 1) ≤ 4096) :
    s.perform (.restore x) = .done { s with machine := { s.machine with
      registers := s.machine.registers.setAll 0
        ((List.range' s.machine.index.toNat (x.toNat + 1)).map s.machine.memory.peek)
      index := s.indexBehind (x.toNat + 1)
      counter := s.machine.counter + 2 } } := by
  have hload := (Memory.load_eq_ok_iff s.machine.memory s.machine.index (x.toNat + 1) _).2
    ⟨hfits, rfl⟩
  rw [perform_eq, execute, Machine.execute, Machine.restore, hload]
  simp only [Except.map, Machine.passBlock_eq]
  rfl

/-- A dump that names no register or leaves the address space does nothing. -/
theorem perform_dump_of_not_fits (s : Session) {x : UInt8}
    (hstops : x < 16 → ¬ s.machine.index.toNat + (x.toNat + 1) ≤ 4096) :
    ∃ fault, s.perform (.dump x) = .stopped s fault := by
  rw [perform_eq, execute, Machine.execute, Machine.dump]
  by_cases hx : x < 16
  · have hlong := mt (s.machine.registers.fits_first s.machine.index hx).1 (hstops hx)
    rw [if_pos hx, Machine.store, Memory.store, if_neg hlong]
    exact ⟨_, rfl⟩
  · rw [if_neg hx]
    exact ⟨_, rfl⟩

theorem perform_restore_of_not_fits (s : Session) {x : UInt8}
    (hlong : ¬ s.machine.index.toNat + (x.toNat + 1) ≤ 4096) :
    ∃ fault, s.perform (.restore x) = .stopped s fault := by
  have hfits : ¬ Memory.Fits s.machine.index (x.toNat + 1) := hlong
  rw [perform_eq, execute, Machine.execute, Machine.restore, Memory.load, if_neg hfits]
  exact ⟨_, rfl⟩

theorem toNat_indexBehind {s : Session} {length : Nat} (hadvances : s.dialect.advancesIndex = true)
    (hfits : s.machine.index.toNat + length ≤ 4096) :
    (s.indexBehind length).toNat = s.machine.index.toNat + length := by
  rw [indexBehind, if_pos hadvances, UInt16.toNat_add, UInt16.toNat_ofNat']
  omega

theorem indexBehind_eq {s : Session} (hstays : s.dialect.advancesIndex = false) (length : Nat) :
    s.indexBehind length = s.machine.index := by
  rw [indexBehind, hstays]
  rfl

end Session

/-- The first registers, up to `last`, on their way to memory and back. -/
structure Parcel where
  last : UInt8
  last_lt : last < 16
  /-- What the registers hold when they are dumped. -/
  source : Registers
  /-- What the registers hold when they are about to be restored. -/
  target : Registers

namespace Parcel

def size (p : Parcel) : Nat :=
  p.last.toNat + 1

def bytes (p : Parcel) : List UInt8 :=
  p.source.first p.size

/-- The registers after the parcel has come back. -/
def Delivered (p : Parcel) (after : Session) : Prop :=
  ∀ number < 16, after.machine.registers.get number =
    if number ≤ p.last then p.source.get number else p.target.get number

theorem size_le (p : Parcel) : p.size ≤ 16 :=
  p.last_lt

theorem length_bytes (p : Parcel) : p.bytes.length = p.size :=
  p.source.length_first p.size_le

theorem length_flatMap_bytes (parcels : List Parcel) :
    (parcels.flatMap bytes).length = (parcels.map size).sum := by
  rw [List.length_flatMap]
  exact congrArg List.sum (List.map_congr_left fun p _ => p.length_bytes)

end Parcel

namespace Session

/-- Execute instructions one after another, each with given values in the registers before it: the
sessions after each of them, if all can be executed. -/
def inTurn (s : Session) : List (Registers × Instruction) → Except Fault (List Session)
  | [] => .ok []
  | (registers, instruction) :: rest =>
      match (s.withRegisters registers).perform instruction with
      | ⟨after, none⟩ => (after.inTurn rest).map (after :: ·)
      | ⟨_, some fault⟩ => .error fault

theorem inTurn_cons_of_done {s after : Session} {registers : Registers} {instruction : Instruction}
    (hperform : (s.withRegisters registers).perform instruction = .done after)
    (rest : List (Registers × Instruction)) :
    s.inTurn ((registers, instruction) :: rest) = (after.inTurn rest).map (after :: ·) := by
  rw [inTurn, hperform]
  rfl

variable {s : Session} {p : Parcel}

theorem exists_dump (hfits : s.machine.index.toNat + p.size ≤ 4096) :
    ∃ after, (s.withRegisters p.source).perform (.dump p.last) = .done after ∧
      after.dialect = s.dialect ∧ after.machine.index = s.indexBehind p.size ∧
      after.machine.memory = s.machine.memory.pokeAll s.machine.index.toNat p.bytes :=
  ⟨_, perform_dump _ p.last_lt hfits, rfl, rfl, rfl⟩

theorem exists_restore (hfits : s.machine.index.toNat + p.size ≤ 4096)
    (hholds : s.machine.memory.Holds s.machine.index.toNat p.bytes) :
    ∃ after, (s.withRegisters p.target).perform (.restore p.last) = .done after ∧
      after.dialect = s.dialect ∧ after.machine.index = s.indexBehind p.size ∧
      after.machine.memory = s.machine.memory ∧ p.Delivered after := by
  refine ⟨_, perform_restore _ p.last hfits, rfl, rfl, rfl, ?_⟩
  intro number hnumber
  rw [Memory.Holds, p.length_bytes] at hholds
  change (p.target.setAll 0 ((List.range' s.machine.index.toNat p.size).map
    s.machine.memory.peek)).get number = _
  rw [hholds, Parcel.bytes, Registers.get_setAll_first _ _ p.size_le hnumber]
  exact if_congr (Nat.lt_succ_iff.trans UInt8.le_iff_toNat_le.symm) rfl rfl

/-- Dumps that move the index on lay their blocks end to end. -/
theorem inTurn_dumps {parcels : List Parcel} (hadvances : s.dialect.advancesIndex = true)
    (hfits : s.machine.index.toNat + (parcels.map Parcel.size).sum ≤ 4096) :
    ∃ dumped, s.inTurn (parcels.map fun p => (p.source, .dump p.last)) = .ok dumped ∧
      (dumped.getLastD s).dialect = s.dialect ∧
      (dumped.getLastD s).machine.index.toNat =
        s.machine.index.toNat + (parcels.map Parcel.size).sum ∧
      (dumped.getLastD s).machine.memory =
        s.machine.memory.pokeAll s.machine.index.toNat (parcels.flatMap Parcel.bytes) := by
  induction parcels generalizing s with
  | nil => exact ⟨[], rfl, rfl, rfl, rfl⟩
  | cons p rest ih =>
      rw [List.map_cons, List.sum_cons, ← Nat.add_assoc] at hfits
      have hhead := Nat.le_trans (Nat.le_add_right _ _) hfits
      obtain ⟨after, hperform, hdialect, hindex, hmemory⟩ :=
        exists_dump (p := p) hhead
      have hmoved := (congrArg UInt16.toNat hindex).trans (toNat_indexBehind hadvances hhead)
      rw [← hmoved] at hfits
      obtain ⟨dumped, hrest, hlast, hbehind, hpoked⟩ := ih (hdialect ▸ hadvances) hfits
      refine ⟨after :: dumped, ?_, ?_, ?_, ?_⟩
      · rw [List.map_cons, inTurn_cons_of_done hperform, hrest]
        rfl
      · rw [List.getLastD_cons, hlast, hdialect]
      · rw [List.getLastD_cons, hbehind, hmoved, List.map_cons, List.sum_cons, Nat.add_assoc]
      · rw [List.getLastD_cons, hpoked, hmemory, hmoved, List.flatMap_cons, Memory.pokeAll_append,
          p.length_bytes]

/-- Restores take up blocks that lie end to end, one by one. -/
theorem inTurn_restores {parcels : List Parcel} (hadvances : s.dialect.advancesIndex = true)
    (hfits : s.machine.index.toNat + (parcels.map Parcel.size).sum ≤ 4096)
    (hholds : s.machine.memory.Holds s.machine.index.toNat (parcels.flatMap Parcel.bytes)) :
    ∃ restored, s.inTurn (parcels.map fun p => (p.target, .restore p.last)) = .ok restored ∧
      (restored.getLastD s).machine.index.toNat =
        s.machine.index.toNat + (parcels.map Parcel.size).sum ∧
      List.Forall₂ Parcel.Delivered parcels restored := by
  induction parcels generalizing s with
  | nil => exact ⟨[], rfl, rfl, .nil⟩
  | cons p rest ih =>
      rw [List.map_cons, List.sum_cons, ← Nat.add_assoc] at hfits
      rw [List.flatMap_cons, Memory.holds_append, p.length_bytes] at hholds
      have hhead := Nat.le_trans (Nat.le_add_right _ _) hfits
      obtain ⟨after, hperform, hdialect, hindex, hmemory, hdelivered⟩ :=
        exists_restore hhead hholds.1
      have hmoved := (congrArg UInt16.toNat hindex).trans (toNat_indexBehind hadvances hhead)
      rw [← hmoved] at hfits hholds
      rw [← hmemory] at hholds
      obtain ⟨restored, hrest, hbehind, hall⟩ := ih (hdialect ▸ hadvances) hfits hholds.2
      refine ⟨after :: restored, ?_, ?_, .cons hdelivered hall⟩
      · rw [List.map_cons, inTurn_cons_of_done hperform, hrest]
        rfl
      · rw [List.getLastD_cons, hbehind, hmoved, List.map_cons, List.sum_cons, Nat.add_assoc]

/-- From the address where the dumps began, restores of the same sizes deliver every parcel. -/
theorem inTurn_restores_of_dumps (hadvances : s.dialect.advancesIndex = true)
    {parcels : List Parcel}
    (hfits : s.machine.index.toNat + (parcels.map Parcel.size).sum ≤ 4096) :
    ∃ dumped restored,
      s.inTurn (parcels.map fun p => (p.source, .dump p.last)) = .ok dumped ∧
      (dumped.getLastD s).machine.index.toNat =
        s.machine.index.toNat + (parcels.map Parcel.size).sum ∧
      let reset := (dumped.getLastD s).withIndex s.machine.index
      reset.inTurn (parcels.map fun p => (p.target, .restore p.last)) = .ok restored ∧
      List.Forall₂ Parcel.Delivered parcels restored ∧
      (restored.getLastD reset).machine.index.toNat =
        s.machine.index.toNat + (parcels.map Parcel.size).sum := by
  obtain ⟨dumped, hdumps, hdialect, hbehind, hmemory⟩ := inTurn_dumps hadvances hfits
  let reset := (dumped.getLastD s).withIndex s.machine.index
  have hreset : reset.dialect.advancesIndex = true :=
    (congrArg Dialect.advancesIndex hdialect).trans hadvances
  have hroom : s.machine.index.toNat + (parcels.flatMap Parcel.bytes).length ≤ Memory.size := by
    rw [Parcel.length_flatMap_bytes]
    exact hfits
  have hholds : reset.machine.memory.Holds s.machine.index.toNat
      (parcels.flatMap Parcel.bytes) := by
    change (dumped.getLastD s).machine.memory.Holds _ _
    rw [hmemory]
    exact s.machine.memory.holds_pokeAll s.machine.index.toNat hroom
  obtain ⟨restored, hrestores, hend, hdelivered⟩ := inTurn_restores hreset hfits hholds
  exact ⟨dumped, restored, hdumps, hbehind, hrestores, hdelivered, hend⟩

/-- A transfer, whether it can be executed or not, leaves the index alone where it does not move it
on. -/
theorem index_perform_transfer (hstays : s.dialect.advancesIndex = false) (x : UInt8) :
    (s.perform (.dump x)).state.machine.index = s.machine.index ∧
      (s.perform (.restore x)).state.machine.index = s.machine.index := by
  constructor
  · by_cases hdumps : x < 16 ∧ s.machine.index.toNat + (x.toNat + 1) ≤ 4096
    · rw [perform_dump s hdumps.1 hdumps.2]
      exact indexBehind_eq hstays _
    · obtain ⟨fault, hstopped⟩ := s.perform_dump_of_not_fits (not_and.1 hdumps)
      rw [hstopped]
      rfl
  · by_cases hfits : s.machine.index.toNat + (x.toNat + 1) ≤ 4096
    · rw [perform_restore s x hfits]
      exact indexBehind_eq hstays _
    · obtain ⟨fault, hstopped⟩ := s.perform_restore_of_not_fits hfits
      rw [hstopped]
      rfl

/-- Where the index stays, a restore after a dump fetches the first registers of those put away. -/
theorem restore_prefix_of_dump (hstays : s.dialect.advancesIndex = false) {x y : UInt8}
    (hx : x < 16) (hy : y ≤ x) (hfits : s.machine.index.toNat + (x.toNat + 1) ≤ 4096)
    (registers : Registers) :
    ∃ dumped restored, s.perform (.dump x) = .done dumped ∧
      (dumped.withRegisters registers).perform (.restore y) = .done restored ∧
      ∀ number < 16, restored.machine.registers.get number =
        if number ≤ y then s.machine.registers.get number else registers.get number := by
  have hle : y.toNat + 1 ≤ x.toNat + 1 := Nat.succ_le_succ hy
  let sent : Parcel := ⟨x, hx, s.machine.registers, registers⟩
  let fetched : Parcel := ⟨y, UInt8.lt_of_le_of_lt hy hx, s.machine.registers, registers⟩
  obtain ⟨dumped, hdump, hdialect, hindex, hmemory⟩ := exists_dump (p := sent) hfits
  rw [indexBehind_eq hstays] at hindex
  have hroom : s.machine.index.toNat + sent.bytes.length ≤ Memory.size := by
    rw [sent.length_bytes]
    exact hfits
  have hholds : dumped.machine.memory.Holds dumped.machine.index.toNat sent.bytes := by
    rw [hmemory, hindex]
    exact s.machine.memory.holds_pokeAll _ hroom
  have hprefix : fetched.bytes ++ sent.bytes.drop fetched.size = sent.bytes :=
    Registers.first_append_drop _ hle
  rw [← hprefix, Memory.holds_append] at hholds
  have hshort : dumped.machine.index.toNat + fetched.size ≤ 4096 := by
    rw [hindex]
    exact Nat.le_trans (Nat.add_le_add_left hle _) hfits
  obtain ⟨restored, hrestore, -, -, -, hdelivered⟩ := exists_restore hshort hholds.1
  exact ⟨dumped, restored, hdump, hrestore, hdelivered⟩

/-- What was just restored is there already when it is dumped. -/
theorem dump_of_restore {x : UInt8} (hx : x < 16)
    (hfits : s.machine.index.toNat + (x.toNat + 1) ≤ 4096) :
    ∃ restored dumped, s.perform (.restore x) = .done restored ∧
      (restored.withIndex s.machine.index).perform (.dump x) = .done dumped ∧
      dumped.machine.memory = s.machine.memory := by
  refine ⟨_, _, perform_restore s x hfits, perform_dump _ hx hfits, ?_⟩
  let bytes := (List.range' s.machine.index.toNat (x.toNat + 1)).map s.machine.memory.peek
  have hlength : bytes.length = x.toNat + 1 := by
    rw [List.length_map, List.length_range']
  have hfirst : (s.machine.registers.setAll 0 bytes).first (x.toNat + 1) = bytes := by
    rw [← hlength]
    exact Registers.first_setAll _ (hlength ▸ hx)
  have hholds : s.machine.memory.Holds s.machine.index.toNat bytes := by
    rw [Memory.Holds, hlength]
  change s.machine.memory.pokeAll s.machine.index.toNat
    ((s.machine.registers.setAll 0 bytes).first (x.toNat + 1)) = s.machine.memory
  rw [hfirst]
  exact Memory.pokeAll_of_holds (hlength ▸ hfits) hholds

/-- A restore and a dump at the same address change nothing in memory, also where one of them is
stopped. -/
theorem memory_dump_of_restore (s : Session) (x : UInt8) :
    let restored := (s.perform (.restore x)).state
    ((restored.withIndex s.machine.index).perform (.dump x)).state.machine.memory =
      s.machine.memory := by
  intro restored
  by_cases hdumps : x < 16 ∧ s.machine.index.toNat + (x.toNat + 1) ≤ 4096
  · obtain ⟨after, dumped, hrestore, hdump, hmemory⟩ := dump_of_restore hdumps.1 hdumps.2
    have hrestored : restored = after := congrArg Outcome.state hrestore
    rw [hrestored, hdump]
    exact hmemory
  · have hmemory : restored.machine.memory = s.machine.memory := by
      by_cases hfits : s.machine.index.toNat + (x.toNat + 1) ≤ 4096
      · exact congrArg (·.state.machine.memory) (perform_restore s x hfits)
      · obtain ⟨fault, hstopped⟩ := s.perform_restore_of_not_fits hfits
        exact congrArg (·.state.machine.memory) hstopped
    obtain ⟨fault, hstopped⟩ :=
      (restored.withIndex s.machine.index).perform_dump_of_not_fits (not_and.1 hdumps)
    rw [hstopped]
    exact hmemory

/-- Registers come back from memory as they were put there. -/
theorem restore_of_dump (s : Session) :
    let start := s.machine.index
    (s.dialect.advancesIndex = true → ∀ parcels : List Parcel,
      start.toNat + (parcels.map Parcel.size).sum ≤ 4096 →
      ∃ dumped restored,
        s.inTurn (parcels.map fun p => (p.source, .dump p.last)) = .ok dumped ∧
        (dumped.getLastD s).machine.index.toNat = start.toNat + (parcels.map Parcel.size).sum ∧
        let reset := (dumped.getLastD s).withIndex start
        reset.inTurn (parcels.map fun p => (p.target, .restore p.last)) = .ok restored ∧
        List.Forall₂ Parcel.Delivered parcels restored ∧
        (restored.getLastD reset).machine.index.toNat =
          start.toNat + (parcels.map Parcel.size).sum) ∧
    (s.dialect.advancesIndex = false → ∀ x : UInt8,
      (s.perform (.dump x)).state.machine.index = start ∧
      (s.perform (.restore x)).state.machine.index = start ∧
      (x < 16 → start.toNat + (x.toNat + 1) ≤ 4096 → ∀ y ≤ x, ∀ registers,
        ∃ dumped restored, s.perform (.dump x) = .done dumped ∧
          (dumped.withRegisters registers).perform (.restore y) = .done restored ∧
          ∀ number < 16, restored.machine.registers.get number =
            if number ≤ y then s.machine.registers.get number else registers.get number)) ∧
    ∀ x : UInt8,
      let restored := s.perform (.restore x)
      let dumped := (restored.state.withIndex start).perform (.dump x)
      dumped.state.machine.memory = s.machine.memory ∧
      (x < 16 → start.toNat + (x.toNat + 1) ≤ 4096 →
        restored.fault = none ∧ dumped.fault = none) := by
  intro start
  refine ⟨?_, ?_, ?_⟩
  · intro hadvances parcels hfits
    exact inTurn_restores_of_dumps hadvances hfits
  · intro hstays x
    obtain ⟨hdump, hrestore⟩ := index_perform_transfer hstays x
    exact ⟨hdump, hrestore, fun hx hfits y hy registers =>
      restore_prefix_of_dump hstays hx hy hfits registers⟩
  · intro x restored dumped
    refine ⟨s.memory_dump_of_restore x, ?_⟩
    intro hx hfits
    obtain ⟨after, last, hrestore, hdump, -⟩ := dump_of_restore hx hfits
    have hrestored : restored = .done after := hrestore
    have hdumped : dumped = .done last := by
      simp only [dumped, hrestored]
      exact hdump
    rw [hrestored, hdumped]
    exact ⟨rfl, rfl⟩

theorem restore_of_dump_to_last_byte :
    let low := (Registers.zero.set 0 11).set 3 44
    let high := (Registers.zero.set 3 55).set 11 66
    let s : Session := { plain with machine := { Machine.initial with
      registers := high
      index := 0xFF0 } }
    let parcels : List Parcel := [⟨3, by decide, low, high⟩, ⟨11, by decide, high, low⟩]
    let still : Session := { s with dialect := .modern }
    s.dialect.advancesIndex = true ∧ 0xFF0 + (parcels.map Parcel.size).sum ≤ 4096 ∧
      (∃ dumped first second,
        s.inTurn (parcels.map fun p => (p.source, .dump p.last)) = .ok dumped ∧
        (dumped.getLastD s).machine.index.toNat = 4096 ∧
        ((dumped.getLastD s).withIndex 0xFF0).inTurn
          (parcels.map fun p => (p.target, .restore p.last)) = .ok [first, second] ∧
        first.machine.registers.get 3 = 44 ∧ first.machine.registers.get 11 = 66 ∧
        second.machine.registers.get 3 = 55 ∧ second.machine.registers.get 11 = 66 ∧
        second.machine.index.toNat = 4096) ∧
      still.dialect.advancesIndex = false ∧
      (∃ dumped restored, still.perform (.dump 11) = .done dumped ∧
        (dumped.withRegisters low).perform (.restore 2) = .done restored ∧
        restored.machine.registers.get 0 = 0 ∧ restored.machine.registers.get 3 = 44) ∧
      (s.perform (.restore 15)).fault = none := by
  intro low high s parcels still
  obtain ⟨hmoving, -, hagain⟩ := restore_of_dump s
  obtain ⟨-, hstill, -⟩ := restore_of_dump still
  have hfits : 0xFF0 + (parcels.map Parcel.size).sum ≤ 4096 := by decide
  obtain ⟨-, -, hprefix⟩ := hstill rfl 11
  obtain ⟨dumped, restored, hdump, hrestore, hget⟩ :=
    hprefix (by decide) (by decide) 2 (by decide) low
  have hstays : still.dialect.advancesIndex = false := rfl
  refine ⟨rfl, hfits, ?_, hstays, ⟨dumped, restored, hdump, hrestore, ?_, ?_⟩, ?_⟩
  · obtain ⟨all, sessions, hdumps, hbehind, hrestores, hdelivered, hend⟩ :=
      hmoving rfl parcels hfits
    obtain ⟨first, rest, hfirst, hrest, rfl⟩ := List.forall₂_cons_left_iff.1 hdelivered
    obtain ⟨second, none, hsecond, hnone, rfl⟩ := List.forall₂_cons_left_iff.1 hrest
    obtain rfl := List.forall₂_nil_left_iff.1 hnone
    refine ⟨all, first, second, hdumps, hbehind, hrestores, ?_, ?_, ?_, ?_, hend⟩
    · exact (hfirst 3 (by decide)).trans (by decide)
    · exact (hfirst 11 (by decide)).trans (by decide)
    · exact (hsecond 3 (by decide)).trans (by decide)
    · exact (hsecond 11 (by decide)).trans (by decide)
  · exact (hget 0 (by decide)).trans (by decide)
  · exact (hget 3 (by decide)).trans (by decide)
  · exact ((hagain 15).2 (by decide) (by decide)).1

end Session

end Chip8

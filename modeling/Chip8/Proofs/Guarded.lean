import Chip8.CallStack
import Chip8.Memory
import Chip8.Screen.Sprite

/-!
Parts of the machine with every bound asked for.

Reading and writing memory, the call stack and drawing take parts of something, look at single
entries and add numbers of fixed width.  Guarded they ask each time whether the part lies within its
whole, the entry exists and the number fits, and abort where the answer is no.  Such an abort is a
crash, and no fault of the machine.  None of these parts crashes: what memory and the call stack
refuse they refuse before a bound is reached, and the places on the screen wrap.
-/

namespace Chip8

/-- What can keep a guarded computation from a result. -/
inductive Abort
  /-- A fault of the machine. -/
  | fault (fault : Fault)
  /-- A number that is not below the limit of its width. -/
  | overflow (limit number : Nat)
  /-- A number that is taken from a smaller one. -/
  | underflow
  /-- An entry or a part that reaches beyond a size. -/
  | outOfBounds (reach size : Nat)
  deriving DecidableEq

abbrev Guarded (Result : Type) := Except Abort Result

namespace Guarded

variable {Entry Value Result : Type}

/-- The limit of places and lengths, lower than the one that the ends of ranges keep to. -/
def placeLimit : Nat := UInt32.size

/-- An attempt of the machine, which can only end with a fault. -/
def lift (attempt : Except Fault Result) : Guarded Result :=
  attempt.mapError .fault

/-- What the machine itself asks for. -/
def require (condition : Prop) [Decidable condition] (fault : Fault) : Guarded Unit :=
  if condition then .ok () else .error (.fault fault)

def fit (limit number : Nat) : Guarded Nat :=
  if number < limit then .ok number else .error (.overflow limit number)

def sum (limit a b : Nat) : Guarded Nat :=
  fit limit (a + b)

def product (limit a b : Nat) : Guarded Nat :=
  fit limit (a * b)

def difference (a b : Nat) : Guarded Nat :=
  if b ≤ a then .ok (a - b) else .error .underflow

/-- Something of a size has an entry at a place. -/
def reach (place size : Nat) : Guarded Unit :=
  if place < size then .ok () else .error (.outOfBounds (place + 1) size)

def entry (entries : List Entry) (place : Nat) : Guarded Entry :=
  match entries[place]? with
  | some found => .ok found
  | none => .error (.outOfBounds (place + 1) entries.length)

/-- A part that goes from one place to another lies within something of a size. -/
def within (start stop size : Nat) : Guarded Unit :=
  if start ≤ stop ∧ stop ≤ size then .ok () else .error (.outOfBounds stop size)

def part (entries : List Entry) (start stop : Nat) : Guarded (List Entry) := do
  within start stop entries.length
  return (entries.take stop).drop start

/-- A guarded computation ends in a way that is no fault of the machine. -/
def Crashes (attempt : Guarded Result) : Prop :=
  ∃ abort, attempt = .error abort ∧ ∀ fault, abort ≠ .fault fault

theorem not_crashes_lift (attempt : Except Fault Result) : ¬ Crashes (lift attempt) := by
  rintro ⟨abort, habort, hfault⟩
  cases attempt with
  | ok result => cases habort
  | error fault =>
      cases habort
      exact hfault fault rfl

theorem lift_ok (result : Result) : lift (.ok result) = .ok result :=
  rfl

theorem bind_of_ok {first : Guarded Value} {value : Value} (next : Value → Guarded Result)
    (hfirst : first = .ok value) : first >>= next = next value := by
  rw [hfirst]
  rfl

theorem bind_of_error {first : Guarded Value} {abort : Abort} (next : Value → Guarded Result)
    (hfirst : first = .error abort) : first >>= next = .error abort := by
  rw [hfirst]
  rfl

theorem require_of {condition : Prop} [Decidable condition] (fault : Fault)
    (hcondition : condition) : require condition fault = .ok () :=
  if_pos hcondition

theorem require_of_not {condition : Prop} [Decidable condition] (fault : Fault)
    (hcondition : ¬ condition) : require condition fault = .error (.fault fault) :=
  if_neg hcondition

theorem sum_of_lt {limit a b : Nat} (hfits : a + b < limit) : sum limit a b = .ok (a + b) :=
  if_pos hfits

theorem product_of_lt {limit a b : Nat} (hfits : a * b < limit) :
    product limit a b = .ok (a * b) :=
  if_pos hfits

/-- The places and lengths of the machine stay far below their limit. -/
theorem placeSum_of_le {a b : Nat} (hsmall : a + b ≤ 0x10100) :
    sum placeLimit a b = .ok (a + b) :=
  sum_of_lt (Nat.lt_of_le_of_lt hsmall (by decide))

theorem difference_of_le {a b : Nat} (hle : b ≤ a) : difference a b = .ok (a - b) :=
  if_pos hle

theorem reach_of_lt {place size : Nat} (hplace : place < size) : reach place size = .ok () :=
  if_pos hplace

theorem entry_of_getElem? {entries : List Entry} {place : Nat} {found : Entry}
    (hentry : entries[place]? = some found) : entry entries place = .ok found := by
  rw [entry, hentry]

theorem within_of_le {start stop size : Nat} (hstart : start ≤ stop) (hstop : stop ≤ size) :
    within start stop size = .ok () :=
  if_pos ⟨hstart, hstop⟩

theorem part_of_le {entries : List Entry} {start stop : Nat} (hstart : start ≤ stop)
    (hstop : stop ≤ entries.length) :
    part entries start stop = .ok ((entries.take stop).drop start) :=
  bind_of_ok _ (within_of_le hstart hstop)

/-- A fold whose steps all give a result is the fold of the results. -/
theorem foldlM_eq_ok {State : Type} {guarded : State → Entry → Guarded State}
    {step : State → Entry → State} {entries : List Entry}
    (hstep : ∀ state, ∀ entry ∈ entries, guarded state entry = .ok (step state entry))
    (state : State) : entries.foldlM guarded state = .ok (entries.foldl step state) := by
  induction entries generalizing state with
  | nil => rfl
  | cons first rest ih =>
      rw [List.foldlM_cons, bind_of_ok _ (hstep state first List.mem_cons_self)]
      exact ih (fun state entry hentry => hstep state entry (List.mem_cons_of_mem first hentry)) _

end Guarded

open Guarded

namespace Memory

def guardedLoad (m : Memory) (start : UInt16) (length : Nat) : Guarded (List UInt8) := do
  let stop ← sum placeLimit start.toNat length
  require (stop ≤ size) (outside start)
  part m.cells.toList start.toNat stop

def guardedStore (m : Memory) (start : UInt16) (bytes : List UInt8) : Guarded Memory := do
  let stop ← sum placeLimit start.toNat bytes.length
  require (stop ≤ size) (outside start)
  within start.toNat stop size
  return m.pokeAll start.toNat bytes

/-- A part of the cells is what is seen at its addresses. -/
theorem drop_take_cells (m : Memory) {start length : Nat} (hfits : start + length ≤ size) :
    (m.cells.toList.take (start + length)).drop start =
      (List.range' start length).map m.peek := by
  apply List.ext_getElem?
  intro i
  by_cases hi : i < length
  · have hcell : start + i < 4096 := Nat.lt_of_lt_of_le (Nat.add_lt_add_left hi start) hfits
    simp [hi, hcell, peek]
  · have hbeyond : ¬ start + i < start + length := by omega
    rw [List.getElem?_drop, List.getElem?_take, if_neg hbeyond]
    simp [hi]

theorem sum_of_length {start : UInt16} {length : Nat} (hlength : length ≤ 256) :
    sum placeLimit start.toNat length = .ok (start.toNat + length) := by
  have hstart := start.toNat_lt
  exact placeSum_of_le (by omega)

theorem guardedLoad_eq (m : Memory) (start : UInt16) {length : Nat} (hlength : length ≤ 256) :
    m.guardedLoad start length = lift (m.load start length) := by
  rw [guardedLoad, bind_of_ok _ (sum_of_length hlength), load]
  by_cases hfits : start.toNat + length ≤ size
  · have hstop : start.toNat + length ≤ m.cells.toList.length := by
      rw [Vector.length_toList]
      exact hfits
    rw [bind_of_ok _ (require_of _ hfits), part_of_le (Nat.le_add_right _ _) hstop,
      drop_take_cells m hfits, if_pos (show Fits start length from hfits)]
    rfl
  · rw [bind_of_error _ (require_of_not _ hfits), if_neg (show ¬ Fits start length from hfits),
      refusal_of_le start hlength]
    rfl

theorem guardedStore_eq (m : Memory) (start : UInt16) {bytes : List UInt8}
    (hlength : bytes.length ≤ 256) :
    m.guardedStore start bytes = lift (m.store start bytes) := by
  rw [guardedStore, bind_of_ok _ (sum_of_length hlength), store]
  by_cases hfits : start.toNat + bytes.length ≤ size
  · rw [bind_of_ok _ (require_of _ hfits),
      bind_of_ok _ (within_of_le (Nat.le_add_right _ _) hfits),
      if_pos (show Fits start bytes.length from hfits)]
    rfl
  · rw [bind_of_error _ (require_of_not _ hfits),
      if_neg (show ¬ Fits start bytes.length from hfits), refusal_of_le start hlength]
    rfl

end Memory

namespace CallStack

/-- The calls with one more, in the first free slot. -/
def guardedPush (calls : CallStack) (address : UInt16) : Guarded CallStack := do
  require (calls.depth ≠ limit) .stackOverflow
  if hslot : calls.depth < limit then
    return ⟨address :: calls.frames, Nat.succ_le_of_lt hslot⟩
  else
    throw (.outOfBounds (calls.depth + 1) limit)

/-- The address in the last slot that is in use, and the calls before it. -/
def guardedPop (calls : CallStack) : Guarded (UInt16 × CallStack) := do
  require (calls.depth ≠ 0) .stackUnderflow
  let slot ← difference calls.depth 1
  reach slot limit
  let address ← entry calls.toList slot
  return (address, ⟨calls.frames.tail, Nat.le_trans (by simp) calls.depth_le⟩)

theorem guardedPush_eq (calls : CallStack) (address : UInt16) :
    calls.guardedPush address = lift (calls.push address) := by
  have hdepth := calls.depth_le_limit
  by_cases hfull : calls.depth = limit
  · have hoverflow : calls.push address = .error .stackOverflow :=
      (push_eq_error_iff calls address _).2 ⟨hfull, rfl⟩
    rw [guardedPush, bind_of_error _ (require_of_not _ (not_not_intro hfull)), hoverflow]
    rfl
  · have hslot : calls.depth < limit := Nat.lt_of_le_of_ne hdepth hfull
    have hpush : calls.push address = .ok ⟨address :: calls.frames, Nat.succ_le_of_lt hslot⟩ :=
      (push_eq_ok_iff calls _ address).2 rfl
    rw [guardedPush, bind_of_ok _ (require_of _ hfull), dif_pos hslot, hpush]
    rfl

theorem guardedPop_eq (calls : CallStack) : calls.guardedPop = lift calls.pop := by
  cases hframes : calls.frames with
  | nil =>
      have hempty : ¬ calls.depth ≠ 0 := not_not_intro (congrArg List.length hframes)
      have hunderflow : calls.pop = .error .stackUnderflow :=
        (pop_eq_error_iff calls _).2 ⟨hframes, rfl⟩
      rw [guardedPop, bind_of_error _ (require_of_not _ hempty), hunderflow]
      rfl
  | cons address rest =>
      have hdepth : calls.depth = rest.length + 1 := congrArg List.length hframes
      have hslot : calls.depth - 1 < limit :=
        Nat.sub_one_lt_of_le (hdepth ▸ Nat.succ_pos _) calls.depth_le_limit
      have hentry : calls.toList[calls.depth - 1]? = some address := by
        rw [toList, hframes, hdepth]
        simp
      have htail : calls.frames = address :: calls.frames.tail := by
        rw [hframes, List.tail_cons]
      have hpop : calls.pop =
          .ok (address, ⟨calls.frames.tail, Nat.le_trans (by simp) calls.depth_le⟩) :=
        (pop_eq_ok_iff calls _ address).2 htail
      rw [guardedPop, bind_of_ok _ (require_of _ (hdepth ▸ Nat.succ_ne_zero _)),
        bind_of_ok _ (difference_of_le (hdepth ▸ Nat.succ_pos _)),
        bind_of_ok _ (reach_of_lt hslot), bind_of_ok _ (entry_of_getElem? hentry), hpop]
      rfl

end CallStack

namespace Drawing

/-- Plot the point that is `dx` columns and `dy` rows away from another, if the row of the sprite
has a pixel there. -/
def guardedPixel (x y dy : Nat) (row : UInt8) (d : Drawing) (dx : Nat) : Guarded Drawing := do
  let bit ← difference 7 dx
  if row.toBitVec.getLsbD bit then
    let column ← sum placeLimit x dx
    let line ← sum placeLimit y dy
    reach (line % Screen.height) Screen.height
    reach (column % Screen.width) Screen.width
    return d.plot ⟨column, line⟩
  else
    return d

def guardedRows (x y : Nat) (d : Drawing) (dy : Nat) : Sprite → Guarded Drawing
  | [] => return d
  | row :: rest => do
      let drawn ← (List.range 8).foldlM (guardedPixel x y dy row) d
      drawn.guardedRows x y (dy + 1) rest

theorem guardedPixel_eq {x y dy dx : Nat} (hx : x < 256) (hy : y + dy < 512) (hdx : dx < 8)
    (row : UInt8) (d : Drawing) :
    guardedPixel x y dy row d dx =
      .ok (if Sprite.rowBit row dx then d.plot ⟨x + dx, y + dy⟩ else d) := by
  have hbit : row.toBitVec.getLsbD (7 - dx) = Sprite.rowBit row dx := by
    simp [Sprite.rowBit, BitVec.getMsbD, hdx]
  have hcolumn : sum placeLimit x dx = .ok (x + dx) := placeSum_of_le (by omega)
  have hline : sum placeLimit y dy = .ok (y + dy) := placeSum_of_le (by omega)
  rw [guardedPixel, bind_of_ok _ (difference_of_le (Nat.le_of_lt_succ hdx)), hbit]
  split
  · rw [bind_of_ok _ hcolumn, bind_of_ok _ hline,
      bind_of_ok _ (reach_of_lt (Nat.mod_lt _ (by decide))),
      bind_of_ok _ (reach_of_lt (Nat.mod_lt _ (by decide)))]
    rfl
  · rfl

theorem guardedRows_eq {x y : Nat} (hx : x < 256) (hy : y < 256) (d : Drawing) {dy : Nat}
    {sprite : Sprite} (hrows : dy + sprite.length ≤ 256) :
    guardedRows x y d dy sprite = .ok ((Sprite.points x (y + dy) sprite).foldl plot d) := by
  induction sprite generalizing d dy with
  | nil => rfl
  | cons row rest ih =>
      rw [List.length_cons] at hrows
      have hrow : (List.range 8).foldlM (guardedPixel x y dy row) d =
          .ok ((Sprite.rowPoints x (y + dy) row).foldl plot d) := by
        rw [foldlM_eq_ok fun d dx hdx =>
          guardedPixel_eq hx (by omega) (List.mem_range.1 hdx) row d]
        rw [Sprite.rowPoints, List.foldl_map, List.foldl_filter]
      rw [guardedRows, bind_of_ok _ hrow, ih _ (by omega), Sprite.points, List.foldl_append,
        Nat.add_assoc]

end Drawing

def Screen.guardedDraw (s : Screen) (x y : UInt8) (sprite : Sprite) : Guarded Drawing :=
  Drawing.guardedRows x.toNat y.toNat ⟨s, 0⟩ 0 sprite

theorem Screen.guardedDraw_eq (s : Screen) (x y : UInt8) {sprite : Sprite}
    (hrows : sprite.length ≤ 256) : s.guardedDraw x y sprite = .ok (s.draw x y sprite) :=
  Drawing.guardedRows_eq x.toNat_lt y.toNat_lt ⟨s, 0⟩ (by rwa [Nat.zero_add])

end Chip8

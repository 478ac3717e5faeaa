import Chip8.Fault

/-!
The call stack: the return addresses of the calls in progress, at most sixteen of them.

`push` and `pop` fail at the two ends and change nothing then.  `toList` shows the addresses from
the first call to the latest.
-/

namespace Chip8

/-- The return addresses of the calls in progress, the latest first. -/
@[ext]
structure CallStack where
  frames : List UInt16
  depth_le : frames.length ≤ 16
  deriving DecidableEq, Repr

namespace CallStack

/-- The number of calls that can be in progress at once. -/
def limit : Nat := 16

def empty : CallStack :=
  ⟨[], by decide⟩

def depth (s : CallStack) : Nat :=
  s.frames.length

/-- The return addresses from the first call to the latest. -/
def toList (s : CallStack) : List UInt16 :=
  s.frames.reverse

/-- Begin a call that will return to an address. -/
def push (s : CallStack) (address : UInt16) : Except Fault CallStack :=
  if h : s.frames.length < limit then
    .ok ⟨address :: s.frames, h⟩
  else
    .error .stackOverflow

/-- End the latest call: the address to return to, and the calls still in progress. -/
def pop (s : CallStack) : Except Fault (UInt16 × CallStack) :=
  match s with
  | ⟨[], _⟩ => .error .stackUnderflow
  | ⟨address :: rest, h⟩ => .ok (address, ⟨rest, Nat.le_of_succ_le h⟩)

@[simp] theorem toList_empty : empty.toList = [] :=
  rfl

theorem depth_le_limit (s : CallStack) : s.depth ≤ limit :=
  s.depth_le

theorem push_eq_ok_iff (s s' : CallStack) (address : UInt16) :
    s.push address = .ok s' ↔ s'.frames = address :: s.frames := by
  unfold push
  split
  · simp [CallStack.ext_iff, eq_comm]
  · rename_i h
    simp only [reduceCtorEq, false_iff]
    intro hframes
    have := s'.depth_le
    simp only [hframes, List.length_cons] at this
    exact h this

theorem push_eq_error_iff (s : CallStack) (address : UInt16) (fault : Fault) :
    s.push address = .error fault ↔ s.depth = limit ∧ fault = .stackOverflow := by
  have hdepth := s.depth_le
  unfold push depth
  split
  · rename_i h
    simp only [reduceCtorEq, false_iff]
    rintro ⟨hfull, -⟩
    omega
  · rename_i h
    have hfull : s.frames.length = limit := by
      simp only [limit] at h ⊢
      omega
    simp [hfull, eq_comm]

theorem pop_eq_ok_iff (s s' : CallStack) (address : UInt16) :
    s.pop = .ok (address, s') ↔ s.frames = address :: s'.frames := by
  rcases s with ⟨_ | ⟨a, rest⟩, h⟩
  · simp [pop]
  · simp [pop, CallStack.ext_iff]

theorem pop_eq_error_iff (s : CallStack) (fault : Fault) :
    s.pop = .error fault ↔ s.frames = [] ∧ fault = .stackUnderflow := by
  rcases s with ⟨_ | ⟨a, rest⟩, h⟩ <;> simp [pop, eq_comm]

end CallStack

end Chip8

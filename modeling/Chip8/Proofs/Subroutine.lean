import Chip8.Proofs.Faults
import Chip8.Proofs.Footprint
import Mathlib.Data.List.Infix
import Mathlib.Data.List.MinMax
import Mathlib.Order.Nat

/-!
Calls and the returns that end them.

A list of instructions is balanced if each return in it ends an earlier call of the list and each
call is ended.  While a balanced list is executed the return addresses that were there before stay
below those of its open calls, whatever the other instructions are.  So a subroutine, a call and a
return around a balanced list, ends behind its call with the calls in progress as they were, and of
the two faults of the call stack it can only meet the overflow: just when its calls are nested
deeper than there is room.
-/

namespace Chip8

namespace Instruction

def isCall : Instruction → Bool
  | call _ => true
  | _ => false

def isReturn : Instruction → Bool
  | ret => true
  | _ => false

/-- The number of calls of a list that are still open behind it. -/
def openCalls (instructions : List Instruction) : Nat :=
  instructions.countP isCall - instructions.countP isReturn

/-- The greatest number of calls that are open at once somewhere in a list. -/
def nesting (instructions : List Instruction) : Nat :=
  (instructions.inits.map openCalls).foldr max 0

/-- Up to no point of the list there are more returns than calls and further ones. -/
def ReturnsWithin (further : Nat) (instructions : List Instruction) : Prop :=
  ∀ earlier, earlier <+: instructions →
    earlier.countP isReturn ≤ further + earlier.countP isCall

/-- The calls and returns of a list are balanced like brackets. -/
structure Balanced (instructions : List Instruction) : Prop where
  within : ReturnsWithin 0 instructions
  closed : instructions.countP isReturn = instructions.countP isCall

instance (further : Nat) (instructions : List Instruction) :
    Decidable (ReturnsWithin further instructions) :=
  decidable_of_iff
    (∀ earlier ∈ instructions.inits, earlier.countP isReturn ≤ further + earlier.countP isCall)
    ⟨fun h earlier hstart => h earlier ((List.mem_inits earlier instructions).2 hstart),
      fun h earlier hmem => h earlier ((List.mem_inits earlier instructions).1 hmem)⟩

instance (instructions : List Instruction) : Decidable (Balanced instructions) :=
  decidable_of_iff
    (ReturnsWithin 0 instructions ∧ instructions.countP isReturn = instructions.countP isCall)
    ⟨fun ⟨hwithin, hclosed⟩ => ⟨hwithin, hclosed⟩,
      fun hbalanced => ⟨hbalanced.within, hbalanced.closed⟩⟩

theorem nesting_le_iff {instructions : List Instruction} {limit : Nat} :
    nesting instructions ≤ limit ↔
      ∀ earlier, earlier <+: instructions → openCalls earlier ≤ limit := by
  constructor
  · intro hnesting earlier hstart
    have hmem : openCalls earlier ∈ instructions.inits.map openCalls :=
      List.mem_map_of_mem ((List.mem_inits earlier instructions).2 hstart)
    exact (List.le_max_of_le hmem le_rfl).trans hnesting
  · intro hall
    refine List.max_le_of_forall_le (instructions.inits.map openCalls) limit fun count hcount => ?_
    obtain ⟨earlier, hmem, rfl⟩ := List.mem_map.1 hcount
    exact hall earlier ((List.mem_inits earlier instructions).1 hmem)

theorem countP_first_add (test : Instruction → Bool) (first : Instruction)
    (rest : List Instruction) :
    (first :: rest).countP test = [first].countP test + rest.countP test := by
  rw [← List.countP_append, List.singleton_append]

theorem ReturnsWithin.of_start {further : Nat} {instructions earlier : List Instruction}
    (hwithin : ReturnsWithin further instructions) (hstart : earlier <+: instructions) :
    ReturnsWithin further earlier :=
  fun _ hshorter => hwithin _ (hshorter.trans hstart)

/-- Behind its first instruction a list has one open call more, one less or as many. -/
theorem ReturnsWithin.tail {further : Nat} {first : Instruction} {rest : List Instruction}
    (hwithin : ReturnsWithin further (first :: rest)) :
    ReturnsWithin (further + [first].countP isCall - [first].countP isReturn) rest := by
  intro earlier hstart
  have hfirst := hwithin [first] (List.prefix_append [first] rest)
  have hearlier := hwithin (first :: earlier) (List.cons_prefix_cons.2 ⟨rfl, hstart⟩)
  rw [countP_first_add isReturn first earlier, countP_first_add isCall first earlier] at hearlier
  omega

/-- A call and a return around a balanced list make a balanced list. -/
theorem Balanced.subroutine {body : List Instruction} (hbody : Balanced body)
    (address : UInt16) : Balanced (call address :: (body ++ [ret])) where
  within := by
    intro earlier hstart
    rcases List.prefix_cons_iff.1 hstart with rfl | ⟨rest, rfl, hrest⟩
    · exact Nat.le_refl 0
    · have hcount : rest.countP isReturn ≤ rest.countP isCall + 1 := by
        rcases List.prefix_concat_iff.1 hrest with rfl | hinner
        · simp [List.countP_append, hbody.closed, isReturn, isCall]
        · have := hbody.within rest hinner
          omega
      simpa [List.countP_cons, isReturn, isCall] using hcount
  closed := by
    simp [List.countP_cons, List.countP_append, hbody.closed, isReturn, isCall]

end Instruction

open Instruction

/-- The return addresses of a list are there, below those of a number of later calls. -/
structure CallStack.Above (below : List UInt16) (later : Nat) (calls : CallStack) : Prop where
  suffix : below <:+ calls.frames
  depth : calls.depth = below.length + later

namespace CallStack.Above

variable {below : List UInt16} {later : Nat} {calls : CallStack}

theorem self (calls : CallStack) : Above calls.frames 0 calls :=
  ⟨List.suffix_rfl, rfl⟩

theorem frames_eq (habove : Above below 0 calls) : calls.frames = below :=
  (habove.suffix.eq_of_length habove.depth.symm).symm

theorem push {called : CallStack} {address : UInt16} (habove : Above below later calls)
    (hpush : called.frames = address :: calls.frames) : Above below (later + 1) called where
  suffix := hpush ▸ habove.suffix.trans (List.suffix_cons address calls.frames)
  depth := by
    have hdepth := habove.depth
    rw [CallStack.depth] at hdepth ⊢
    rw [hpush, List.length_cons, hdepth, Nat.add_assoc]

theorem pop {returned : CallStack} {address : UInt16} (habove : Above below (later + 1) calls)
    (hpop : calls.frames = address :: returned.frames) : Above below later returned := by
  have hdepth : returned.depth = below.length + later := by
    have hbefore := habove.depth
    rw [CallStack.depth, hpop, List.length_cons] at hbefore
    exact Nat.succ.inj hbefore
  refine ⟨?_, hdepth⟩
  rcases List.suffix_cons_iff.1 (hpop ▸ habove.suffix) with hall | hrest
  · have hlength := congrArg List.length hall
    rw [CallStack.depth] at hdepth
    rw [List.length_cons, hdepth] at hlength
    omega
  · exact hrest

end CallStack.Above

namespace Machine

variable {m after : Machine} {dialect : Dialect} {randomByte : UInt8}

theorem frames_of_execute_call {address : UInt16}
    (hexecute : m.execute dialect randomByte (.call address) = .ok after) :
    after.calls.frames = (m.counter + 2) :: m.calls.frames := by
  obtain ⟨called, hpush, rfl⟩ := exists_of_map_eq_ok hexecute
  obtain ⟨calls, hcalls, rfl⟩ := exists_of_map_eq_ok hpush
  exact (CallStack.push_eq_ok_iff _ _ _).1 hcalls

theorem frames_of_execute_ret (hexecute : m.execute dialect randomByte .ret = .ok after) :
    ∃ address, m.calls.frames = address :: after.calls.frames := by
  obtain ⟨⟨address, returned⟩, hpop, rfl⟩ := exists_of_map_eq_ok hexecute
  obtain ⟨⟨_, calls⟩, hcalls, hreturned⟩ := exists_of_map_eq_ok hpop
  cases hreturned
  exact ⟨address, (CallStack.pop_eq_ok_iff _ _ _).1 hcalls⟩

/-- An instruction opens a call, ends one, or leaves them all as they are. -/
theorem above_of_execute {below : List UInt16} {later : Nat} {instruction : Instruction}
    (hexecute : m.execute dialect randomByte instruction = .ok after)
    (habove : m.calls.Above below later)
    (hwithin : [instruction].countP isReturn ≤ later + [instruction].countP isCall) :
    after.calls.Above below
      (later + [instruction].countP isCall - [instruction].countP isReturn) := by
  have hchanges := changesOnly_of_execute hexecute
  cases instruction with
  | call address => exact habove.push (frames_of_execute_call hexecute)
  | ret =>
      obtain ⟨address, hframes⟩ := frames_of_execute_ret hexecute
      have hopen : later = later - 1 + 1 := (Nat.sub_add_cancel hwithin).symm
      exact (hopen ▸ habove).pop hframes
  | _ => exact (hchanges.calls rfl).symm ▸ habove

end Machine

/-- The faults of the call stack are those of a return without a call and of a call without room. -/
theorem Instruction.fault?_eq_stack_iff (m : Machine) (instruction : Instruction) :
    (instruction.fault? m = some .stackUnderflow ↔
        instruction.isReturn = true ∧ m.calls.depth = 0) ∧
      (instruction.fault? m = some .stackOverflow ↔
        instruction.isCall = true ∧ m.calls.depth = 16) := by
  cases instruction with
  | ret | call address => simp [fault?, isReturn, isCall]
  | draw x y height | decimal x | restore x => simp [fault?, isReturn, isCall, Memory.blockFault?]
  | dump x =>
      rw [fault?]
      split
      · simp [isReturn, isCall, Memory.blockFault?]
      · simp [isReturn, isCall]
  | _ => simp [fault?, isReturn, isCall]

namespace Session

variable {s : Session}

theorem performAll_cons_of_done {instruction : Instruction} {rest : List Instruction}
    (hdone : (s.performAll (instruction :: rest)).fault = none) :
    (s.perform instruction).fault = none ∧
      s.performAll (instruction :: rest) = (s.perform instruction).state.performAll rest := by
  rw [performAll_cons] at hdone ⊢
  rcases hperform : s.perform instruction with ⟨after, _ | fault⟩
  · exact ⟨rfl, rfl⟩
  · rw [hperform] at hdone
    cases hdone

theorem performAll_append_of_done {earlier : List Instruction}
    (hdone : (s.performAll earlier).fault = none) (later : List Instruction) :
    s.performAll (earlier ++ later) = (s.performAll earlier).state.performAll later := by
  induction earlier generalizing s with
  | nil => rfl
  | cons instruction rest ih =>
      obtain ⟨hfirst, hrest⟩ := performAll_cons_of_done hdone
      rw [hrest] at hdone ⊢
      rw [← ih hdone, List.cons_append, performAll_cons]
      rcases hperform : s.perform instruction with ⟨after, _ | fault⟩
      · rfl
      · rw [hperform] at hfirst
        cases hfirst

/-- A list whose beginning fails does not get behind it. -/
theorem done_of_start {instructions earlier : List Instruction}
    (hdone : (s.performAll instructions).fault = none) (hstart : earlier <+: instructions) :
    (s.performAll earlier).fault = none := by
  cases hearlier : (s.performAll earlier).fault with
  | none => rfl
  | some fault =>
      obtain ⟨later, rfl⟩ := hstart
      obtain ⟨before, failing, after, rfl, -, -, hothers⟩ := exists_failing_of_fault hearlier
      rw [List.append_assoc, List.cons_append, hothers] at hdone
      cases hdone

theorem execute_of_done {instruction : Instruction}
    (hdone : (s.perform instruction).fault = none) :
    s.machine.execute s.dialect (s.randomByteFor instruction) instruction =
      .ok (s.perform instruction).state.machine := by
  rw [perform_eq, execute] at hdone ⊢
  cases hexecute : s.machine.execute s.dialect (s.randomByteFor instruction) instruction with
  | ok machine => rfl
  | error fault =>
      rw [hexecute] at hdone
      cases hdone

/-- The return addresses below stay while instructions are executed that do not return from more
calls than are open. -/
theorem above_performAll {below : List UInt16} {later : Nat} {instructions : List Instruction}
    (habove : s.machine.calls.Above below later) (hwithin : ReturnsWithin later instructions)
    (hdone : (s.performAll instructions).fault = none) :
    (s.performAll instructions).state.machine.calls.Above below
      (later + instructions.countP isCall - instructions.countP isReturn) := by
  induction instructions generalizing s later with
  | nil => exact habove
  | cons instruction rest ih =>
      obtain ⟨hfirst, hrest⟩ := performAll_cons_of_done hdone
      have hopen := hwithin [instruction] (List.prefix_append [instruction] rest)
      have hafter := Machine.above_of_execute (execute_of_done hfirst) habove hopen
      rw [hrest] at hdone ⊢
      have hall := ih hafter hwithin.tail hdone
      have hcalls := countP_first_add isCall instruction rest
      have hreturns := countP_first_add isReturn instruction rest
      have hcount :
          later + [instruction].countP isCall - [instruction].countP isReturn +
              rest.countP isCall - rest.countP isReturn =
            later + (instruction :: rest).countP isCall -
              (instruction :: rest).countP isReturn := by
        omega
      exact hcount ▸ hall

/-- Each call that is open makes the call stack one deeper. -/
theorem depth_performAll {instructions : List Instruction}
    (hwithin : ReturnsWithin 0 instructions) (hdone : (s.performAll instructions).fault = none) :
    (s.performAll instructions).state.machine.calls.depth =
      s.machine.calls.depth + openCalls instructions := by
  have hdepth := (above_performAll (.self s.machine.calls) hwithin hdone).depth
  rw [Nat.zero_add] at hdepth
  exact hdepth

/-- What stops a list is the fault of one of its instructions, behind those that were executed. -/
theorem exists_fault?_of_fault {instructions : List Instruction} {fault : Fault}
    (hfault : (s.performAll instructions).fault = some fault) :
    ∃ earlier failing, earlier ++ [failing] <+: instructions ∧
      (s.performAll earlier).fault = none ∧
      failing.fault? (s.performAll earlier).state.machine = some fault := by
  obtain ⟨earlier, failing, later, rfl, hdone, hfailing, -⟩ := exists_failing_of_fault hfault
  refine ⟨earlier, failing, ⟨later, by simp⟩, hdone, ?_⟩
  rw [← fault_perform, hfailing]
  rfl

theorem fault_performAll_ne_stackUnderflow {instructions : List Instruction}
    (hwithin : ReturnsWithin 0 instructions) :
    (s.performAll instructions).fault ≠ some .stackUnderflow := by
  intro hfault
  obtain ⟨earlier, failing, hstart, hdone, hfailing⟩ := exists_fault?_of_fault hfault
  obtain ⟨hreturn, hempty⟩ := (Instruction.fault?_eq_stack_iff _ _).1.1 hfailing
  have hcount := hwithin _ hstart
  have hdepth := depth_performAll
    (hwithin.of_start ((List.prefix_append earlier [failing]).trans hstart)) hdone
  rw [openCalls] at hdepth
  cases failing with
  | ret =>
      simp [List.countP_append, isReturn, isCall] at hcount
      omega
  | _ => cases hreturn

/-- Without other faults a list fails just when its calls are nested deeper than there is room. -/
theorem fault_performAll_eq {instructions : List Instruction}
    (hwithin : ReturnsWithin 0 instructions)
    (hstack : ∀ fault, (s.performAll instructions).fault = some fault →
      fault = .stackOverflow ∨ fault = .stackUnderflow) :
    (s.performAll instructions).fault =
      if s.machine.calls.depth + nesting instructions ≤ CallStack.limit then none
      else some .stackOverflow := by
  have hroom := s.machine.calls.depth_le_limit
  cases hfault : (s.performAll instructions).fault with
  | none =>
      have hnesting : nesting instructions ≤ CallStack.limit - s.machine.calls.depth := by
        refine nesting_le_iff.2 fun earlier hstart => ?_
        have hdepth :=
          depth_performAll (hwithin.of_start hstart) (done_of_start hfault hstart)
        have hlimit := (s.performAll earlier).state.machine.calls.depth_le_limit
        omega
      rw [if_pos (by omega)]
  | some fault =>
      have hoverflow : fault = .stackOverflow := by
        rcases hstack fault hfault with hoverflow | rfl
        · exact hoverflow
        · exact (fault_performAll_ne_stackUnderflow hwithin hfault).elim
      subst hoverflow
      obtain ⟨earlier, failing, hstart, hdone, hfailing⟩ := exists_fault?_of_fault hfault
      obtain ⟨hcall, hfull⟩ := (Instruction.fault?_eq_stack_iff _ _).2.1 hfailing
      have hbefore := (List.prefix_append earlier [failing]).trans hstart
      have hdepth := depth_performAll (hwithin.of_start hbefore) hdone
      have hcount := hwithin earlier hbefore
      -- with the call that fails one more call would be open
      have hopen : openCalls (earlier ++ [failing]) = openCalls earlier + 1 := by
        cases failing with
        | call address =>
            simp only [openCalls, List.countP_append]
            simp [isCall, isReturn]
            omega
        | _ => cases hcall
      have hnesting := nesting_le_iff.1 le_rfl _ hstart
      rw [if_neg (by simp only [CallStack.limit]; omega)]

/-- Inside a subroutine the return address of its call lies above the earlier ones, and those of
the calls that are open lie above it. -/
theorem above_of_inside {address : UInt16} {body earlier : List Instruction}
    (hbody : Balanced body) (hstart : earlier <+: body)
    (hdone : (s.performAll (.call address :: earlier)).fault = none) :
    (s.performAll (.call address :: earlier)).state.machine.calls.Above
      ((s.machine.counter + 2) :: s.machine.calls.frames) (openCalls earlier) := by
  obtain ⟨hcall, hinside⟩ := performAll_cons_of_done hdone
  have hframes := Machine.frames_of_execute_call (execute_of_done hcall)
  rw [hinside] at hdone ⊢
  have habove := above_performAll (.self _) (hbody.within.of_start hstart) hdone
  rw [hframes, Nat.zero_add] at habove
  exact habove

/-- A subroutine that is executed to its end goes on behind its call, with the calls in progress as
they were. -/
theorem performAll_subroutine_of_done {address : UInt16} {body : List Instruction}
    (hbody : Balanced body)
    (hdone : (s.performAll (.call address :: (body ++ [.ret]))).fault = none) :
    (s.performAll (.call address :: (body ++ [.ret]))).state.machine.counter =
        s.machine.counter + 2 ∧
      (s.performAll (.call address :: (body ++ [.ret]))).state.machine.calls =
        s.machine.calls := by
  have hinside : (s.performAll (.call address :: body)).fault = none :=
    done_of_start hdone (List.prefix_append (.call address :: body) [.ret])
  have habove := above_of_inside hbody List.prefix_rfl hinside
  have hclosed : openCalls body = 0 := by
    rw [openCalls, hbody.closed, Nat.sub_self]
  rw [hclosed] at habove
  have hframes := habove.frames_eq
  rw [← List.cons_append, performAll_append_of_done hinside] at hdone ⊢
  obtain ⟨hreturn, hlast⟩ := performAll_cons_of_done hdone
  have hexecute := execute_of_done hreturn
  have hcounter := Machine.counter_of_execute hexecute
  obtain ⟨next, hpopped⟩ := Machine.frames_of_execute_ret hexecute
  rw [hlast]
  refine ⟨?_, ?_⟩
  · rw [Machine.successor, hframes] at hcounter
    exact hcounter
  · rw [hframes] at hpopped
    exact CallStack.ext (List.cons.inj hpopped).2.symm

/-- A subroutine is a call, a list of instructions with balanced calls and returns, and a return.
Executed to its end it goes on behind its call, with the calls in progress as they were; inside it
the return addresses up to that of its call are as they were; it never returns without a call; and
unless an instruction fails for another reason, it fails just when its calls are nested deeper than
there is room. -/
theorem performAll_subroutine (s : Session) (address : UInt16) {body : List Instruction}
    (hbody : Balanced body) :
    let routine := Instruction.call address :: (body ++ [.ret])
    ((s.performAll routine).fault = none →
      (s.performAll routine).state.machine.counter = s.machine.counter + 2 ∧
        (s.performAll routine).state.machine.calls = s.machine.calls) ∧
    (∀ earlier, earlier <+: body → (s.performAll (.call address :: earlier)).fault = none →
      s.machine.calls.toList ++ [s.machine.counter + 2] <+:
        (s.performAll (.call address :: earlier)).state.machine.calls.toList) ∧
    (s.performAll routine).fault ≠ some .stackUnderflow ∧
    ((∀ fault, (s.performAll routine).fault = some fault →
        fault = .stackOverflow ∨ fault = .stackUnderflow) →
      (s.performAll routine).fault =
        if s.machine.calls.depth + nesting routine ≤ 16 then none else some .stackOverflow) := by
  intro routine
  have hwithin : ReturnsWithin 0 routine := (hbody.subroutine address).within
  refine ⟨performAll_subroutine_of_done hbody, fun earlier hstart hdone => ?_,
    fault_performAll_ne_stackUnderflow hwithin, fault_performAll_eq hwithin⟩
  have hsuffix := (above_of_inside hbody hstart hdone).suffix
  rw [← List.reverse_prefix, List.reverse_cons] at hsuffix
  exact hsuffix

theorem performAll_subroutine_nested :
    let body := [Instruction.setByte 1 7, .call 0x400, .addByte 1 1, .ret]
    let inside := [Instruction.setByte 1 7, .call 0x400]
    let routine := Instruction.call 0x300 :: (body ++ [.ret])
    let deep := (plain.performAll (List.replicate 15 (.call 0x200))).state
    Balanced body ∧ nesting routine = 2 ∧
      (plain.performAll routine).fault = none ∧
      (plain.performAll routine).state.machine.counter = 0x202 ∧
      (plain.performAll routine).state.machine.calls = .empty ∧
      inside <+: body ∧ (plain.performAll (.call 0x300 :: inside)).fault = none ∧
      [0x202] <+: (plain.performAll (.call 0x300 :: inside)).state.machine.calls.toList ∧
      (∀ fault, (deep.performAll routine).fault = some fault →
        fault = .stackOverflow ∨ fault = .stackUnderflow) ∧
      (deep.performAll routine).fault = some .stackOverflow := by
  intro body inside routine deep
  have hbody : Balanced body := by decide
  have hdone : (plain.performAll routine).fault = none := rfl
  have hinside : (plain.performAll (.call 0x300 :: inside)).fault = none := rfl
  have hstart : inside <+: body := by decide
  have hstack : ∀ fault, (deep.performAll routine).fault = some fault →
      fault = .stackOverflow ∨ fault = .stackUnderflow := by
    intro fault hfault
    have hoverflow : (deep.performAll routine).fault = some .stackOverflow := by decide +kernel
    exact .inl (Option.some.inj (hfault.symm.trans hoverflow))
  have hroom : ¬ deep.machine.calls.depth + nesting routine ≤ 16 := by decide +kernel
  obtain ⟨hreturn, hkeep, -, -⟩ := performAll_subroutine plain 0x300 hbody
  obtain ⟨-, -, -, hfault⟩ := performAll_subroutine deep 0x300 hbody
  exact ⟨hbody, rfl, hdone, (hreturn hdone).1, (hreturn hdone).2, hstart, hinside,
    hkeep inside hstart hinside, hstack, (hfault hstack).trans (if_neg hroom)⟩

end Session

end Chip8

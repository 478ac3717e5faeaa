import Chip8.Proofs.Executions
import Mathlib.Logic.Function.Iterate

/-!
Which random byte an instruction gets.

Executing the random instruction takes one byte from the source of the session, and nothing else
that can be done to a session takes one or gives one back.  So the source is handed on from one
execution to the next, through failures, waits and new starts, and each draw gets the byte that the
number of the draws before it points to.
-/

namespace Chip8

/-- The execution takes a random byte. -/
def Execution.drawsByte (execution : Execution) : Bool :=
  match execution.instruction with
  | .random _ _ => true
  | _ => false

namespace RandomBytes

/-- A source of random bytes is handed on from each execution to the next, until there is `last`
left of it. -/
def HandedOn (source last : RandomBytes) : List Execution → Prop
  | [] => last = source
  | execution :: later =>
      execution.before.random = source ∧ execution.after.random.HandedOn last later

/-- Without bytes there are only zeros, and no position moves. -/
theorem iterate_rest_nil (count : Nat) : rest^[count] (ofBytes []) = ofBytes [] := by
  induction count with
  | zero => rfl
  | succ count ih => rw [Function.iterate_succ_apply', ih]; rfl

theorem iterate_rest_ofBytes {bytes : List UInt8} (hbytes : bytes ≠ []) (count : Nat) :
    rest^[count] (ofBytes bytes) = .cycle bytes (count % bytes.length) := by
  induction count with
  | zero => rw [Nat.zero_mod]; rfl
  | succ count ih =>
      have hnonempty : bytes.isEmpty = false := by simpa using hbytes
      rw [Function.iterate_succ_apply', ih, rest, hnonempty, if_neg Bool.false_ne_true,
        Nat.mod_add_mod]

/-- The next byte after some draws is one of the list. -/
theorem getElem?_eq_peek_iterate_rest {bytes : List UInt8} (hbytes : bytes ≠ []) (count : Nat) :
    bytes[count % bytes.length]? = some (rest^[count] (ofBytes bytes)).peek := by
  have hlt : count % bytes.length < bytes.length := Nat.mod_lt _ (List.length_pos_iff.2 hbytes)
  rw [iterate_rest_ofBytes hbytes, peek, List.getD_eq_getElem?_getD,
    List.getElem?_eq_getElem hlt, Option.getD_some]

end RandomBytes

theorem Execution.random_after (execution : Execution) :
    execution.after.random =
      if execution.drawsByte then execution.before.random.rest else execution.before.random := by
  obtain ⟨before, instruction, after, hperformed⟩ := execution
  have hexecute := Session.execute_of_perform hperformed
  obtain ⟨machine, -, rfl⟩ := exists_of_map_eq_ok hexecute
  cases instruction with
  | _ => rfl

/-- A draw puts the next byte of its source, masked, into a register. -/
theorem Execution.exists_of_drawsByte {execution : Execution}
    (hdraws : execution.drawsByte = true) :
    ∃ x mask, execution.instruction = .random x mask ∧
      execution.after.machine.registers.get x = execution.before.random.peek &&& mask := by
  obtain ⟨before, instruction, after, hperformed⟩ := execution
  have hexecute := Session.execute_of_perform hperformed
  cases instruction with
  | random x mask =>
      cases hexecute
      exact ⟨x, mask, rfl, Registers.get_set_self _ _ _⟩
  | _ => cases hdraws

namespace RandomBytes.HandedOn

variable {source middle last : RandomBytes} {executions : List Execution}

theorem append {later : List Execution} (hfirst : source.HandedOn middle executions)
    (hlater : middle.HandedOn last later) : source.HandedOn last (executions ++ later) := by
  induction executions generalizing source with
  | nil =>
      rw [← show middle = source from hfirst]
      exact hlater
  | cons execution rest ih => exact ⟨hfirst.1, ih hfirst.2⟩

/-- Each draw has taken one byte. -/
theorem last_eq (hhanded : source.HandedOn last executions) :
    last = rest^[(executions.filter Execution.drawsByte).length] source := by
  induction executions generalizing source with
  | nil => exact hhanded
  | cons execution later ih =>
      obtain ⟨rfl, hlater⟩ := hhanded
      have hlast := ih hlater
      rw [execution.random_after] at hlast
      cases hdraws : execution.drawsByte with
      | true =>
          rw [hdraws, if_pos rfl] at hlast
          rw [List.filter_cons_of_pos hdraws, List.length_cons, Function.iterate_succ_apply]
          exact hlast
      | false =>
          rw [hdraws, if_neg Bool.false_ne_true] at hlast
          rw [List.filter_cons_of_neg (Bool.eq_false_iff.1 hdraws)]
          exact hlast

/-- A draw meets the source that the draws before it have left. -/
theorem source_of_draw (hhanded : source.HandedOn last executions) {j : Nat} {draw : Execution}
    (hdraw : (executions.filter Execution.drawsByte)[j]? = some draw) :
    draw.before.random = rest^[j] source := by
  induction executions generalizing source j with
  | nil => cases hdraw
  | cons execution later ih =>
      obtain ⟨rfl, hlater⟩ := hhanded
      have hafter := execution.random_after
      cases hdraws : execution.drawsByte with
      | true =>
          rw [hdraws, if_pos rfl] at hafter
          rw [List.filter_cons_of_pos hdraws] at hdraw
          cases j with
          | zero =>
              cases hdraw
              rfl
          | succ j =>
              rw [Function.iterate_succ_apply, ← hafter]
              exact ih hlater hdraw
      | false =>
          rw [hdraws, if_neg Bool.false_ne_true] at hafter
          rw [List.filter_cons_of_neg (Bool.eq_false_iff.1 hdraws)] at hdraw
          rw [← hafter]
          exact ih hlater hdraw

end RandomBytes.HandedOn

namespace Session

variable (s : Session)

theorem handedOn_perform (instruction : Instruction) :
    s.random.HandedOn (s.perform instruction).state.random
      (s.execution? instruction).toList := by
  rcases hperform : s.perform instruction with ⟨after, _ | fault⟩
  · rw [execution?_of_perform hperform]
    exact ⟨rfl, rfl⟩
  · have hfault := congrArg Outcome.fault hperform
    have hstay := congrArg Outcome.state (perform_of_fault hfault)
    rw [hperform] at hstay
    rw [execution?_of_fault hfault]
    exact congrArg Session.random hstay

theorem handedOn_performAll (instructions : List Instruction) :
    s.random.HandedOn (s.performAll instructions).state.random
      (s.executionsAll instructions) := by
  induction instructions generalizing s with
  | nil => exact rfl
  | cons instruction rest ih =>
      have hfirst := s.handedOn_perform instruction
      rw [performAll_cons, executionsAll]
      rcases hperform : s.perform instruction with ⟨after, _ | fault⟩
      · rw [execution?_of_perform hperform]
        exact ⟨rfl, ih after⟩
      · rw [execution?_of_fault (congrArg Outcome.fault hperform), hperform] at hfirst
        rw [execution?_of_fault (congrArg Outcome.fault hperform)]
        exact hfirst

theorem handedOn_step :
    s.random.HandedOn s.step.state.random (s.executionsOf .step) := by
  cases hexecuted : s.executed? with
  | none =>
      rw [executionsOf, hexecuted, step_of_executed?_eq_none hexecuted]
      exact rfl
  | some instruction =>
      obtain ⟨hactivity, hnext, -⟩ := step_of_executed? hexecuted
      rw [executionsOf, hexecuted, step_of_running hactivity, hnext]
      exact s.handedOn_perform instruction

theorem random_restart : s.restart.random = s.random := by
  simp only [restart, new]

/-- A new start keeps the source, and so does everything that executes nothing. -/
theorem handedOn_apply (operation : Operation) :
    s.random.HandedOn (s.apply operation).2.random (s.executionsOf operation) := by
  cases operation with
  | boot program =>
      change (s.boot program).state.random = s.random
      obtain ⟨memory, hbooted⟩ := s.exists_boot_eq program
      rw [hbooted, ← s.random_restart]
  | restart => exact s.random_restart
  | step =>
      change s.random.HandedOn s.step.state.random (s.executionsOf .step)
      exact s.handedOn_step
  | perform instruction =>
      change s.random.HandedOn (s.perform instruction).state.random
        (s.execution? instruction).toList
      exact s.handedOn_perform instruction
  | performAll instructions =>
      change s.random.HandedOn (s.performAll instructions).state.random
        (s.executionsAll instructions)
      exact s.handedOn_performAll instructions
  | showKeys keypad =>
      change (s.showKeys keypad).random = s.random
      obtain ⟨registers, activity, hshown⟩ := s.exists_showKeys_eq keypad
      rw [hshown]
  | countDown => exact rfl
  | present => exact rfl

theorem handedOn_run (history : List Operation) :
    s.random.HandedOn (s.run history).random (s.executions history) := by
  induction history generalizing s with
  | nil => exact rfl
  | cons operation rest ih => exact (s.handedOn_apply operation).append (ih _)

/-- What does not draw a byte leaves the source alone. -/
theorem random_apply_of_not_drawsByte {operation : Operation}
    (hnone : ∀ execution ∈ s.executionsOf operation, execution.drawsByte = false) :
    (s.apply operation).2.random = s.random := by
  have hlast := (s.handedOn_apply operation).last_eq
  rw [List.filter_eq_nil_iff.2 fun execution h => Bool.eq_false_iff.1 (hnone execution h)] at hlast
  exact hlast

/-- A draw of a new session gets the byte of its list that the number of the draws before it points
to, around and around, whatever else was done before: failing and waiting steps, new programs and
new starts take no byte and give none back.  Without bytes each draw gets zero. -/
theorem draws_of_run (dialect : Dialect) (bytes : List UInt8) (history : List Operation) :
    let s := new dialect (.ofBytes bytes)
    let draws := (s.executions history).filter Execution.drawsByte
    (∀ j draw, draws[j]? = some draw →
      ∃ x mask, draw.instruction = .random x mask ∧
        (bytes ≠ [] → ∃ byte, bytes[j % bytes.length]? = some byte ∧
          draw.after.machine.registers.get x = byte &&& mask) ∧
        (bytes = [] → draw.after.machine.registers.get x = 0)) ∧
    (bytes ≠ [] → ∃ position < bytes.length, position = draws.length % bytes.length ∧
      (s.run history).random = .cycle bytes position) ∧
    ∀ (t : Session) (operation : Operation),
      (∀ execution ∈ t.executionsOf operation, execution.drawsByte = false) →
        (t.apply operation).2.random = t.random := by
  intro s draws
  have hhanded : (RandomBytes.ofBytes bytes).HandedOn (s.run history).random
      (s.executions history) := s.handedOn_run history
  refine ⟨?_, ?_, fun t operation hnone => t.random_apply_of_not_drawsByte hnone⟩
  · intro j draw hdraw
    have hmem := List.mem_of_getElem? hdraw
    obtain ⟨x, mask, hinstruction, hregister⟩ :=
      Execution.exists_of_drawsByte (List.mem_filter.1 hmem).2
    rw [hhanded.source_of_draw hdraw] at hregister
    refine ⟨x, mask, hinstruction, ?_, ?_⟩
    · intro hbytes
      exact ⟨_, RandomBytes.getElem?_eq_peek_iterate_rest hbytes j, hregister⟩
    · rintro rfl
      rw [RandomBytes.iterate_rest_nil] at hregister
      rw [hregister]
      exact UInt8.zero_and
  · intro hbytes
    have hlast := hhanded.last_eq
    rw [RandomBytes.iterate_rest_ofBytes hbytes] at hlast
    exact ⟨_, Nat.mod_lt _ (List.length_pos_iff.2 hbytes), rfl, hlast⟩

/-- A program that draws a byte and then waits for a key. -/
def drawingProgram : List UInt8 :=
  [0xC3, 0x0F, 0xF4, 0x0A]

/-- The failing list, the wait and the new starts between the draws leave the bytes alone, and the
third draw is back at the first byte. -/
theorem draws_of_run_restart :
    let s := new .standard (.ofBytes [0xAB, 0x6D])
    let history :=
      [Operation.boot drawingProgram, .step, .step, .step, .restart, .step,
        .performAll [.random 5 0xFF, .ret, .random 6 0xFF], .boot drawingProgram, .step]
    let draws := (s.executions history).filter Execution.drawsByte
    draws.map Execution.instruction = [.random 3 0x0F, .random 5 0xFF, .random 3 0x0F] ∧
      (∀ draw, draws[1]? = some draw → draw.after.machine.registers.get 5 = 0x6D) ∧
      (∀ draw, draws[2]? = some draw → draw.after.machine.registers.get 3 = 0x0B) ∧
      (s.run history).random = .cycle [0xAB, 0x6D] 1 := by
  intro s history draws
  obtain ⟨hdraws, hposition, -⟩ := draws_of_run .standard [0xAB, 0x6D] history
  have hinstructions :
      draws.map Execution.instruction = [.random 3 0x0F, .random 5 0xFF, .random 3 0x0F] := by
    decide +kernel
  have hregister : ∀ (j : Nat) (number kept byte : UInt8),
      (draws.map Execution.instruction)[j]? = some (.random number kept) →
      [0xAB, 0x6D][j % 2]? = some byte →
      ∀ draw, draws[j]? = some draw → draw.after.machine.registers.get number = byte &&& kept := by
    intro j number kept byte hinstruction hbyte draw hdraw
    obtain ⟨x, mask, hrandom, hsome, -⟩ := hdraws j draw hdraw
    obtain ⟨drawn, hdrawn, hregister⟩ := hsome (by decide)
    rw [List.getElem?_map, hdraw, Option.map_some, hrandom] at hinstruction
    cases hinstruction
    cases hdrawn.symm.trans hbyte
    exact hregister
  obtain ⟨position, -, hcount, hrandom⟩ := hposition (by decide)
  have hlength : draws.length = 3 := by
    rw [← List.length_map Execution.instruction, hinstructions]
    rfl
  refine ⟨hinstructions, ?_, ?_, ?_⟩
  · exact hregister 1 5 0xFF 0x6D (by rw [hinstructions]; rfl) rfl
  · exact hregister 2 3 0x0F 0xAB (by rw [hinstructions]; rfl) rfl
  · rw [hrandom, hcount, hlength]
    rfl

end Session

end Chip8

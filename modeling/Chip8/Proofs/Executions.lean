import Chip8.Proofs.Footprint

/-!
The instructions that a history executes.

An execution is an instruction together with the session that it met and the one that it left.  A
step has at most one, a list of instructions has one for each of them before the first that fails,
and everything else that can be done to a session has none.  What a history executes follows from
the sessions that it goes through, so the instructions of two histories can be compared.
-/

namespace Chip8

/-- An instruction that was executed, with the sessions before and after it. -/
structure Execution where
  before : Session
  instruction : Instruction
  after : Session
  performed : before.perform instruction = .done after

/-- The operation goes on with the program in memory. -/
def Operation.GoesOn (operation : Operation) : Prop :=
  operation.FromMemory ∧ operation.startsOver = false

instance (operation : Operation) : Decidable operation.GoesOn :=
  inferInstanceAs (Decidable (_ ∧ _))

theorem Session.execute_of_perform {s after : Session} {instruction : Instruction}
    (hperform : s.perform instruction = .done after) : s.execute instruction = .ok after := by
  rw [perform_eq] at hperform
  cases hexecute : s.execute instruction with
  | ok reached =>
      rw [hexecute] at hperform
      cases hperform
      rfl
  | error fault =>
      rw [hexecute] at hperform
      cases hperform

theorem Operation.GoesOn.cases {operation : Operation} (hgoing : operation.GoesOn) :
    operation = .step ∨ (∃ keypad, operation = .showKeys keypad) ∨ operation = .countDown ∨
      operation = .present := by
  obtain ⟨hmemory, hover⟩ := hgoing
  cases operation with
  | boot program => cases hover
  | restart => cases hover
  | step => exact .inl rfl
  | perform instruction => exact hmemory.elim
  | performAll instructions => exact hmemory.elim
  | showKeys keypad => exact .inr (.inl ⟨keypad, rfl⟩)
  | countDown => exact .inr (.inr (.inl rfl))
  | present => exact .inr (.inr (.inr rfl))

namespace Session

/-- The execution of an instruction, unless it fails. -/
def execution? (s : Session) (instruction : Instruction) : Option Execution :=
  match hperform : s.perform instruction with
  | ⟨after, none⟩ => some ⟨s, instruction, after, hperform⟩
  | ⟨_, some _⟩ => none

/-- The executions of instructions up to the first that fails. -/
def executionsAll (s : Session) : List Instruction → List Execution
  | [] => []
  | instruction :: rest =>
      match s.execution? instruction with
      | some execution => execution :: execution.after.executionsAll rest
      | none => []

/-- The executions of one operation. -/
def executionsOf (s : Session) : Operation → List Execution
  | .step => (s.executed?.bind s.execution?).toList
  | .perform instruction => (s.execution? instruction).toList
  | .performAll instructions => s.executionsAll instructions
  | _ => []

/-- The executions of a history, from the first to the latest. -/
def executions (s : Session) : List Operation → List Execution
  | [] => []
  | operation :: rest => s.executionsOf operation ++ (s.apply operation).2.executions rest

variable {s : Session} {instruction : Instruction} {execution : Execution}

theorem execution?_eq_some_iff :
    s.execution? instruction = some execution ↔
      execution.before = s ∧ execution.instruction = instruction := by
  obtain ⟨before, executed, after, hperformed⟩ := execution
  unfold execution?
  split
  · rename_i reached hperform
    simp only [Option.some.injEq]
    constructor
    · rintro heq
      cases heq
      exact ⟨rfl, rfl⟩
    · rintro ⟨rfl, rfl⟩
      cases hperform.symm.trans hperformed
      rfl
  · rename_i reached fault hperform
    simp only [reduceCtorEq, false_iff]
    rintro ⟨rfl, rfl⟩
    cases hperform.symm.trans hperformed

theorem execution?_of_perform {after : Session} (hperform : s.perform instruction = .done after) :
    s.execution? instruction = some ⟨s, instruction, after, hperform⟩ :=
  execution?_eq_some_iff.2 ⟨rfl, rfl⟩

theorem execution?_of_fault {fault : Fault}
    (hfault : (s.perform instruction).fault = some fault) : s.execution? instruction = none := by
  unfold execution?
  split
  · rename_i after hperform
    rw [hperform] at hfault
    cases hfault
  · rfl

/-- What a step executes is the next instruction in memory. -/
theorem forall_executionsOf_step {p : Session → Instruction → Prop} :
    (∀ execution ∈ s.executionsOf .step, p execution.before execution.instruction) ↔
      ∀ instruction, s.executed? = some instruction → p s instruction := by
  constructor
  · intro hall instruction hexecuted
    obtain ⟨-, -, after, hexecute, -⟩ := step_of_executed? hexecuted
    have hperform : s.perform instruction = .done after := by
      rw [perform_eq, hexecute]
      rfl
    apply hall ⟨s, instruction, after, hperform⟩
    simp [executionsOf, hexecuted, execution?_eq_some_iff]
  · intro hall execution hexecution
    simp only [executionsOf, Option.mem_toList, Option.bind_eq_some_iff,
      execution?_eq_some_iff] at hexecution
    obtain ⟨instruction, hexecuted, rfl, rfl⟩ := hexecution
    exact hall execution.instruction hexecuted

theorem executions_append (s : Session) (earlier later : List Operation) :
    s.executions (earlier ++ later) = s.executions earlier ++ (s.run earlier).executions later := by
  induction earlier generalizing s with
  | nil => rfl
  | cons operation rest ih =>
      rw [List.cons_append, executions, executions, ih, List.append_assoc]
      rfl

theorem executed?_congr {t : Session} (hactivity : t.activity = s.activity)
    (hnext : t.machine.nextInstruction = s.machine.nextInstruction)
    (hfault : t.step.fault = s.step.fault) : t.executed? = s.executed? := by
  simp only [executed?, hactivity, hnext, hfault]

/-- A change of a session goes through a step if the step executes the same as before the change
and the change goes through what it executes. -/
theorem state_step_of_change (change : Session → Session)
    (hexecuted : (change s).executed? = s.executed?)
    (hexecute : ∀ instruction after, s.executed? = some instruction →
      s.execute instruction = .ok after → (change s).execute instruction = .ok (change after)) :
    (change s).step.state = change s.step.state := by
  cases hinstruction : s.executed? with
  | none =>
      rw [step_of_executed?_eq_none hinstruction,
        step_of_executed?_eq_none (hexecuted.trans hinstruction)]
  | some instruction =>
      obtain ⟨-, -, after, hafter, hstep⟩ := step_of_executed? hinstruction
      obtain ⟨-, -, changed, hchanged, hstep'⟩ :=
        step_of_executed? (hexecuted.trans hinstruction)
      have hsame := hchanged.symm.trans (hexecute instruction after hinstruction hafter)
      cases hsame
      rw [hstep, hstep']
      rfl

end Session

end Chip8

import Chip8.Proofs.Procedure
import Chip8.Session.Operation

/-!
How a wait for a key goes on and how it ends.

A press is a key that is up in one look at the keypad and down in the next one.  Until there is a
press a waiting session does no more than keep the latest look and let its timers run down, and
the first press ends the wait, whatever was held before it began.
-/

namespace Chip8

namespace Keypad

/-- The lowest key that goes down from one look to the next. -/
def LowestPress (before now : Keypad) (key : Nat) : Prop :=
  wentDown before now key = true ∧ ∀ lower < key, wentDown before now lower = false

instance (before now : Keypad) (key : Nat) : Decidable (LowestPress before now key) :=
  inferInstanceAs (Decidable (_ ∧ _))

/-- No key goes down from any look to the next. -/
def Quiet (first : Keypad) : List Keypad → Prop
  | [] => True
  | now :: later => (∀ key, wentDown first now key = false) ∧ now.Quiet later

theorem lt_of_wentDown {before now : Keypad} {key : Nat}
    (hdown : wentDown before now key = true) : key < 16 := by
  apply Nat.lt_of_not_le
  intro hbeyond
  rw [wentDown, isDown_of_sixteen_le now hbeyond] at hdown
  cases hdown

theorem firstPressed?_eq_some_iff {before now : Keypad} {key : Nat} :
    firstPressed? before now = some key ↔ LowestPress before now key := by
  rw [firstPressed?, List.find?_range_eq_some, LowestPress]
  simp only [List.mem_range, Bool.not_eq_eq_eq_not, Bool.not_true]
  constructor
  · rintro ⟨hdown, -, hlower⟩
    exact ⟨hdown, hlower⟩
  · rintro ⟨hdown, hlower⟩
    exact ⟨hdown, lt_of_wentDown hdown, hlower⟩

/-- Keys that are only held or let go press nothing. -/
theorem quiet_of_pairwise {first : Keypad} {looks : List Keypad}
    (hheld : (first :: looks).Pairwise fun before now =>
      ∀ key, now.isDown key = true → before.isDown key = true) : first.Quiet looks := by
  induction looks generalizing first with
  | nil => trivial
  | cons now later ih =>
      obtain ⟨hfirst, hlater⟩ := List.pairwise_cons.1 hheld
      refine ⟨?_, ih hlater⟩
      intro key
      have hkey := hfirst now List.mem_cons_self key
      cases hdown : now.isDown key with
      | false => simp [wentDown, hdown]
      | true => simp [wentDown, hkey hdown]

end Keypad

namespace Operation

/-- The operation is one of those that go on while a key is waited for. -/
def Passing : Operation → Prop
  | step => True
  | showKeys _ => True
  | countDown => True
  | _ => False

instance (operation : Operation) : Decidable operation.Passing :=
  match operation with
  | .step => .isTrue trivial
  | .showKeys _ => .isTrue trivial
  | .countDown => .isTrue trivial
  | .boot _ => .isFalse id
  | .restart => .isFalse id
  | .perform _ => .isFalse id
  | .performAll _ => .isFalse id
  | .present => .isFalse id

/-- The looks at the keypad that a history takes. -/
def looks : List Operation → List Keypad
  | [] => []
  | showKeys keypad :: rest => keypad :: looks rest
  | _ :: rest => looks rest

end Operation

open Operation

namespace Session

/-- A session that has waited through a history in which no key was pressed. -/
def afterWait (s : Session) (history : List Operation) : Session :=
  { s with
    machine :=
      { s.machine with
        keypad := (looks history).getLastD s.machine.keypad
        delayTimer := Machine.ticked s.machine.delayTimer (history.count .countDown)
        soundTimer := Machine.ticked s.machine.soundTimer (history.count .countDown) } }

variable {s : Session} {register : UInt8} {history : List Operation}

theorem showKeys_of_none {keypad : Keypad} (hactivity : s.activity = .awaitingKey register)
    (hnone : ∀ key, Keypad.wentDown s.machine.keypad keypad key = false) :
    s.showKeys keypad = { s with machine := { s.machine with keypad } } := by
  have hfirst := (Keypad.firstPressed?_eq_none_iff s.machine.keypad keypad).2 hnone
  simp only [showKeys, hactivity, hfirst]

theorem showKeys_of_lowestPress {keypad : Keypad} {key : Nat}
    (hactivity : s.activity = .awaitingKey register)
    (hpress : Keypad.LowestPress s.machine.keypad keypad key) :
    s.showKeys keypad =
      { s with
        machine :=
          { s.machine with
            keypad
            registers := s.machine.registers.set register (UInt8.ofNat key) }
        activity := .running } := by
  have hfirst := Keypad.firstPressed?_eq_some_iff.2 hpress
  simp only [showKeys, hactivity, hfirst]
  rfl

/-- Without a press a waiting session only keeps the latest look and counts down. -/
theorem run_of_quiet (hactivity : s.activity = .awaitingKey register)
    (hpassing : ∀ operation ∈ history, operation.Passing)
    (hquiet : s.machine.keypad.Quiet (looks history)) : s.run history = s.afterWait history := by
  induction history generalizing s with
  | nil => simp [run, afterWait, looks]
  | cons operation rest ih =>
      have hrest : ∀ later ∈ rest, later.Passing := fun later hlater =>
        hpassing later (List.mem_cons_of_mem operation hlater)
      change (s.apply operation).2.run rest = _
      cases operation with
      | step =>
          change s.step.state.run rest = _
          rw [step_of_awaiting hactivity]
          change s.run rest = _
          rw [ih hactivity hrest hquiet]
          simp [afterWait, looks]
      | showKeys keypad =>
          obtain ⟨hnone, hlater⟩ := hquiet
          have hcount : (Operation.showKeys keypad :: rest).count .countDown =
              rest.count .countDown := List.count_cons_of_ne (by simp)
          change (s.showKeys keypad).run rest = _
          rw [showKeys_of_none hactivity hnone]
          rw [ih (s := { s with machine := { s.machine with keypad } }) hactivity hrest hlater]
          rw [afterWait, afterWait, hcount, looks, List.getLastD_cons]
      | countDown =>
          change s.countDown.run rest = _
          rw [ih (s := s.countDown) hactivity hrest hquiet]
          simp [afterWait, countDown, Machine.countDown, looks]
      | _ => exact (hpassing _ List.mem_cons_self).elim

/-- A history either brings no press at all, or it has a first one. -/
theorem quiet_or_exists_press (first : Keypad) (history : List Operation) :
    first.Quiet (looks history) ∨
      ∃ earlier keypad later key, history = earlier ++ .showKeys keypad :: later ∧
        first.Quiet (looks earlier) ∧
        Keypad.LowestPress ((looks earlier).getLastD first) keypad key := by
  induction history generalizing first with
  | nil => exact .inl trivial
  | cons operation rest ih =>
      by_cases hlook : ∃ keypad, operation = .showKeys keypad
      · obtain ⟨keypad, rfl⟩ := hlook
        cases hpressed : Keypad.firstPressed? first keypad with
        | some key =>
            exact .inr ⟨[], keypad, rest, key, rfl, trivial,
              Keypad.firstPressed?_eq_some_iff.1 hpressed⟩
        | none =>
            have hnone := (Keypad.firstPressed?_eq_none_iff first keypad).1 hpressed
            rcases ih keypad with hquiet | ⟨earlier, now, later, key, hsplit, hquiet, hpress⟩
            · exact .inl ⟨hnone, hquiet⟩
            · refine .inr ⟨.showKeys keypad :: earlier, now, later, key, ?_, ⟨hnone, hquiet⟩, ?_⟩
              · rw [hsplit, List.cons_append]
              · rwa [looks, List.getLastD_cons]
      · have hskip : ∀ list, looks (operation :: list) = looks list := by
          intro list
          rw [looks]
          intro keypad hoperation
          exact hlook ⟨keypad, hoperation⟩
        rcases ih first with hquiet | ⟨earlier, now, later, key, hsplit, hquiet, hpress⟩
        · exact .inl (by rwa [hskip])
        · refine .inr ⟨operation :: earlier, now, later, key, ?_, ?_, ?_⟩
          · rw [hsplit, List.cons_append]
          · rwa [hskip]
          · rwa [hskip]

/-- A session that waits for a key goes on waiting, with its timers running down, until the first
key is pressed; that key goes to the register and ends the wait.  Keys that were already held
when the wait began do not end it. -/
theorem wait_until_press (hactivity : s.activity = .awaitingKey register)
    (hpassing : ∀ operation ∈ history, operation.Passing) :
    let first := s.machine.keypad
    (∀ earlier later, history = earlier ++ later → first.Quiet (looks earlier) →
      s.run earlier = s.afterWait earlier ∧
      (s.run earlier).activity = .awaitingKey register ∧
      (s.run earlier).step = .done (s.run earlier)) ∧
    (∀ earlier keypad later key, history = earlier ++ .showKeys keypad :: later →
      first.Quiet (looks earlier) →
      Keypad.LowestPress ((looks earlier).getLastD first) keypad key →
      s.run (earlier ++ [.showKeys keypad]) =
        { s.run earlier with
          machine :=
            { (s.run earlier).machine with
              keypad
              registers := (s.run earlier).machine.registers.set register (UInt8.ofNat key) }
          activity := .running }) ∧
    (first.Quiet (looks history) ∨
      ∃ earlier keypad later key, history = earlier ++ .showKeys keypad :: later ∧
        first.Quiet (looks earlier) ∧
        Keypad.LowestPress ((looks earlier).getLastD first) keypad key) ∧
    ((first :: looks history).Pairwise
        (fun before now => ∀ key, now.isDown key = true → before.isDown key = true) →
      (s.run history).activity = .awaitingKey register) := by
  intro first
  have hwait : ∀ earlier later, history = earlier ++ later → first.Quiet (looks earlier) →
      s.run earlier = s.afterWait earlier := by
    intro earlier later hsplit hquiet
    apply run_of_quiet hactivity _ hquiet
    intro operation hoperation
    exact hpassing operation (hsplit ▸ List.mem_append_left later hoperation)
  refine ⟨?_, ?_, quiet_or_exists_press first history, ?_⟩
  · intro earlier later hsplit hquiet
    have hrun := hwait earlier later hsplit hquiet
    have hstill : (s.run earlier).activity = .awaitingKey register := by
      rw [hrun]
      exact hactivity
    exact ⟨hrun, hstill, step_of_awaiting hstill⟩
  · intro earlier keypad later key hsplit hquiet hpress
    have hrun := hwait earlier _ hsplit hquiet
    rw [run_append, hrun]
    exact showKeys_of_lowestPress (s := s.afterWait earlier) hactivity hpress
  · intro hheld
    rw [hwait history [] (List.append_nil history).symm (Keypad.quiet_of_pairwise hheld)]
    exact hactivity

/-- Key `2` is held from the start and let go, then key `C` goes down. -/
theorem wait_until_press_held_key :
    let start : Session :=
      { plain with
        machine := { Machine.initial with keypad := .single 0x2, delayTimer := 1 }
        activity := .awaitingKey 0x3 }
    let earlier := [Operation.step, .showKeys (.single 0x2), .countDown, .showKeys .released, .step]
    let history := earlier ++ [.showKeys (.single 0xC), .step]
    start.activity = .awaitingKey 0x3 ∧ (∀ operation ∈ history, operation.Passing) ∧
      (start.run earlier).activity = .awaitingKey 0x3 ∧
      start.run (earlier ++ [.showKeys (.single 0xC)]) =
        { start.run earlier with
          machine :=
            { (start.run earlier).machine with
              keypad := .single 0xC
              registers := (start.run earlier).machine.registers.set 0x3 0xC }
          activity := .running } := by
  intro start earlier history
  have hpassing : ∀ operation ∈ history, operation.Passing := by decide
  have hquiet : start.machine.keypad.Quiet (looks earlier) :=
    ⟨(Keypad.firstPressed?_eq_none_iff _ _).1 (by decide),
      (Keypad.firstPressed?_eq_none_iff _ _).1 (by decide), trivial⟩
  obtain ⟨hwait, hpress, -, -⟩ := wait_until_press (s := start) rfl hpassing
  exact ⟨rfl, hpassing, (hwait earlier _ rfl hquiet).2.1,
    hpress earlier (.single 0xC) [.step] 0xC rfl hquiet (by decide)⟩

end Session

end Chip8

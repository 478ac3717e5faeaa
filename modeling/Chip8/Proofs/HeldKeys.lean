import Chip8.Keypad.Hold
import Chip8.Proofs.Latest

/-!
Held keys and the history of presses.

A key counts as down for less than the timeout after any of its presses.  A hold keeps only the
latest press of each key.  As long as the presses come in the order of time this is enough: where
some press of a key is recent, the latest one is.
-/

namespace Chip8

/-- A press of a key at an instant. -/
structure Press where
  key : UInt8
  instant : Nat
  deriving DecidableEq, Repr

namespace Press

/-- No press comes before one that is listed earlier. -/
def InOrder (presses : List Press) : Prop :=
  presses.Pairwise fun earlier later => earlier.instant ≤ later.instant

instance (presses : List Press) : Decidable (InOrder presses) :=
  inferInstanceAs (Decidable (List.Pairwise _ presses))

/-- The instant of a press, if it is one of the given key. -/
def instantOf? (key : Nat) (press : Press) : Option Nat :=
  if press.key.toNat % 16 = key % 16 then some press.instant else none

theorem instantOf?_eq_some_iff {key instant : Nat} {press : Press} :
    press.instantOf? key = some instant ↔
      press.key.toNat % 16 = key % 16 ∧ press.instant = instant := by
  rw [instantOf?, Option.ite_none_right_eq_some, Option.some.injEq]

theorem exists_mem_of_latest? {presses : List Press} {key latest : Nat}
    (hlatest : latest? (instantOf? key) presses = some latest) :
    ∃ press ∈ presses, press.key.toNat % 16 = key % 16 ∧ press.instant = latest := by
  obtain ⟨earlier, last, later, rfl, hlast, -⟩ := (latest?_eq_some_iff _).1 hlatest
  obtain ⟨hkey, hinstant⟩ := instantOf?_eq_some_iff.1 hlast
  exact ⟨last, List.mem_append_right earlier List.mem_cons_self, hkey, hinstant⟩

/-- Where a key was pressed at all, the latest of its presses in order is at the highest instant. -/
theorem InOrder.exists_latest {presses : List Press} {key : Nat} (horder : InOrder presses)
    {press : Press} (hpress : press ∈ presses) (hkey : press.key.toNat % 16 = key % 16) :
    ∃ latest, latest? (instantOf? key) presses = some latest ∧ press.instant ≤ latest := by
  have hsays : press.instantOf? key = some press.instant := instantOf?_eq_some_iff.2 ⟨hkey, rfl⟩
  cases hlatest : latest? (instantOf? key) presses with
  | none =>
      rw [(latest?_eq_none_iff _).1 hlatest press hpress] at hsays
      cases hsays
  | some latest =>
      refine ⟨latest, rfl, ?_⟩
      obtain ⟨earlier, last, later, rfl, hlast, hsilent⟩ := (latest?_eq_some_iff _).1 hlatest
      obtain ⟨-, rfl⟩ := instantOf?_eq_some_iff.1 hlast
      rcases List.mem_append.1 hpress with hearlier | hrest
      · exact (List.pairwise_append.1 horder).2.2 press hearlier last List.mem_cons_self
      · rcases List.mem_cons.1 hrest with rfl | hlater
        · exact Nat.le_refl _
        · rw [hsilent press hlater] at hsays
          cases hsays

/-- Some press of a key is recent just when its latest press is. -/
theorem InOrder.exists_recent_iff {presses : List Press} (horder : InOrder presses)
    (key now timeout : Nat) :
    (∃ press ∈ presses, press.key.toNat % 16 = key % 16 ∧ now < press.instant + timeout) ↔
      ∃ latest, latest? (instantOf? key) presses = some latest ∧ now < latest + timeout := by
  constructor
  · rintro ⟨press, hpress, hkey, hrecent⟩
    obtain ⟨latest, hlatest, hle⟩ := horder.exists_latest hpress hkey
    exact ⟨latest, hlatest, Nat.lt_of_lt_of_le hrecent (Nat.add_le_add_right hle timeout)⟩
  · rintro ⟨latest, hlatest, hrecent⟩
    obtain ⟨press, hpress, hkey, rfl⟩ := exists_mem_of_latest? hlatest
    exact ⟨press, hpress, hkey, hrecent⟩

end Press

namespace KeyHold

/-- The hold after presses, one after another. -/
def pressAll (hold : KeyHold) (presses : List Press) : KeyHold :=
  presses.foldl (fun hold press => hold.press press.key press.instant) hold

variable (hold : KeyHold)

theorem lastPress?_press_eq_or (press : Press) (key : Nat) :
    (hold.press press.key press.instant).lastPress? key =
      (press.instantOf? key).or (hold.lastPress? key) := by
  rw [lastPress?_press, Press.instantOf?]
  by_cases hkey : press.key.toNat % 16 = key % 16
  · rw [if_pos hkey, if_pos hkey.symm, Option.some_or]
  · rw [if_neg hkey, if_neg (Ne.symm hkey), Option.none_or]

theorem lastPress?_pressAll (presses : List Press) (key : Nat) :
    (hold.pressAll presses).lastPress? key =
      (latest? (Press.instantOf? key) presses).or (hold.lastPress? key) :=
  view_foldl (lastPress? · key) (fun hold press => hold.lastPress?_press_eq_or press key) hold
    presses

@[simp] theorem timeout_pressAll (presses : List Press) :
    (hold.pressAll presses).timeout = hold.timeout := by
  induction presses generalizing hold with
  | nil => rfl
  | cons press rest ih => exact ih (hold.press press.key press.instant)

theorem holds_eq_true_iff (now key : Nat) :
    hold.holds now key = true ↔
      ∃ instant, hold.lastPress? key = some instant ∧ now - instant < hold.timeout := by
  rw [holds]
  cases hold.lastPress? key with
  | none => simp
  | some instant => simp

theorem isDown_keypad (now : Nat) {key : Nat} (hkey : key < 16) :
    (hold.keypad now).isDown key = hold.holds now key :=
  Keypad.isDown_ofPredicate (hold.holds now) hkey

theorem keypad_of_timeout_eq_zero (hzero : hold.timeout = 0) (now : Nat) :
    hold.keypad now = .released := by
  apply Keypad.ext_isDown
  intro key hkey
  rw [isDown_keypad _ _ hkey, Keypad.isDown_released, Bool.eq_false_iff, ne_eq, holds_eq_true_iff]
  rintro ⟨instant, -, hlate⟩
  omega

/-- After presses in the order of time, a key is down at an instant that none of them is behind just
when some press of it came less than the timeout before.  Of the number of a pressed key the last
hexadecimal digit counts.  Without a timeout no key is ever down. -/
theorem down_iff_pressed_lately (timeout : Nat) (presses : List Press) (now : Nat)
    (horder : Press.InOrder presses) (hpast : ∀ press ∈ presses, press.instant ≤ now) :
    (∀ key < 16, (((ofTimeout timeout).pressAll presses).keypad now).isDown key = true ↔
      ∃ press ∈ presses, press.key.toNat % 16 = key ∧ now < press.instant + timeout) ∧
    ((ofTimeout 0).pressAll presses).keypad now = .released := by
  refine ⟨?_, keypad_of_timeout_eq_zero _ (timeout_pressAll _ presses) now⟩
  intro key hkey
  have hdigit : key % 16 = key := Nat.mod_eq_of_lt hkey
  have hrecent := horder.exists_recent_iff key now timeout
  rw [hdigit] at hrecent
  rw [isDown_keypad _ _ hkey, holds_eq_true_iff, timeout_pressAll, lastPress?_pressAll,
    lastPress?_ofTimeout, hrecent]
  simp only [Option.or_none, ofTimeout]
  constructor
  · rintro ⟨latest, hlatest, hlate⟩
    exact ⟨latest, hlatest, by omega⟩
  · rintro ⟨latest, hlatest, hlate⟩
    obtain ⟨press, hpress, -, rfl⟩ := Press.exists_mem_of_latest? hlatest
    have hbefore := hpast press hpress
    exact ⟨press.instant, hlatest, by omega⟩

/-- A key that is pressed again under another number stays down, and a key whose press is as old as
the timeout is up. -/
theorem down_iff_pressed_lately_repeated :
    let presses : List Press := [⟨0x03, 100⟩, ⟨0x15, 150⟩, ⟨0x13, 180⟩]
    let hold := (ofTimeout 100).pressAll presses
    Press.InOrder presses ∧ (∀ press ∈ presses, press.instant ≤ 250) ∧
      (hold.keypad 250).isDown 3 = true ∧ (hold.keypad 250).isDown 5 = false := by
  intro presses hold
  have horder : Press.InOrder presses := by decide
  have hpast : ∀ press ∈ presses, press.instant ≤ 250 := by decide
  have hdown := (down_iff_pressed_lately 100 presses 250 horder hpast).1
  refine ⟨horder, hpast, ?_, ?_⟩
  · exact (hdown 3 (by decide)).2 (by decide)
  · exact Bool.eq_false_iff.2 (mt (hdown 5 (by decide)).1 (by decide))

end KeyHold

end Chip8

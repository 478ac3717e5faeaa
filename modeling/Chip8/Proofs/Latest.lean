/-!
What the latest entry of a list says.

Where entries come one after another and each of them says something new about a place or leaves it
alone, the place holds what the latest entry said that said anything, or else what it held at first.
-/

namespace Chip8

section Latest

variable {Entry Value State : Type} (says? : Entry → Option Value)

/-- What the latest entry says that says anything. -/
def latest? (entries : List Entry) : Option Value :=
  entries.reverse.findSome? says?

theorem latest?_cons (entry : Entry) (rest : List Entry) :
    latest? says? (entry :: rest) = (latest? says? rest).or (says? entry) := by
  rw [latest?, List.reverse_cons, List.findSome?_append, List.findSome?_singleton, latest?]

theorem latest?_eq_some_iff {entries : List Entry} {value : Value} :
    latest? says? entries = some value ↔
      ∃ earlier entry later, entries = earlier ++ entry :: later ∧ says? entry = some value ∧
        ∀ other ∈ later, says? other = none := by
  rw [latest?, List.findSome?_eq_some_iff]
  constructor
  · rintro ⟨later, entry, earlier, hsplit, hsays, hsilent⟩
    refine ⟨earlier.reverse, entry, later.reverse, ?_, hsays, ?_⟩
    · rw [← List.reverse_reverse entries, hsplit]
      simp
    · intro other hother
      exact hsilent other (List.mem_reverse.1 hother)
  · rintro ⟨earlier, entry, later, hsplit, hsays, hsilent⟩
    refine ⟨later.reverse, entry, earlier.reverse, ?_, hsays, ?_⟩
    · rw [hsplit]
      simp
    · intro other hother
      exact hsilent other (List.mem_reverse.1 hother)

theorem latest?_eq_none_iff {entries : List Entry} :
    latest? says? entries = none ↔ ∀ entry ∈ entries, says? entry = none := by
  rw [latest?, List.findSome?_eq_none_iff]
  simp only [List.mem_reverse]

/-- A view that every step keeps or replaces by what its entry says ends as the latest entry
says. -/
theorem view_foldl {says? : Entry → Option Value} {step : State → Entry → State}
    (view : State → Option Value)
    (hstep : ∀ state entry, view (step state entry) = (says? entry).or (view state))
    (state : State) (entries : List Entry) :
    view (entries.foldl step state) = (latest? says? entries).or (view state) := by
  induction entries generalizing state with
  | nil => rfl
  | cons entry rest ih =>
      rw [List.foldl_cons, ih, hstep, latest?_cons, Option.or_assoc]

end Latest

end Chip8

import Chip8.Proofs.Frames
import Mathlib.Data.List.DropRight

/-!
What a viewer sees who asks a session for frames.

A viewer begins with a blank picture and replaces it by every frame handed out.  Whatever writes to
the screen marks it as changed, and only handing out a frame takes the mark away; but a session that
starts over has a blank screen without a mark.  So right after asking for a frame the picture is the
screen, except that a picture from before the latest start stays until there is something to hand
out.
-/

namespace Chip8

namespace Reply

/-- The picture after a reply. -/
def replace (picture : Screen) : Reply → Screen
  | frame (some screen) => screen
  | _ => picture

/-- The reply hands out a frame. -/
def HandsOut : Reply → Prop
  | frame (some _) => True
  | _ => False

theorem replace_of_not_handsOut {reply : Reply} (hreply : ¬ reply.HandsOut) (picture : Screen) :
    reply.replace picture = picture := by
  cases reply with
  | frame screen =>
      cases screen with
      | some screen => exact (hreply trivial).elim
      | none => rfl
  | _ => rfl

/-- A frame that is handed out does away with the picture before it. -/
theorem replace_of_handsOut {reply : Reply} (hreply : reply.HandsOut) (picture other : Screen) :
    reply.replace picture = reply.replace other := by
  cases reply with
  | frame screen =>
      cases screen with
      | some screen => rfl
      | none => exact hreply.elim
  | _ => exact hreply.elim

theorem foldl_replace_of_not_handsOut {replies : List Reply}
    (hnone : ¬ ∃ reply ∈ replies, reply.HandsOut) (picture : Screen) :
    replies.foldl replace picture = picture := by
  induction replies generalizing picture with
  | nil => rfl
  | cons reply rest ih =>
      have hreply : ¬ reply.HandsOut := fun h => hnone ⟨reply, List.mem_cons_self, h⟩
      rw [List.foldl_cons, replace_of_not_handsOut hreply]
      apply ih
      rintro ⟨later, hmem, hlater⟩
      exact hnone ⟨later, List.mem_cons_of_mem reply hmem, hlater⟩

theorem foldl_replace_of_handsOut {replies : List Reply}
    (hsome : ∃ reply ∈ replies, reply.HandsOut) (picture other : Screen) :
    replies.foldl replace picture = replies.foldl replace other := by
  induction replies generalizing picture other with
  | nil =>
      obtain ⟨reply, hmem, -⟩ := hsome
      cases hmem
  | cons reply rest ih =>
      rw [List.foldl_cons, List.foldl_cons]
      by_cases hrest : ∃ later ∈ rest, later.HandsOut
      · exact ih hrest _ _
      · obtain ⟨found, hmem, hfound⟩ := hsome
        rcases List.mem_cons.1 hmem with rfl | hlater
        · rw [replace_of_handsOut hfound picture other]
        · exact (hrest ⟨found, hlater, hfound⟩).elim

theorem not_handsOut_ofFault? (fault : Option Fault) : ¬ (ofFault? fault).HandsOut := by
  cases fault with
  | none => exact id
  | some fault => exact id

end Reply

/-- The operation makes the session start over. -/
def Operation.startsOver : Operation → Bool
  | boot _ => true
  | restart => true
  | _ => false

namespace Session

/-- The picture of a viewer after a history; it was another one before. -/
def pictureFrom (s : Session) (picture : Screen) (history : List Operation) : Screen :=
  (s.replies history).foldl Reply.replace picture

/-- The picture of a viewer who watched a whole history. -/
def picture (s : Session) (history : List Operation) : Screen :=
  s.pictureFrom .blank history

/-- The screen was not written to, or it is marked as changed. -/
def Marks (before after : Session) : Prop :=
  after.machine.redraw = true ∨
    after.machine.screen = before.machine.screen ∧ after.machine.redraw = before.machine.redraw

/-- A picture is the screen, or else the screen is marked as changed. -/
def Shows (s : Session) (picture : Screen) : Prop :=
  s.machine.redraw = false → picture = s.machine.screen

theorem Marks.refl (s : Session) : s.Marks s :=
  .inr ⟨rfl, rfl⟩

theorem Marks.trans {s t u : Session} (hst : s.Marks t) (htu : t.Marks u) : s.Marks u := by
  rcases htu with hmark | ⟨hscreen, hredraw⟩
  · exact .inl hmark
  · rw [Marks, hscreen, hredraw]
    exact hst

theorem Shows.of_marks {s t : Session} {picture : Screen} (hshows : s.Shows picture)
    (hmarks : s.Marks t) : t.Shows picture := by
  intro hclean
  rcases hmarks with hmark | ⟨hscreen, hredraw⟩
  · rw [hmark] at hclean
    cases hclean
  · rw [hscreen]
    exact hshows (hredraw ▸ hclean)

variable (s : Session)

theorem marks_perform (instruction : Instruction) :
    s.Marks (s.perform instruction).state := by
  rw [perform_eq]
  cases hexecute : s.execute instruction with
  | error fault => exact .refl s
  | ok after =>
      obtain ⟨machine, hmachine, rfl⟩ := exists_of_map_eq_ok hexecute
      rcases (Machine.view_of_execute hmachine).2 with ⟨-, hmark⟩ | ⟨-, hsame⟩
      · exact .inl hmark
      · exact .inr hsame

theorem marks_performAll (instructions : List Instruction) :
    s.Marks (s.performAll instructions).state := by
  induction instructions generalizing s with
  | nil => exact .refl s
  | cons instruction rest ih =>
      have hfirst := s.marks_perform instruction
      rw [performAll_cons]
      rcases hperform : s.perform instruction with ⟨after, _ | fault⟩
      · rw [hperform] at hfirst
        exact hfirst.trans (ih after)
      · rw [hperform] at hfirst
        exact hfirst

theorem marks_step : s.Marks s.step.state := by
  rcases s.screen_of_step with ⟨-, hmark⟩ | ⟨-, hsame⟩
  · exact .inl hmark
  · exact .inr hsame

/-- Asking for a frame brings the picture up to date. -/
theorem shows_present {picture : Screen} (hshows : s.Shows picture) :
    s.present.2.Shows ((Reply.frame s.present.1).replace picture) := by
  intro _
  unfold present Machine.present
  split
  · rfl
  · rename_i hclean
    exact hshows (Bool.eq_false_iff.2 hclean)

theorem shows_apply {picture : Screen} {operation : Operation} (hshows : s.Shows picture)
    (hgoing : operation.startsOver = false) :
    (s.apply operation).2.Shows ((s.apply operation).1.replace picture) := by
  have hanswer : ∀ outcome : Outcome Session, s.Marks outcome.state →
      (answer outcome).2.Shows ((answer outcome).1.replace picture) := by
    intro outcome hmarks
    have hreply := Reply.not_handsOut_ofFault? outcome.fault
    rw [answer, Reply.replace_of_not_handsOut hreply]
    exact hshows.of_marks hmarks
  cases operation with
  | boot program => cases hgoing
  | restart => cases hgoing
  | step => exact hanswer s.step s.marks_step
  | perform instruction => exact hanswer _ (s.marks_perform instruction)
  | performAll instructions => exact hanswer _ (s.marks_performAll instructions)
  | showKeys keypad => exact hshows.of_marks (.inr (s.screen_showKeys keypad))
  | countDown => exact hshows
  | present => exact s.shows_present hshows

/-- As long as the session does not start over, a picture that was up to date keeps up. -/
theorem shows_run {picture : Screen} {history : List Operation} (hshows : s.Shows picture)
    (hgoing : ∀ operation ∈ history, operation.startsOver = false) :
    (s.run history).Shows (s.pictureFrom picture history) := by
  induction history generalizing s picture with
  | nil => exact hshows
  | cons operation rest ih =>
      have hfirst := s.shows_apply hshows (hgoing operation List.mem_cons_self)
      exact ih _ hfirst fun later hlater => hgoing later (List.mem_cons_of_mem operation hlater)

theorem redraw_run_present (history : List Operation) :
    (s.run (history ++ [.present])).machine.redraw = false := by
  rw [run_append]
  change (s.run history).present.2.machine.redraw = false
  unfold present Machine.present
  split
  · rfl
  · rename_i hclean
    exact Bool.eq_false_iff.2 hclean

theorem replies_append (earlier later : List Operation) :
    s.replies (earlier ++ later) = s.replies earlier ++ (s.run earlier).replies later := by
  induction earlier generalizing s with
  | nil => rfl
  | cons operation rest ih =>
      rw [List.cons_append, replies, ih]
      rfl

theorem picture_append (earlier later : List Operation) :
    s.picture (earlier ++ later) =
      (s.run earlier).pictureFrom (s.picture earlier) later := by
  rw [picture, pictureFrom, replies_append, List.foldl_append]
  rfl

theorem screen_of_startsOver {operation : Operation} (hover : operation.startsOver = true) :
    (s.apply operation).2.machine.screen = .blank := by
  cases operation with
  | boot program => exact (s.screen_boot program).1
  | restart => rfl
  | _ => cases hover

/-- The screen is blank where the operations since the latest start begin. -/
theorem screen_run_rdropWhile {history : List Operation} (hblank : s.machine.screen = .blank) :
    (s.run (history.rdropWhile (!·.startsOver))).machine.screen = .blank := by
  by_cases hnil : history.rdropWhile (!·.startsOver) = []
  · rw [hnil]
    exact hblank
  · have hlast := List.rdropWhile_last_not _ history hnil
    rw [← List.dropLast_append_getLast hnil, run_append]
    exact screen_of_startsOver _ (by simpa using hlast)

/-- A viewer who comes to a blank screen with a picture of its own keeps it until the first frame
is handed out. -/
theorem pictureFrom_eq_screen_iff {since : List Operation} (picture : Screen)
    (hblank : s.machine.screen = .blank)
    (hgoing : ∀ operation ∈ since, operation.startsOver = false) :
    s.pictureFrom picture (since ++ [.present]) =
        (s.run (since ++ [.present])).machine.screen ↔
      picture = .blank ∨ ∃ reply ∈ s.replies (since ++ [.present]), reply.HandsOut := by
  have hgoing' : ∀ operation ∈ since ++ [.present], operation.startsOver = false := by
    intro operation hmem
    rcases List.mem_append.1 hmem with hsince | hpresent
    · exact hgoing operation hsince
    · rw [List.mem_singleton.1 hpresent]
      rfl
  have hshows : s.Shows .blank := fun _ => hblank.symm
  have hscreen := s.shows_run hshows hgoing' (s.redraw_run_present since)
  rw [← hscreen]
  by_cases hframe : ∃ reply ∈ s.replies (since ++ [.present]), reply.HandsOut
  · simp only [hframe, or_true, iff_true]
    exact Reply.foldl_replace_of_handsOut hframe picture .blank
  · simp only [hframe, or_false]
    rw [pictureFrom, pictureFrom, Reply.foldl_replace_of_not_handsOut hframe,
      Reply.foldl_replace_of_not_handsOut hframe]

/-- Without a new start the picture is the screen each time a frame was asked for. -/
theorem picture_eq_screen_of_going (dialect : Dialect) (random : RandomBytes)
    {history : List Operation}
    (hgoing : ∀ operation ∈ history, operation.startsOver = false) :
    (new dialect random).picture (history ++ [.present]) =
      ((new dialect random).run (history ++ [.present])).machine.screen :=
  ((new dialect random).pictureFrom_eq_screen_iff .blank rfl hgoing).2 (.inl rfl)

/-- Right after a frame was asked for, whether there was one or not, the picture is the screen just
when the picture was blank at the latest start or a frame has been handed out since. -/
theorem picture_eq_screen_iff (dialect : Dialect) (random : RandomBytes)
    (history : List Operation) :
    let s := new dialect random
    let earlier := history.rdropWhile (!·.startsOver)
    let since := history.rtakeWhile (!·.startsOver)
    s.picture (history ++ [.present]) = (s.run (history ++ [.present])).machine.screen ↔
      s.picture earlier = .blank ∨
        ∃ reply ∈ (s.run earlier).replies (since ++ [.present]), reply.HandsOut := by
  intro s earlier since
  have hsplit : history ++ [.present] = earlier ++ (since ++ [.present]) := by
    rw [← List.append_assoc, List.rdropWhile_append_rtakeWhile]
  have hgoing : ∀ operation ∈ since, operation.startsOver = false := by
    intro operation hmem
    simpa using List.mem_rtakeWhile_imp hmem
  rw [hsplit, picture_append, run_append]
  exact pictureFrom_eq_screen_iff _ _ (s.screen_run_rdropWhile rfl) hgoing

/-- A picture from before a new start stays although the screen is blank: after a glyph row was
drawn and shown, starting over leaves nothing to hand out. -/
theorem picture_ne_screen_of_restart :
    ¬ ∀ (dialect : Dialect) (random : RandomBytes) (history : List Operation),
      (new dialect random).picture (history ++ [.present]) =
        ((new dialect random).run (history ++ [.present])).machine.screen := by
  intro hall
  have hrestart := hall .standard (.ofBytes []) [.perform (.draw 0 1 1), .present, .restart]
  have hlit := congrArg (Screen.pixel · ⟨0, 0⟩) hrestart
  revert hlit
  decide +kernel

end Session

end Chip8

import LedgerIndex.Ingest.Notices
import Mathlib.Data.List.Induction

/-! # What arrives of the notifications

A `Move` is one thing that happens to a buffer of notifications, by a sender or by the receiver, and
`Delivery.after` is what a list of moves makes of an empty buffer.  What was received or still waits
was handed in, in the same order (`Delivery.through_sublist`), and nothing was lost as long as the
receiver stays and no notification finds the buffer full (`Delivery.through_eq`). -/

namespace LedgerIndex.Notices

/-- Something that happens to a buffer.  A receiver that shuts takes no new notifications but may
still receive those that wait; one that is dropped loses them. -/
inductive Move where
  | sent (channel : String) (progress : Progress)
  | received (count : Nat)
  | shut
  | dropped
deriving DecidableEq, Repr

/-- A buffer, and what was received from it. -/
structure Delivery where
  notices : Notices
  received : List (String × Progress) := []
deriving DecidableEq, Repr

/-- The notification that a move hands to the sender. -/
def Move.handed? : Move → Option (String × Progress)
  | sent channel progress => some (channel, progress)
  | _ => none

/-- What is handed to the sender, whether it finds room or not. -/
def handed (moves : List Move) : List (String × Progress) :=
  moves.filterMap Move.handed?

/-- The notifications about one channel. -/
def onChannel (channel : String) (notices : List (String × Progress)) : List Progress :=
  notices.filterMap fun notice => if notice.1 = channel then some notice.2 else none

namespace Delivery

def step (delivery : Delivery) : Move → Delivery
  | .sent channel progress =>
    { delivery with notices := delivery.notices.send channel progress }
  | .received count =>
    { notices := { delivery.notices with waiting := delivery.notices.waiting.drop count }
      received := delivery.received ++ delivery.notices.waiting.take count }
  | .shut => { delivery with notices := { delivery.notices with receiving := false } }
  | .dropped => { delivery with notices := delivery.notices.close }

/-- What some moves make of an empty buffer. -/
def after (capacity : Nat) (moves : List Move) : Delivery :=
  moves.foldl step { notices := ofCapacity capacity }

/-- What was received, and what still waits. -/
def through (delivery : Delivery) : List (String × Progress) :=
  delivery.received ++ delivery.notices.waiting

/-- The receiver stays. -/
def Open (moves : List Move) : Prop :=
  ∀ move ∈ moves, move ≠ .shut ∧ move ≠ .dropped

instance (moves : List Move) : Decidable (Open moves) :=
  inferInstanceAs (Decidable (∀ move ∈ moves, move ≠ .shut ∧ move ≠ .dropped))

/-- No notification finds the buffer full. -/
def Roomy (capacity : Nat) (moves : List Move) : Prop :=
  ∀ before channel progress rest, moves = before ++ .sent channel progress :: rest →
    (after capacity before).notices.waiting.length < capacity

variable {capacity : Nat} {moves : List Move} {move : Move} {delivery : Delivery}

theorem step_received_waiting (delivery : Delivery) :
    delivery.step (.received delivery.notices.waiting.length) =
      { notices := delivery.notices.drain.2
        received := delivery.received ++ delivery.notices.drain.1 } := by
  simp [step, drain]

theorem after_concat : after capacity (moves ++ [move]) = (after capacity moves).step move := by
  rw [after, List.foldl_append]
  rfl

theorem handed_concat : handed (moves ++ [move]) = handed moves ++ move.handed?.toList := by
  rw [handed, List.filterMap_append]
  cases move <;> rfl

/-! ### One move -/

/-- A move lets nothing through but what it hands in, behind everything else. -/
theorem through_step_sublist (delivery : Delivery) (move : Move) :
    (delivery.step move).through.Sublist (delivery.through ++ move.handed?.toList) := by
  cases move with
  | sent channel progress =>
      simp only [step, through, send]
      split
      · rw [← List.append_assoc]
        exact List.Sublist.refl _
      · exact List.sublist_append_left _ _
  | received count =>
      rw [step, through, List.append_assoc, List.take_append_drop]
      exact List.sublist_append_left _ _
  | shut => exact List.sublist_append_left _ _
  | dropped =>
      rw [step, through, close, List.append_nil]
      exact (List.sublist_append_left _ _).trans (List.sublist_append_left _ _)

theorem through_step_eq (hreceiving : delivery.notices.receiving = true)
    (hroom : move.handed? ≠ none → delivery.notices.waiting.length < delivery.notices.capacity)
    (hshut : move ≠ .shut) (hdropped : move ≠ .dropped) :
    (delivery.step move).through = delivery.through ++ move.handed?.toList := by
  cases move with
  | sent channel progress =>
      rw [step, through, send, if_pos ⟨hreceiving, hroom nofun⟩, ← List.append_assoc]
      rfl
  | received count =>
      rw [step, through, List.append_assoc, List.take_append_drop]
      exact (List.append_nil _).symm
  | shut => exact absurd rfl hshut
  | dropped => exact absurd rfl hdropped

theorem capacity_step (delivery : Delivery) (move : Move) :
    (delivery.step move).notices.capacity = delivery.notices.capacity := by
  cases move with
  | sent channel progress =>
      rw [step, send]
      split <;> rfl
  | received count => rfl
  | shut => rfl
  | dropped => rfl

theorem receiving_step (hshut : move ≠ .shut) (hdropped : move ≠ .dropped) :
    (delivery.step move).notices.receiving = delivery.notices.receiving := by
  cases move with
  | sent channel progress =>
      rw [step, send]
      split <;> rfl
  | received count => rfl
  | shut => exact absurd rfl hshut
  | dropped => exact absurd rfl hdropped

/-! ### All moves -/

theorem capacity_after (capacity : Nat) (moves : List Move) :
    (after capacity moves).notices.capacity = capacity := by
  induction moves using List.reverseRecOn with
  | nil => rfl
  | append_singleton moves move ih => rw [after_concat, capacity_step, ih]

theorem Open.of_append {rest : List Move} (h : Open (moves ++ rest)) : Open moves :=
  fun move hmove => h move (List.mem_append_left rest hmove)

theorem Roomy.of_append {rest : List Move} (h : Roomy capacity (moves ++ rest)) :
    Roomy capacity moves := by
  rintro before channel progress middle rfl
  exact h before channel progress (middle ++ rest) (by rw [List.append_assoc, List.cons_append])

theorem receiving_after (h : Open moves) : (after capacity moves).notices.receiving = true := by
  induction moves using List.reverseRecOn with
  | nil => rfl
  | append_singleton moves move ih =>
      obtain ⟨hshut, hdropped⟩ := h move (by simp)
      rw [after_concat, receiving_step hshut hdropped, ih h.of_append]

/-- **What arrives was handed in, in this order.** -/
theorem through_sublist (capacity : Nat) (moves : List Move) :
    (after capacity moves).through.Sublist (handed moves) := by
  induction moves using List.reverseRecOn with
  | nil => exact List.Sublist.refl _
  | append_singleton moves move ih =>
      rw [after_concat, handed_concat]
      exact (through_step_sublist _ move).trans (ih.append_right _)

/-- **Everything arrives** if the receiver stays and the buffer is never full. -/
theorem through_eq (hopen : Open moves) (hroomy : Roomy capacity moves) :
    (after capacity moves).through = handed moves := by
  induction moves using List.reverseRecOn with
  | nil => rfl
  | append_singleton moves move ih =>
      obtain ⟨hshut, hdropped⟩ := hopen move (by simp)
      rw [after_concat, handed_concat, ← ih hopen.of_append hroomy.of_append]
      refine through_step_eq (receiving_after hopen.of_append) (fun hhanded => ?_) hshut hdropped
      rw [capacity_after]
      cases move with
      | sent channel progress => exact hroomy moves channel progress [] rfl
      | received count => exact absurd rfl hhanded
      | shut => exact absurd rfl hhanded
      | dropped => exact absurd rfl hhanded

/-- A buffer with a place for everything that is handed in is never full. -/
theorem roomy_of_length_le (h : (handed moves).length ≤ capacity) : Roomy capacity moves := by
  rintro before channel progress rest rfl
  have hwaiting : (after capacity before).notices.waiting.length ≤ (handed before).length :=
    ((List.sublist_append_right _ _).trans (through_sublist capacity before)).length_le
  have hhanded : (handed before).length
      < (handed (before ++ .sent channel progress :: rest)).length := by
    rw [handed, handed, List.filterMap_append, List.length_append]
    exact Nat.lt_add_of_pos_right (Nat.succ_pos _)
  omega

end Delivery

end LedgerIndex.Notices

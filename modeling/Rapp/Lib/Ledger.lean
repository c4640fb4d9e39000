import Mathlib.Data.List.Basic

/-!
# Ledgers of a queue with two ends

What was given to a first-in first-out queue, what its receiver accepted from
it, and what it still holds. The queue is balanced when the accepted part
followed by the held part is everything given, in order.
-/
namespace FifoLedger

variable {α : Type}

structure Ledger (α : Type) where
  given : List α
  accepted : List α
  held : List α
  deriving DecidableEq, Repr

namespace Ledger

def Balanced (l : Ledger α) : Prop := l.accepted ++ l.held = l.given

instance [DecidableEq α] (l : Ledger α) : Decidable l.Balanced :=
  inferInstanceAs (Decidable (_ = _))

def give (l : Ledger α) (xs : List α) : Ledger α :=
  { l with given := l.given ++ xs, held := l.held ++ xs }

/-- The first `count` elements leave the queue and the receiver accepts at
most the first `limit` of them. -/
def release (l : Ledger α) (count limit : Nat) : Ledger α :=
  { l with
    accepted := l.accepted ++ (l.held.take count).take limit
    held := l.held.drop count }

theorem balanced_give {l : Ledger α} (h : l.Balanced) (xs : List α) : (l.give xs).Balanced := by
  simp only [Balanced, give, ← List.append_assoc]
  rw [h]

theorem Balanced.length {l : Ledger α} (h : l.Balanced) :
    l.accepted.length + l.held.length = l.given.length := by
  rw [← h, List.length_append]

/-- A release keeps the balance exactly when everything released is accepted. -/
theorem balanced_release_iff {l : Ledger α} (h : l.Balanced) {count limit : Nat}
    (hc : count ≤ l.held.length) : (l.release count limit).Balanced ↔ count ≤ limit := by
  constructor
  · intro hr
    have hafter := hr.length
    have hbefore := h.length
    simp only [release, List.length_append, List.length_take, List.length_drop] at hafter
    omega
  · intro hle
    simp only [Balanced, release]
    rw [List.take_of_length_le (by simp only [List.length_take]; omega), List.append_assoc,
      List.take_append_drop]
    exact h

/-- A balanced queue that holds nothing has been accepted in full. -/
theorem Balanced.accepted_eq {l : Ledger α} (h : l.Balanced) (he : l.held = []) :
    l.accepted = l.given := by
  rw [← h, he, List.append_nil]

end Ledger

end FifoLedger

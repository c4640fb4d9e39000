import Mathlib.Data.List.Count
import Mathlib.Data.List.Perm.Basic
import Rapp.Lib.Outcome

/-!
# Books of resources

A trace of events, some of which take a resource and some of which give one
back. A resource that was taken more often than it was given back is held. The
books of a trace name what is held, with multiplicity. Everything here is over
arbitrary events and resources.
-/
namespace ResourceBooks

open CallOutcome (Guarded)

variable {ε ρ : Type} [DecidableEq ρ]

/-- What an event does to the resources. -/
inductive Effect (ρ : Type) where
  | takes (resource : ρ)
  | gives (resource : ρ)
  | none
  deriving DecidableEq

variable (effect : ε → Effect ρ)

def taken (trace : List ε) (r : ρ) : Nat := trace.countP fun e => effect e = .takes r
def returned (trace : List ε) (r : ρ) : Nat := trace.countP fun e => effect e = .gives r

def Held (trace : List ε) (r : ρ) : Prop := returned effect trace r < taken effect trace r

instance (trace : List ε) (r : ρ) : Decidable (Held effect trace r) :=
  inferInstanceAs (Decidable (_ < _))

/-- Each resource is held as often as the list says. -/
def Books (held : List ρ) (trace : List ε) : Prop :=
  ∀ r, returned effect trace r + held.count r = taken effect trace r

variable {effect}

@[simp] theorem taken_concat (trace : List ε) (e : ε) (r : ρ) :
    taken effect (trace ++ [e]) r =
      taken effect trace r + if effect e = .takes r then 1 else 0 := by
  simp [taken, List.countP_append, List.countP_singleton]

@[simp] theorem returned_concat (trace : List ε) (e : ε) (r : ρ) :
    returned effect (trace ++ [e]) r =
      returned effect trace r + if effect e = .gives r then 1 else 0 := by
  simp [returned, List.countP_append, List.countP_singleton]

theorem books_nil : Books effect ([] : List ρ) [] := fun _ => rfl

namespace Books

variable {held : List ρ} {trace : List ε}

theorem mem_iff (h : Books effect held trace) (r : ρ) : r ∈ held ↔ Held effect trace r := by
  rw [← List.count_pos_iff, Held, ← h r]
  omega

theorem perm (h : Books effect held trace) {other : List ρ} (hperm : held.Perm other) :
    Books effect other trace :=
  fun r => by rw [← hperm.count_eq, h r]

/-- The books of a trace are unique up to the order. -/
theorem perm_of (h : Books effect held trace) {other : List ρ}
    (hother : Books effect other trace) : held.Perm other := by
  refine List.perm_iff_count.mpr fun r => ?_
  have hcount := h r
  have hcount' := hother r
  omega

theorem take (h : Books effect held trace) {e : ε} {r : ρ} (he : effect e = .takes r) :
    Books effect (r :: held) (trace ++ [e]) := by
  intro other
  have hcount := h other
  by_cases hr : r = other
  · simp [he, hr]
    omega
  · simp [he, hr]
    omega

theorem give {r : ρ} (h : Books effect (r :: held) trace) {e : ε} (he : effect e = .gives r) :
    Books effect held (trace ++ [e]) := by
  intro other
  have hcount := h other
  by_cases hr : r = other
  · simp [he, hr] at hcount ⊢
    omega
  · simp [he, hr] at hcount ⊢
    omega

theorem skip (h : Books effect held trace) {e : ε} (he : effect e = .none) :
    Books effect held (trace ++ [e]) := by
  intro other
  simpa [he] using h other

end Books

/-! ### Rules -/

variable (effect) in
/-- An event gives back what is held, and meets a condition of its own. -/
def Allowed (rule : List ε → ε → Prop) (trace : List ε) (e : ε) : Prop :=
  (∀ r, effect e = .gives r → Held effect trace r) ∧ rule trace e

/-- A trace whose events may all happen, with its books. -/
structure Account (effect : ε → Effect ρ) (rule : List ε → ε → Prop) (held : List ρ)
    (trace : List ε) : Prop where
  books : Books effect held trace
  guarded : Guarded (Allowed effect rule) trace

namespace Account

variable {rule : List ε → ε → Prop} {held : List ρ} {trace : List ε}

theorem perm (h : Account effect rule held trace) {other : List ρ} (hperm : held.Perm other) :
    Account effect rule other trace := ⟨h.books.perm hperm, h.guarded⟩

theorem held_of_mem (h : Account effect rule held trace) {r : ρ} (hr : r ∈ held) :
    Held effect trace r := (h.books.mem_iff r).mp hr

theorem take (h : Account effect rule held trace) {e : ε} {r : ρ} (he : effect e = .takes r)
    (hrule : rule trace e) : Account effect rule (r :: held) (trace ++ [e]) :=
  ⟨h.books.take he, CallOutcome.guarded_concat h.guarded ⟨by simp [he], hrule⟩⟩

theorem give {r : ρ} (h : Account effect rule (r :: held) trace) {e : ε} (he : effect e = .gives r)
    (hrule : rule trace e) : Account effect rule held (trace ++ [e]) := by
  refine ⟨h.books.give he, CallOutcome.guarded_concat h.guarded ⟨fun other hother => ?_, hrule⟩⟩
  obtain rfl : r = other := by simpa [he] using hother
  exact h.held_of_mem List.mem_cons_self

theorem skip (h : Account effect rule held trace) {e : ε} (he : effect e = .none)
    (hrule : rule trace e) : Account effect rule held (trace ++ [e]) :=
  ⟨h.books.skip he, CallOutcome.guarded_concat h.guarded ⟨by simp [he], hrule⟩⟩

end Account

theorem account_nil {rule : List ε → ε → Prop} : Account effect rule ([] : List ρ) [] :=
  ⟨books_nil, by intro xs e ys he; simp at he⟩

end ResourceBooks

import Mathlib.Logic.Function.Basic

/-!
# Heaps of objects of one type

An allocator answers with an address, or not at all. An address that is in use
is no answer.
-/
namespace ObjectHeap

variable {α : Type}

abbrev Heap (α : Type) := Nat → Option α

namespace Heap

/-- The answer is memory that is not in use. -/
def Gives (heap : Heap α) (answer : Option Nat) : Prop :=
  ∃ address, answer = some address ∧ heap address = none

/-- The address of a new object and the heap with it. -/
def create (heap : Heap α) (answer : Option Nat) (object : α) : Option (Nat × Heap α) :=
  answer.bind fun address =>
    if (heap address).isSome then none
    else some (address, Function.update heap address (some object))

def destroy (heap : Heap α) (address : Nat) : Heap α := Function.update heap address none

def modify (heap : Heap α) (address : Nat) (f : α → α) : Heap α :=
  Function.update heap address ((heap address).map f)

theorem create_of_not_gives {heap : Heap α} {answer : Option Nat} (h : ¬ heap.Gives answer)
    (object : α) : heap.create answer object = none := by
  cases answer with
  | none => rfl
  | some address =>
    have hused : (heap address).isSome = true := by
      by_contra hfree
      exact h ⟨address, rfl, by simpa using hfree⟩
    simp [create, hused]

theorem create_of_free {heap : Heap α} {address : Nat} (h : heap address = none) (object : α) :
    heap.create (some address) object =
      some (address, Function.update heap address (some object)) := by
  simp [create, h]

/-- An object that was created and destroyed. -/
theorem destroy_update {heap : Heap α} {address : Nat} (h : heap address = none)
    (object : Option α) : destroy (Function.update heap address object) address = heap := by
  rw [destroy, Function.update_idem, ← h, Function.update_eq_self]

@[simp] theorem modify_update (heap : Heap α) (address : Nat) (object : α) (f : α → α) :
    modify (Function.update heap address (some object)) address f =
      Function.update heap address (some (f object)) := by
  simp [modify]

@[simp] theorem modify_id (heap : Heap α) (address : Nat) : heap.modify address id = heap := by
  simp [modify]

@[simp] theorem modify_modify (heap : Heap α) (address : Nat) (f g : α → α) :
    (heap.modify address f).modify address g = heap.modify address fun object => g (f object) := by
  simp [modify, Function.comp_def]

end Heap

end ObjectHeap

import Rapp.Dispatch
import Rapp.WatchRegistry

/-!
# Registrations that fail

`event_loop_add_fd_watch` writes the record, its mask and the callback first and
asks the kernel afterwards. What a call that fails leaves behind decides which
operation of `epoll_ctl` the next call for the descriptor uses.
-/
namespace Rapp

variable {κ : Type}

namespace ELoop

/-- The callback registered for a descriptor and a type. -/
def callbackOf (loop : ELoop κ) (fd : Nat) (type : ELoopWatchFdCallbackType) : Option κ :=
  (loop.findCallbackByFd fd).bind fun ec => ec.callbacks type

/-- The mask registered for a descriptor. -/
def maskOf (loop : ELoop κ) (fd : Nat) : EpollEvents :=
  ((loop.findCallbackByFd fd).map ELoopCallback.events).getD EpollEvents.none

/-- A descriptor has a record exactly when the kernel watches it, so that the
operation chosen for it is the one the kernel expects. -/
def Expects (loop : ELoop κ) (fd : Nat) : Prop :=
  (loop.findCallbackByFd fd).isSome = (loop.interest fd).isSome

/-- The registry is the same, and where the kernel expected the next operation
for the descriptor it still does: with memory and its consent an add succeeds. -/
structure Unchanged (before after : ELoop κ) (fd : Nat) : Prop where
  callbacks : ∀ other type, after.callbackOf other type = before.callbackOf other type
  masks : ∀ other, after.maskOf other = before.maskOf other
  again : before.Expects fd → ∀ type callback address, after.load address = none →
    (after.addFdWatch fd type callback (some address) true).1 = 0

/-- A call that returns a negative value changes nothing. -/
def FailsCleanly (loop : ELoop κ) (fd : Nat) (type : ELoopWatchFdCallbackType) (callback : κ)
    (allocated : Option Nat) (accepted : Bool) : Prop :=
  (loop.addFdWatch fd type callback allocated accepted).1 < 0 →
    loop.Unchanged (loop.addFdWatch fd type callback allocated accepted).2 fd

/-- There is no memory for a record, the watch is already registered as it is,
or the kernel takes the operation. -/
def AddSpares (loop : ELoop κ) (fd : Nat) (type : ELoopWatchFdCallbackType) (callback : κ)
    (allocated : Option Nat) (accepted : Bool) : Prop :=
  match loop.findCallbackByFd fd with
  | none => (loop.memoryCreate allocated).isNone ∨ (accepted = true ∧ loop.interest fd = none)
  | some ec => (ec.callbacks type = some callback ∧ ec.events.has type = true) ∨
      (accepted = true ∧ (loop.interest fd).isSome = true)

/-! ### The answer of the kernel -/

theorem control_add_refused {loop : ELoop κ} {fd : Nat} {accepted : Bool}
    (h : ¬ (accepted = true ∧ loop.interest fd = none)) (event : Interest) :
    loop.control (.add event) fd accepted = (-1, loop) := by
  cases accepted <;> cases hold : loop.interest fd <;> simp_all [control, epollCtl]

theorem control_mod_refused {loop : ELoop κ} {fd : Nat} {accepted : Bool}
    (h : ¬ (accepted = true ∧ (loop.interest fd).isSome = true)) (event : Interest) :
    loop.control (.mod event) fd accepted = (-1, loop) := by
  cases accepted <;> cases hold : loop.interest fd <;> simp_all [control, epollCtl]

/-- What an add does with a new record before it asks the kernel. -/
theorem addFdWatch_new {loop : ELoop κ} {fd : Nat} (hfind : loop.findCallbackByFd fd = none)
    {allocated : Option Nat} {ec : ELoopCallback κ}
    (hmemory : loop.memoryCreate allocated = some ec) (type : ELoopWatchFdCallbackType)
    (callback : κ) :
    ∃ recorded : ELoop κ, recorded.interest = loop.interest ∧
      recorded.findCallbackByFd fd = some (ec.watch fd type callback) ∧
      ∀ accepted, loop.addFdWatch fd type callback allocated accepted =
        recorded.control (.add (ec.watch fd type callback).ev) fd accepted := by
  refine ⟨{ loop with
    callbacksList := ec.watch fd type callback :: loop.callbacksList
    nextSerial := loop.nextSerial + 1 }, rfl, ?_, fun accepted => ?_⟩
  · exact List.find?_cons_of_pos (by simp)
  · simp only [addFdWatch, hfind, hmemory]

theorem addFdWatch_known {loop : ELoop κ} {fd : Nat} {ec : ELoopCallback κ}
    (hfind : loop.findCallbackByFd fd = some ec) (type : ELoopWatchFdCallbackType) (callback : κ)
    (allocated : Option Nat) (accepted : Bool) :
    loop.addFdWatch fd type callback allocated accepted =
      (loop.write (ec.watch fd type callback)).control
        (.mod (ec.watch fd type callback).ev) fd accepted := by
  simp only [addFdWatch, hfind]

/-- An add for which the kernel expects the operation that is chosen. -/
theorem Expects.addFdWatch {loop : ELoop κ} {fd : Nat} (h : loop.Expects fd)
    (type : ELoopWatchFdCallbackType) (callback : κ) {address : Nat}
    (hfree : loop.load address = none) :
    (loop.addFdWatch fd type callback (some address) true).1 = 0 := by
  cases hfind : loop.findCallbackByFd fd with
  | none =>
    have hinterest : loop.interest fd = none := by
      rw [Expects, hfind] at h
      exact Option.isNone_iff_eq_none.mp (Option.isSome_eq_false_iff.mp h.symm)
    have hmemory : loop.memoryCreate (some address) =
        some (ELoopCallback.new ⟨address, loop.nextSerial⟩) := by
      simp [memoryCreate, hfree]
    obtain ⟨recorded, hsame, -, hcall⟩ := addFdWatch_new hfind hmemory type callback
    rw [hcall, control_add recorded (by rw [hsame, hinterest])]
  | some ec =>
    obtain ⟨old, hinterest⟩ : ∃ old, loop.interest fd = some old := by
      rw [Expects, hfind] at h
      exact Option.isSome_iff_exists.mp h.symm
    rw [addFdWatch_known hfind, control_mod (loop.write (ec.watch fd type callback)) hinterest]

/-! ### What is left behind -/

/-- A watch that is already there. -/
theorem watch_eq_self {ec : ELoopCallback κ} {fd : Nat} {type : ELoopWatchFdCallbackType}
    {callback : κ} (hfd : ec.fd = fd) (hcallback : ec.callbacks type = some callback)
    (hevent : ec.events.has type = true) : ec.watch fd type callback = ec := by
  have hevents : ec.events.assign true type = ec.events := by
    cases hec : ec.events
    rw [hec] at hevent
    cases type <;> simp_all [EpollEvents.assign, EpollEvents.has]
  rw [ELoopCallback.watch, hevents, ← hcallback, Function.update_eq_self, ← hfd]

/-- Writing back what is there. -/
theorem write_self {loop : ELoop κ} (h : loop.Sound) {ec : ELoopCallback κ}
    (hec : ec ∈ loop.callbacksList) : loop.write ec = loop := by
  have hlist : loop.callbacksList.map
      (fun c => if c.registration = ec.registration then ec else c) = loop.callbacksList := by
    rw [List.map_congr_left (g := id), List.map_id]
    intro c hc
    by_cases hsame : c.registration = ec.registration
    · rw [if_pos hsame, id, h.eq_of_address hc hec (by rw [hsame])]
    · rw [if_neg hsame, id]
  rw [write, hlist]

theorem unchanged_self {loop : ELoop κ} (fd : Nat) : loop.Unchanged loop fd where
  callbacks _ _ := rfl
  masks _ := rfl
  again h type callback _ := h.addFdWatch type callback

/-- A record that was added or written is found by its descriptor. -/
theorem callbackOf_of_find {loop : ELoop κ} {fd : Nat} {ec : ELoopCallback κ}
    (h : loop.findCallbackByFd fd = some ec) (type : ELoopWatchFdCallbackType) :
    loop.callbackOf fd type = ec.callbacks type := by
  rw [callbackOf, h, Option.bind_some]

theorem maskOf_of_find {loop : ELoop κ} {fd : Nat} {ec : ELoopCallback κ}
    (h : loop.findCallbackByFd fd = some ec) : loop.maskOf fd = ec.events := by
  rw [maskOf, h, Option.map_some, Option.getD_some]

/-- A call for a descriptor without a record. -/
theorem Sound.failsCleanly_new {loop : ELoop κ} {fd : Nat}
    (hfind : loop.findCallbackByFd fd = none) (type : ELoopWatchFdCallbackType) (callback : κ)
    (allocated : Option Nat) (accepted : Bool) :
    loop.FailsCleanly fd type callback allocated accepted ↔
      (loop.memoryCreate allocated).isNone ∨ (accepted = true ∧ loop.interest fd = none) := by
  cases hmemory : loop.memoryCreate allocated with
  | none =>
    have hcall : loop.addFdWatch fd type callback allocated accepted = (-1, loop) := by
      simp only [addFdWatch, hfind, hmemory]
    simp only [FailsCleanly, hcall, Option.isNone_none, true_or, iff_true]
    exact fun _ => unchanged_self fd
  | some ec =>
    simp only [Option.isNone_some, Bool.false_eq_true, false_or]
    obtain ⟨recorded, hsame, hfound, hcall⟩ := addFdWatch_new hfind hmemory type callback
    rw [← hsame]
    by_cases htaken : accepted = true ∧ recorded.interest fd = none
    · obtain ⟨rfl, hinterest⟩ := htaken
      have hresult : (loop.addFdWatch fd type callback allocated true).1 = 0 := by
        rw [hcall, control_add recorded hinterest]
      simp only [FailsCleanly, hresult, lt_self_iff_false, false_implies, hinterest, and_self]
    · -- The record stays in the list.
      simp only [FailsCleanly, hcall, control_add_refused htaken, htaken, iff_false]
      intro hclean
      have hcallbacks := (hclean (by decide)).callbacks fd type
      rw [callbackOf_of_find hfound, callbackOf, hfind] at hcallbacks
      simp [ELoopCallback.watch] at hcallbacks

/-- A call for a descriptor that has a record. -/
theorem Sound.failsCleanly_known {loop : ELoop κ} (h : loop.Sound) {fd : Nat}
    {ec : ELoopCallback κ} (hfind : loop.findCallbackByFd fd = some ec)
    (type : ELoopWatchFdCallbackType) (callback : κ) (allocated : Option Nat) (accepted : Bool) :
    loop.FailsCleanly fd type callback allocated accepted ↔
      (ec.callbacks type = some callback ∧ ec.events.has type = true) ∨
        (accepted = true ∧ (loop.interest fd).isSome = true) := by
  have hcall := addFdWatch_known hfind type callback allocated accepted
  by_cases htaken : accepted = true ∧ (loop.interest fd).isSome = true
  · obtain ⟨rfl, hinterest⟩ := htaken
    obtain ⟨old, hold⟩ := Option.isSome_iff_exists.mp hinterest
    rw [control_mod (loop.write (ec.watch fd type callback)) hold] at hcall
    simp only [FailsCleanly, hcall, lt_self_iff_false, false_implies, hinterest, and_self, or_true]
  · have hrefused : (loop.write (ec.watch fd type callback)).control
        (.mod (ec.watch fd type callback).ev) fd accepted =
          (-1, loop.write (ec.watch fd type callback)) :=
      @control_mod_refused κ (loop.write (ec.watch fd type callback)) fd accepted htaken _
    rw [hrefused] at hcall
    have hmem : ec ∈ loop.callbacksList := List.mem_of_find?_eq_some hfind
    have hfd := findCallbackByFd_fd hfind
    simp only [FailsCleanly, hcall, htaken, or_false]
    constructor
    · -- The mask and the callback are those that were refused.
      intro hclean
      have hkept := hclean (by decide)
      have hwritten := find_write h hfind (ec.watch_fd fd type callback) rfl fd
      rw [if_pos rfl] at hwritten
      have hcallback := hkept.callbacks fd type
      have hmask := hkept.masks fd
      rw [callbackOf_of_find hwritten, callbackOf_of_find hfind] at hcallback
      rw [maskOf_of_find hwritten, maskOf_of_find hfind] at hmask
      refine ⟨?_, ?_⟩
      · rw [← hcallback]
        simp [ELoopCallback.watch]
      · rw [← hmask, ELoopCallback.watch, has_assign, if_pos rfl]
    · rintro ⟨hcallback, hevent⟩ -
      rw [watch_eq_self hfd hcallback hevent, write_self h hmem]
      exact unchanged_self fd

/-- In every state that operations reach, whatever their answers, a failing
registration changes nothing exactly when it could not get memory for a new
record or asked for what was registered already. -/
theorem addFdWatch_failsCleanly_iff (script : List (WatchOp κ)) (fd : Nat)
    (type : ELoopWatchFdCallbackType) (callback : κ) (allocated : Option Nat) (accepted : Bool) :
    (new.perform script).FailsCleanly fd type callback allocated accepted ↔
      (new.perform script).AddSpares fd type callback allocated accepted := by
  have hsound : (new.perform script : ELoop κ).Sound := sound_perform sound_new script
  cases hfind : (new.perform script : ELoop κ).findCallbackByFd fd with
  | none =>
    rw [AddSpares, hfind]
    exact Sound.failsCleanly_new hfind type callback allocated accepted
  | some ec =>
    rw [AddSpares, hfind]
    exact hsound.failsCleanly_known hfind type callback allocated accepted

/-- The kernel refuses the first watch of a descriptor, and the next add asks it
to modify what it does not have. -/
theorem not_addFdWatch_failsCleanly_refused :
    ¬ (new.perform [] : ELoop Nat).FailsCleanly 5 .read 10 (some 100) false ∧
      ((new.addFdWatch 5 .read 10 (some 100) false).2.addFdWatch 5 .read 10 (some 101) true).1 =
        (-1 : Int) := by
  refine ⟨fun hclean => ?_, rfl⟩
  have hcallbacks := (hclean (by decide)).callbacks 5 .read
  exact absurd hcallbacks (by decide)

end ELoop

end Rapp

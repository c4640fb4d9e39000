import Rapp.EventLoop
import Rapp.Lib.Handles

/-!
# Dispatching to live registrations

`event_loop_run` keeps the pointer of an event over three tests, and the
entries of a batch over the callbacks of the entries before. A callback that
frees a registration the batch has still to test leaves a dangling pointer.
-/
namespace Rapp

open CallOutcome (Outcome run Admitted Spares Handles)

variable {κ : Type}

/-- A read of `eloop_callback->callbacks[type]`, and what the callback found there does. -/
structure Test (κ : Type) where
  registration : Registration
  type : ELoopWatchFdCallbackType
  script : List (WatchOp κ)

/-- The reads made for an event, in order. -/
def EpollEvent.tests (event : EpollEvent κ) : List (Test κ) :=
  ([.close, .read, .write].filter event.events.has).map fun type =>
    ⟨event.registration, type, event.runs type⟩

namespace ELoop

def test (test : Test κ) (loop : ELoop κ) : Outcome FreedRead (ELoop κ) :=
  loop.invokeCallback test.registration.address test.type test.script

/-- The reads of a batch. -/
def tests (loop : ELoop κ) (batch : Batch κ) : List (Test κ) :=
  (loop.epollWait batch.ready).flatMap EpollEvent.tests

theorem dispatchEvent_eq (event : EpollEvent κ) (loop : ELoop κ) :
    dispatchEvent event loop = run test event.tests loop := by
  rw [EpollEvent.tests, CallOutcome.run_map_input, CallOutcome.run_filter]
  refine congrArg (Outcome.bind (testCallback event .close loop)) ?_
  funext loop
  refine congrArg (Outcome.bind (testCallback event .read loop)) ?_
  funext loop
  exact (CallOutcome.bind_run_nil _ (testCallback event .write loop)).symm

theorem run_dispatchEvent (loop : ELoop κ) (batch : Batch κ) :
    run dispatchEvent (loop.epollWait batch.ready) loop = run test (loop.tests batch) loop := by
  rw [tests, CallOutcome.run_flatMap]
  refine congrArg (fun step => run step _ loop) ?_
  funext event loop
  exact dispatchEvent_eq event loop

/-- Every read of the loop finds the registration its event was reported for. -/
def DispatchesLive (loop : ELoop κ) (batches : List (Batch κ)) : Prop :=
  Admitted runBatch (fun loop batch => loop.running = true →
    Admitted test (fun loop test => loop.Live test.registration) loop (loop.tests batch))
    { loop with running := true } batches

/-- The test finds a callback, and what the callback does frees the registration. -/
def TestFrees (loop : ELoop κ) (test : Test κ) (registration : Registration) : Prop :=
  ((loop.load test.registration.address).bind fun ec => ec.callbacks test.type).isSome ∧
    registration ∈ freed test.script loop

/-- No callback removes the last watch of a registration the batch has still to test. -/
def SparesPending (loop : ELoop κ) (batches : List (Batch κ)) : Prop :=
  Admitted runBatch (fun loop batch => loop.running = true →
    Spares test Test.registration TestFrees loop (loop.tests batch))
    { loop with running := true } batches

/-! ### Lists of operations -/

theorem sound_perform {loop : ELoop κ} (h : loop.Sound) (script : List (WatchOp κ)) :
    (loop.perform script).Sound := by
  induction script generalizing loop with
  | nil => exact h
  | cons op script ih => exact ih (sound_apply h op)

theorem live_perform {loop : ELoop κ} (h : loop.Sound) {script : List (WatchOp κ)}
    {registration : Registration} (hlive : loop.Live registration)
    (hf : registration ∉ freed script loop) : (loop.perform script).Live registration := by
  induction script generalizing loop with
  | nil => exact hlive
  | cons op script ih =>
    simp only [freed, List.mem_append, Option.mem_toList, not_or] at hf
    exact ih (sound_apply h op) (live_apply h hlive hf.1) hf.2

theorem gone_perform {loop : ELoop κ} (h : loop.Sound) (script : List (WatchOp κ))
    {registration : Registration} (hgone : loop.Gone registration) :
    (loop.perform script).Gone registration := by
  induction script generalizing loop with
  | nil => exact hgone
  | cons op script ih => exact ih (sound_apply h op) (gone_apply h op hgone)

theorem gone_of_freed {loop : ELoop κ} (h : loop.Sound) {script : List (WatchOp κ)}
    {registration : Registration} (hf : registration ∈ freed script loop) :
    (loop.perform script).Gone registration := by
  induction script generalizing loop with
  | nil => simp [freed] at hf
  | cons op script ih =>
    simp only [freed, List.mem_append, Option.mem_toList] at hf
    rcases hf with hfirst | hrest
    · exact gone_perform (sound_apply h op) script (gone_of_freedBy h hfirst)
    · exact ih (sound_apply h op) hrest

/-! ### Tests -/

/-- A test leaves the loop alone or runs the callback. -/
theorem test_ok {loop next : ELoop κ} {t : Test κ} (h : test t loop = .ok next) :
    (next = loop ∧ ∀ registration, ¬ loop.TestFrees t registration) ∨
      (next = loop.perform t.script ∧
        ∀ registration ∈ freed t.script loop, loop.TestFrees t registration) := by
  unfold test invokeCallback at h
  split at h
  · cases h
  · rename_i ec hload
    split at h
    · rename_i hnone
      refine .inl ⟨(Outcome.ok.inj h).symm, fun registration hf => ?_⟩
      simp [TestFrees, hload, hnone] at hf
    · rename_i callback hsome
      refine .inr ⟨(Outcome.ok.inj h).symm, fun registration hf => ⟨?_, hf⟩⟩
      simp [hload, hsome]

/-- A test of a live registration reads it. -/
theorem test_total {loop : ELoop κ} {t : Test κ} (h : loop.Live t.registration) :
    ∃ next, test t loop = .ok next := by
  obtain ⟨ec, hload, -⟩ := h
  unfold test invokeCallback
  rw [hload]
  cases hcallback : ec.callbacks t.type with
  | none => exact ⟨loop, by simp [hcallback]⟩
  | some callback => exact ⟨loop.perform t.script, by simp [hcallback]⟩

theorem sound_test {loop next : ELoop κ} {t : Test κ} (h : loop.Sound)
    (ht : test t loop = .ok next) : next.Sound := by
  rcases test_ok ht with ⟨rfl, -⟩ | ⟨rfl, -⟩
  · exact h
  · exact sound_perform h t.script

/-- Tests use registrations as handles that callbacks may release. -/
theorem handles_test : Handles (test (κ := κ)) Test.registration Sound Live Gone TestFrees where
  invariant := fun t loop next h ht => sound_test h ht
  total := fun t loop _ hlive => test_total hlive
  kept := by
    intro t loop next registration h hlive hf ht
    rcases test_ok ht with ⟨rfl, -⟩ | ⟨rfl, hfrees⟩
    · exact hlive
    · exact live_perform h hlive fun hmem => hf (hfrees registration hmem)
  lost := by
    intro t loop next registration h _ hf ht
    rcases test_ok ht with ⟨rfl, hnone⟩ | ⟨rfl, -⟩
    · exact absurd hf (hnone registration)
    · exact gone_of_freed h hf.2
  stays := by
    intro t loop next registration h hgone ht
    rcases test_ok ht with ⟨rfl, -⟩ | ⟨rfl, -⟩
    · exact hgone
    · exact gone_perform h t.script hgone
  apart := by
    rintro loop registration ⟨-, hnot⟩ hlive
    obtain ⟨fd, hmem⟩ := mem_of_live hlive
    exact hnot fd hmem

/-- The registrations `epoll_wait` reports are in the list. -/
theorem live_tests {loop : ELoop κ} (h : loop.Sound) (batch : Batch κ) :
    ∀ t ∈ loop.tests batch, loop.Live t.registration := by
  intro t ht
  obtain ⟨event, hevent, htest⟩ := List.mem_flatMap.mp ht
  obtain ⟨ready, -, hready⟩ := List.mem_filterMap.mp hevent
  obtain ⟨interest, hinterest, rfl⟩ := Option.map_eq_some_iff.mp hready
  obtain ⟨type, -, rfl⟩ := List.mem_map.mp htest
  exact (live_iff h _).mpr ⟨ready.fd, h.interest _ _ hinterest⟩

theorem sound_runBatch {loop next : ELoop κ} {batch : Batch κ} (h : loop.Sound)
    (hb : runBatch batch loop = .ok next) : next.Sound := by
  unfold runBatch at hb
  split at hb
  · obtain ⟨dispatched, hrun, rfl⟩ := Outcome.map_eq_ok.mp hb
    rw [run_dispatchEvent] at hrun
    refine sound_perform ?_ batch.collected
    exact CallOutcome.run_history test (I := fun _ => Sound) h
      (fun _ t loop next hsound ht => sound_test hsound ht) hrun
  · cases hb

theorem sound_running {loop : ELoop κ} (h : loop.Sound) :
    ({ loop with running := true } : ELoop κ).Sound := by
  obtain ⟨haddresses, hserials, hinterest⟩ := h
  exact ⟨haddresses, hserials, hinterest⟩

/-- A batch that spares what it has still to test is read to its end, or the loop
has stopped before it. -/
theorem runBatch_spares {loop : ELoop κ} (h : loop.Sound) {batch : Batch κ}
    (hspares : loop.running = true →
      Spares test Test.registration TestFrees loop (loop.tests batch)) :
    (∃ next, runBatch batch loop = .ok next) ∨
      (loop.running = false ∧ runBatch batch loop = .failed loop) := by
  cases hrunning : loop.running with
  | false => exact .inr ⟨rfl, by rw [runBatch, if_neg (by simp [hrunning])]⟩
  | true =>
    have hlive := (handles_test.admitted_iff_spares h (live_tests h batch)).mpr (hspares hrunning)
    have htotal : ∀ (t : Test κ) (loop : ELoop κ), loop.Sound → loop.Live t.registration →
        ∃ next, test t loop = .ok next ∧ next.Sound := by
      intro t loop hsound hread
      obtain ⟨next, hnext⟩ := test_total hread
      exact ⟨next, hnext, sound_test hsound hnext⟩
    obtain ⟨dispatched, hrun, -⟩ := hlive.run_total h htotal
    rw [← run_dispatchEvent] at hrun
    exact .inl ⟨dispatched.perform batch.collected, by rw [runBatch, if_pos hrunning, hrun]; rfl⟩

/-- `event_loop_run` reads no freed registration where the callbacks spare what is still
to test: it takes all batches, or ends at the one before which it was stopped. -/
theorem eventLoopRun_spares {setup : List (WatchOp κ)} {batches : List (Batch κ)}
    (h : (new.perform setup).SparesPending batches) :
    ∃ next : ELoop κ, next.Sound ∧
      (eventLoopRun batches (new.perform setup) = .ok next ∨
        (eventLoopRun batches (new.perform setup) = .failed next ∧ next.running = false)) := by
  rw [eventLoopRun]
  have hsound := sound_running (sound_perform sound_new setup (κ := κ))
  unfold SparesPending at h
  generalize ({ new.perform setup with running := true } : ELoop κ) = loop at h hsound ⊢
  induction batches generalizing loop with
  | nil => exact ⟨loop, hsound, .inl rfl⟩
  | cons batch batches ih =>
    rcases runBatch_spares hsound h.head with ⟨middle, hbatch⟩ | ⟨hstopped, hbatch⟩
    · rw [CallOutcome.run_cons, hbatch]
      exact ih middle (h.tail hbatch) (sound_runBatch hsound hbatch)
    · refine ⟨loop, hsound, .inr ⟨?_, hstopped⟩⟩
      rw [CallOutcome.run_cons, hbatch, Outcome.bind_failed]

/-- In every run of the loop, after any setup and with any batches and
callbacks, the loop reads only live registrations exactly when no callback
removes the last watch of a registration the batch has still to test. -/
theorem dispatchesLive_iff (setup : List (WatchOp κ)) (batches : List (Batch κ)) :
    (new.perform setup).DispatchesLive batches ↔ (new.perform setup).SparesPending batches := by
  have hstart := sound_running (sound_perform sound_new setup (κ := κ))
  refine CallOutcome.admitted_congr hstart (fun batch loop next h => sound_runBatch h) ?_
  intro loop batch h
  exact forall_congr' fun _ => handles_test.admitted_iff_spares h (live_tests h batch)

/-- The watches of `tcp_connection_set_callbacks`, the allocator answering `address`. -/
def setCallbacks (fd address : Nat) : List (WatchOp Unit) :=
  [.add fd .read () (some address) true, .add fd .write () none true, .add fd .close () none true]

/-- `tcp_connection_close`. -/
def tcpConnectionClose (fd : Nat) : List (WatchOp Unit) :=
  [.remove fd .read true, .remove fd .write true, .remove fd .close true, .close fd]

/-- The peer sent its last bytes and shut down: one event with two bits. -/
def lastBytes : Batch Unit where
  ready := [{ fd := 5, events := ⟨true, false, true⟩,
              runs := fun type => if type = .close then tcpConnectionClose 5 else [] }]
  collected := []

example : eventLoopRun [lastBytes] (new.perform (setCallbacks 5 4096)) = .undefined ⟨4096⟩ := rfl

/-- The close callback frees the registration, and the read test reads it. -/
theorem not_dispatchesLive_lastBytes :
    ¬ (new.perform (setCallbacks 5 4096)).DispatchesLive [lastBytes] := by
  intro h
  have hbatch := h.head rfl
  obtain ⟨ec, hload, -⟩ := (hbatch.tail rfl).head
  have hfreed : (new.perform (setCallbacks 5 4096 ++ tcpConnectionClose 5)).load 4096 = none := rfl
  exact nomatch hfreed.symm.trans hload

end ELoop

end Rapp

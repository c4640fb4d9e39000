import Rapp.FailedWatch

/-!
# Watches with any answers of the kernel

What the registry and the kernel hold after adds and removals that the kernel
may refuse.
-/
namespace Rapp

variable {κ : Type}

namespace ELoop

/-! ### Adding watches -/

/-- A watch that was added, and the kernel has been told. -/
structure Granted (before after : ELoop κ) (fd : Nat) (type : ELoopWatchFdCallbackType)
    (callback : κ) : Prop where
  sound : after.Sound
  found : ∃ ec, after.findCallbackByFd fd = some ec
  callbacks : after.callbackOf fd = Function.update (before.callbackOf fd) type (some callback)
  mask : after.maskOf fd = (before.maskOf fd).assign true type
  interest : ∃ interest, after.interest fd = some interest ∧ interest.events = after.maskOf fd

/-- A record that was written, after the kernel has taken it. -/
theorem granted_of_written {before written : ELoop κ} {fd : Nat} {ec : ELoopCallback κ}
    {type : ELoopWatchFdCallbackType} {callback : κ}
    (hcallbacks : ec.callbacks = before.callbackOf fd) (hmask : ec.events = before.maskOf fd)
    (hfound : written.findCallbackByFd fd = some (ec.watch fd type callback))
    (hsound : (written.settle fd (some (ec.watch fd type callback).ev)).Sound) :
    before.Granted (written.settle fd (some (ec.watch fd type callback).ev)) fd type callback := by
  have hfind : (written.settle fd (some (ec.watch fd type callback).ev)).findCallbackByFd fd =
      some (ec.watch fd type callback) := hfound
  refine ⟨hsound, ⟨_, hfind⟩, ?_, ?_, _, Function.update_self _ _ _, ?_⟩
  · funext other
    rw [callbackOf_of_find hfind, ELoopCallback.watch, hcallbacks]
  · rw [maskOf_of_find hfind, ELoopCallback.watch, hmask]
  · rw [maskOf_of_find hfind]
    rfl

/-- A first watch, taken or not. -/
theorem Sound.addFdWatch_first {loop : ELoop κ} (h : loop.Sound) {fd : Nat}
    (hfind : loop.findCallbackByFd fd = none) (hinterest : loop.interest fd = none)
    (type : ELoopWatchFdCallbackType) (callback : κ) (allocated : Option Nat) (accepted : Bool) :
    (∃ after, loop.addFdWatch fd type callback allocated accepted = (0, after) ∧
      ((loop.memoryCreate allocated).isSome = true ∧ accepted = true) ∧
      loop.Granted after fd type callback) ∨
    ∃ after, loop.addFdWatch fd type callback allocated accepted = (-1, after) ∧
      ¬ ((loop.memoryCreate allocated).isSome = true ∧ accepted = true) ∧
      after.interest fd = none := by
  have hsound := sound_apply h (.add fd type callback allocated accepted)
  simp only [apply] at hsound
  cases hmemory : loop.memoryCreate allocated with
  | none =>
    have hcall : loop.addFdWatch fd type callback allocated accepted = (-1, loop) := by
      simp only [addFdWatch, hfind, hmemory]
    exact .inr ⟨loop, hcall, by simp, hinterest⟩
  | some ec =>
    obtain ⟨recorded, hsame, hfound, hcall⟩ := addFdWatch_new hfind hmemory type callback
    cases accepted with
    | false =>
      have hrefused : recorded.control (.add (ec.watch fd type callback).ev) fd false =
          (-1, recorded) := control_add_refused (by simp) _
      exact .inr ⟨recorded, (hcall false).trans hrefused, by simp, by rw [hsame, hinterest]⟩
    | true =>
      have htaken := control_add recorded (by rw [hsame, hinterest]) (ec.watch fd type callback).ev
      rw [hcall, htaken] at hsound
      have hec : ec.callbacks = (fun _ => none) ∧ ec.events = EpollEvents.none := by
        obtain ⟨address, -, rfl⟩ := memoryCreate_eq_some hmemory
        exact ⟨rfl, rfl⟩
      refine .inl ⟨_, (hcall true).trans htaken, by simp, granted_of_written ?_ ?_ hfound hsound⟩
      · funext other
        rw [hec.1, callbackOf, hfind]
        rfl
      · rw [hec.2, maskOf, hfind]
        rfl

/-- A further watch of a descriptor that the kernel watches. -/
theorem Sound.addFdWatch_further {loop : ELoop κ} (h : loop.Sound) {fd : Nat}
    {ec : ELoopCallback κ} (hfind : loop.findCallbackByFd fd = some ec) {old : Interest}
    (hinterest : loop.interest fd = some old) (type : ELoopWatchFdCallbackType) (callback : κ)
    (allocated : Option Nat) (accepted : Bool) :
    (∃ after, loop.addFdWatch fd type callback allocated accepted = (0, after) ∧
      accepted = true ∧ loop.Granted after fd type callback) ∨
    ∃ after, loop.addFdWatch fd type callback allocated accepted = (-1, after) ∧
      accepted = false ∧ after.interest fd = some old := by
  have hsound := sound_apply h (.add fd type callback allocated accepted)
  have hcall := addFdWatch_known hfind type callback allocated accepted
  simp only [apply] at hsound
  cases accepted with
  | false =>
    have hrefused : (loop.write (ec.watch fd type callback)).control
        (.mod (ec.watch fd type callback).ev) fd false =
          (-1, loop.write (ec.watch fd type callback)) := control_mod_refused (by simp) _
    exact .inr ⟨_, hcall.trans hrefused, rfl, hinterest⟩
  | true =>
    have htaken := control_mod (loop.write (ec.watch fd type callback)) hinterest
      (ec.watch fd type callback).ev
    have hwritten := find_write h hfind (ec.watch_fd fd type callback) rfl fd
    rw [if_pos rfl] at hwritten
    rw [hcall, htaken] at hsound
    refine .inl ⟨_, hcall.trans htaken, rfl,
      granted_of_written ?_ (maskOf_of_find hfind).symm hwritten hsound⟩
    funext other
    exact (callbackOf_of_find hfind other).symm

/-! ### The descriptors in the list -/

@[simp] theorem find_control (loop : ELoop κ) (operation : EpollOperation) (fd : Nat)
    (accepted : Bool) (other : Nat) :
    (loop.control operation fd accepted).2.findCallbackByFd other =
      loop.findCallbackByFd other := by
  simp [findCallbackByFd]

/-- An add leaves the descriptors or puts a new one in front. -/
theorem Sound.addFdWatch_fds {loop : ELoop κ} (h : loop.Sound) (fd : Nat)
    (type : ELoopWatchFdCallbackType) (callback : κ) (allocated : Option Nat) (accepted : Bool) :
    let after := (loop.addFdWatch fd type callback allocated accepted).2
    after.callbacksList.map ELoopCallback.fd = loop.callbacksList.map ELoopCallback.fd ∨
      (loop.findCallbackByFd fd = none ∧ after.callbacksList.map ELoopCallback.fd =
        fd :: loop.callbacksList.map ELoopCallback.fd) := by
  cases hfind : loop.findCallbackByFd fd with
  | some ec =>
    rw [addFdWatch_known hfind]
    exact .inl ((congrArg _ (control_callbacksList _ _ _ _)).trans
      (fds_write h hfind (ec.watch_fd fd type callback) rfl))
  | none =>
    cases hmemory : loop.memoryCreate allocated with
    | none =>
      simp only [addFdWatch, hfind, hmemory]
      exact .inl trivial
    | some ec =>
      simp only [addFdWatch, hfind, hmemory, control_callbacksList]
      exact .inr ⟨trivial, by simp⟩

/-- A removal takes the record out of the list or leaves it with a mask. -/
theorem Sound.removeFdWatch_find {loop : ELoop κ} (h : loop.Sound)
    (hsingle : (loop.callbacksList.map ELoopCallback.fd).Nodup) (fd : Nat)
    (type : ELoopWatchFdCallbackType) (accepted : Bool) :
    let after := (loop.removeFdWatch fd type accepted).2
    (after.callbacksList.map ELoopCallback.fd).Sublist (loop.callbacksList.map ELoopCallback.fd) ∧
    (after.findCallbackByFd fd = none ∨
      ∃ ec, loop.findCallbackByFd fd = some ec ∧
        after.findCallbackByFd fd = some (ec.unwatch type) ∧
        (ec.unwatch type).events ≠ EpollEvents.none) := by
  cases hfind : loop.findCallbackByFd fd with
  | none =>
    simp only [removeFdWatch, hfind]
    exact ⟨List.Sublist.refl _, .inl trivial⟩
  | some ec =>
    by_cases hlast : (ec.unwatch type).events = EpollEvents.none
    · simp only [removeFdWatch, hfind, if_pos hlast, control_callbacksList, find_control]
      exact ⟨List.eraseP_sublist.map _,
        .inl ((find_eq_none_iff _ fd).mpr (fd_notMem_eraseP hsingle fd))⟩
    · have hfd : (ec.unwatch type).fd = fd :=
        (ec.unwatch_fd type).trans (findCallbackByFd_fd hfind)
      have hwritten := find_write h hfind hfd rfl fd
      rw [if_pos rfl] at hwritten
      simp only [removeFdWatch, hfind, if_neg hlast, control_callbacksList, find_control]
      rw [fds_write h hfind hfd rfl]
      exact ⟨List.Sublist.refl _, .inr ⟨ec, rfl, hwritten, hlast⟩⟩

/-- The watches of all three types are gone, and with them the record. -/
theorem Sound.find_removed {loop : ELoop κ} (h : loop.Sound)
    (hsingle : (loop.callbacksList.map ELoopCallback.fd).Nodup) (fd : Nat)
    (accepted : ELoopWatchFdCallbackType → Bool) :
    let after := (((loop.removeFdWatch fd .read (accepted .read)).2.removeFdWatch fd .write
      (accepted .write)).2.removeFdWatch fd .close (accepted .close)).2
    after.Sound ∧ after.findCallbackByFd fd = none ∧
      (after.callbacksList.map ELoopCallback.fd).Sublist
        (loop.callbacksList.map ELoopCallback.fd) := by
  have hsound₁ := sound_apply h (.remove fd .read (accepted .read))
  obtain ⟨hsub₁, hfind₁⟩ := h.removeFdWatch_find hsingle fd .read (accepted .read)
  have hsound₂ := sound_apply hsound₁ (.remove fd .write (accepted .write))
  obtain ⟨hsub₂, hfind₂⟩ := hsound₁.removeFdWatch_find (hsingle.sublist hsub₁) fd .write
    (accepted .write)
  have hsound₃ := sound_apply hsound₂ (.remove fd .close (accepted .close))
  obtain ⟨hsub₃, hfind₃⟩ := hsound₂.removeFdWatch_find
    ((hsingle.sublist hsub₁).sublist hsub₂) fd .close (accepted .close)
  refine ⟨hsound₃, ?_, (hsub₃.trans hsub₂).trans hsub₁⟩
  obtain hnone | ⟨ec₂, hec₂, -, hmask⟩ := hfind₃
  · exact hnone
  -- A record that is left would have a mask without a bit.
  obtain hnone | ⟨ec₁, hec₁, hec₂', -⟩ := hfind₂
  · exact absurd (hec₂.symm.trans hnone) (by simp)
  obtain hnone | ⟨ec, -, hec₁', -⟩ := hfind₁
  · exact absurd (hec₁.symm.trans hnone) (by simp)
  rw [apply, hec₁'] at hec₁
  rw [apply, hec₂'] at hec₂
  cases hec₁
  cases hec₂
  exact absurd rfl hmask

end ELoop

end Rapp

import Mathlib.Data.List.Find
import Rapp.EventLoop

/-!
# The registry of watches

What the list of registrations, their masks and the kernel's interest set are
for: a map that gives the callback of a descriptor and a type. Calls change one
entry of the map, and list, masks and interest set follow.
-/
namespace Rapp

open CallOutcome (Outcome run Admitted)

variable {κ : Type}

/-- The callback of a descriptor and a type, as long as it is watched. -/
abbrev WatchMap (κ : Type) := Nat → ELoopWatchFdCallbackType → Option κ

/-- The calls; `address` is where `memory_create` finds room, when it is asked. -/
inductive WatchCall (κ : Type) where
  | add (fd : Nat) (type : ELoopWatchFdCallbackType) (callback : κ) (address : Nat)
  | remove (fd : Nat) (type : ELoopWatchFdCallbackType)

namespace WatchCall

def call (loop : ELoop κ) : WatchCall κ → Int × ELoop κ
  | .add fd type callback address => loop.addFdWatch fd type callback (some address) true
  | .remove fd type => loop.removeFdWatch fd type true

/-- A caller goes on whatever the result is. -/
def apply (watch : WatchCall κ) (loop : ELoop κ) : Outcome Empty (ELoop κ) :=
  .ok (watch.call loop).2

/-- Memory that is given out is not in use. -/
def Allocates (loop : ELoop κ) : WatchCall κ → Prop
  | .add fd _ _ address => loop.findCallbackByFd fd = none → loop.load address = none
  | .remove _ _ => True

/-- The one entry a call changes. -/
def note (map : WatchMap κ) : WatchCall κ → WatchMap κ
  | .add fd type callback _ =>
    Function.update map fd (Function.update (map fd) type (some callback))
  | .remove fd type => Function.update map fd (Function.update (map fd) type none)

end WatchCall

namespace ELoop

/-- The loop holds the map. -/
structure Represents (loop : ELoop κ) (map : WatchMap κ) : Prop where
  single : (loop.callbacksList.map ELoopCallback.fd).Nodup
  node_iff : ∀ fd, (∃ ec ∈ loop.callbacksList, ec.fd = fd) ↔ ∃ type, map fd type ≠ none
  callbacks_eq : ∀ ec ∈ loop.callbacksList, ec.callbacks = map ec.fd
  events_eq : ∀ ec ∈ loop.callbacksList, ∀ type,
    ec.events.has type = (ec.callbacks type).isSome
  registered : ∀ ec ∈ loop.callbacksList, loop.interest ec.fd = some ec.ev
  unregistered : ∀ fd, (∀ ec ∈ loop.callbacksList, ec.fd ≠ fd) → loop.interest fd = none

/-- What a call returns: only a removal without a registration fails, and changes nothing. -/
def Replies (loop : ELoop κ) (watch : WatchCall κ) : Prop :=
  match watch with
  | .add _ _ _ _ => (watch.call loop).1 = 0
  | .remove fd _ =>
    if ∃ ec ∈ loop.callbacksList, ec.fd = fd then (watch.call loop).1 = 0
    else watch.call loop = (-1, loop)

/-! ### One descriptor -/

/-- The node of a descriptor and the kernel's interest in it, against its entries. -/
def NodeHolds (node : Option (ELoopCallback κ)) (interest : Option Interest)
    (entries : ELoopWatchFdCallbackType → Option κ) : Prop :=
  match node with
  | none => interest = none ∧ ∀ type, entries type = none
  | some ec => interest = some ec.ev ∧ ec.callbacks = entries ∧ (∃ type, entries type ≠ none) ∧
    ∀ type, ec.events.has type = (entries type).isSome

/-- The same by looking up descriptors. -/
structure Holds (loop : ELoop κ) (map : WatchMap κ) : Prop where
  sound : loop.Sound
  single : (loop.callbacksList.map ELoopCallback.fd).Nodup
  nodes : ∀ fd, NodeHolds (loop.findCallbackByFd fd) (loop.interest fd) (map fd)

theorem has_assign (events : EpollEvents) (bit : Bool) (type other : ELoopWatchFdCallbackType) :
    (events.assign bit type).has other = if other = type then bit else events.has other := by
  cases type <;> cases other <;> rfl

theorem events_eq_none (events : EpollEvents) :
    events = EpollEvents.none ↔ ∀ type, events.has type = false := by
  constructor
  · rintro rfl type
    cases type <;> rfl
  · intro h
    have hin : events.epollin = false := h .read
    have hout : events.epollout = false := h .write
    have hclose : events.epollrdhup = false := h .close
    cases events
    simp_all [EpollEvents.none]

/-- A node that gets a callback. -/
theorem NodeHolds.watch {ec : ELoopCallback κ} {interest : Option Interest}
    {entries : ELoopWatchFdCallbackType → Option κ}
    (hcallbacks : ec.callbacks = entries)
    (hevents : ∀ type, ec.events.has type = (entries type).isSome)
    {fd : Nat} {type : ELoopWatchFdCallbackType} {callback : κ}
    (hinterest : interest = some (ec.watch fd type callback).ev) :
    NodeHolds (some (ec.watch fd type callback)) interest
      (Function.update entries type (some callback)) := by
  refine ⟨hinterest, ?_, ⟨type, by simp⟩, fun other => ?_⟩
  · rw [ELoopCallback.watch, hcallbacks]
  · rw [ELoopCallback.watch, has_assign]
    by_cases hother : other = type
    · subst hother
      simp
    · simp [hother, hevents]

/-- The mask after a removal is that of the entries left. -/
theorem unwatch_has {ec : ELoopCallback κ} {entries : ELoopWatchFdCallbackType → Option κ}
    (hevents : ∀ type, ec.events.has type = (entries type).isSome)
    (type other : ELoopWatchFdCallbackType) :
    (ec.unwatch type).events.has other = (Function.update entries type none other).isSome := by
  rw [ELoopCallback.unwatch, has_assign]
  by_cases hother : other = type
  · subst hother
    simp
  · simp [hother, hevents]

/-! ### Looking up -/

theorem find_eq_none_iff (loop : ELoop κ) (fd : Nat) :
    loop.findCallbackByFd fd = none ↔ fd ∉ loop.callbacksList.map ELoopCallback.fd := by
  simp [findCallbackByFd]

theorem find_iff_mem {loop : ELoop κ} (h : (loop.callbacksList.map ELoopCallback.fd).Nodup)
    (fd : Nat) (ec : ELoopCallback κ) :
    loop.findCallbackByFd fd = some ec ↔ ec ∈ loop.callbacksList ∧ ec.fd = fd := by
  constructor
  · intro hfind
    exact ⟨List.mem_of_find?_eq_some hfind, findCallbackByFd_fd hfind⟩
  · rintro ⟨hmem, rfl⟩
    cases hfind : loop.findCallbackByFd ec.fd with
    | none => exact absurd (List.mem_map_of_mem hmem) ((find_eq_none_iff loop ec.fd).mp hfind)
    | some found =>
      have hfd : found.fd = ec.fd := findCallbackByFd_fd hfind
      rw [List.inj_on_of_nodup_map h (List.mem_of_find?_eq_some hfind) hmem hfd]

theorem fds_write {loop : ELoop κ} (h : loop.Sound) {fd : Nat} {ec next : ELoopCallback κ}
    (hfind : loop.findCallbackByFd fd = some ec) (hfd : next.fd = fd)
    (hreg : next.registration = ec.registration) :
    (loop.write next).callbacksList.map ELoopCallback.fd =
      loop.callbacksList.map ELoopCallback.fd := by
  have hentries := congrArg (List.map Prod.fst) (write_entries h hfind hfd hreg)
  simpa [entries, Function.comp_def] using hentries

theorem find_write {loop : ELoop κ} (h : loop.Sound) {fd : Nat} {ec next : ELoopCallback κ}
    (hfind : loop.findCallbackByFd fd = some ec) (hfd : next.fd = fd)
    (hreg : next.registration = ec.registration) (other : Nat) :
    (loop.write next).findCallbackByFd other =
      if other = fd then some next else loop.findCallbackByFd other := by
  have hsame : ∀ c ∈ loop.callbacksList, c.registration = next.registration → c = ec := by
    intro c hc hc'
    exact h.eq_of_address hc (List.mem_of_find?_eq_some hfind) (by rw [hc', hreg])
  have hecfd := findCallbackByFd_fd hfind
  have hfound : (loop.write next).findCallbackByFd other =
      (loop.findCallbackByFd other).map fun c =>
        if c.registration = next.registration then next else c := by
    simp only [findCallbackByFd, write, List.find?_map]
    rw [List.find?_congr fun c hc => ?_]
    by_cases hc' : c.registration = next.registration
    · rw [Function.comp_apply, if_pos hc', hsame c hc hc', hfd, hecfd]
    · simp [hc']
  rw [hfound]
  by_cases hother : other = fd
  · subst hother
    rw [if_pos rfl, hfind, Option.map_some, if_pos hreg.symm]
  · rw [if_neg hother]
    cases hfind' : loop.findCallbackByFd other with
    | none => rfl
    | some c =>
      have hcfd := findCallbackByFd_fd hfind'
      have hne : c.registration ≠ next.registration := by
        intro hc'
        rw [hsame c (List.mem_of_find?_eq_some hfind') hc', hecfd] at hcfd
        exact hother hcfd.symm
      rw [Option.map_some, if_neg hne]

/-- Without the node of a descriptor. -/
theorem mem_eraseP {l : List (ELoopCallback κ)} (h : (l.map ELoopCallback.fd).Nodup) (fd : Nat)
    (c : ELoopCallback κ) : c ∈ l.eraseP (fun ec => ec.fd = fd) ↔ c ∈ l ∧ c.fd ≠ fd := by
  induction l with
  | nil => simp
  | cons ec l ih =>
    rw [List.map_cons, List.nodup_cons] at h
    by_cases hfd : ec.fd = fd
    · rw [List.eraseP_cons_of_pos (by simpa using hfd)]
      have hrest : ∀ c ∈ l, c.fd ≠ fd := by
        intro c hc heq
        exact h.1 (List.mem_map.mpr ⟨c, hc, heq.trans hfd.symm⟩)
      grind
    · rw [List.eraseP_cons_of_neg (by simpa using hfd), List.mem_cons, ih h.2]
      grind

theorem fd_notMem_eraseP {l : List (ELoopCallback κ)} (h : (l.map ELoopCallback.fd).Nodup)
    (fd : Nat) : fd ∉ (l.eraseP fun ec => ec.fd = fd).map ELoopCallback.fd := by
  intro hmem
  obtain ⟨c, hc, hfd⟩ := List.mem_map.mp hmem
  exact ((mem_eraseP h fd c).mp hc).2 hfd

theorem Represents.of_holds {loop : ELoop κ} {map : WatchMap κ} (h : loop.Holds map) :
    loop.Represents map := by
  have hnode : ∀ ec ∈ loop.callbacksList,
      NodeHolds (some ec) (loop.interest ec.fd) (map ec.fd) := by
    intro ec hec
    rw [← (find_iff_mem h.single ec.fd ec).mpr ⟨hec, rfl⟩]
    exact h.nodes ec.fd
  have hnone : ∀ fd, fd ∉ loop.callbacksList.map ELoopCallback.fd →
      NodeHolds none (loop.interest fd) (map fd) := by
    intro fd hfd
    rw [← (find_eq_none_iff loop fd).mpr hfd]
    exact h.nodes fd
  constructor
  · exact h.single
  · intro fd
    constructor
    · rintro ⟨ec, hec, rfl⟩
      exact (hnode ec hec).2.2.1
    · rintro ⟨type, htype⟩
      by_contra hno
      refine htype ((hnone fd fun hmem => ?_).2 type)
      obtain ⟨ec, hec, rfl⟩ := List.mem_map.mp hmem
      exact hno ⟨ec, hec, rfl⟩
  · intro ec hec
    exact (hnode ec hec).2.1
  · intro ec hec type
    rw [(hnode ec hec).2.1]
    exact (hnode ec hec).2.2.2 type
  · intro ec hec
    exact (hnode ec hec).1
  · intro fd hfd
    exact (hnone fd (by simpa using hfd)).1

/-! ### The calls -/

theorem holds_new : (new : ELoop κ).Holds fun _ _ => none :=
  ⟨sound_new, List.nodup_nil, fun _ => ⟨rfl, fun _ => rfl⟩⟩

/-- The loop after the kernel has taken an interest set entry. -/
def settle (loop : ELoop κ) (fd : Nat) (interest : Option Interest) : ELoop κ :=
  { loop with interest := Function.update loop.interest fd interest }

/-- `epoll_ctl` where the kernel expects it. -/
theorem control_add (loop : ELoop κ) {fd : Nat} (h : loop.interest fd = none) (event : Interest) :
    loop.control (.add event) fd true = (0, loop.settle fd (some event)) := by
  simp [control, epollCtl, settle, h]

theorem control_mod (loop : ELoop κ) {fd : Nat} {old : Interest} (h : loop.interest fd = some old)
    (event : Interest) :
    loop.control (.mod event) fd true = (0, loop.settle fd (some event)) := by
  simp [control, epollCtl, settle, h]

theorem control_del (loop : ELoop κ) {fd : Nat} {old : Interest} (h : loop.interest fd = some old) :
    loop.control .del fd true = (0, loop.settle fd none) := by
  simp [control, epollCtl, settle, h]

/-- The list was changed at one descriptor, and the kernel has been told. -/
theorem Holds.settle {loop changed : ELoop κ} {map : WatchMap κ} (h : loop.Holds map) {fd : Nat}
    {interest : Option Interest} {entries : ELoopWatchFdCallbackType → Option κ}
    (hsound : (changed.settle fd interest).Sound)
    (hsingle : (changed.callbacksList.map ELoopCallback.fd).Nodup)
    (hothers : ∀ other, other ≠ fd →
      changed.findCallbackByFd other = loop.findCallbackByFd other)
    (hinterests : changed.interest = loop.interest)
    (hfd : NodeHolds (changed.findCallbackByFd fd) interest entries) :
    (changed.settle fd interest).Holds (Function.update map fd entries) := by
  refine ⟨hsound, hsingle, fun other => ?_⟩
  change NodeHolds (changed.findCallbackByFd other)
    (Function.update changed.interest fd interest other)
    (Function.update map fd entries other)
  by_cases hsame : other = fd
  · subst hsame
    rw [Function.update_self, Function.update_self]
    exact hfd
  · rw [Function.update_of_ne hsame, Function.update_of_ne hsame, hothers other hsame, hinterests]
    exact h.nodes other

/-- A further callback for a descriptor that has a node. -/
theorem Holds.add_known {loop : ELoop κ} {map : WatchMap κ} (h : loop.Holds map) {fd : Nat}
    {ec : ELoopCallback κ} (hfind : loop.findCallbackByFd fd = some ec)
    (type : ELoopWatchFdCallbackType) (callback : κ) (address : Nat) :
    (loop.addFdWatch fd type callback (some address) true).1 = 0 ∧
      (loop.addFdWatch fd type callback (some address) true).2.Holds
        ((WatchCall.add fd type callback address).note map) := by
  have hnode := h.nodes fd
  rw [hfind] at hnode
  obtain ⟨hinterest, hcallbacks, -, hevents⟩ := hnode
  have hcontrol : loop.addFdWatch fd type callback (some address) true =
      (0, (loop.write (ec.watch fd type callback)).settle fd
        (some (ec.watch fd type callback).ev)) := by
    simp only [addFdWatch, hfind]
    exact control_mod (loop.write (ec.watch fd type callback)) hinterest _
  have hsound := sound_apply h.sound (.add fd type callback (some address) true)
  have hwrite := find_write h.sound hfind (ec.watch_fd fd type callback) rfl
  simp only [ELoop.apply, hcontrol] at hsound
  rw [hcontrol]
  refine ⟨rfl, h.settle hsound ?_ (fun other hother => ?_) rfl ?_⟩
  · rw [fds_write h.sound hfind (ec.watch_fd fd type callback) rfl]
    exact h.single
  · rw [hwrite, if_neg hother]
  · rw [hwrite, if_pos rfl]
    exact NodeHolds.watch hcallbacks hevents rfl

/-- The first callback of a descriptor. -/
theorem Holds.add_new {loop : ELoop κ} {map : WatchMap κ} (h : loop.Holds map) {fd : Nat}
    (hfind : loop.findCallbackByFd fd = none) (type : ELoopWatchFdCallbackType) (callback : κ)
    {address : Nat} (hfree : loop.load address = none) :
    (loop.addFdWatch fd type callback (some address) true).1 = 0 ∧
      (loop.addFdWatch fd type callback (some address) true).2.Holds
        ((WatchCall.add fd type callback address).note map) := by
  have hnode := h.nodes fd
  rw [hfind] at hnode
  obtain ⟨hinterest, hentries⟩ := hnode
  let ec : ELoopCallback κ :=
    (ELoopCallback.new ⟨address, loop.nextSerial⟩).watch fd type callback
  let changed : ELoop κ := { loop with
    callbacksList := ec :: loop.callbacksList
    nextSerial := loop.nextSerial + 1 }
  have hcontrol : loop.addFdWatch fd type callback (some address) true =
      (0, changed.settle fd (some ec.ev)) := by
    simp only [addFdWatch, hfind, memoryCreate, Option.bind_some, hfree]
    exact control_add changed hinterest _
  have hsound := sound_apply h.sound (.add fd type callback (some address) true)
  simp only [ELoop.apply, hcontrol] at hsound
  rw [hcontrol]
  refine ⟨rfl, h.settle hsound ?_ (fun other hother => ?_) rfl ?_⟩
  · exact List.nodup_cons.mpr ⟨(find_eq_none_iff loop fd).mp hfind, h.single⟩
  · exact List.find?_cons_of_neg (by simp [ec, Ne.symm hother])
  · have hhead : changed.findCallbackByFd fd = some ec := List.find?_cons_of_pos (by simp [ec])
    rw [hhead]
    refine NodeHolds.watch ?_ (fun other => ?_) rfl
    · funext other
      exact (hentries other).symm
    · rw [hentries other]
      cases other <;> rfl

theorem Holds.remove {loop : ELoop κ} {map : WatchMap κ} (h : loop.Holds map) {fd : Nat}
    {ec : ELoopCallback κ} (hfind : loop.findCallbackByFd fd = some ec)
    (type : ELoopWatchFdCallbackType) :
    (loop.removeFdWatch fd type true).1 = 0 ∧
      (loop.removeFdWatch fd type true).2.Holds ((WatchCall.remove fd type).note map) := by
  have hnode := h.nodes fd
  rw [hfind] at hnode
  obtain ⟨hinterest, hcallbacks, -, hevents⟩ := hnode
  have hmask := unwatch_has hevents type
  have hfd : (ec.unwatch type).fd = fd := (ec.unwatch_fd type).trans (findCallbackByFd_fd hfind)
  have hsound := sound_apply h.sound (.remove fd type true)
  by_cases hlast : (ec.unwatch type).events = EpollEvents.none
  · -- The last callback: the node and the interest go.
    let changed : ELoop κ := { loop with
      callbacksList := loop.callbacksList.eraseP fun c => c.fd = fd }
    have hcontrol : loop.removeFdWatch fd type true = (0, changed.settle fd none) := by
      simp only [removeFdWatch, hfind, if_pos hlast]
      exact control_del changed hinterest
    have hsingle : (changed.callbacksList.map ELoopCallback.fd).Nodup :=
      h.single.sublist (List.eraseP_sublist.map _)
    simp only [ELoop.apply, hcontrol] at hsound
    rw [hcontrol]
    refine ⟨rfl, h.settle hsound hsingle (fun other hother => ?_) rfl ?_⟩
    · ext c
      rw [find_iff_mem hsingle, find_iff_mem h.single, mem_eraseP h.single]
      grind
    · have hgone : changed.findCallbackByFd fd = none :=
        (find_eq_none_iff changed fd).mpr (fd_notMem_eraseP h.single fd)
      rw [hgone]
      refine ⟨rfl, fun other => ?_⟩
      have hbit := (events_eq_none _).mp hlast other
      rw [hmask] at hbit
      exact Option.isNone_iff_eq_none.mp (Option.isSome_eq_false_iff.mp hbit)
  · have hcontrol : loop.removeFdWatch fd type true =
        (0, (loop.write (ec.unwatch type)).settle fd (some (ec.unwatch type).ev)) := by
      simp only [removeFdWatch, hfind, if_neg hlast]
      exact control_mod (loop.write (ec.unwatch type)) hinterest _
    have hwrite := find_write h.sound hfind hfd rfl
    simp only [ELoop.apply, hcontrol] at hsound
    rw [hcontrol]
    refine ⟨rfl, h.settle hsound ?_ (fun other hother => ?_) rfl ?_⟩
    · rw [fds_write h.sound hfind hfd rfl]
      exact h.single
    · rw [hwrite, if_neg hother]
    · rw [hwrite, if_pos rfl]
      refine ⟨rfl, ?_, ?_, hmask⟩
      · rw [ELoopCallback.unwatch, hcallbacks]
      · by_contra hnone
        simp only [ne_eq, not_exists, not_not] at hnone
        refine hlast ((events_eq_none _).mpr fun other => ?_)
        rw [hmask, hnone other]
        rfl

/-- One call changes one entry of the map. -/
theorem Holds.call {loop : ELoop κ} {map : WatchMap κ} (h : loop.Holds map) {watch : WatchCall κ}
    (hallocates : watch.Allocates loop) :
    (watch.call loop).2.Holds (watch.note map) ∧ loop.Replies watch := by
  cases watch with
  | add fd type callback address =>
    cases hfind : loop.findCallbackByFd fd with
    | none => exact (h.add_new hfind type callback (hallocates hfind)).symm
    | some ec => exact (h.add_known hfind type callback address).symm
  | remove fd type =>
    cases hfind : loop.findCallbackByFd fd with
    | none =>
      have hcall : loop.removeFdWatch fd type true = (-1, loop) := by
        simp only [removeFdWatch, hfind]
      have hnode := h.nodes fd
      rw [hfind] at hnode
      have hsame : (WatchCall.remove fd type).note map = map := by
        simp only [WatchCall.note]
        rw [← hnode.2 type, Function.update_eq_self, Function.update_eq_self]
      refine ⟨?_, ?_⟩
      · rw [hsame, WatchCall.call, hcall]
        exact h
      · rw [Replies, if_neg, WatchCall.call, hcall]
        rintro ⟨ec, hec⟩
        rw [(find_iff_mem h.single fd ec).mpr hec] at hfind
        cases hfind
    | some ec =>
      have hmem := (find_iff_mem h.single fd ec).mp hfind
      have hremove := h.remove hfind type
      refine ⟨hremove.2, ?_⟩
      rw [Replies, if_pos ⟨ec, hmem⟩]
      exact hremove.1

/-! ### Runs -/

theorem holds_run {watches : List (WatchCall κ)} {loop : ELoop κ} {map : WatchMap κ}
    (h : loop.Holds map)
    (hallocates : Admitted WatchCall.apply (fun loop watch => watch.Allocates loop) loop watches) :
    ∃ after, run WatchCall.apply watches loop = .ok after ∧
      after.Holds (watches.foldl WatchCall.note map) := by
  induction watches generalizing loop map with
  | nil => exact ⟨loop, rfl, h⟩
  | cons watch watches ih => exact ih (h.call hallocates.head).1 (hallocates.tail rfl)

/-- After any calls the loop holds the map they come to, and the next call
changes it the same way and returns what it should. -/
theorem represents_run {watches : List (WatchCall κ)}
    (h : Admitted WatchCall.apply (fun loop watch => watch.Allocates loop) new watches) :
    ∃ loop, run WatchCall.apply watches new = .ok loop ∧
      loop.Represents (watches.foldl WatchCall.note fun _ _ => none) ∧
      ∀ watch, watch.Allocates loop → loop.Replies watch := by
  obtain ⟨loop, hrun, hholds⟩ := holds_run holds_new h
  exact ⟨loop, hrun, .of_holds hholds, fun watch hallocates => (hholds.call hallocates).2⟩

/-- Two types of one descriptor, one of another, and the first descriptor given up again. -/
theorem represents_readWriteRemoved :
    ∃ loop, run WatchCall.apply
        [.add 5 .read 10 100, .add 5 .write 11 101, .add 6 .read 12 101, .remove 5 .close,
          .remove 5 .read, .remove 5 .write] (new : ELoop Nat) = .ok loop ∧
      loop.Represents (List.foldl WatchCall.note (fun _ _ => none)
        [.add 5 .read 10 100, .add 5 .write 11 101, .add 6 .read 12 101, .remove 5 .close,
          .remove 5 .read, .remove 5 .write]) ∧
      ∀ watch, watch.Allocates loop → loop.Replies watch := by
  refine represents_run (CallOutcome.admitted_cons (fun _ => rfl) fun loop hloop => ?_)
  cases hloop
  refine CallOutcome.admitted_cons (fun hfind => by cases hfind) fun loop hloop => ?_
  cases hloop
  refine CallOutcome.admitted_cons (fun _ => rfl) fun loop hloop => ?_
  cases hloop
  refine CallOutcome.admitted_cons trivial fun loop hloop => ?_
  cases hloop
  refine CallOutcome.admitted_cons trivial fun loop hloop => ?_
  cases hloop
  exact CallOutcome.admitted_cons trivial fun loop _ => CallOutcome.admitted_nil _ loop

end ELoop

end Rapp

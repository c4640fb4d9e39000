import Mathlib.Data.List.Nodup
import Mathlib.Logic.Function.Basic
import Rapp.Lib.Outcome

/-!
# The event loop

`eloop.c`: the list of registrations, the interest set the kernel keeps for
it, and the loop over the batches of `epoll_wait`. A callback is a value of an
arbitrary type; what it does to the loop when it is invoked is a list of
operations given with the event.
-/
namespace Rapp

open CallOutcome (Outcome run)

inductive ELoopWatchFdCallbackType where
  | read
  | write
  | close
  deriving DecidableEq

/-- The bits of an epoll event mask that the loop uses. -/
structure EpollEvents where
  epollin : Bool
  epollout : Bool
  epollrdhup : Bool
  deriving DecidableEq

namespace EpollEvents

def none : EpollEvents := ⟨false, false, false⟩

/-- Test the bit `eloop_callback_type_to_epoll_event` names. -/
def has (events : EpollEvents) : ELoopWatchFdCallbackType → Bool
  | .read => events.epollin
  | .write => events.epollout
  | .close => events.epollrdhup

def assign (events : EpollEvents) (bit : Bool) : ELoopWatchFdCallbackType → EpollEvents
  | .read => { events with epollin := bit }
  | .write => { events with epollout := bit }
  | .close => { events with epollrdhup := bit }

def meet (x y : EpollEvents) : EpollEvents :=
  ⟨x.epollin && y.epollin, x.epollout && y.epollout, x.epollrdhup && y.epollrdhup⟩

end EpollEvents

/-- The identity of an `ELoopCallback`: where it lies, and the how many-eth
allocation it is. The program sees the address only. -/
structure Registration where
  address : Nat
  serial : Nat
  deriving DecidableEq

/-- `callbacks` and `datas` are one array here. -/
structure ELoopCallback (κ : Type) where
  registration : Registration
  fd : Nat
  events : EpollEvents
  callbacks : ELoopWatchFdCallbackType → Option κ

/-- What the kernel keeps of `struct epoll_event`. -/
structure Interest where
  events : EpollEvents
  registration : Registration
  deriving DecidableEq

structure ELoop (κ : Type) where
  callbacksList : List (ELoopCallback κ)
  interest : Nat → Option Interest
  nextSerial : Nat
  running : Bool

/-- Operations of `epoll_ctl`. -/
inductive EpollOperation where
  | add (event : Interest)
  | mod (event : Interest)
  | del

/-- The new interest set, or none for -1. `accepted` is the kernel's answer
where nothing in the set decides it; a descriptor in the set can be deleted. -/
def epollCtl (interest : Nat → Option Interest) (operation : EpollOperation) (fd : Nat)
    (accepted : Bool) : Option (Nat → Option Interest) :=
  match operation, interest fd with
  | .add event, none => if accepted then some (Function.update interest fd (some event)) else none
  | .mod event, some _ => if accepted then some (Function.update interest fd (some event)) else none
  | .del, some _ => some (Function.update interest fd none)
  | _, _ => none

variable {κ : Type}

namespace ELoopCallback

/-- Memory from `memory_create` is zero. -/
def new (registration : Registration) : ELoopCallback κ where
  registration := registration
  fd := 0
  events := EpollEvents.none
  callbacks := fun _ => none

def watch (ec : ELoopCallback κ) (fd : Nat) (type : ELoopWatchFdCallbackType) (callback : κ) :
    ELoopCallback κ :=
  { ec with
    fd := fd
    events := ec.events.assign true type
    callbacks := Function.update ec.callbacks type (some callback) }

def unwatch (ec : ELoopCallback κ) (type : ELoopWatchFdCallbackType) : ELoopCallback κ :=
  { ec with
    events := ec.events.assign false type
    callbacks := Function.update ec.callbacks type none }

@[simp] theorem watch_fd (ec : ELoopCallback κ) (fd : Nat) (type : ELoopWatchFdCallbackType)
    (callback : κ) : (ec.watch fd type callback).fd = fd := rfl
@[simp] theorem watch_registration (ec : ELoopCallback κ) (fd : Nat)
    (type : ELoopWatchFdCallbackType) (callback : κ) :
    (ec.watch fd type callback).registration = ec.registration := rfl
@[simp] theorem unwatch_fd (ec : ELoopCallback κ) (type : ELoopWatchFdCallbackType) :
    (ec.unwatch type).fd = ec.fd := rfl
@[simp] theorem unwatch_registration (ec : ELoopCallback κ) (type : ELoopWatchFdCallbackType) :
    (ec.unwatch type).registration = ec.registration := rfl

/-- `ec->ev` as `epoll_ctl` reads it. -/
def ev (ec : ELoopCallback κ) : Interest := ⟨ec.events, ec.registration⟩

end ELoopCallback

namespace ELoop

def new : ELoop κ where
  callbacksList := []
  interest := fun _ => none
  nextSerial := 0
  running := false

/-- The registration at an address, when there is one. -/
def load (loop : ELoop κ) (address : Nat) : Option (ELoopCallback κ) :=
  loop.callbacksList.find? fun ec => ec.registration.address = address

/-- A new `ELoopCallback`; an address in use is no answer of `calloc`. -/
def memoryCreate (loop : ELoop κ) (allocated : Option Nat) : Option (ELoopCallback κ) :=
  allocated.bind fun address =>
    if (loop.load address).isSome then none
    else some (ELoopCallback.new ⟨address, loop.nextSerial⟩)

def findCallbackByFd (loop : ELoop κ) (fd : Nat) : Option (ELoopCallback κ) :=
  loop.callbacksList.find? fun ec => ec.fd = fd

/-- Write to the registration `ec` points to. -/
def write (loop : ELoop κ) (ec : ELoopCallback κ) : ELoop κ :=
  { loop with callbacksList := loop.callbacksList.map fun c =>
      if c.registration = ec.registration then ec else c }

def control (loop : ELoop κ) (operation : EpollOperation) (fd : Nat) (accepted : Bool) :
    Int × ELoop κ :=
  match epollCtl loop.interest operation fd accepted with
  | some interest => (0, { loop with interest := interest })
  | none => (-1, loop)

def addFdWatch (loop : ELoop κ) (fd : Nat) (type : ELoopWatchFdCallbackType) (callback : κ)
    (allocated : Option Nat) (accepted : Bool) : Int × ELoop κ :=
  match loop.findCallbackByFd fd with
  | some ec =>
    let ec := ec.watch fd type callback
    (loop.write ec).control (.mod ec.ev) fd accepted
  | none =>
    match loop.memoryCreate allocated with
    | none => (-1, loop)
    | some ec =>
      let ec := ec.watch fd type callback
      { loop with
        callbacksList := ec :: loop.callbacksList
        nextSerial := loop.nextSerial + 1 }.control (.add ec.ev) fd accepted

/-- The last watch takes the registration out of the list and frees it. -/
def removeFdWatch (loop : ELoop κ) (fd : Nat) (type : ELoopWatchFdCallbackType)
    (accepted : Bool) : Int × ELoop κ :=
  match loop.findCallbackByFd fd with
  | none => (-1, loop)
  | some ec =>
    let ec := ec.unwatch type
    if ec.events = EpollEvents.none then
      { loop with callbacksList := loop.callbacksList.eraseP fun c => c.fd = fd }.control .del fd
        accepted
    else (loop.write ec).control (.mod ec.ev) fd accepted

/-- `close`: the kernel forgets the descriptor. -/
def closeFd (loop : ELoop κ) (fd : Nat) : ELoop κ :=
  { loop with interest := Function.update loop.interest fd none }

def stop (loop : ELoop κ) : ELoop κ := { loop with running := false }

end ELoop

/-- What a callback, a free function or the main program does to the loop. -/
inductive WatchOp (κ : Type) where
  | add (fd : Nat) (type : ELoopWatchFdCallbackType) (callback : κ) (allocated : Option Nat)
    (accepted : Bool)
  | remove (fd : Nat) (type : ELoopWatchFdCallbackType) (accepted : Bool)
  | close (fd : Nat)
  | stop

namespace ELoop

def apply (loop : ELoop κ) : WatchOp κ → ELoop κ
  | .add fd type callback allocated accepted =>
    (loop.addFdWatch fd type callback allocated accepted).2
  | .remove fd type accepted => (loop.removeFdWatch fd type accepted).2
  | .close fd => loop.closeFd fd
  | .stop => loop.stop

def perform (loop : ELoop κ) (script : List (WatchOp κ)) : ELoop κ := script.foldl apply loop

end ELoop

/-- A descriptor that is ready, and what its callbacks do when they are invoked. -/
structure Ready (κ : Type) where
  fd : Nat
  events : EpollEvents
  runs : ELoopWatchFdCallbackType → List (WatchOp κ)

/-- An entry of `events`; `data.ptr` is the address of the registration. -/
structure EpollEvent (κ : Type) where
  registration : Registration
  events : EpollEvents
  runs : ELoopWatchFdCallbackType → List (WatchOp κ)

/-- One round of the loop: what `epoll_wait` finds ready, and what the free
functions called by `collector_collect` do. -/
structure Batch (κ : Type) where
  ready : List (Ready κ)
  collected : List (WatchOp κ)

/-- An `ELoopCallback` was read at an address where there is none. -/
structure FreedRead where
  address : Nat
  deriving DecidableEq

abbrev maxEvents : Nat := 1024

namespace ELoop

def epollWait (loop : ELoop κ) (ready : List (Ready κ)) : List (EpollEvent κ) :=
  (ready.take maxEvents).filterMap fun r => (loop.interest r.fd).map fun interest =>
    ⟨interest.registration, interest.events.meet r.events, r.runs⟩

/-- Read `eloop_callback->callbacks[type]` and invoke what is there. -/
def invokeCallback (address : Nat) (type : ELoopWatchFdCallbackType) (script : List (WatchOp κ))
    (loop : ELoop κ) : Outcome FreedRead (ELoop κ) :=
  match loop.load address with
  | none => .undefined ⟨address⟩
  | some ec =>
    match ec.callbacks type with
    | none => .ok loop
    | some _ => .ok (loop.perform script)

/-- One of the three tests of the loop body. -/
def testCallback (event : EpollEvent κ) (type : ELoopWatchFdCallbackType) (loop : ELoop κ) :
    Outcome FreedRead (ELoop κ) :=
  if event.events.has type then
    loop.invokeCallback event.registration.address type (event.runs type)
  else .ok loop

def dispatchEvent (event : EpollEvent κ) (loop : ELoop κ) : Outcome FreedRead (ELoop κ) :=
  (loop.testCallback event .close).bind fun loop =>
  (loop.testCallback event .read).bind fun loop => loop.testCallback event .write

/-- A stopped loop has returned. -/
def runBatch (batch : Batch κ) (loop : ELoop κ) : Outcome FreedRead (ELoop κ) :=
  if loop.running then
    (run dispatchEvent (loop.epollWait batch.ready) loop).map (·.perform batch.collected)
  else .failed loop

def eventLoopRun (batches : List (Batch κ)) (loop : ELoop κ) : Outcome FreedRead (ELoop κ) :=
  run runBatch batches { loop with running := true }

end ELoop

/-! ### The registry -/

namespace ELoop

/-- The descriptor and the identity of each registration in the list. -/
def entries (loop : ELoop κ) : List (Nat × Registration) :=
  loop.callbacksList.map fun ec => (ec.fd, ec.registration)

/-- Every address holds one registration, and the kernel keeps registrations of the list. -/
structure Sound (loop : ELoop κ) : Prop where
  addresses : (loop.entries.map fun entry => entry.2.address).Nodup
  serials : ∀ entry ∈ loop.entries, entry.2.serial < loop.nextSerial
  interest : ∀ fd interest, loop.interest fd = some interest →
    (fd, interest.registration) ∈ loop.entries

theorem sound_new : (new : ELoop κ).Sound where
  addresses := List.nodup_nil
  serials := by simp [new, entries]
  interest := by simp [new]

/-- The registration of an address. -/
theorem Sound.eq_of_address {loop : ELoop κ} (h : loop.Sound) {x y : ELoopCallback κ}
    (hx : x ∈ loop.callbacksList) (hy : y ∈ loop.callbacksList)
    (ha : x.registration.address = y.registration.address) : x = y := by
  have hnodup := h.addresses
  rw [entries, List.map_map] at hnodup
  exact List.inj_on_of_nodup_map hnodup hx hy ha

theorem load_eq_none {loop : ELoop κ} {address : Nat} (h : loop.load address = none) :
    address ∉ loop.entries.map fun entry => entry.2.address := by
  intro hmem
  rw [entries, List.map_map] at hmem
  obtain ⟨ec, hec, rfl⟩ := List.mem_map.mp hmem
  simpa using List.find?_eq_none.mp h ec hec

/-- What is read at the address is that registration. -/
def Live (loop : ELoop κ) (registration : Registration) : Prop :=
  ∃ ec, loop.load registration.address = some ec ∧ ec.registration = registration

theorem mem_of_live {loop : ELoop κ} {registration : Registration}
    (h : loop.Live registration) : ∃ fd, (fd, registration) ∈ loop.entries := by
  obtain ⟨ec, hload, rfl⟩ := h
  exact ⟨ec.fd, List.mem_map_of_mem (List.mem_of_find?_eq_some hload)⟩

theorem live_iff {loop : ELoop κ} (h : loop.Sound) (registration : Registration) :
    loop.Live registration ↔ ∃ fd, (fd, registration) ∈ loop.entries := by
  constructor
  · exact mem_of_live
  · rintro ⟨fd, hmem⟩
    obtain ⟨ec, hec, he⟩ := List.mem_map.mp hmem
    obtain ⟨-, rfl⟩ := Prod.mk.inj he
    cases hload : loop.load ec.registration.address with
    | none => exact absurd (List.mem_map_of_mem hmem) (load_eq_none hload)
    | some c =>
      have haddress : c.registration.address = ec.registration.address := by
        simpa using List.find?_some hload
      have hsame : c = ec := h.eq_of_address (List.mem_of_find?_eq_some hload) hec haddress
      exact ⟨c, hload, by rw [hsame]⟩

/-- A registration that was freed. -/
def Gone (loop : ELoop κ) (registration : Registration) : Prop :=
  registration.serial < loop.nextSerial ∧ ∀ fd, (fd, registration) ∉ loop.entries

/-- The registration an operation frees: the one whose last watch it removes. -/
def freedBy (loop : ELoop κ) : WatchOp κ → Option Registration
  | .remove fd type _ => (loop.findCallbackByFd fd).bind fun ec =>
      if (ec.unwatch type).events = EpollEvents.none then some ec.registration else none
  | _ => none

/-- The registrations a list of operations frees. -/
def freed : List (WatchOp κ) → ELoop κ → List Registration
  | [], _ => []
  | op :: script, loop => (loop.freedBy op).toList ++ freed script (loop.apply op)

/-! ### What an operation does to the registry -/

@[simp] theorem control_callbacksList (loop : ELoop κ) (operation : EpollOperation) (fd : Nat)
    (accepted : Bool) :
    (loop.control operation fd accepted).2.callbacksList = loop.callbacksList := by
  unfold control
  split <;> rfl

@[simp] theorem control_nextSerial (loop : ELoop κ) (operation : EpollOperation) (fd : Nat)
    (accepted : Bool) : (loop.control operation fd accepted).2.nextSerial = loop.nextSerial := by
  unfold control
  split <;> rfl

@[simp] theorem control_entries (loop : ELoop κ) (operation : EpollOperation) (fd : Nat)
    (accepted : Bool) : (loop.control operation fd accepted).2.entries = loop.entries := by
  simp [entries]

/-- An interest after `epoll_ctl` is an old one or the new one. -/
theorem control_interest {loop : ELoop κ} {operation : EpollOperation} {fd fd' : Nat}
    {accepted : Bool} {interest : Interest}
    (h : (loop.control operation fd accepted).2.interest fd' = some interest) :
    (loop.interest fd' = some interest ∧ (operation = .del → fd' ≠ fd)) ∨
      (fd' = fd ∧ (operation = .add interest ∨ operation = .mod interest)) := by
  by_cases hfd : fd' = fd
  · subst hfd
    cases operation <;> cases hold : loop.interest fd' <;> cases accepted <;>
      simp_all [control, epollCtl]
  · refine .inl ⟨?_, fun _ => hfd⟩
    cases operation <;> cases hold : loop.interest fd <;> cases accepted <;>
      simp_all [control, epollCtl, Function.update]

theorem findCallbackByFd_fd {loop : ELoop κ} {fd : Nat} {ec : ELoopCallback κ}
    (h : loop.findCallbackByFd fd = some ec) : ec.fd = fd := by
  simpa using List.find?_some h

theorem mem_entries_of_find {loop : ELoop κ} {fd : Nat} {ec : ELoopCallback κ}
    (h : loop.findCallbackByFd fd = some ec) : (fd, ec.registration) ∈ loop.entries := by
  rw [← findCallbackByFd_fd h]
  exact List.mem_map_of_mem (List.mem_of_find?_eq_some h)

/-- What `memory_create` answers with is a new record at an unused address. -/
theorem memoryCreate_eq_some {loop : ELoop κ} {allocated : Option Nat} {ec : ELoopCallback κ}
    (h : loop.memoryCreate allocated = some ec) :
    ∃ address, loop.load address = none ∧ ec = ELoopCallback.new ⟨address, loop.nextSerial⟩ := by
  obtain ⟨address, -, hif⟩ := Option.bind_eq_some_iff.mp h
  split at hif
  · cases hif
  · rename_i hload
    cases hif
    exact ⟨address, by simpa using hload, rfl⟩

/-- Writing to a registration does not change what it is. -/
theorem write_entries {loop : ELoop κ} (h : loop.Sound) {fd : Nat} {ec next : ELoopCallback κ}
    (hfind : loop.findCallbackByFd fd = some ec) (hfd : next.fd = fd)
    (hreg : next.registration = ec.registration) : (loop.write next).entries = loop.entries := by
  simp only [entries, write, List.map_map]
  refine List.map_congr_left fun c hc => ?_
  by_cases hsame : c.registration = next.registration
  · have hce : c = ec := by
      refine h.eq_of_address hc (List.mem_of_find?_eq_some hfind) ?_
      rw [hsame, hreg]
    subst hce
    rw [Function.comp_apply, if_pos hsame, hfd, hreg, findCallbackByFd_fd hfind]
  · simp [hsame]

/-- An operation leaves the registrations, adds a fresh one, or frees one. -/
inductive Change (loop : ELoop κ) (op : WatchOp κ) : Prop where
  | same (keeps : loop.freedBy op = none) (entries : (loop.apply op).entries = loop.entries)
    (serial : (loop.apply op).nextSerial = loop.nextSerial)
  | fresh (keeps : loop.freedBy op = none) (fd address : Nat)
    (unused : address ∉ loop.entries.map fun entry => entry.2.address)
    (entries : (loop.apply op).entries = (fd, ⟨address, loop.nextSerial⟩) :: loop.entries)
    (serial : (loop.apply op).nextSerial = loop.nextSerial + 1)
  | frees (fd : Nat) (registration : Registration) (front back : List (Nat × Registration))
    (frees : loop.freedBy op = some registration)
    (before : loop.entries = front ++ (fd, registration) :: back)
    (entries : (loop.apply op).entries = front ++ back)
    (serial : (loop.apply op).nextSerial = loop.nextSerial)

theorem change {loop : ELoop κ} (h : loop.Sound) (op : WatchOp κ) : loop.Change op := by
  cases op with
  | add fd type callback allocated accepted =>
    have hkeeps : loop.freedBy (.add fd type callback allocated accepted) = none := rfl
    cases hfind : loop.findCallbackByFd fd with
    | some ec =>
      refine .same hkeeps ?_ ?_
      · simp only [apply, addFdWatch, hfind, control_entries]
        exact write_entries h hfind rfl rfl
      · simp only [apply, addFdWatch, hfind, control_nextSerial]
        rfl
    | none =>
      cases hmemory : loop.memoryCreate allocated with
      | none =>
        refine .same hkeeps ?_ ?_ <;> simp only [apply, addFdWatch, hfind, hmemory]
      | some ec =>
        obtain ⟨address, hload, rfl⟩ := memoryCreate_eq_some hmemory
        refine .fresh hkeeps fd address (load_eq_none hload) ?_ ?_
        · simp only [apply, addFdWatch, hfind, hmemory, control_entries]
          rfl
        · simp only [apply, addFdWatch, hfind, hmemory, control_nextSerial]
  | remove fd type accepted =>
    cases hfind : loop.findCallbackByFd fd with
    | none =>
      refine .same (by simp [freedBy, hfind]) ?_ ?_ <;> simp only [apply, removeFdWatch, hfind]
    | some ec =>
      by_cases hlast : (ec.unwatch type).events = EpollEvents.none
      · obtain ⟨-, front, back, hsplit, hfront⟩ := List.find?_eq_some_iff_append.mp hfind
        refine .frees fd ec.registration (front.map fun ec => (ec.fd, ec.registration))
          (back.map fun ec => (ec.fd, ec.registration)) (by simp [freedBy, hfind, hlast]) ?_ ?_ ?_
        · rw [entries, hsplit, List.map_append, List.map_cons, findCallbackByFd_fd hfind]
        · simp only [apply, removeFdWatch, hfind, if_pos hlast, control_entries]
          rw [entries]
          simp only [hsplit]
          rw [List.eraseP_append_right _ (by simpa using hfront),
            List.eraseP_cons_of_pos (by simp [findCallbackByFd_fd hfind]), List.map_append]
        · simp only [apply, removeFdWatch, hfind, if_pos hlast, control_nextSerial]
      · refine .same (by simp [freedBy, hfind, hlast]) ?_ ?_
        · simp only [apply, removeFdWatch, hfind, if_neg hlast, control_entries]
          have hfd : (ec.unwatch type).fd = fd :=
            (ec.unwatch_fd type).trans (findCallbackByFd_fd hfind)
          exact write_entries h hfind hfd rfl
        · simp only [apply, removeFdWatch, hfind, if_neg hlast, control_nextSerial]
          rfl
  | close fd => exact .same rfl rfl rfl
  | stop => exact .same rfl rfl rfl

/-- The kernel keeps registrations of the list after every operation. -/
theorem apply_interest {loop : ELoop κ} (h : loop.Sound) (op : WatchOp κ) {fd : Nat}
    {interest : Interest} (hi : (loop.apply op).interest fd = some interest) :
    (fd, interest.registration) ∈ (loop.apply op).entries := by
  cases op with
  | add fd' type callback allocated accepted =>
    cases hfind : loop.findCallbackByFd fd' with
    | some ec =>
      have hmem : (fd', ec.registration) ∈ loop.entries := mem_entries_of_find hfind
      simp only [apply, addFdWatch, hfind, control_entries] at hi ⊢
      rw [write_entries h hfind (ec.watch_fd fd' type callback) rfl]
      rcases control_interest hi with ⟨hold, -⟩ | ⟨rfl, hnew | hnew⟩
      · exact h.interest fd interest hold
      · cases hnew
      · cases hnew
        exact hmem
    | none =>
      cases hmemory : loop.memoryCreate allocated with
      | none =>
        simp only [apply, addFdWatch, hfind, hmemory] at hi ⊢
        exact h.interest fd interest hi
      | some ec =>
        simp only [apply, addFdWatch, hfind, hmemory, control_entries] at hi ⊢
        rcases control_interest hi with ⟨hold, -⟩ | ⟨rfl, hnew | hnew⟩
        · exact List.mem_cons_of_mem _ (h.interest fd interest hold)
        · cases hnew
          exact List.mem_cons_self
        · cases hnew
  | remove fd' type accepted =>
    cases hfind : loop.findCallbackByFd fd' with
    | none =>
      simp only [apply, removeFdWatch, hfind] at hi ⊢
      exact h.interest fd interest hi
    | some ec =>
      have hmem : (fd', ec.registration) ∈ loop.entries := mem_entries_of_find hfind
      have hfd : (ec.unwatch type).fd = fd' :=
        (ec.unwatch_fd type).trans (findCallbackByFd_fd hfind)
      by_cases hlast : (ec.unwatch type).events = EpollEvents.none
      · simp only [apply, removeFdWatch, hfind, if_pos hlast, control_entries] at hi ⊢
        rcases control_interest hi with ⟨hold, hne⟩ | ⟨-, hnew | hnew⟩
        · obtain ⟨c, hc, he⟩ := List.mem_map.mp (h.interest fd interest hold)
          refine List.mem_map.mpr ⟨c, (List.mem_eraseP_of_neg ?_).mpr hc, he⟩
          have hcfd : c.fd = fd := (Prod.mk.inj he).1
          simpa [hcfd] using hne rfl
        · cases hnew
        · cases hnew
      · simp only [apply, removeFdWatch, hfind, if_neg hlast, control_entries] at hi ⊢
        rw [write_entries h hfind hfd rfl]
        rcases control_interest hi with ⟨hold, -⟩ | ⟨rfl, hnew | hnew⟩
        · exact h.interest fd interest hold
        · cases hnew
        · cases hnew
          exact hmem
  | close fd' =>
    have hold : loop.interest fd = some interest := by
      by_cases hfd : fd = fd'
      · simp [apply, closeFd, hfd] at hi
      · simpa [apply, closeFd, Function.update, hfd] using hi
    exact h.interest fd interest hold
  | stop => exact h.interest fd interest hi

theorem sound_apply {loop : ELoop κ} (h : loop.Sound) (op : WatchOp κ) : (loop.apply op).Sound := by
  refine ⟨?_, ?_, fun fd interest => apply_interest h op⟩
  · cases change h op with
    | same keeps entries serial =>
      rw [entries]
      exact h.addresses
    | fresh keeps fd address unused entries serial =>
      rw [entries, List.map_cons]
      exact List.nodup_cons.mpr ⟨unused, h.addresses⟩
    | frees fd r front back frees before entries serial =>
      have hnodup := h.addresses
      rw [before, List.map_append, List.map_cons] at hnodup
      rw [entries, List.map_append]
      exact hnodup.sublist (List.Sublist.append_left (List.sublist_cons_self _ _) _)
  · intro entry hentry
    cases change h op with
    | same keeps entries serial =>
      rw [entries] at hentry
      rw [serial]
      exact h.serials entry hentry
    | fresh keeps fd address unused entries serial =>
      rw [entries] at hentry
      rw [serial]
      rcases List.mem_cons.mp hentry with rfl | hold
      · exact Nat.lt_succ_self _
      · exact Nat.lt_succ_of_lt (h.serials entry hold)
    | frees fd r front back frees before entries serial =>
      rw [serial]
      refine h.serials entry ?_
      rw [entries] at hentry
      rw [before]
      simp only [List.mem_append, List.mem_cons] at hentry ⊢
      tauto

/-- What an operation does not free stays. -/
theorem live_apply {loop : ELoop κ} (h : loop.Sound) {op : WatchOp κ} {registration : Registration}
    (hlive : loop.Live registration) (hf : loop.freedBy op ≠ some registration) :
    (loop.apply op).Live registration := by
  obtain ⟨fd, hmem⟩ := (live_iff h registration).mp hlive
  refine (live_iff (sound_apply h op) registration).mpr ⟨fd, ?_⟩
  cases change h op with
  | same keeps entries serial => rwa [entries]
  | fresh keeps fd' address unused entries serial =>
    rw [entries]
    exact List.mem_cons_of_mem _ hmem
  | frees fd' r front back frees before entries serial =>
    rw [before] at hmem
    rw [entries]
    have hne : r ≠ registration := fun he => hf (frees.trans (congrArg some he))
    simp only [List.mem_append, List.mem_cons, Prod.mk.injEq] at hmem ⊢
    rcases hmem with hfront | ⟨-, rfl⟩ | hback
    · exact .inl hfront
    · exact absurd rfl hne
    · exact .inr hback

theorem gone_apply {loop : ELoop κ} (h : loop.Sound) (op : WatchOp κ) {registration : Registration}
    (hgone : loop.Gone registration) : (loop.apply op).Gone registration := by
  obtain ⟨hserial, hnot⟩ := hgone
  cases change h op with
  | same keeps entries serial => exact ⟨by rwa [serial], by rwa [entries]⟩
  | fresh keeps fd address unused entries serial =>
    refine ⟨by rw [serial]; omega, fun fd' hmem => ?_⟩
    rw [entries] at hmem
    rcases List.mem_cons.mp hmem with hnew | hold
    · obtain ⟨-, rfl⟩ := Prod.mk.inj hnew
      exact absurd hserial (Nat.lt_irrefl _)
    · exact hnot fd' hold
  | frees fd r front back frees before entries serial =>
    refine ⟨by rwa [serial], fun fd' hmem => hnot fd' ?_⟩
    rw [entries] at hmem
    rw [before]
    simp only [List.mem_append, List.mem_cons] at hmem ⊢
    tauto

theorem gone_of_freedBy {loop : ELoop κ} (h : loop.Sound) {op : WatchOp κ}
    {registration : Registration} (hf : loop.freedBy op = some registration) :
    (loop.apply op).Gone registration := by
  cases change h op with
  | same keeps => simp [keeps] at hf
  | fresh keeps => simp [keeps] at hf
  | frees fd r front back frees before entries serial =>
    cases frees.symm.trans hf
    refine ⟨?_, fun fd' hmem => ?_⟩
    · rw [serial]
      refine h.serials (fd, registration) ?_
      simp [before]
    · have hnodup := h.addresses
      rw [before, List.map_append, List.map_cons, List.nodup_middle, ← List.map_append] at hnodup
      rw [entries] at hmem
      exact (List.nodup_cons.mp hnodup).1 (List.mem_map.mpr ⟨_, hmem, rfl⟩)

end ELoop

end Rapp

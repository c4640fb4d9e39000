import Rapp.HttpServer

/-!
# The watches of the server

After every step the loop holds three watches for each connection with an open
socket and none for any other, and what a batch has still to test can be read:
a record of the list, or one that was freed in this batch and has no callback.
-/
namespace Rapp

open CallOutcome (Outcome)
open ByteBlock

variable {κ : Type}

theorem update_eq_some {α : Type} {f : Nat → Option α} {x : Option α} {address other : Nat}
    {value : α} : Function.update f address x other = some value ↔
      (other = address ∧ x = some value) ∨ (other ≠ address ∧ f other = some value) := by
  rw [Function.update_apply]
  split
  · simp_all
  · simp_all

namespace ELoop

/-- A record lies at the address, in the list or among those that were freed. -/
def Readable (loop : ELoop κ) (removed : List (ELoopCallback κ)) (address : Nat) : Prop :=
  ∃ ec ∈ loop.callbacksList ++ removed, ec.registration.address = address

theorem addresses_write (loop : ELoop κ) (ec : ELoopCallback κ) :
    (loop.write ec).callbacksList.map (fun c => c.registration.address) =
      loop.callbacksList.map fun c => c.registration.address := by
  rw [write, List.map_map]
  refine List.map_congr_left fun c _ => ?_
  by_cases hc : c.registration = ec.registration
  · simp [hc]
  · simp [hc]

theorem readable_iff (loop : ELoop κ) (removed : List (ELoopCallback κ)) (address : Nat) :
    loop.Readable removed address ↔
      address ∈ loop.callbacksList.map (fun ec => ec.registration.address) ∨
        ∃ ec ∈ removed, ec.registration.address = address := by
  simp only [Readable, List.mem_append, List.mem_map, or_and_right, exists_or]

/-- A removal frees a record at most, and what was readable is readable. -/
theorem readable_remove {loop : ELoop κ} {removed : List (ELoopCallback κ)} {address : Nat}
    (h : loop.Readable removed address)
    (hsingle : (loop.callbacksList.map ELoopCallback.fd).Nodup) (fd : Nat)
    (type : ELoopWatchFdCallbackType) :
    (loop.removeFdWatch fd type true).2.Readable
      (removed ++ (loop.freedRecord fd type).toList) address := by
  rw [readable_iff] at h ⊢
  rw [removeFdWatch, freedRecord]
  cases hfind : loop.findCallbackByFd fd with
  | none => simpa using h
  | some ec =>
    simp only [Option.bind_some]
    split
    · rcases h with hlist | ⟨c, hc, hcaddress⟩
      · obtain ⟨c, hc, rfl⟩ := List.mem_map.mp hlist
        by_cases hfd : c.fd = fd
        · have hc' := (find_iff_mem hsingle fd c).mpr ⟨hc, hfd⟩
          cases hfind.symm.trans hc'
          exact .inr ⟨ec.unwatch type, List.mem_append_right _ List.mem_cons_self, rfl⟩
        · refine .inl (List.mem_map.mpr ⟨c, ?_, rfl⟩)
          rw [control_callbacksList]
          exact (List.mem_eraseP_of_neg (by simpa using hfd)).mpr hc
      · exact .inr ⟨c, List.mem_append_left _ hc, hcaddress⟩
    · rw [control_callbacksList, addresses_write]
      simpa using h

theorem readable_add {loop : ELoop κ} {removed : List (ELoopCallback κ)} {address : Nat}
    (h : loop.Readable removed address) (fd : Nat) (type : ELoopWatchFdCallbackType)
    (callback : κ) (allocated : Option Nat) (accepted : Bool) :
    (loop.addFdWatch fd type callback allocated accepted).2.Readable removed address := by
  rw [readable_iff] at h ⊢
  rw [addFdWatch]
  cases loop.findCallbackByFd fd with
  | some ec =>
    simp only [control_callbacksList, addresses_write]
    exact h
  | none =>
    cases loop.memoryCreate allocated with
    | none => exact h
    | some ec =>
      simp only [control_callbacksList, List.map_cons, List.mem_cons]
      exact h.imp_left .inr

/-- The record that a removal frees has no callback left. -/
theorem freedRecord_empty {loop : ELoop κ} {map : WatchMap κ} (h : loop.Holds map) {fd : Nat}
    {type : ELoopWatchFdCallbackType} {ec : ELoopCallback κ}
    (hec : loop.freedRecord fd type = some ec) (other : ELoopWatchFdCallbackType) :
    ec.callbacks other = none := by
  obtain ⟨found, hfind, hif⟩ := Option.bind_eq_some_iff.mp hec
  split at hif
  · rename_i hnone
    cases hif
    have hnode := h.nodes fd
    rw [hfind] at hnode
    obtain ⟨-, hcallbacks, -, hevents⟩ := hnode
    have hbit := (events_eq_none _).mp hnone other
    rw [unwatch_has hevents] at hbit
    rw [ELoopCallback.unwatch, hcallbacks]
    exact Option.isNone_iff_eq_none.mp (Option.isSome_eq_false_iff.mp hbit)
  · cases hif

/-- The flag is no part of what the loop holds. -/
theorem Holds.congr {loop next : ELoop κ} {map : WatchMap κ} (h : loop.Holds map)
    (hlist : next.callbacksList = loop.callbacksList) (hinterest : next.interest = loop.interest)
    (hserial : next.nextSerial = loop.nextSerial) : next.Holds map := by
  cases loop
  cases next
  subst hlist hinterest hserial
  exact ⟨⟨h.sound.addresses, h.sound.serials, h.sound.interest⟩, h.single, h.nodes⟩

/-- A descriptor that nobody watches is in no interest set. -/
theorem Holds.closeFd {loop : ELoop κ} {map : WatchMap κ} (h : loop.Holds map) {fd : Nat}
    (hnone : ∀ type, map fd type = none) : (loop.closeFd fd).Holds map := by
  refine h.congr rfl ?_ rfl
  have hnode := h.nodes fd
  rw [ELoop.closeFd, Function.update_eq_self_iff]
  cases hfind : loop.findCallbackByFd fd with
  | none =>
    rw [hfind] at hnode
    exact hnode.1.symm
  | some ec =>
    rw [hfind] at hnode
    obtain ⟨-, -, ⟨type, htype⟩, -⟩ := hnode
    exact absurd (hnone type) htype

/-- A reported test is of a record in the list. -/
theorem Holds.readable_reported {loop : ELoop κ} {map : WatchMap κ} (h : loop.Holds map)
    {ready : List (Nat × EpollEvents)} {t : Nat × ELoopWatchFdCallbackType}
    (ht : t ∈ loop.reported ready) : loop.Readable [] t.1 := by
  obtain ⟨event, hevent, htest⟩ := List.mem_flatMap.mp ht
  obtain ⟨r, -, hready⟩ := List.mem_filterMap.mp hevent
  obtain ⟨interest, hinterest, rfl⟩ := Option.map_eq_some_iff.mp hready
  obtain ⟨type, -, rfl⟩ := List.mem_map.mp htest
  obtain ⟨ec, hec, he⟩ := List.mem_map.mp (h.sound.interest _ _ hinterest)
  exact ⟨ec, by simpa using hec, by rw [(Prod.mk.inj he).2]⟩

end ELoop

namespace HTTPServer

/-! ### A connection changes or goes -/

/-- Its socket is closed if it was open and is no longer. -/
def withConnection (address : Nat) (c : ServerConnection) (x : Option ServerConnection)
    (s : HTTPServer) : HTTPServer :=
  { (if c.isOpen && !x.any ServerConnection.isOpen then s.tcpConnectionClose c.fd else s) with
    connections := Function.update s.connections address x }

section WithConnection

variable (address : Nat) (c : ServerConnection) (x : Option ServerConnection) (s : HTTPServer)

@[simp] theorem withConnection_connections :
    (s.withConnection address c x).connections = Function.update s.connections address x := rfl
@[simp] theorem withConnection_collector :
    (s.withConnection address c x).collector = s.collector := by
  simp only [withConnection]
  split <;> rfl
@[simp] theorem withConnection_accepted :
    (s.withConnection address c x).accepted = s.accepted := by
  simp only [withConnection]
  split <;> rfl
@[simp] theorem withConnection_phase : (s.withConnection address c x).phase = s.phase := by
  simp only [withConnection]
  split <;> rfl
@[simp] theorem withConnection_batch : (s.withConnection address c x).batch = s.batch := by
  simp only [withConnection]
  split <;> rfl
@[simp] theorem withConnection_trace : (s.withConnection address c x).trace = s.trace := by
  simp only [withConnection]
  split <;> rfl

end WithConnection

theorem afterCallback_eq (address : Nat) (c : ServerConnection) (http : HTTPConnection)
    (s : HTTPServer) : s.afterCallback address c http =
      (onRequestFinish ⟨address, c.serial⟩)^[http.data.finished - c.finished]
        (s.withConnection address c (some { c with http := http })) := by
  have hopen : (some { c with http := http }).any ServerConnection.isOpen = http.data.tcpOpen := rfl
  simp only [afterCallback, withConnection, hopen]
  congr 1
  split <;> rfl

theorem httpConnectionDestroy_eq {address : Nat} {c : ServerConnection} {s : HTTPServer}
    (hc : s.connections address = some c) : s.httpConnectionDestroy address =
      .ok ((s.note (.destroyed c.serial)).withConnection address c none) := by
  simp only [httpConnectionDestroy, hc, withConnection, Option.any_none, Bool.not_false,
    Bool.and_true]
  split <;> rfl

/-! ### The loop, the freed records and the descriptors -/

/-- The loop holds the map, the freed records are empty, and what is watched is open. -/
structure Watches (map : WatchMap ServerCallback) (s : HTTPServer) : Prop where
  holds : s.loop.Holds map
  removed : ∀ ec ∈ s.removed, ∀ type, ec.callbacks type = none
  descriptors : ∀ fd type, map fd type ≠ none → fd ∈ s.descriptors

theorem Watches.remove {map : WatchMap ServerCallback} {s : HTTPServer} (h : s.Watches map)
    (fd : Nat) (type : ELoopWatchFdCallbackType) :
    (s.removeFdWatch fd type).Watches ((WatchCall.remove fd type).note map) where
  holds := by
    have hallocates : (WatchCall.remove fd type).Allocates s.loop := trivial
    exact (h.holds.call hallocates).1
  removed := by
    intro ec hec
    rcases List.mem_append.mp hec with hold | hfreed
    · exact h.removed ec hold
    · exact ELoop.freedRecord_empty h.holds (Option.mem_toList.mp hfreed)
  descriptors := by
    intro other otherType hne
    refine h.descriptors other otherType fun hnone => hne ?_
    by_cases hfd : other = fd
    · subst hfd
      by_cases htype : otherType = type
      · simp [WatchCall.note, htype]
      · simp [WatchCall.note, htype, hnone]
    · simp [WatchCall.note, hfd, hnone]

/-- The three removals of a close. -/
theorem note_close (map : WatchMap κ) (fd : Nat) :
    [.remove fd .read, .remove fd .write, .remove fd .close].foldl WatchCall.note map =
      Function.update map fd fun _ => none := by
  funext other type
  by_cases hfd : other = fd
  · subst hfd
    cases type <;> simp [WatchCall.note]
  · simp [WatchCall.note, hfd]

theorem Watches.close {map : WatchMap ServerCallback} {s : HTTPServer} (h : s.Watches map)
    (fd : Nat) : (s.tcpConnectionClose fd).Watches (Function.update map fd fun _ => none) := by
  have hall := ((h.remove fd .read).remove fd .write).remove fd .close
  have hmap := note_close map fd
  simp only [List.foldl_cons, List.foldl_nil] at hmap
  rw [hmap] at hall
  refine ⟨hall.holds.closeFd fun type => by simp, hall.removed, fun other type hne => ?_⟩
  have hfd : other ≠ fd := by
    rintro rfl
    simp at hne
  rw [Function.update_of_ne hfd] at hne
  exact List.mem_filter.mpr ⟨h.descriptors other type hne, by simpa using hfd⟩

/-- What was readable stays so when a socket is closed. -/
theorem Watches.readable_close {map : WatchMap ServerCallback} {s : HTTPServer}
    (h : s.Watches map) (fd : Nat) {address : Nat} (hread : s.loop.Readable s.removed address) :
    (s.tcpConnectionClose fd).loop.Readable (s.tcpConnectionClose fd).removed address := by
  have hread₁ := ELoop.readable_remove hread h.holds.single fd .read
  have h₁ := h.remove fd .read
  have hread₂ := ELoop.readable_remove hread₁ h₁.holds.single fd .write
  have h₂ := h₁.remove fd .write
  exact ELoop.readable_remove hread₂ h₂.holds.single fd .close

/-- A watch of an open descriptor, with memory for a record where there is none. -/
theorem Watches.add {map : WatchMap ServerCallback} {s : HTTPServer} (h : s.Watches map)
    {fd : Nat} (hfd : fd ∈ s.descriptors) (type : ELoopWatchFdCallbackType)
    (callback : ServerCallback) (address : Nat)
    (hallocates : s.loop.findCallbackByFd fd = none → s.loop.load address = none) :
    (s.addFdWatch fd type callback address).Watches
      ((WatchCall.add fd type callback address).note map) where
  holds := by
    have hcall : (WatchCall.add fd type callback address).Allocates s.loop := hallocates
    exact (h.holds.call hcall).1
  removed := h.removed
  descriptors := by
    intro other otherType hne
    by_cases hother : other = fd
    · subst hother
      exact hfd
    · refine h.descriptors other otherType fun hnone => hne ?_
      simp [WatchCall.note, hother, hnone]

/-- A watched descriptor has a record. -/
theorem Watches.find_ne_none {map : WatchMap ServerCallback} {s : HTTPServer} (h : s.Watches map)
    {fd : Nat} (type : ELoopWatchFdCallbackType) (hne : map fd type ≠ none) :
    s.loop.findCallbackByFd fd ≠ none := by
  intro hfind
  have hnode := h.holds.nodes fd
  rw [hfind] at hnode
  exact hne (hnode.2 type)

/-- The three watches of `tcp_connection_set_callbacks`. -/
theorem note_setCallbacks (map : WatchMap κ) (fd : Nat) (callback : κ) (address : Nat) :
    [.add fd .read callback address, .add fd .write callback address,
      .add fd .close callback address].foldl WatchCall.note map =
        Function.update map fd fun _ => some callback := by
  funext other type
  by_cases hfd : other = fd
  · subst hfd
    cases type <;> simp [WatchCall.note]
  · simp [WatchCall.note, hfd]

theorem Watches.setCallbacks {map : WatchMap ServerCallback} {s : HTTPServer} (h : s.Watches map)
    {fd : Nat} (hfd : fd ∈ s.descriptors) (callback : ServerCallback) {address : Nat}
    (hfree : s.loop.load address = none) :
    (((s.addFdWatch fd .read callback address).addFdWatch fd .write callback address).addFdWatch
      fd .close callback address).Watches (Function.update map fd fun _ => some callback) := by
  have h₁ := h.add hfd .read callback address fun _ => hfree
  have h₂ := h₁.add hfd .write callback address fun hfind =>
    absurd hfind (h₁.find_ne_none .read (by simp [WatchCall.note]))
  have h₃ := h₂.add hfd .close callback address fun hfind =>
    absurd hfind (h₂.find_ne_none .write (by simp [WatchCall.note]))
  have hmap := note_setCallbacks map fd callback address
  simp only [List.foldl_cons, List.foldl_nil] at hmap
  rw [hmap] at h₃
  exact h₃

/-! ### The watches of the connections -/

/-- The connection a pointer was taken for, with its socket open at the descriptor. -/
def OpenAt (s : HTTPServer) (pointer : ConnectionPointer) (fd : Nat) : Prop :=
  ∃ c, s.connections pointer.address = some c ∧ c.serial = pointer.serial ∧ c.isOpen = true ∧
    c.fd = fd

/-- Every open connection is watched and no other, and the tests to come can be made. -/
structure Registered (map : WatchMap ServerCallback) (s : HTTPServer) : Prop where
  watches : s.Watches map
  open_iff : ∀ fd type pointer, map fd type = some (.onReady pointer) ↔ s.OpenAt pointer fd
  readable : ∀ tests, s.phase = .dispatching tests → ∀ t ∈ tests,
    s.loop.Readable s.removed t.1

/-- Two open sockets have different descriptors. -/
theorem Registered.fd_injective {map : WatchMap ServerCallback} {s : HTTPServer}
    (h : s.Registered map) {p q : ConnectionPointer} {fd : Nat} (hp : s.OpenAt p fd)
    (hq : s.OpenAt q fd) : p = q := by
  have hmap := ((h.open_iff fd .read p).mpr hp).symm.trans ((h.open_iff fd .read q).mpr hq)
  simpa using hmap

/-- The trace, the collector and the counters are no part of it. -/
theorem Registered.congr {map : WatchMap ServerCallback} {s next : HTTPServer}
    (h : s.Registered map) (hloop : next.loop = s.loop) (hremoved : next.removed = s.removed)
    (hconnections : next.connections = s.connections)
    (hdescriptors : next.descriptors = s.descriptors)
    (hphase : ∀ tests, next.phase = .dispatching tests → ∀ t ∈ tests,
      s.loop.Readable s.removed t.1) : next.Registered map where
  watches := ⟨hloop ▸ h.watches.holds, hremoved ▸ h.watches.removed,
    hdescriptors ▸ h.watches.descriptors⟩
  open_iff := fun fd type pointer => by
    rw [OpenAt, hconnections]
    exact h.open_iff fd type pointer
  readable := by
    rw [hloop, hremoved]
    exact hphase

/-- The socket of a connection is closed, and the connection changes or goes. -/
theorem Registered.close {map : WatchMap ServerCallback} {s : HTTPServer}
    (h : s.Registered map) {address : Nat} {c : ServerConnection}
    (hc : s.connections address = some c) (hopen : c.isOpen = true) (x : Option ServerConnection)
    (hx : ∀ c' ∈ x, c'.isOpen = false) :
    HTTPServer.Registered (Function.update map c.fd fun _ => none)
      { s.tcpConnectionClose c.fd with
        connections := Function.update s.connections address x } := by
  have hwatches := h.watches.close c.fd
  have hself : s.OpenAt ⟨address, c.serial⟩ c.fd := ⟨c, hc, rfl, hopen, rfl⟩
  refine ⟨⟨hwatches.holds, hwatches.removed, hwatches.descriptors⟩, ?_, ?_⟩
  · intro fd type pointer
    constructor
    · intro hmap
      have hfd : fd ≠ c.fd := by
        rintro rfl
        simp at hmap
      rw [Function.update_of_ne hfd] at hmap
      obtain ⟨d, hd, hserial, hdopen, hdfd⟩ := (h.open_iff fd type pointer).mp hmap
      have haddress : pointer.address ≠ address := by
        intro heq
        rw [heq, hc] at hd
        cases hd
        exact hfd hdfd.symm
      exact ⟨d, update_eq_some.mpr (.inr ⟨haddress, hd⟩), hserial, hdopen, hdfd⟩
    · rintro ⟨d, hd, hserial, hdopen, hdfd⟩
      rcases update_eq_some.mp hd with ⟨-, hd'⟩ | ⟨haddress, hd'⟩
      · cases (hx d hd').symm.trans hdopen
      · have hold : s.OpenAt pointer fd := ⟨d, hd', hserial, hdopen, hdfd⟩
        have hfd : fd ≠ c.fd := by
          rintro rfl
          exact haddress (congrArg ConnectionPointer.address (h.fd_injective hold hself))
        rw [Function.update_of_ne hfd]
        exact (h.open_iff fd type pointer).mpr hold
  · intro tests hphase t ht
    exact h.watches.readable_close c.fd (h.readable tests hphase t ht)

/-- A connection changes or goes whose socket stays open, or was closed before. -/
theorem Registered.change {map : WatchMap ServerCallback} {s : HTTPServer}
    (h : s.Registered map) {address : Nat} {c : ServerConnection}
    (hc : s.connections address = some c) (x : Option ServerConnection)
    (hx : ∀ c' ∈ x, c'.serial = c.serial ∧ c'.fd = c.fd ∧ (c'.isOpen = true → c.isOpen = true))
    (hopen : c.isOpen = true → ∃ c' ∈ x, c'.isOpen = true) :
    HTTPServer.Registered map
      { s with connections := Function.update s.connections address x } := by
  refine ⟨⟨h.watches.holds, h.watches.removed, h.watches.descriptors⟩, ?_, h.readable⟩
  intro fd type pointer
  rw [h.open_iff]
  constructor
  · rintro ⟨d, hd, hserial, hdopen, hdfd⟩
    by_cases haddress : pointer.address = address
    · rw [haddress, hc] at hd
      cases hd
      obtain ⟨c', hc', hopen'⟩ := hopen hdopen
      obtain ⟨hserial', hfd', -⟩ := hx c' hc'
      exact ⟨c', update_eq_some.mpr (.inl ⟨haddress, hc'⟩), hserial'.trans hserial, hopen',
        hfd'.trans hdfd⟩
    · exact ⟨d, update_eq_some.mpr (.inr ⟨haddress, hd⟩), hserial, hdopen, hdfd⟩
  · rintro ⟨d, hd, hserial, hdopen, hdfd⟩
    rcases update_eq_some.mp hd with ⟨haddress, hd'⟩ | ⟨-, hd'⟩
    · obtain ⟨hserial', hfd', hopen'⟩ := hx d hd'
      exact ⟨c, by rw [haddress]; exact hc, hserial'.symm.trans hserial, hopen' hdopen,
        hfd'.symm.trans hdfd⟩
    · exact ⟨d, hd', hserial, hdopen, hdfd⟩

/-- A connection that changes keeps its descriptor and serial, and opens no socket. -/
theorem Registered.withConnection {map : WatchMap ServerCallback} {s : HTTPServer}
    (h : s.Registered map) {address : Nat} {c : ServerConnection}
    (hc : s.connections address = some c) (x : Option ServerConnection)
    (hx : ∀ c' ∈ x, c'.serial = c.serial ∧ c'.fd = c.fd ∧ (c'.isOpen = true → c.isOpen = true)) :
    ∃ map', (s.withConnection address c x).Registered map' := by
  rw [HTTPServer.withConnection]
  by_cases hclose : (c.isOpen && !x.any ServerConnection.isOpen) = true
  · rw [if_pos hclose]
    simp only [Bool.and_eq_true, Bool.not_eq_true', Option.any_eq_false] at hclose
    have hshut : ∀ c' ∈ x, c'.isOpen = false := fun c' hc' => by simpa using hclose.2 c' hc'
    exact ⟨_, h.close hc hclose.1 x hshut⟩
  · rw [if_neg hclose]
    refine ⟨map, h.change hc x hx fun hopen => ?_⟩
    have hany : x.any ServerConnection.isOpen = true := by simpa [hopen] using hclose
    exact (Option.any_eq_true _ _).mp hany

/-- A connection that was accepted is watched. -/
theorem Registered.onAccept {map : WatchMap ServerCallback} {s : HTTPServer}
    (h : s.Registered map) (serverName : Bytes) {answer : Accepted} (haccepts : s.Accepts answer) :
    ∃ map', (s.onAccept serverName answer).Registered map' := by
  obtain ⟨hfd, hconnection, hrecord, hremoved⟩ := haccepts
  have hunwatched : ∀ type, map answer.fd type = none := by
    intro type
    by_contra hne
    exact hfd (h.watches.descriptors answer.fd type hne)
  let callback := ServerCallback.onReady ⟨answer.connection, s.accepted⟩
  let opened : HTTPServer := { s with
    connections := Function.update s.connections answer.connection
      (some ⟨s.accepted, answer.fd, HTTPConnection.new serverName⟩)
    accepted := s.accepted + 1
    descriptors := answer.fd :: s.descriptors }
  have hopened : opened.Watches map := ⟨h.watches.holds, h.watches.removed,
    fun fd type hne => List.mem_cons_of_mem _ (h.watches.descriptors fd type hne)⟩
  have hset := hopened.setCallbacks List.mem_cons_self callback hrecord
  refine ⟨Function.update map answer.fd fun _ => some callback, hset, ?_, ?_⟩
  · intro fd type pointer
    constructor
    · intro hmap
      by_cases hfd' : fd = answer.fd
      · subst hfd'
        rw [Function.update_self] at hmap
        have hpointer : ServerCallback.onReady ⟨answer.connection, s.accepted⟩ =
          .onReady pointer := Option.some.inj hmap
        cases hpointer
        exact ⟨_, Function.update_self _ _ _, rfl, rfl, rfl⟩
      · rw [Function.update_of_ne hfd'] at hmap
        obtain ⟨d, hd, hserial, hopen, hdfd⟩ := (h.open_iff fd type pointer).mp hmap
        have haddress : pointer.address ≠ answer.connection := by
          intro heq
          rw [heq, hconnection] at hd
          cases hd
        exact ⟨d, update_eq_some.mpr (.inr ⟨haddress, hd⟩), hserial, hopen, hdfd⟩
    · rintro ⟨d, hd, hserial, hopen, hdfd⟩
      rcases update_eq_some.mp hd with ⟨haddress, hd'⟩ | ⟨-, hd'⟩
      · cases hd'
        cases pointer
        cases hdfd
        cases hserial
        cases haddress
        rw [Function.update_self]
      · have hmap := (h.open_iff fd type pointer).mpr ⟨d, hd', hserial, hopen, hdfd⟩
        have hne : fd ≠ answer.fd := by
          rintro rfl
          cases (hunwatched type).symm.trans hmap
        rw [Function.update_of_ne hne]
        exact hmap
  · intro tests hphase t ht
    have hread := h.readable tests hphase t ht
    exact ELoop.readable_add (ELoop.readable_add (ELoop.readable_add hread _ _ _ _ _) _ _ _ _ _)
      _ _ _ _ _

end HTTPServer

end Rapp

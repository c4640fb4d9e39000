import Rapp.DeferredDestruction
import Rapp.ResponseStream
import Rapp.Lib.Components

/-!
# Connections side by side

What one step of the server does to its connections is said once, in
`Change`. A callback works on the connection it was registered for and on
no other, so whatever the events of the others and their order, each connection
is where its own events have taken it.
-/
namespace Rapp

open CallOutcome (Outcome run Admitted)
open InterleavedComponents (eventsOf forComponent forComponent_other Isolates component_run)
open ByteBlock
open StreamFraming (Received receive)

/-- What a test of the loop hands to a connection: what the containers do, and the event. -/
abbrev Delivery := Serve × ConnectionEvent

/-! ### What a step does -/

/-- The descriptor an operation removes a watch of. -/
def WatchOp.removes {κ : Type} : WatchOp κ → Option Nat
  | .remove fd _ _ => some fd
  | _ => none

/-- The descriptor an operation is about. -/
def WatchOp.target {κ : Type} : WatchOp κ → Option Nat
  | .add fd _ _ _ _ => some fd
  | .remove fd _ _ => some fd
  | .close fd => some fd
  | .stop => none

namespace ELoop

variable {κ : Type}

theorem freedBy_eq_some {loop : ELoop κ} {op : WatchOp κ} {registration : Registration}
    (h : loop.freedBy op = some registration) :
    ∃ fd, op.removes = some fd ∧ (fd, registration) ∈ loop.entries := by
  cases op with
  | remove fd type accepted =>
    obtain ⟨ec, hfind, hif⟩ := Option.bind_eq_some_iff.mp h
    split at hif
    · cases hif
      exact ⟨fd, rfl, mem_entries_of_find hfind⟩
    · cases hif
  | add fd type callback allocated accepted => cases h
  | close fd => cases h
  | stop => cases h

/-- A registration lies where it lay while no watch of its descriptor is removed. -/
theorem mem_entries_apply {loop : ELoop κ} (h : loop.Sound) {op : WatchOp κ}
    {e : Nat × Registration} (he : e ∈ loop.entries) (hop : op.removes ≠ some e.1) :
    e ∈ (loop.apply op).entries := by
  cases change h op with
  | same keeps entries serial => rwa [entries]
  | fresh keeps fd address unused entries serial =>
    rw [entries]
    exact List.mem_cons_of_mem _ he
  | frees fd r front back frees before entries serial =>
    obtain ⟨fd', hremoves, hmem⟩ := freedBy_eq_some frees
    have hne : e ≠ (fd, r) := by
      rintro rfl
      have hsame : ((fd', r) : Nat × Registration) = (fd, r) := by
        refine List.inj_on_of_nodup_map (f := fun entry => entry.2.address) h.addresses hmem he rfl
      exact hop (hremoves.trans (congrArg (fun entry => some entry.1) hsame))
    rw [before] at he
    rw [entries]
    simp only [List.mem_append, List.mem_cons, hne, false_or] at he ⊢
    exact he

theorem mem_entries_perform {loop : ELoop κ} (h : loop.Sound) {script : List (WatchOp κ)}
    {e : Nat × Registration} (he : e ∈ loop.entries)
    (hscript : ∀ op ∈ script, op.removes ≠ some e.1) : e ∈ (loop.perform script).entries := by
  induction script generalizing loop with
  | nil => exact he
  | cons op script ih =>
    have hop := mem_entries_apply h he (hscript op List.mem_cons_self)
    exact ih (sound_apply h op) hop fun other hmem => hscript other (List.mem_cons_of_mem _ hmem)

@[simp] theorem control_running (loop : ELoop κ) (operation : EpollOperation) (fd : Nat)
    (accepted : Bool) : (loop.control operation fd accepted).2.running = loop.running := by
  unfold control
  split <;> rfl

theorem addFdWatch_running (loop : ELoop κ) (fd : Nat) (type : ELoopWatchFdCallbackType)
    (callback : κ) (allocated : Option Nat) (accepted : Bool) :
    (loop.addFdWatch fd type callback allocated accepted).2.running = loop.running := by
  unfold addFdWatch
  cases loop.findCallbackByFd fd with
  | some ec => exact control_running _ _ _ _
  | none =>
    cases loop.memoryCreate allocated with
    | some ec => exact control_running _ _ _ _
    | none => rfl

theorem removeFdWatch_running (loop : ELoop κ) (fd : Nat) (type : ELoopWatchFdCallbackType)
    (accepted : Bool) : (loop.removeFdWatch fd type accepted).2.running = loop.running := by
  unfold removeFdWatch
  cases loop.findCallbackByFd fd with
  | some ec =>
    simp only
    split <;> exact control_running _ _ _ _
  | none => rfl

theorem control_find (loop : ELoop κ) (operation : EpollOperation) (fd other : Nat)
    (accepted : Bool) : (loop.control operation fd accepted).2.findCallbackByFd other =
      loop.findCallbackByFd other := by
  unfold control
  split <;> rfl

theorem control_other (loop : ELoop κ) (operation : EpollOperation) {fd other : Nat}
    (hother : other ≠ fd) (accepted : Bool) :
    (loop.control operation fd accepted).2.interest other = loop.interest other := by
  cases operation <;> cases hold : loop.interest fd <;> cases accepted <;>
    simp [control, epollCtl, hold, Function.update_of_ne hother]

theorem find_eraseP_other {l : List (ELoopCallback κ)} {fd other : Nat} (hother : other ≠ fd) :
    (l.eraseP fun c => c.fd = fd).find? (fun c => c.fd = other) =
      l.find? fun c => c.fd = other := by
  induction l with
  | nil => rfl
  | cons c l ih =>
    by_cases hfd : c.fd = fd
    · rw [List.eraseP_cons_of_pos (by simpa using hfd), List.find?_cons_of_neg]
      simpa [hfd] using hother.symm
    · rw [List.eraseP_cons_of_neg (by simpa using hfd), List.find?_cons, List.find?_cons, ih]

/-- What an operation is not about stays as it was. -/
theorem apply_other {loop : ELoop κ} (h : loop.Sound) {op : WatchOp κ} {other : Nat}
    (hop : op.target ≠ some other) :
    (loop.apply op).findCallbackByFd other = loop.findCallbackByFd other ∧
      (loop.apply op).interest other = loop.interest other := by
  cases op with
  | add fd type callback allocated accepted =>
    have hother : other ≠ fd := fun hsame => hop (congrArg some hsame.symm)
    cases hfind : loop.findCallbackByFd fd with
    | some ec =>
      have hwrite := find_write h hfind (ec.watch_fd fd type callback) rfl other
      simp only [apply, addFdWatch, hfind, control_find, control_other _ _ hother]
      exact ⟨by rw [hwrite, if_neg hother], rfl⟩
    | none =>
      cases hmemory : loop.memoryCreate allocated with
      | none => simp only [apply, addFdWatch, hfind, hmemory, and_self]
      | some ec =>
        simp only [apply, addFdWatch, hfind, hmemory, control_find, control_other _ _ hother,
          and_true]
        exact List.find?_cons_of_neg (by simp [Ne.symm hother])
  | remove fd type accepted =>
    have hother : other ≠ fd := fun hsame => hop (congrArg some hsame.symm)
    cases hfind : loop.findCallbackByFd fd with
    | none => simp only [apply, removeFdWatch, hfind, and_self]
    | some ec =>
      have hfd : (ec.unwatch type).fd = fd :=
        (ec.unwatch_fd type).trans (findCallbackByFd_fd hfind)
      simp only [apply, removeFdWatch, hfind]
      split
      · rw [control_find, control_other _ _ hother]
        exact ⟨find_eraseP_other hother, rfl⟩
      · rw [control_find, control_other _ _ hother, find_write h hfind hfd rfl, if_neg hother]
        exact ⟨rfl, rfl⟩
  | close fd =>
    have hother : other ≠ fd := fun hsame => hop (congrArg some hsame.symm)
    exact ⟨rfl, Function.update_of_ne hother _ _⟩
  | stop => exact ⟨rfl, rfl⟩

theorem perform_other {loop : ELoop κ} (h : loop.Sound) {script : List (WatchOp κ)} {other : Nat}
    (hscript : ∀ op ∈ script, op.target ≠ some other) :
    (loop.perform script).findCallbackByFd other = loop.findCallbackByFd other ∧
      (loop.perform script).interest other = loop.interest other := by
  induction script generalizing loop with
  | nil => exact ⟨rfl, rfl⟩
  | cons op script ih =>
    obtain ⟨hfind, hinterest⟩ := apply_other h (hscript op List.mem_cons_self)
    obtain ⟨hfind', hinterest'⟩ :=
      ih (sound_apply h op) fun later hmem => hscript later (List.mem_cons_of_mem _ hmem)
    exact ⟨hfind'.trans hfind, hinterest'.trans hinterest⟩

/-- No operation starts the loop. -/
theorem running_perform {loop : ELoop κ} {script : List (WatchOp κ)}
    (h : (loop.perform script).running = true) : loop.running = true := by
  induction script generalizing loop with
  | nil => exact h
  | cons op script ih =>
    have hop : (loop.apply op).running = true := ih h
    cases op with
    | add fd type callback allocated accepted =>
      exact (addFdWatch_running loop fd type callback allocated accepted).symm.trans hop
    | remove fd type accepted =>
      exact (removeFdWatch_running loop fd type accepted).symm.trans hop
    | close fd => exact hop
    | stop => cases hop

end ELoop

namespace HTTPServer

/-- The connection whose callback comes next, by its serial, and what it is called with. -/
def dispatched (i : ServerInput) (s : HTTPServer) : Option (Nat × Delivery) :=
  match i, s.phase with
  | .test answers, .dispatching (next :: _) =>
    match s.callbackAt next.1 next.2 with
    | some (some (.onReady pointer)) =>
      some (pointer.serial, answers.serve, answers.event next.2)
    | _ => none
  | _, _ => none

/-- The descriptors when a connection is replaced; a socket it has no longer was closed. -/
def descriptorsAfter (s : HTTPServer) (c : ServerConnection) (x : Option ServerConnection) :
    List Nat :=
  if c.isOpen && !x.any ServerConnection.isOpen then s.descriptors.filter (· ≠ c.fd)
  else s.descriptors

/-- What was registered is registered, or its descriptor was closed, a descriptor that
stays open keeps its watches, and a loop that was stopped stays so. -/
structure Spares (s t : HTTPServer) : Prop where
  entries : ∀ e ∈ s.loop.entries, e ∈ t.loop.entries ∨ e.1 ∉ t.descriptors
  nodes : ∀ fd ∈ s.descriptors, fd ∈ t.descriptors →
    t.loop.findCallbackByFd fd = s.loop.findCallbackByFd fd ∧
      t.loop.interest fd = s.loop.interest fd
  running : t.loop.running = true → s.loop.running = true

theorem spares_refl {s t : HTTPServer} (h : t.loop = s.loop) : s.Spares t := by
  refine ⟨fun e he => .inl ?_, fun fd _ _ => ?_, fun hrunning => ?_⟩
  · rwa [h]
  · rw [h]
    exact ⟨rfl, rfl⟩
  · rwa [← h]

/-- The trace, the collector and the phase are no part of it. -/
theorem Spares.congr {s t before after : HTTPServer} (h : s.Spares t)
    (hbefore : before.loop = s.loop) (hafter : after.loop = t.loop)
    (hopen : before.descriptors = s.descriptors)
    (hdescriptors : after.descriptors = t.descriptors) : before.Spares after := by
  constructor
  · rw [hbefore, hafter, hdescriptors]
    exact h.entries
  · rw [hbefore, hafter, hopen, hdescriptors]
    exact h.nodes
  · rw [hbefore, hafter]
    exact h.running

theorem spares_withConnection {s : HTTPServer} (h : s.loop.Sound) (address : Nat)
    (c : ServerConnection) (x : Option ServerConnection) :
    s.Spares (s.withConnection address c x) := by
  simp only [withConnection]
  split
  · have hloop : (s.tcpConnectionClose c.fd).loop = s.loop.perform [.remove c.fd .read true,
      .remove c.fd .write true, .remove c.fd .close true, .close c.fd] := rfl
    constructor
    · intro e he
      by_cases hfd : e.1 = c.fd
      · refine .inr ?_
        simp [tcpConnectionClose, hfd]
      · refine .inl ?_
        simp only [hloop]
        refine ELoop.mem_entries_perform h he ?_
        simpa [WatchOp.removes] using Ne.symm hfd
    · intro fd _ hafter
      have hfd : fd ≠ c.fd := by
        simp only [tcpConnectionClose, List.mem_filter] at hafter
        simpa using hafter.2
      simp only [hloop]
      exact ELoop.perform_other h (by simpa [WatchOp.target] using hfd.symm)
    · intro hrunning
      simp only [hloop] at hrunning
      exact ELoop.running_perform hrunning
  · exact spares_refl rfl

theorem spares_onAccept {s : HTTPServer} (h : s.loop.Sound) (serverName : Bytes)
    {answer : Accepted} (haccepts : s.Accepts answer) :
    s.Spares (s.onAccept serverName answer) := by
  let callback := ServerCallback.onReady ⟨answer.connection, s.accepted⟩
  have hloop : (s.onAccept serverName answer).loop = s.loop.perform
    [.add answer.fd .read callback (some answer.record) true,
      .add answer.fd .write callback (some answer.record) true,
      .add answer.fd .close callback (some answer.record) true] := rfl
  constructor
  · intro e he
    rw [hloop]
    exact .inl (ELoop.mem_entries_perform h he (by simp [WatchOp.removes]))
  · intro fd hfd _
    have hne : answer.fd ≠ fd := by
      rintro rfl
      exact haccepts.1 hfd
    rw [hloop]
    exact ELoop.perform_other h (by simpa [WatchOp.target] using hne)
  · rw [hloop]
    exact ELoop.running_perform

/-- All a step can do to the connections, the descriptors and the record of destructions. -/
inductive Change (parseUrl : ParseUrl) (serverName : Bytes) (i : ServerInput)
    (s t : HTTPServer) : Prop where
  | nothing (label : s.dispatched i = none) (connections : t.connections = s.connections)
    (accepted : t.accepted = s.accepted) (descriptors : t.descriptors = s.descriptors)
    (destructions : t.destructions = s.destructions) (spared : s.Spares t)
  | accept (answer : Accepted) (label : s.dispatched i = none) (accepts : s.Accepts answer)
    (connections : t.connections = Function.update s.connections answer.connection
      (some ⟨s.accepted, answer.fd, HTTPConnection.new serverName⟩))
    (accepted : t.accepted = s.accepted + 1)
    (descriptors : t.descriptors = answer.fd :: s.descriptors)
    (destructions : t.destructions = s.destructions) (spared : s.Spares t)
  | callback (address : Nat) (c : ServerConnection) (http : HTTPConnection) (delivery : Delivery)
    (label : s.dispatched i = some (c.serial, delivery))
    (found : s.connections address = some c)
    (called : c.http.step parseUrl delivery.1 delivery.2 = .ok http)
    (connections : t.connections =
      Function.update s.connections address (some { c with http := http }))
    (accepted : t.accepted = s.accepted)
    (descriptors : t.descriptors = s.descriptorsAfter c (some { c with http := http }))
    (destructions : t.destructions = s.destructions) (spared : s.Spares t)
  | destroy (address : Nat) (c : ServerConnection) (label : s.dispatched i = none)
    (found : s.connections address = some c)
    (connections : t.connections = Function.update s.connections address none)
    (accepted : t.accepted = s.accepted) (descriptors : t.descriptors = s.descriptorsAfter c none)
    (destructions : ∀ serial, t.destructions serial = s.destructions serial ++
      if c.serial = serial then [⟨s.batch, true⟩] else []) (spared : s.Spares t)

theorem withConnection_descriptors (address : Nat) (c : ServerConnection)
    (x : Option ServerConnection) (s : HTTPServer) :
    (s.withConnection address c x).descriptors = s.descriptorsAfter c x := by
  simp only [withConnection, descriptorsAfter]
  split <;> rfl

end HTTPServer

/-- The callbacks of a connection return nothing; none of them fails. -/
theorem HTTPConnection.step_ne_failed (parseUrl : ParseUrl) (serve : Serve) (e : ConnectionEvent)
    (m n : HTTPConnection) : m.step parseUrl serve e ≠ .failed n := by
  cases e with
  | read result =>
    cases result with
    | got call =>
      simp only [step, onRead]
      cases appendData parseUrl (onNewRequest serve) call m <;> simp [Outcome.recover]
    | shutdown => simp [step, onRead]
    | wouldBlock => simp [step, onRead]
    | error => simp [step, onRead]
  | write shrunk result =>
    simp only [step, onWrite]
    split
    · simp
    · split
      · simp
      · split <;> simp
  | close => simp [step, onClose]
  | append piece => simp [step]

namespace HTTPServer

/-- A callback of a connection. -/
theorem change_onReady {s t : HTTPServer} (hsound : s.loop.Sound) {parseUrl : ParseUrl}
    {serverName : Bytes} {i : ServerInput} {tests : List (Nat × ELoopWatchFdCallbackType)}
    {pointer : ConnectionPointer} {type : ELoopWatchFdCallbackType} {answers : TestAnswers}
    {c : ServerConnection}
    (hlabel : s.dispatched i = some (pointer.serial, answers.serve, answers.event type))
    (hc : s.connections pointer.address = some c) (hserial : c.serial = pointer.serial)
    (ht : HTTPServer.onReady parseUrl pointer type answers
      { s with phase := .dispatching tests } = .ok t) :
    Change parseUrl serverName i s t := by
  cases hstep : c.http.step parseUrl answers.serve (answers.event type) with
  | failed http => exact absurd hstep (HTTPConnection.step_ne_failed _ _ _ _ _)
  | undefined why =>
    simp only [onReady, hc, hstep] at ht
    cases ht
  | ok http =>
    simp only [onReady, hc, hstep] at ht
    have hnext := (Outcome.ok.inj ht).symm
    rw [afterCallback_eq] at hnext
    let s' : HTTPServer := { s with phase := .dispatching tests }
    let changed := (s'.note (.invoked pointer.serial)).withConnection pointer.address c
      (some { c with http := http })
    let count := http.data.finished - c.finished
    obtain ⟨hsame, hnoted⟩ := iterate_onRequestFinish ⟨pointer.address, c.serial⟩ count changed
    have hmoment : changed.moment = s'.moment := by simp [changed, moment, note]
    have hlast : ((onRequestFinish ⟨pointer.address, c.serial⟩)^[count] changed).moment =
        s'.moment := by
      rw [← hmoment, moment, moment, hsame.batch, hsame.phase]
    have htrace : t.trace = s.trace ++ callbackTrace s'.moment c.serial count := by
      have hreturned : (((onRequestFinish ⟨pointer.address, c.serial⟩)^[count] changed).note
        (.returned pointer.serial)).trace =
        ((onRequestFinish ⟨pointer.address, c.serial⟩)^[count] changed).trace ++
          [(((onRequestFinish ⟨pointer.address, c.serial⟩)^[count] changed).moment,
            .returned pointer.serial)] := rfl
      have hbegun : changed.trace = s.trace ++ [(s'.moment, .invoked pointer.serial)] :=
        withConnection_trace _ _ _ _
      rw [hnext, hreturned, hlast, hnoted, hbegun, hmoment, ← hserial, callbackTrace,
        List.append_assoc, List.append_assoc, List.singleton_append]
    refine .callback pointer.address c http (answers.serve, answers.event type)
      (hserial ▸ hlabel) hc hstep ?_ ?_ ?_ (destructions_callback htrace) ?_
    · rw [hnext]
      exact hsame.connections
    · rw [hnext]
      exact hsame.accepted.trans (withConnection_accepted _ _ _ _)
    · rw [hnext]
      exact hsame.descriptors.trans (withConnection_descriptors _ _ _ _)
    · have hspared := spares_withConnection (s := s'.note (.invoked pointer.serial)) hsound
        pointer.address c (some { c with http := http })
      rw [hnext]
      exact hspared.congr rfl hsame.loop rfl hsame.descriptors

/-- The connection of the first entry of the list is destroyed, or the list is done. -/
theorem Kept.change_collectRound {s t : HTTPServer} (h : s.Kept) {parseUrl : ParseUrl}
    {serverName : Bytes} {i : ServerInput} (hphase : s.phase = .collecting)
    (hlabel : s.dispatched i = none) (ht : s.collectRound = .ok t) :
    Change parseUrl serverName i s t := by
  rw [HTTPServer.collectRound] at ht
  cases hlist : s.collector.collectEntriesList with
  | nil =>
    rw [hlist] at ht
    obtain rfl := Outcome.ok.inj ht
    exact .nothing hlabel rfl rfl rfl rfl (spares_refl rfl)
  | cons entry next =>
    have hmem : entry.data ∈ s.collector.collectEntriesList.map CollectEntry.data := by
      simp [hlist]
    obtain ⟨c, hc, -⟩ := (h.scheduled.mem_iff entry.data).mp hmem
    simp only [hlist, httpConnectionDestroy_eq hc, Outcome.map_ok, Outcome.ok.injEq] at ht
    have htrace : t.trace = s.trace ++ [(⟨s.batch, true⟩, .destroyed c.serial)] := by
      simp [← ht, note, moment, hphase]
    refine .destroy entry.data c hlabel hc ?_ ?_ ?_ (destructions_destroy htrace) ?_
    · simp [← ht, note]
    · simp [← ht, note]
    · rw [← ht]
      exact withConnection_descriptors entry.data c none _
    · obtain ⟨map, hregistered⟩ := h.registered
      have hspared := spares_withConnection (s := s.note (.destroyed c.serial))
        hregistered.watches.holds.sound entry.data c none
      rw [← ht]
      exact hspared.congr rfl rfl rfl rfl

/-- The step lemma: what a step does to the connections, whatever comes next. -/
theorem Kept.change {s t : HTTPServer} (h : s.Kept) {parseUrl : ParseUrl} {serverName : Bytes}
    {i : ServerInput} (ht : s.step parseUrl serverName i = .ok t) :
    Change parseUrl serverName i s t := by
  obtain ⟨map, hregistered⟩ := h.registered
  cases hphase : s.phase with
  | waiting =>
    cases i with
    | wait ready =>
      simp only [HTTPServer.step, hphase] at ht
      split at ht
      · obtain rfl := Outcome.ok.inj ht
        exact .nothing rfl rfl rfl rfl rfl (spares_refl rfl)
      · cases ht
    | test answers => simp [HTTPServer.step, hphase] at ht
    | collect => simp [HTTPServer.step, hphase] at ht
  | dispatching tests =>
    cases i with
    | wait ready => simp [HTTPServer.step, hphase] at ht
    | test answers =>
      cases tests with
      | nil => simp [HTTPServer.step, hphase] at ht
      | cons next tests =>
        simp only [HTTPServer.step, hphase, test] at ht
        have hread := hregistered.readable _ hphase next List.mem_cons_self
        obtain ⟨found, hfound, hcallback⟩ := hregistered.callbackAt hread next.2
        have hsame : callbackAt next.1 next.2 { s with phase := .dispatching tests } =
          s.callbackAt next.1 next.2 := rfl
        rw [hsame, hfound] at ht
        cases found with
        | none =>
          obtain rfl := Outcome.ok.inj ht
          exact .nothing (by simp [dispatched, hphase, hfound]) rfl rfl rfl rfl (spares_refl rfl)
        | some callback =>
          obtain ⟨fd, hmap⟩ := hcallback callback rfl
          cases callback with
          | onIncomingConnection =>
            have hlabel : s.dispatched (.test answers) = none := by
              simp [dispatched, hphase, hfound]
            simp only [HTTPServer.invoke, HTTPServer.onIncomingConnection,
              Outcome.ok.injEq] at ht
            subst ht
            cases answers.accepted with
            | none => exact .nothing hlabel rfl rfl rfl rfl (spares_refl rfl)
            | some answer =>
              simp only
              split
              · rename_i haccepts
                have hspared :=
                  spares_onAccept hregistered.watches.holds.sound serverName haccepts
                exact .accept answer hlabel haccepts rfl rfl rfl rfl
                  (hspared.congr rfl rfl rfl rfl)
              · exact .nothing hlabel rfl rfl rfl rfl (spares_refl rfl)
          | onSignal =>
            have hlabel : s.dispatched (.test answers) = none := by
              simp [dispatched, hphase, hfound]
            simp only [HTTPServer.invoke, HTTPServer.onSignal, Outcome.ok.injEq] at ht
            subst ht
            split
            · exact .nothing hlabel rfl rfl rfl rfl
                ⟨fun e he => .inl he, fun fd _ _ => ⟨rfl, rfl⟩, by simp [ELoop.stop]⟩
            · exact .nothing hlabel rfl rfl rfl rfl (spares_refl rfl)
          | onReady pointer =>
            obtain ⟨c, hc, hserial, -⟩ := (hregistered.open_iff fd next.2 pointer).mp hmap
            exact change_onReady hregistered.watches.holds.sound
              (by simp [dispatched, hphase, hfound]) hc hserial ht
    | collect =>
      cases tests with
      | nil =>
        simp only [HTTPServer.step, hphase, Outcome.ok.injEq] at ht
        subst ht
        exact .nothing rfl rfl rfl rfl rfl (spares_refl rfl)
      | cons next tests => simp [HTTPServer.step, hphase] at ht
  | collecting =>
    cases i with
    | wait ready => simp [HTTPServer.step, hphase] at ht
    | test answers => simp [HTTPServer.step, hphase] at ht
    | collect =>
      simp only [HTTPServer.step, hphase] at ht
      exact h.change_collectRound hphase rfl ht

/-! ### Each connection by itself -/

/-- The connection with this serial, if it is there. -/
def HasConnection (s : HTTPServer) (serial : Nat) (http : HTTPConnection) : Prop :=
  ∃ address c, s.connections address = some c ∧ c.serial = serial ∧ c.http = http

variable {parseUrl : ParseUrl} {serverName : Bytes}

/-- A step calls no callback but those of the connection it is dispatched to. -/
theorem Kept.isolates {s t : HTTPServer} (h : s.Kept) {i : ServerInput}
    (hchange : Change parseUrl serverName i s t) :
    Isolates dispatched (fun d => HTTPConnection.step parseUrl d.1 d.2)
      (HTTPConnection.new serverName) HasConnection (fun s serial => serial < s.accepted)
      i s t := by
  cases hchange with
  | nothing label connections accepted descriptors destructions spared =>
    refine ⟨by simp [label], by simp [accepted], fun serial http hhttp => ?_⟩
    refine .inl ⟨by simp [label], ?_⟩
    rwa [HasConnection, connections] at hhttp
  | accept answer label accepts connections accepted descriptors destructions spared =>
    refine ⟨by simp [label], fun serial hserial => by omega, fun serial http hhttp => ?_⟩
    obtain ⟨address, c, hc, hserial, hsame⟩ := hhttp
    rw [connections, update_eq_some] at hc
    rcases hc with ⟨-, hc⟩ | ⟨-, hc⟩
    · cases hc
      cases hserial
      exact .inr (.inr ⟨Nat.lt_irrefl _, accepted ▸ Nat.lt_succ_self _, hsame.symm⟩)
    · exact .inl ⟨by simp [label], address, c, hc, hserial, hsame⟩
  | callback address c http delivery label found called connections accepted descriptors
      destructions spared =>
    refine ⟨?_, by simp [accepted], fun serial other hother => ?_⟩
    · intro serial event hevent
      obtain ⟨rfl, -⟩ := Prod.mk.inj (Option.some.inj (label.symm.trans hevent))
      exact h.recorded.serials address c found
    · obtain ⟨b, d, hd, hserial, hsame⟩ := hother
      rw [connections, update_eq_some] at hd
      rcases hd with ⟨-, hd⟩ | ⟨hb, hd⟩
      · cases hd
        cases hserial
        cases hsame
        exact .inr (.inl ⟨delivery, c.http, label, ⟨address, c, found, rfl, rfl⟩, called⟩)
      · have hne : c.serial ≠ serial := by
          rintro rfl
          exact hb (h.recorded.distinct b address d c hd found hserial)
        exact .inl ⟨by rw [label, forComponent_other hne], b, d, hd, hserial, hsame⟩
  | destroy address c label found connections accepted descriptors destructions spared =>
    refine ⟨by simp [label], by simp [accepted], fun serial http hhttp => ?_⟩
    refine .inl ⟨by simp [label], ?_⟩
    obtain ⟨b, d, hd, hserial, hsame⟩ := hhttp
    rw [connections, update_eq_some] at hd
    rcases hd with ⟨-, hd⟩ | ⟨-, hd⟩
    · cases hd
    · exact ⟨b, d, hd, hserial, hsame⟩

/-- Whatever the other connections do and in whatever order the events come, a
connection is where its own events lead a connection that is alone. -/
theorem connection_isolated (parseUrl : ParseUrl) (serverName : Bytes) (u : ServerSetup)
    {is : List ServerInput} {s : HTTPServer}
    (hs : run (step parseUrl serverName) is u.start = .ok s) {address : Nat}
    {c : ServerConnection} (hc : s.connections address = some c) :
    run (fun d : Delivery => HTTPConnection.step parseUrl d.1 d.2)
      (eventsOf (step parseUrl serverName) dispatched c.serial is u.start)
      (HTTPConnection.new serverName) = .ok c.http := by
  have hempty : ∀ serial http, ¬ HasConnection u.start serial http := by
    rintro serial http ⟨address, c, hc, -⟩
    cases hc
  have hkept : ∀ i s t, Kept s → step parseUrl serverName i s = .ok t → Kept t := by
    intro i s t h ht
    have hproceeds := h.step parseUrl serverName i
    rwa [ht] at hproceeds
  have hisolates : ∀ i s t, Kept s → step parseUrl serverName i s = .ok t →
      Isolates dispatched (fun d : Delivery => HTTPConnection.step parseUrl d.1 d.2)
        (HTTPConnection.new serverName) HasConnection (fun s serial => serial < s.accepted)
        i s t := by
    intro i s t h ht
    exact h.isolates (h.change ht)
  exact component_run (kept_start u) hempty hkept hisolates hs ⟨address, c, hc, rfl, rfl⟩

end HTTPServer

/-! ### What each client receives -/

/-- Every resize of a response succeeds. -/
def ServerInput.Resizes : ServerInput → Prop
  | .test answers => answers.serve.Resized ∧ answers.shrunk = true
  | _ => True

namespace HTTPServer

/-- If a write of a connection comes next, the `send` takes its whole chunk. -/
def TakesChunks (s : HTTPServer) (i : ServerInput) : Prop :=
  ∀ serial delivery http, s.dispatched i = some (serial, delivery) →
    s.HasConnection serial http → http.TakesChunk delivery.2

/-- What a test makes a container append for a connection is what that connection's
requests are answered with. The containers may tell connections and times apart. -/
def AnswersAs (replying : Nat → Replying) (parseUrl : ParseUrl) (s : HTTPServer)
    (i : ServerInput) : Prop :=
  ∀ serial delivery http next, s.dispatched i = some (serial, delivery) →
    s.HasConnection serial http → http.step parseUrl delivery.1 delivery.2 = .ok next →
    delivery.1.Answers (replying serial) http.data.served next.data.served

theorem dispatched_eq_some {s : HTTPServer} {i : ServerInput} {serial : Nat} {d : Delivery}
    (h : s.dispatched i = some (serial, d)) :
    ∃ answers type, i = .test answers ∧ d = (answers.serve, answers.event type) := by
  unfold dispatched at h
  split at h
  · split at h
    · obtain ⟨-, rfl⟩ := Prod.mk.inj (Option.some.inj h)
      exact ⟨_, _, rfl, rfl⟩
    · cases h
  · cases h

theorem driven_event {answers : TestAnswers} (h : (ServerInput.test answers).Resizes)
    (type : ELoopWatchFdCallbackType) : (answers.event type).Driven := by
  cases type with
  | read => trivial
  | write => exact h.2
  | close => trivial

/-- Every connection has been answered as its requests ask. -/
def AllReplied (replying : Nat → Replying) (s : HTTPServer) : Prop :=
  ∀ address c, s.connections address = some c → c.http.data.Replied (replying c.serial)

theorem AllReplied.change {replying : Nat → Replying} {s t : HTTPServer}
    (h : s.AllReplied replying) {i : ServerInput} (hi : i.Resizes) (htakes : s.TakesChunks i)
    (hanswers : s.AnswersAs replying parseUrl i) (hchange : Change parseUrl serverName i s t) :
    t.AllReplied replying := by
  intro address c hc
  cases hchange with
  | nothing label connections accepted descriptors destructions spared =>
    exact h address c (connections ▸ hc)
  | accept answer label accepts connections accepted descriptors destructions spared =>
    rw [connections, update_eq_some] at hc
    rcases hc with ⟨-, hc⟩ | ⟨-, hc⟩
    · cases hc
      exact replied_new _ serverName
    · exact h address c hc
  | callback other d http delivery label found called connections accepted descriptors
      destructions spared =>
    rw [connections, update_eq_some] at hc
    rcases hc with ⟨-, hc⟩ | ⟨-, hc⟩
    · cases hc
      have hd : s.HasConnection d.serial d.http := ⟨other, d, found, rfl, rfl⟩
      have hserved := hanswers _ _ _ _ label hd called
      have htaken := htakes _ _ _ label hd
      obtain ⟨answers, type, rfl, rfl⟩ := dispatched_eq_some label
      exact step_replied hi.1 (driven_event hi type) (h other d found) htaken called hserved
    · exact h address c hc
  | destroy other d label found connections accepted descriptors destructions spared =>
    rw [connections, update_eq_some] at hc
    rcases hc with ⟨-, hc⟩ | ⟨-, hc⟩
    · cases hc
    · exact h address c hc

/-- Many clients at once: whatever the order in which their requests, writes and
closes come, each has been sent the answers to its own requests and no others. -/
theorem server_answers_received {replying : Nat → Replying} (parseUrl : ParseUrl)
    (serverName : Bytes) (u : ServerSetup) {is : List ServerInput}
    (hresizes : ∀ i ∈ is, i.Resizes)
    (htakes : Admitted (step parseUrl serverName) TakesChunks u.start is)
    (hanswers : Admitted (step parseUrl serverName) (AnswersAs replying parseUrl) u.start is)
    {s : HTTPServer} (hs : run (step parseUrl serverName) is u.start = .ok s) {address : Nat}
    {c : ServerConnection} (hc : s.connections address = some c) :
    Received (((replying c.serial).exchanges [] c.http.data.served).map Exchange.frame)
        c.http.data.sent (receive ResponseMessage.read c.http.data.sent) ∧
      (c.http.data.response.bytes = [] → receive ResponseMessage.read c.http.data.sent =
        (((replying c.serial).exchanges [] c.http.data.served).map
          fun exchange => exchange.frame.2, [])) := by
  have hboth : Admitted (step parseUrl serverName)
      (fun s i => s.TakesChunks i ∧ s.AnswersAs replying parseUrl i) u.start is :=
    fun xs i ys t he ht => ⟨htakes xs i ys t he ht, hanswers xs i ys t he ht⟩
  have hall : s.Kept ∧ s.AllReplied replying := by
    refine CallOutcome.always_of_admitted (I := fun s => Kept s ∧ s.AllReplied replying)
      ⟨kept_start u, fun address c hc => ?_⟩ ?_ hboth is [] s (List.append_nil is).symm hs
    · cases hc
    · intro i hmem s t h hadmitted ht
      have hproceeds := h.1.step parseUrl serverName i
      rw [ht] at hproceeds
      exact ⟨hproceeds,
        h.2.change (hresizes i hmem) hadmitted.1 hadmitted.2 (h.1.change ht)⟩
  exact (hall.2 address c hc).received

/-- A `send` of any chunk of `on_write`. -/
theorem takesChunks_of_send {answers : TestAnswers} (h : answers.send = .accepted bufSize)
    (s : HTTPServer) : s.TakesChunks (.test answers) := by
  intro serial delivery http hlabel _
  obtain ⟨answers', type, heq, rfl⟩ := dispatched_eq_some hlabel
  cases heq
  cases type with
  | read => trivial
  | write =>
    simp only [TestAnswers.event, HTTPConnection.TakesChunk, h]
    exact Nat.min_le_right _ _
  | close => trivial

def nextSecond : Trailer :=
  { epoch with
    date := ascii "Thu, 01 Jan 1970 00:00:01 +0000"
    date_clean := by decide }

/-- The client with descriptor 5 is answered a second before the other. -/
def clientTrailer (fd : Nat) : Trailer := if fd = 5 then epoch else nextSecond

def clientReplying (serial : Nat) : Replying :=
  fun _ _ => some (helloExchange.reply, clientTrailer (serial + 5))

def clientServe (fd : Nat) : Serve := fun _ request =>
  [⟨helloExchange.reply.written.text (clientTrailer fd) request.isLast, true⟩]

theorem clientServe_replies (serial : Nat) :
    (clientServe (serial + 5)).Replies (clientReplying serial) where
  resized served request piece hmem := by
    rw [List.mem_singleton.mp hmem]
  texts_eq served request := rfl

/-- A client that connects with descriptor 5 or 6 and asks for one page. -/
def clientAnswers (fd : Nat) : TestAnswers :=
  ⟨some ⟨fd, 1000 + fd, 300 + fd⟩, .got (wholeGet false), clientServe fd, true, .accepted bufSize,
    false⟩

def clientBatch (ready : List (Nat × EpollEvents)) (fds : List Nat) : List ServerInput :=
  .wait ready :: (fds.map fun fd => .test (clientAnswers fd)) ++ [.collect, .collect]

/-- Two clients connect; the second asks first, and both are answered in the same batch. -/
def twoClients : List ServerInput :=
  clientBatch [(4, ⟨true, false, false⟩)] [5] ++
  clientBatch [(4, ⟨true, false, false⟩), (5, ⟨false, true, false⟩)] [6, 5] ++
  clientBatch [(6, ⟨true, false, false⟩), (5, ⟨true, false, false⟩)] [6, 5] ++
  clientBatch [(5, ⟨false, true, false⟩), (6, ⟨false, true, false⟩)] [5, 6]

theorem twoClients_test {answers : TestAnswers} (h : ServerInput.test answers ∈ twoClients) :
    ∃ fd, answers = clientAnswers fd := by
  simp only [twoClients, clientBatch, List.mem_append, List.mem_cons, List.mem_map,
    List.not_mem_nil, ServerInput.test.injEq, reduceCtorEq, or_false, false_or] at h
  rcases h with ((⟨fd, -, h⟩ | ⟨fd, -, h⟩) | ⟨fd, -, h⟩) | ⟨fd, -, h⟩ <;> exact ⟨fd, h.symm⟩

theorem clientFds_ne : 3 ≠ 4 := by decide

theorem clientRecords_ne : 100 ≠ 200 := by decide

def clientSetup : ServerSetup := ⟨3, 4, 100, 200, clientFds_ne, clientRecords_ne⟩

/-- Both are there in the end. -/
theorem run_twoClients : ∃ s,
    run (step parsePath (ascii "rapp")) twoClients clientSetup.start = .ok s ∧
      (s.connections 1005).map ServerConnection.fd = some 5 ∧
      (s.connections 1006).isSome = true := by
  have hrun : ∃ s, run (step parsePath (ascii "rapp")) twoClients clientSetup.start = .ok s ∧
      ((s.connections 1005).map ServerConnection.fd, (s.connections 1006).isSome) =
        (some 5, true) :=
    Outcome.exists_of_toOption (by decide +kernel)
  obtain ⟨s, hs, hboth⟩ := hrun
  exact ⟨s, hs, Prod.mk.inj hboth⟩

theorem connection_isolated_twoClients : ∃ s c,
    run (step parsePath (ascii "rapp")) twoClients clientSetup.start = .ok s ∧
      s.connections 1006 = some c ∧
      run (fun d : Delivery => HTTPConnection.step parsePath d.1 d.2)
        (eventsOf (step parsePath (ascii "rapp")) dispatched c.serial twoClients clientSetup.start)
        (HTTPConnection.new (ascii "rapp")) = .ok c.http := by
  obtain ⟨s, hs, -, hsome⟩ := run_twoClients
  obtain ⟨c, hc⟩ := Option.isSome_iff_exists.mp hsome
  exact ⟨s, c, hs, hc, connection_isolated parsePath (ascii "rapp") clientSetup hs hc⟩

/-- The descriptor of the client that connects or asks. -/
def clientFd : ServerInput → Option Nat
  | .test answers => answers.accepted.map Accepted.fd
  | _ => none

/-- Every test of a connection comes with the answers of its own client. -/
theorem twoClients_dispatched : ∀ n, (h : n < twoClients.length) →
    ((run (step parsePath (ascii "rapp")) (twoClients.take n) clientSetup.start).toOption.bind
      fun t => (t.dispatched twoClients[n]).map Prod.fst).all
        (fun serial => clientFd twoClients[n] = some (serial + 5)) = true := by
  decide +kernel

theorem twoClients_answers :
    Admitted (step parsePath (ascii "rapp")) (AnswersAs clientReplying parsePath)
      clientSetup.start twoClients := by
  intro xs i ys t he ht serial delivery http next hlabel _ _
  have hlength : xs.length < twoClients.length := by simp [he]
  have hindex : twoClients[xs.length] = i := by simp [he]
  have htake : twoClients.take xs.length = xs := by simp [he]
  have hown := twoClients_dispatched xs.length hlength
  rw [hindex, htake, ht] at hown
  simp only [Outcome.toOption, Option.bind_some, hlabel, Option.map_some, Option.all_some,
    decide_eq_true_eq] at hown
  obtain ⟨answers, type, rfl, rfl⟩ := dispatched_eq_some hlabel
  have hmem : ServerInput.test answers ∈ twoClients := by simp [he]
  obtain ⟨fd, rfl⟩ := twoClients_test hmem
  have hfd : fd = serial + 5 := Option.some.inj hown
  subst hfd
  exact (clientServe_replies serial).answers _ _

/-- The pages of the two differ in their `Date`. -/
theorem server_answers_received_twoClients : ∃ s c,
    run (step parsePath (ascii "rapp")) twoClients clientSetup.start = .ok s ∧
      s.connections 1006 = some c ∧
      Received (((clientReplying c.serial).exchanges [] c.http.data.served).map Exchange.frame)
        c.http.data.sent (receive ResponseMessage.read c.http.data.sent) ∧
      (c.http.data.response.bytes = [] → receive ResponseMessage.read c.http.data.sent =
        (((clientReplying c.serial).exchanges [] c.http.data.served).map
          fun exchange => exchange.frame.2, [])) := by
  obtain ⟨s, hs, -, hsome⟩ := run_twoClients
  obtain ⟨c, hc⟩ := Option.isSome_iff_exists.mp hsome
  have hresizes : ∀ i ∈ twoClients, i.Resizes := by
    intro i hi
    cases i with
    | wait ready => trivial
    | test answers =>
      obtain ⟨fd, rfl⟩ := twoClients_test hi
      refine ⟨fun served request piece hmem => ?_, rfl⟩
      rw [List.mem_singleton.mp hmem]
    | collect => trivial
  have htakes : Admitted (step parsePath (ascii "rapp")) TakesChunks clientSetup.start
      twoClients := by
    intro xs i ys t he _
    have hi : i ∈ twoClients := by simp [he]
    cases i with
    | wait ready => simp [TakesChunks, dispatched]
    | test answers =>
      obtain ⟨fd, rfl⟩ := twoClients_test hi
      exact takesChunks_of_send rfl t
    | collect => simp [TakesChunks, dispatched]
  exact ⟨s, c, hs, hc, server_answers_received parsePath (ascii "rapp") clientSetup hresizes
    htakes twoClients_answers hs hc⟩

end HTTPServer

end Rapp

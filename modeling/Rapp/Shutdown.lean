import Rapp.BatchProgress
import Rapp.ServerLedger

/-!
# From the first watch to the exit

The two watches that `main` registers stand in every run, so a server whose loop
goes on hears of every client and of every signal. When the loop has returned,
`main` takes down what it built; the connections are not among that.
-/
namespace Rapp

open CallOutcome (Outcome run)
open ByteBlock

namespace HTTPServer

/-- `tcp_server_destroy` and `signal_handler_destroy` of a descriptor. -/
def dropWatch (fd : Nat) (s : HTTPServer) : HTTPServer :=
  let s := s.removeFdWatch fd .read
  { s with
    loop := s.loop.closeFd fd
    descriptors := s.descriptors.filter (· ≠ fd) }

/-- `http_server_destroy` of a server that listens. -/
def httpServerDestroy (listenFd : Nat) (s : HTTPServer) : HTTPServer := s.dropWatch listenFd

/-- The descriptor 0 is not taken for one. -/
def signalHandlerDestroy (signalFd : Nat) (s : HTTPServer) : HTTPServer :=
  if 0 < signalFd then s.dropWatch signalFd else s

/-- `collector_collect`: a round for each entry, since the free functions schedule nothing. -/
def collectorDestroy (s : HTTPServer) : Outcome ServerFault HTTPServer :=
  run (fun _ s => s.collectRound) s.collector.collectEntriesList s

/-- The descriptor of `epoll` itself, which it closes, is not part of the model. -/
def eventLoopDestroy (s : HTTPServer) : Outcome ServerFault HTTPServer := s.collectorDestroy

/-- What `main` does after `event_loop_run`. -/
def mainDestroy (u : ServerSetup) (s : HTTPServer) : Outcome ServerFault HTTPServer :=
  ((s.httpServerDestroy u.listenFd).signalHandlerDestroy u.signalFd).eventLoopDestroy

/-! ### The watches of `main` -/

/-- The descriptor is open, and its record and the kernel's interest are these. -/
structure Stands (s : HTTPServer) (fd : Nat) (ec : ELoopCallback ServerCallback) : Prop where
  opened : fd ∈ s.descriptors
  node : s.loop.findCallbackByFd fd = some ec
  interest : s.loop.interest fd = some ec.ev

end HTTPServer

namespace ServerSetup

def signalNode (u : ServerSetup) : ELoopCallback ServerCallback :=
  (ELoopCallback.new ⟨u.signalRecord, 0⟩).watch u.signalFd .read .onSignal

def listenNode (u : ServerSetup) : ELoopCallback ServerCallback :=
  (ELoopCallback.new ⟨u.listenRecord, 1⟩).watch u.listenFd .read .onIncomingConnection

theorem loop_start (u : ServerSetup) :
    u.start.loop.callbacksList = [u.listenNode, u.signalNode] ∧
      u.start.loop.interest = Function.update (Function.update (fun _ => none) u.signalFd
        (some u.signalNode.ev)) u.listenFd (some u.listenNode.ev) := by
  have hlisten : u.start.loop = { ((ELoop.mk [u.signalNode] (Function.update (fun _ => none)
      u.signalFd (some u.signalNode.ev)) 1 false).addFdWatch u.listenFd .read
        .onIncomingConnection (some u.listenRecord) true).2 with running := true } := rfl
  rw [hlisten]
  simp [ELoop.addFdWatch, ELoop.findCallbackByFd, ELoop.memoryCreate, ELoop.load, ELoop.control,
    epollCtl, u.fds, u.fds.symm, u.records, signalNode, listenNode, ELoopCallback.new,
    ELoopCallback.watch]

theorem stands_start (u : ServerSetup) :
    u.start.Stands u.listenFd u.listenNode ∧ u.start.Stands u.signalFd u.signalNode := by
  obtain ⟨hlist, hinterest⟩ := u.loop_start
  have hdescriptors : u.start.descriptors = [u.listenFd, u.signalFd] := rfl
  refine ⟨⟨by simp [hdescriptors], ?_, ?_⟩, ⟨by simp [hdescriptors], ?_, ?_⟩⟩
  · rw [ELoop.findCallbackByFd, hlist]
    exact List.find?_cons_of_pos (by simp [listenNode])
  · rw [hinterest, Function.update_self]
  · rw [ELoop.findCallbackByFd, hlist, List.find?_cons_of_neg (by simp [listenNode, u.fds.symm])]
    exact List.find?_cons_of_pos (by simp [signalNode])
  · rw [hinterest, Function.update_of_ne u.fds, Function.update_self]

end ServerSetup

namespace HTTPServer

variable {parseUrl : ParseUrl} {serverName : Bytes} {u : ServerSetup}

theorem Stands.step {s t : HTTPServer} {i : ServerInput} {fd : Nat}
    {ec : ELoopCallback ServerCallback} (h : s.Stands fd ec)
    (hchange : Change parseUrl serverName i s t) (hopen : fd ∈ t.descriptors) :
    t.Stands fd ec := by
  have hspared : s.Spares t := by
    cases hchange <;> assumption
  obtain ⟨hnode, hinterest⟩ := hspared.nodes fd h.opened hopen
  exact ⟨hopen, hnode.trans h.node, hinterest.trans h.interest⟩

/-- Neither watch of `main` is touched by what the connections do. -/
theorem stands_run {is : List ServerInput} {s : HTTPServer}
    (hs : run (step parseUrl serverName) is u.start = .ok s) :
    s.Stands u.listenFd u.listenNode ∧ s.Stands u.signalFd u.signalNode := by
  have hrun : s.Kept ∧ s.Ledgered u ∧
      s.Stands u.listenFd u.listenNode ∧ s.Stands u.signalFd u.signalNode := by
    refine CallOutcome.run_history (step parseUrl serverName)
      (I := fun _ s => Kept s ∧ s.Ledgered u ∧ s.Stands u.listenFd u.listenNode ∧
        s.Stands u.signalFd u.signalNode)
      ⟨kept_start u, ledgered_start u, u.stands_start⟩ ?_ hs
    rintro _ i s t ⟨hkept, hledgered, hlisten, hsignal⟩ ht
    have hchange := hkept.change ht
    have hproceeds := hkept.step parseUrl serverName i
    rw [ht] at hproceeds
    have hnext := hledgered.change hkept hchange
    exact ⟨hproceeds, hnext, hlisten.step hchange ((hnext.mem_iff _).mpr (.inl rfl)),
      hsignal.step hchange ((hnext.mem_iff _).mpr (.inr (.inl rfl)))⟩
  exact hrun.2.2

/-- Such a descriptor is reported when it is ready, and the test of it finds its callback. -/
theorem Stands.reported {s : HTTPServer} {fd address serial : Nat} {callback : ServerCallback}
    (h : s.Stands fd ((ELoopCallback.new ⟨address, serial⟩).watch fd .read callback))
    {ready : List (Nat × EpollEvents)} {events : EpollEvents}
    (hready : (fd, events) ∈ ready.take maxEvents) (hread : events.epollin = true) :
    (address, .read) ∈ s.loop.reported ready := by
  let ec := (ELoopCallback.new ⟨address, serial⟩).watch fd .read callback
  refine List.mem_flatMap.mpr ⟨⟨ec.registration, ec.events.meet events, fun _ => []⟩, ?_, ?_⟩
  · refine List.mem_filterMap.mpr ⟨⟨fd, events, fun _ => []⟩, ?_, ?_⟩
    · rw [← List.map_take]
      exact List.mem_map_of_mem hready
    · simp only [h.interest, Option.map_some]
      rfl
  · refine List.mem_map.mpr ⟨.read, List.mem_filter.mpr ⟨by simp, ?_⟩, rfl⟩
    exact hread

theorem Stands.callbackAt {s : HTTPServer} {fd address serial : Nat} {callback : ServerCallback}
    (h : s.Stands fd ((ELoopCallback.new ⟨address, serial⟩).watch fd .read callback))
    (hsound : s.loop.Sound) : s.callbackAt address .read = some (some callback) := by
  let ec := (ELoopCallback.new ⟨address, serial⟩).watch fd .read callback
  obtain ⟨found, hfound, hsame⟩ := (ELoop.live_iff hsound ec.registration).mpr
    ⟨fd, ELoop.mem_entries_of_find h.node⟩
  have hec : found = ec := hsound.eq_of_address (List.mem_of_find?_eq_some hfound)
    (List.mem_of_find?_eq_some h.node) (congrArg Registration.address hsame)
  rw [hec] at hfound
  have hload : s.loop.load address = some ec := hfound
  simp only [HTTPServer.callbackAt, hload]
  rfl

/-- In every run both watches of `main` are there: what the listening socket has to
report is reported, and its test makes a connection of the client that was accepted;
a signal is reported too, and stops the loop if it has a callback. -/
theorem clients_heard (parseUrl : ParseUrl) (serverName : Bytes) (u : ServerSetup)
    {is : List ServerInput} {s : HTTPServer}
    (hs : run (step parseUrl serverName) is u.start = .ok s) :
    (∀ ready events, events.epollin = true →
      ((u.listenFd, events) ∈ ready.take maxEvents →
        (u.listenRecord, .read) ∈ s.loop.reported ready) ∧
      ((u.signalFd, events) ∈ ready.take maxEvents →
        (u.signalRecord, .read) ∈ s.loop.reported ready)) ∧
    (∀ tests answers a, s.phase = .dispatching ((u.listenRecord, .read) :: tests) →
      answers.accepted = some a → s.Accepts a →
      ∃ t, s.step parseUrl serverName (.test answers) = .ok t ∧ t.phase = .dispatching tests ∧
        t.connections a.connection = some ⟨s.accepted, a.fd, HTTPConnection.new serverName⟩) ∧
    (∀ tests answers, s.phase = .dispatching ((u.signalRecord, .read) :: tests) →
      answers.stops = true →
      ∃ t, s.step parseUrl serverName (.test answers) = .ok t ∧ t.loop.running = false) := by
  obtain ⟨hlisten, hsignal⟩ := stands_run hs
  obtain ⟨map, hregistered⟩ := (kept_run hs).registered
  have hsound := hregistered.watches.holds.sound
  refine ⟨fun ready events hread => ⟨?_, ?_⟩, fun tests answers a hphase ha haccepts => ?_,
    fun tests answers hphase hstops => ?_⟩
  · intro hready
    exact hlisten.reported hready hread
  · intro hready
    exact hsignal.reported hready hread
  · let next : HTTPServer := { s with phase := .dispatching tests }
    have hcallback : next.callbackAt u.listenRecord .read = some (some .onIncomingConnection) :=
      hlisten.callbackAt hsound
    have hnext : next.Accepts a := haccepts
    have hstep : s.step parseUrl serverName (.test answers) =
        .ok (next.onAccept serverName a) := by
      simp only [HTTPServer.step, hphase]
      change next.test parseUrl serverName u.listenRecord .read answers = _
      simp only [test, hcallback, invoke, onIncomingConnection, ha, if_pos hnext]
    exact ⟨_, hstep, rfl, Function.update_self _ _ _⟩
  · let next : HTTPServer := { s with phase := .dispatching tests }
    have hcallback : next.callbackAt u.signalRecord .read = some (some .onSignal) :=
      hsignal.callbackAt hsound
    have hstep : s.step parseUrl serverName (.test answers) =
        .ok { next with loop := next.loop.stop } := by
      simp only [HTTPServer.step, hphase]
      change next.test parseUrl serverName u.signalRecord .read answers = _
      simp only [test, hcallback, invoke, onSignal, if_pos hstops]
    exact ⟨_, hstep, rfl⟩

/-- With two clients there, the next one and a signal come in the same batch. -/
def thirdBatch : List (Nat × EpollEvents) := [(4, ⟨true, false, false⟩), (3, ⟨true, false, false⟩)]

/-- They are reported, the client is there behind its test, and the signal stops the loop. -/
theorem clients_heard_twoClients : ∃ s t next last,
    run (step parsePath (ascii "rapp")) twoClients clientSetup.start = .ok s ∧
      (clientSetup.listenRecord, .read) ∈ s.loop.reported thirdBatch ∧
      (clientSetup.signalRecord, .read) ∈ s.loop.reported thirdBatch ∧
      s.step parsePath (ascii "rapp") (.wait thirdBatch) = .ok t ∧
      t.step parsePath (ascii "rapp") (.test (clientAnswers 7)) = .ok next ∧
      next.connections 1007 = some ⟨t.accepted, 7, HTTPConnection.new (ascii "rapp")⟩ ∧
      next.step parsePath (ascii "rapp") (.test { clientAnswers 7 with stops := true }) =
        .ok last ∧
      last.loop.running = false := by
  have hwaited : ∃ t, run (step parsePath (ascii "rapp")) (twoClients ++ [.wait thirdBatch])
      clientSetup.start = .ok t ∧ (t.phase, decide (t.Accepts ⟨7, 1007, 307⟩)) =
        (.dispatching [(200, .read), (100, .read)], true) :=
    Outcome.exists_of_toOption (by decide +kernel)
  obtain ⟨s, hs, -⟩ := run_twoClients
  obtain ⟨t, ht, hready⟩ := hwaited
  simp only [Prod.mk.injEq, decide_eq_true_eq] at hready
  obtain ⟨hphase, haccepts⟩ := hready
  have hwait : s.step parsePath (ascii "rapp") (.wait thirdBatch) = .ok t := by
    rwa [CallOutcome.run_concat, hs, Outcome.bind_ok] at ht
  obtain ⟨hreported, -, -⟩ := clients_heard parsePath (ascii "rapp") clientSetup hs
  obtain ⟨-, haccepted, -⟩ := clients_heard parsePath (ascii "rapp") clientSetup ht
  obtain ⟨next, hnext, hsignal, hclient⟩ :=
    haccepted _ (clientAnswers 7) ⟨7, 1007, 307⟩ hphase rfl haccepts
  have hrun : run (step parsePath (ascii "rapp"))
      (twoClients ++ [.wait thirdBatch] ++ [.test (clientAnswers 7)]) clientSetup.start =
      .ok next := by
    rw [CallOutcome.run_concat, ht, Outcome.bind_ok, hnext]
  obtain ⟨-, -, hstops⟩ := clients_heard parsePath (ascii "rapp") clientSetup hrun
  obtain ⟨last, hlast, hstopped⟩ :=
    hstops _ { clientAnswers 7 with stops := true } hsignal rfl
  exact ⟨s, t, next, last, hs, (hreported _ ⟨true, false, false⟩ rfl).1 (by decide),
    (hreported _ ⟨true, false, false⟩ rfl).2 (by decide), hwait, hnext, hclient, hlast, hstopped⟩

/-! ### The exit -/

theorem Watches.dropWatch {map : WatchMap ServerCallback} {s : HTTPServer} (h : s.Watches map)
    {fd : Nat} (honly : ∀ type, type ≠ .read → map fd type = none) :
    (s.dropWatch fd).Watches (Function.update map fd fun _ => none) := by
  have hremoved := h.remove fd .read
  have hmap : (WatchCall.remove fd .read).note map = Function.update map fd fun _ => none := by
    funext other type
    by_cases hfd : other = fd
    · subst hfd
      by_cases htype : type = .read
      · simp [WatchCall.note, htype]
      · simp [WatchCall.note, htype, honly type htype]
    · simp [WatchCall.note, hfd]
  rw [hmap] at hremoved
  refine ⟨hremoved.holds.closeFd fun type => by simp, hremoved.removed, fun other type hne => ?_⟩
  have hfd : other ≠ fd := by
    rintro rfl
    simp at hne
  rw [Function.update_of_ne hfd] at hne
  exact List.mem_filter.mpr ⟨h.descriptors other type hne, by simpa using hfd⟩

theorem Stands.callbacks_eq {s : HTTPServer} {fd : Nat} {ec : ELoopCallback ServerCallback}
    (h : s.Stands fd ec) {map : WatchMap ServerCallback} (hwatches : s.Watches map) :
    map fd = ec.callbacks := by
  have hnode := hwatches.holds.nodes fd
  rw [h.node] at hnode
  exact hnode.2.1.symm

theorem mem_dropWatch (s : HTTPServer) (fd other : Nat) :
    other ∈ (s.dropWatch fd).descriptors ↔ other ∈ s.descriptors ∧ other ≠ fd := by
  simp [HTTPServer.dropWatch, removeFdWatch]

/-- What is open is watched, and the other way round. -/
structure AllWatched (map : WatchMap ServerCallback) (s : HTTPServer) : Prop where
  watches : s.Watches map
  watched : ∀ fd ∈ s.descriptors, ∃ type, map fd type ≠ none

theorem AllWatched.dropWatch {map : WatchMap ServerCallback} {s : HTTPServer}
    (h : s.AllWatched map) {fd : Nat} (honly : ∀ type, type ≠ .read → map fd type = none) :
    (s.dropWatch fd).AllWatched (Function.update map fd fun _ => none) := by
  refine ⟨h.watches.dropWatch honly, fun other hmem => ?_⟩
  obtain ⟨hopen, hother⟩ := (mem_dropWatch s fd other).mp hmem
  rw [Function.update_of_ne hother]
  exact h.watched other hopen

/-- The records of the list are those of the open descriptors. -/
theorem AllWatched.find_iff {map : WatchMap ServerCallback} {s : HTTPServer}
    (h : s.AllWatched map) (fd : Nat) :
    s.loop.findCallbackByFd fd ≠ none ↔ fd ∈ s.descriptors := by
  have hnode := h.watches.holds.nodes fd
  constructor
  · intro hfind
    obtain ⟨ec, hec⟩ := Option.ne_none_iff_exists'.mp hfind
    rw [hec] at hnode
    obtain ⟨-, -, ⟨type, htype⟩, -⟩ := hnode
    exact h.watches.descriptors fd type htype
  · intro hopen hfind
    obtain ⟨type, htype⟩ := h.watched fd hopen
    rw [hfind] at hnode
    exact htype (hnode.2 type)

/-- Between two batches every descriptor of the server is watched. -/
theorem Ledgered.allWatched {s : HTTPServer} (h : s.Ledgered u)
    {map : WatchMap ServerCallback} (hregistered : s.Registered map)
    (hlisten : s.Stands u.listenFd u.listenNode) (hsignal : s.Stands u.signalFd u.signalNode) :
    s.AllWatched map := by
  refine ⟨hregistered.watches, fun fd hfd => ⟨.read, ?_⟩⟩
  rcases (h.mem_iff fd).mp hfd with rfl | rfl | ⟨address, c, hc, hopen, rfl⟩
  · rw [hlisten.callbacks_eq hregistered.watches]
    simp [ServerSetup.listenNode, ELoopCallback.watch]
  · rw [hsignal.callbacks_eq hregistered.watches]
    simp [ServerSetup.signalNode, ELoopCallback.watch]
  · rw [(hregistered.open_iff _ _ ⟨address, c.serial⟩).mpr ⟨c, hc, rfl, hopen, rfl⟩]
    simp

/-- A watch of `main` is for `EPOLLIN` alone. -/
theorem Stands.only {s : HTTPServer} {fd : Nat} {registration : Registration}
    {callback : ServerCallback}
    (h : s.Stands fd ((ELoopCallback.new registration).watch fd .read callback))
    {map : WatchMap ServerCallback} (hwatches : s.Watches map) :
    ∀ type, type ≠ .read → map fd type = none := by
  intro type htype
  rw [h.callbacks_eq hwatches]
  exact Function.update_of_ne htype _ _

theorem eventLoopDestroy_nil {s : HTTPServer} (h : s.collector.collectEntriesList = []) :
    s.eventLoopDestroy = .ok s := by
  rw [eventLoopDestroy, collectorDestroy, h, CallOutcome.run_nil]

/-- The loop has returned and `main` takes everything down: it comes to its end, calls
no connection and destroys none; the sockets of those that are there stay open, each
with its record, and nothing else does, but for a signal descriptor that is 0. -/
theorem shutdown_leaves (parseUrl : ParseUrl) (serverName : Bytes) (u : ServerSetup)
    {is : List ServerInput} {s : HTTPServer}
    (hs : run (step parseUrl serverName) is u.start = .ok s) (hphase : s.phase = .waiting) :
    ∃ t, s.mainDestroy u = .ok t ∧ t.connections = s.connections ∧ t.trace = s.trace ∧
      (∀ fd, fd ∈ t.descriptors ↔ s.HasSocket fd ∨ fd = u.signalFd ∧ fd = 0) ∧
      ∀ fd, t.loop.findCallbackByFd fd ≠ none ↔ fd ∈ t.descriptors := by
  obtain ⟨hkept, hledgered⟩ := ledgered_run hs
  obtain ⟨hlisten, hsignal⟩ := stands_run hs
  obtain ⟨map, hregistered⟩ := hkept.registered
  have hnothing : s.collector.collectEntriesList = [] := hkept.scheduled.idle hphase
  have hall := hledgered.allWatched hregistered hlisten hsignal
  have hlistened := hall.dropWatch (hlisten.only hregistered.watches)
  have hleft : ∀ fd, fd ∈ (s.dropWatch u.listenFd).descriptors ↔
      s.HasSocket fd ∨ fd = u.signalFd := by
    intro fd
    rw [mem_dropWatch, hledgered.mem_iff]
    constructor
    · rintro ⟨hlistenFd | hsignalFd | hsocket, hne⟩
      · exact absurd hlistenFd hne
      · exact .inr hsignalFd
      · exact .inl hsocket
    · rintro (hsocket | rfl)
      · exact ⟨.inr (.inr hsocket), (hledgered.apart fd hsocket).1⟩
      · exact ⟨.inr (.inl rfl), u.fds⟩
  by_cases hpos : 0 < u.signalFd
  · have honly : ∀ type, type ≠ .read →
        Function.update map u.listenFd (fun _ => none) u.signalFd type = none := by
      rw [Function.update_of_ne u.fds]
      exact hsignal.only hregistered.watches
    have hdone : s.mainDestroy u = .ok ((s.dropWatch u.listenFd).dropWatch u.signalFd) := by
      simp only [mainDestroy, httpServerDestroy, signalHandlerDestroy, if_pos hpos]
      exact eventLoopDestroy_nil hnothing
    refine ⟨_, hdone, rfl, rfl, fun fd => ?_, (hlistened.dropWatch honly).find_iff⟩
    rw [mem_dropWatch, hleft]
    constructor
    · rintro ⟨hsocket | hsignalFd, hne⟩
      · exact .inl hsocket
      · exact absurd hsignalFd hne
    · rintro (hsocket | ⟨rfl, hzero⟩)
      · exact ⟨.inl hsocket, (hledgered.apart fd hsocket).2⟩
      · omega
  · have hdone : s.mainDestroy u = .ok (s.dropWatch u.listenFd) := by
      simp only [mainDestroy, httpServerDestroy, signalHandlerDestroy, if_neg hpos]
      exact eventLoopDestroy_nil hnothing
    refine ⟨_, hdone, rfl, rfl, fun fd => ?_, hlistened.find_iff⟩
    rw [hleft]
    have hzero : u.signalFd = 0 := by omega
    constructor
    · rintro (hsocket | rfl)
      · exact .inl hsocket
      · exact .inr ⟨rfl, hzero⟩
    · rintro (hsocket | ⟨hsignalFd, -⟩)
      · exact .inl hsocket
      · exact .inr hsignalFd

/-- A signal comes while one client is connected and the other hangs up. -/
theorem shutdown_leaves_stopBatch : ∃ s t,
    run (step parsePath (ascii "rapp")) (twoClients ++ stopBatch ++ stopRest) clientSetup.start =
        .ok s ∧
      s.connections 1006 = none ∧ s.mainDestroy clientSetup = .ok t ∧
      t.connections = s.connections ∧ t.trace = s.trace ∧
      (∀ fd, fd ∈ t.descriptors ↔ s.HasSocket fd ∨ fd = clientSetup.signalFd ∧ fd = 0) ∧
      (∀ fd, t.loop.findCallbackByFd fd ≠ none ↔ fd ∈ t.descriptors) ∧ 5 ∈ t.descriptors := by
  obtain ⟨s, t, hs, -, -, -, ht, hphase, hclient, hgone⟩ := run_stopBatch
  have hrun : run (step parsePath (ascii "rapp")) (twoClients ++ stopBatch ++ stopRest)
      clientSetup.start = .ok t := by
    rw [CallOutcome.run_append, hs, Outcome.bind_ok, ht]
  have hsocket : t.HasSocket 5 := by
    obtain ⟨c, hc, hboth⟩ := Option.map_eq_some_iff.mp hclient
    obtain ⟨hfd, hopen⟩ := Prod.mk.inj hboth
    exact ⟨1005, c, hc, hopen, hfd⟩
  obtain ⟨left, hleft, hconnections, htrace, hdescriptors, hrecords⟩ :=
    shutdown_leaves parsePath (ascii "rapp") clientSetup hrun hphase
  exact ⟨t, left, hrun, hgone, hleft, hconnections, htrace, hdescriptors, hrecords,
    (hdescriptors 5).mpr (.inl hsocket)⟩

end HTTPServer

end Rapp

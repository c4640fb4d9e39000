import Rapp.Collector
import Rapp.HttpConnection
import Rapp.WatchRegistry

/-!
# The server

`httpserver.c` with `tcpserver.c`, `tcpconnection.c` and the loop around them,
test by test and round by round of `collector_collect`. What the kernel, the
parser and the containers answer is an input of each step; allocations and
`epoll_ctl` succeed. An `HTTPConnection` and its `TcpConnection` are one object
here, and a registration that was freed is kept until its batch is over. Beside
its state the server records what happened to its connections.
-/
namespace Rapp

open CallOutcome (Outcome)
open ByteBlock

/-- A pointer to a connection and the how many-eth accepted one it was taken
for. The program sees the address only. -/
structure ConnectionPointer where
  address : Nat
  serial : Nat
  deriving DecidableEq

/-- The callbacks of the loop with their data. For a connection the type of the
watch says which: `on_ready_read`, `on_ready_write` or `on_close`. -/
inductive ServerCallback where
  | onIncomingConnection
  | onSignal
  | onReady (connection : ConnectionPointer)
  deriving DecidableEq

/-- `fd` is the descriptor of the socket as long as it is open. -/
structure ServerConnection where
  serial : Nat
  fd : Nat
  http : HTTPConnection

def ServerConnection.isOpen (c : ServerConnection) : Bool := c.http.data.tcpOpen

/-- How often `finish_callback` was called. -/
def ServerConnection.finished (c : ServerConnection) : Nat := c.http.data.finished

/-- Between two batches, before the tests of a batch that are left, or in `collector_collect`. -/
inductive LoopPhase where
  | waiting
  | dispatching (tests : List (Nat × ELoopWatchFdCallbackType))
  | collecting
  deriving DecidableEq

inductive Happening where
  | invoked (serial : Nat)
  | finished (serial : Nat)
  | returned (serial : Nat)
  | destroyed (serial : Nat)
  deriving DecidableEq

def Happening.serial : Happening → Nat
  | invoked serial => serial
  | finished serial => serial
  | returned serial => serial
  | destroyed serial => serial

/-- The batch, and whether its events have all been dispatched. -/
structure Moment where
  batch : Nat
  collecting : Bool
  deriving DecidableEq

inductive FreeFunc where
  | httpConnectionDestroy
  deriving DecidableEq

structure HTTPServer where
  loop : ELoop ServerCallback
  removed : List (ELoopCallback ServerCallback)
  collector : Collector FreeFunc Nat
  connections : Nat → Option ServerConnection
  accepted : Nat
  descriptors : List Nat
  phase : LoopPhase
  batch : Nat
  trace : List (Moment × Happening)

/-- What `accept4` and the allocator answer for a connection. -/
structure Accepted where
  fd : Nat
  connection : Nat
  record : Nat
  deriving DecidableEq

/-- The answers to whatever the callback of a test asks for. -/
structure TestAnswers where
  accepted : Option Accepted
  read : ReadResult
  serve : Serve
  shrunk : Bool
  send : SendResult
  stops : Bool

def TestAnswers.event (answers : TestAnswers) : ELoopWatchFdCallbackType → ConnectionEvent
  | .read => .read answers.read
  | .write => .write answers.shrunk answers.send
  | .close => .close

inductive ServerFault where
  | connection (why : Fault)
  | freedConnection (address : Nat)
  | freedRecord (address : Nat)

/-- The record a removal frees, as it was when it was freed. -/
def ELoop.freedRecord {κ : Type} (loop : ELoop κ) (fd : Nat) (type : ELoopWatchFdCallbackType) :
    Option (ELoopCallback κ) :=
  (loop.findCallbackByFd fd).bind fun ec =>
    if (ec.unwatch type).events = EpollEvents.none then some (ec.unwatch type) else none

/-- The tests of a batch: where the record lies that an event was reported for, and a type. -/
def ELoop.reported {κ : Type} (loop : ELoop κ) (ready : List (Nat × EpollEvents)) :
    List (Nat × ELoopWatchFdCallbackType) :=
  (loop.epollWait (ready.map fun r => ⟨r.1, r.2, fun _ => []⟩)).flatMap fun event =>
    ([.close, .read, .write].filter event.events.has).map fun type =>
      (event.registration.address, type)

namespace HTTPServer

def moment (s : HTTPServer) : Moment := ⟨s.batch, s.phase = .collecting⟩

def note (happening : Happening) (s : HTTPServer) : HTTPServer :=
  { s with trace := s.trace ++ [(s.moment, happening)] }

def addFdWatch (fd : Nat) (type : ELoopWatchFdCallbackType) (callback : ServerCallback)
    (address : Nat) (s : HTTPServer) : HTTPServer :=
  { s with loop := (s.loop.addFdWatch fd type callback (some address) true).2 }

def removeFdWatch (fd : Nat) (type : ELoopWatchFdCallbackType) (s : HTTPServer) : HTTPServer :=
  { s with
    loop := (s.loop.removeFdWatch fd type true).2
    removed := s.removed ++ (s.loop.freedRecord fd type).toList }

/-- `tcp_connection_close` of an open socket. -/
def tcpConnectionClose (fd : Nat) (s : HTTPServer) : HTTPServer :=
  let s := ((s.removeFdWatch fd .read).removeFdWatch fd .write).removeFdWatch fd .close
  { s with
    loop := s.loop.closeFd fd
    descriptors := s.descriptors.filter (· ≠ fd) }

/-- `on_request_finish`. -/
def onRequestFinish (pointer : ConnectionPointer) (s : HTTPServer) : HTTPServer :=
  { s.note (.finished pointer.serial) with
    collector := (s.collector.scheduleFree .httpConnectionDestroy pointer.address true).2 }

/-- The answers are of a descriptor that was not open and of memory that was not in use. -/
def Accepts (s : HTTPServer) (answer : Accepted) : Prop :=
  answer.fd ∉ s.descriptors ∧ s.connections answer.connection = none ∧
  s.loop.load answer.record = none ∧
  ∀ ec ∈ s.removed, ec.registration.address ≠ answer.record

instance (s : HTTPServer) (answer : Accepted) : Decidable (s.Accepts answer) :=
  inferInstanceAs (Decidable (_ ∧ s.connections answer.connection = none ∧ _ ∧ _))

variable (parseUrl : ParseUrl) (serverName : Bytes)

/-- `on_accept` with `tcp_connection_with_fd`, `http_connection_new` and
`tcp_connection_set_callbacks`. -/
def onAccept (answer : Accepted) (s : HTTPServer) : HTTPServer :=
  let callback := ServerCallback.onReady ⟨answer.connection, s.accepted⟩
  let c := ⟨s.accepted, answer.fd, HTTPConnection.new serverName⟩
  let s := { s with
    connections := Function.update s.connections answer.connection (some c)
    accepted := s.accepted + 1
    descriptors := answer.fd :: s.descriptors }
  ((s.addFdWatch answer.fd .read callback answer.record).addFdWatch answer.fd .write callback
    answer.record).addFdWatch answer.fd .close callback answer.record

/-- `accept4` returns -1, or what no other call has returned. -/
def onIncomingConnection (answer : Option Accepted) (s : HTTPServer) : HTTPServer :=
  match answer with
  | none => s
  | some answer => if s.Accepts answer then s.onAccept serverName answer else s

/-- The connection after its callback: a socket that was closed loses its
watches, and every call of `finish_callback` schedules the connection. -/
def afterCallback (address : Nat) (c : ServerConnection) (http : HTTPConnection)
    (s : HTTPServer) : HTTPServer :=
  let s := { s with
    connections := Function.update s.connections address (some { c with http := http }) }
  let s := if c.isOpen && !http.data.tcpOpen then s.tcpConnectionClose c.fd else s
  (onRequestFinish ⟨address, c.serial⟩)^[http.data.finished - c.finished] s

def onReady (pointer : ConnectionPointer) (type : ELoopWatchFdCallbackType) (answers : TestAnswers)
    (s : HTTPServer) : Outcome ServerFault HTTPServer :=
  match s.connections pointer.address with
  | none => .undefined (.freedConnection pointer.address)
  | some c =>
    let s := s.note (.invoked pointer.serial)
    match c.http.step parseUrl answers.serve (answers.event type) with
    | .undefined why => .undefined (.connection why)
    | .ok http => .ok ((s.afterCallback pointer.address c http).note (.returned pointer.serial))
    | .failed http => .ok ((s.afterCallback pointer.address c http).note (.returned pointer.serial))

/-- `on_signal`: a signal that has a callback stops the loop. -/
def onSignal (stops : Bool) (s : HTTPServer) : HTTPServer :=
  if stops then { s with loop := s.loop.stop } else s

def invoke (callback : ServerCallback) (type : ELoopWatchFdCallbackType) (answers : TestAnswers)
    (s : HTTPServer) : Outcome ServerFault HTTPServer :=
  match callback with
  | .onIncomingConnection => .ok (s.onIncomingConnection serverName answers.accepted)
  | .onSignal => .ok (s.onSignal answers.stops)
  | .onReady pointer => s.onReady parseUrl pointer type answers

/-- Read `eloop_callback->callbacks[type]`, also where the record was freed in this batch. -/
def callbackAt (address : Nat) (type : ELoopWatchFdCallbackType) (s : HTTPServer) :
    Option (Option ServerCallback) :=
  match s.loop.load address with
  | some ec => some (ec.callbacks type)
  | none => (s.removed.find? fun ec => ec.registration.address = address).map fun ec =>
      ec.callbacks type

def test (address : Nat) (type : ELoopWatchFdCallbackType) (answers : TestAnswers)
    (s : HTTPServer) : Outcome ServerFault HTTPServer :=
  match s.callbackAt address type with
  | none => .undefined (.freedRecord address)
  | some none => .ok s
  | some (some callback) => s.invoke parseUrl serverName callback type answers

/-- `http_connection_destroy`; a socket that is still open is closed. -/
def httpConnectionDestroy (address : Nat) (s : HTTPServer) : Outcome ServerFault HTTPServer :=
  match s.connections address with
  | none => .undefined (.freedConnection address)
  | some c =>
    let s := s.note (.destroyed c.serial)
    let s := if c.isOpen then s.tcpConnectionClose c.fd else s
    .ok { s with connections := Function.update s.connections address none }

/-- A round of `collector_collect`; `http_connection_destroy` schedules nothing. -/
def collectRound (s : HTTPServer) : Outcome ServerFault HTTPServer :=
  match s.collector.collectEntriesList with
  | [] => .ok { s with phase := .waiting }
  | entry :: next => (s.httpConnectionDestroy entry.data).map fun s =>
      { s with collector := s.collector.collectRound (fun _ _ => []) entry next }

end HTTPServer

/-- What comes next: `epoll_wait` returns, a test is made, or `collector_collect` goes on. -/
inductive ServerInput where
  | wait (ready : List (Nat × EpollEvents))
  | test (answers : TestAnswers)
  | collect

namespace HTTPServer

/-- A loop that was stopped returns after its batch; nothing else comes in between. -/
def step (parseUrl : ParseUrl) (serverName : Bytes) (i : ServerInput) (s : HTTPServer) :
    Outcome ServerFault HTTPServer :=
  match i, s.phase with
  | .wait ready, .waiting =>
    if s.loop.running then
      .ok { s with
        removed := []
        phase := .dispatching (s.loop.reported ready)
        batch := s.batch + 1 }
    else .failed s
  | .test answers, .dispatching (next :: tests) =>
    test parseUrl serverName next.1 next.2 answers { s with phase := .dispatching tests }
  | .collect, .dispatching [] => .ok { s with phase := .collecting }
  | .collect, .collecting => s.collectRound
  | _, _ => .failed s

end HTTPServer

/-- The descriptors and the memory of the watches that `main` registers before the loop. -/
structure ServerSetup where
  signalFd : Nat
  listenFd : Nat
  signalRecord : Nat
  listenRecord : Nat
  fds : signalFd ≠ listenFd
  records : signalRecord ≠ listenRecord

/-- `signal_handler_new`, `tcp_server_start_listen`, and the start of `event_loop_run`. -/
def ServerSetup.start (u : ServerSetup) : HTTPServer :=
  let s : HTTPServer := {
    loop := ELoop.new
    removed := []
    collector := Collector.new
    connections := fun _ => none
    accepted := 0
    descriptors := [u.listenFd, u.signalFd]
    phase := .waiting
    batch := 0
    trace := [] }
  let s := (s.addFdWatch u.signalFd .read .onSignal u.signalRecord).addFdWatch u.listenFd .read
    .onIncomingConnection u.listenRecord
  { s with loop := { s.loop with running := true } }

end Rapp

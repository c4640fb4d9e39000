import Rapp.FailedWatch
import Rapp.HttpServer
import Rapp.Lib.Heap

/-!
# Who owns an accepted socket

`on_incoming_connection`, `on_accept`, `http_connection_new` and
`tcp_connection_set_callbacks`, with what the allocator and `epoll_ctl` answer,
and the calls that close and destroy connections. Objects of one type have a
heap of their own.
-/
namespace Rapp

open ObjectHeap (Heap)

/-- The callbacks of the loop with their data. For a connection the type of the
watch says which: `on_ready_read`, `on_ready_write` or `on_close`. -/
inductive SocketCallback where
  | onIncomingConnection
  | onSignal
  | onReady (tcpConnection : Nat)
  deriving DecidableEq

/-- `callbacks` says which of the three callbacks are set; no `fd` is -1. -/
structure TcpConnectionObject where
  fd : Option Nat
  callbacks : ELoopWatchFdCallbackType → Bool
  data : Option Nat

structure HTTPConnectionObject where
  tcpConnection : Option Nat
  finishCallback : Bool
  requestQueue : Option Nat
  response : Option Nat

/-- The data of `new_request_callback`. -/
structure HTTPRequestQueueObject where
  data : Option Nat

structure SocketServer where
  loop : ELoop SocketCallback
  descriptors : List Nat
  tcpConnections : Heap TcpConnectionObject
  httpConnections : Heap HTTPConnectionObject
  requestQueues : Heap HTTPRequestQueueObject
  responses : Heap Unit

/-- What the allocator answers for each object, and `epoll_ctl` for each watch. -/
structure AcceptAnswers where
  tcpConnection : Option Nat
  httpConnection : Option Nat
  requestQueue : Option Nat
  response : Option Nat
  record : Option Nat
  accepted : ELoopWatchFdCallbackType → Bool

namespace SocketServer

def tcpConnectionWithFd (fd : Nat) (answer : Option Nat) (s : SocketServer) :
    Option (Nat × SocketServer) :=
  (s.tcpConnections.create answer ⟨some fd, fun _ => false, none⟩).map fun created =>
    (created.1, { s with tcpConnections := created.2 })

/-- One of the three watches of a connection. -/
def setCallback (fd tcpConnection : Nat) (type : ELoopWatchFdCallbackType)
    (answers : AcceptAnswers) (s : SocketServer) : Int × SocketServer :=
  let (result, loop) :=
    s.loop.addFdWatch fd type (.onReady tcpConnection) answers.record (answers.accepted type)
  let s := { s with loop := loop }
  if result < 0 then (-1, s)
  else (0, { s with tcpConnections := s.tcpConnections.modify tcpConnection fun connection =>
    { connection with callbacks := Function.update connection.callbacks type true } })

def tcpConnectionSetCallbacks (fd tcpConnection httpConnection : Nat) (answers : AcceptAnswers)
    (s : SocketServer) : Int × SocketServer :=
  let (result, s) := s.setCallback fd tcpConnection .read answers
  if result < 0 then (-1, s) else
  let (result, s) := s.setCallback fd tcpConnection .write answers
  if result < 0 then (-1, s) else
  let (result, s) := s.setCallback fd tcpConnection .close answers
  if result < 0 then (-1, s) else
  (0, { s with tcpConnections := s.tcpConnections.modify tcpConnection fun connection =>
    { connection with data := some httpConnection } })

/-- What `tcp_connection_set_callbacks` returns is not looked at. -/
def httpConnectionNew (fd tcpConnection : Nat) (answers : AcceptAnswers) (s : SocketServer) :
    Option Nat × SocketServer :=
  match s.httpConnections.create answers.httpConnection ⟨none, false, none, none⟩ with
  | none => (none, s)
  | some (httpConnection, httpConnections) =>
    match s.requestQueues.create answers.requestQueue ⟨none⟩ with
    | none => (none, { s with httpConnections := httpConnections.destroy httpConnection })
    | some (requestQueue, requestQueues) =>
      let requestQueues := requestQueues.modify requestQueue fun _ => ⟨some httpConnection⟩
      match s.responses.create answers.response () with
      | none => (none, { s with
          requestQueues := requestQueues.destroy requestQueue
          httpConnections := httpConnections.destroy httpConnection })
      | some (response, responses) =>
        let s := { s with
          requestQueues := requestQueues
          responses := responses
          httpConnections := httpConnections.modify httpConnection fun _ =>
            ⟨some tcpConnection, false, some requestQueue, some response⟩ }
        (some httpConnection,
          (s.tcpConnectionSetCallbacks fd tcpConnection httpConnection answers).2)

def onAccept (fd tcpConnection : Nat) (answers : AcceptAnswers) (s : SocketServer) :
    SocketServer :=
  match s.httpConnectionNew fd tcpConnection answers with
  | (none, s) => s
  | (some httpConnection, s) =>
    { s with httpConnections := s.httpConnections.modify httpConnection fun connection =>
        { connection with finishCallback := true } }

/-- `close`. -/
def closeDescriptor (fd : Nat) (s : SocketServer) : SocketServer :=
  { s with
    loop := s.loop.closeFd fd
    descriptors := s.descriptors.filter (· ≠ fd) }

/-- `accept4` has returned `fd`. -/
def onIncomingConnection (fd : Nat) (answers : AcceptAnswers) (s : SocketServer) :
    Int × SocketServer :=
  let s := { s with descriptors := fd :: s.descriptors }
  match s.tcpConnectionWithFd fd answers.tcpConnection with
  | none => (-1, s.closeDescriptor fd)
  | some (tcpConnection, s) => (0, s.onAccept fd tcpConnection answers)

def removeFdWatch (fd : Nat) (accepted : ELoopWatchFdCallbackType → Bool)
    (type : ELoopWatchFdCallbackType) (s : SocketServer) : SocketServer :=
  { s with loop := (s.loop.removeFdWatch fd type (accepted type)).2 }

def tcpConnectionClose (tcpConnection : Nat) (accepted : ELoopWatchFdCallbackType → Bool)
    (s : SocketServer) : SocketServer :=
  match (s.tcpConnections tcpConnection).bind TcpConnectionObject.fd with
  | none => s
  | some fd =>
    let s := ((s.removeFdWatch fd accepted .read).removeFdWatch fd accepted .write).removeFdWatch
      fd accepted .close
    let s := s.closeDescriptor fd
    { s with tcpConnections := s.tcpConnections.modify tcpConnection fun connection =>
        { connection with fd := none } }

def httpConnectionDestroy (httpConnection : Nat) (accepted : ELoopWatchFdCallbackType → Bool)
    (s : SocketServer) : SocketServer :=
  match s.httpConnections httpConnection with
  | none => s
  | some connection =>
    let s := match connection.tcpConnection with
      | none => s
      | some tcpConnection =>
        let s := s.tcpConnectionClose tcpConnection accepted
        { s with tcpConnections := s.tcpConnections.destroy tcpConnection }
    { s with
      requestQueues := (connection.requestQueue.map s.requestQueues.destroy).getD s.requestQueues
      responses := (connection.response.map s.responses.destroy).getD s.responses
      httpConnections := s.httpConnections.destroy httpConnection }

end SocketServer

/-- A connection comes in, a socket is closed by its connection, or a
connection is destroyed. A descriptor that is open is not returned by `accept4`. -/
inductive SocketEvent where
  | accept (fd : Nat) (answers : AcceptAnswers)
  | close (tcpConnection : Nat) (accepted : ELoopWatchFdCallbackType → Bool)
  | destroy (httpConnection : Nat) (accepted : ELoopWatchFdCallbackType → Bool)

namespace SocketServer

def apply (s : SocketServer) : SocketEvent → SocketServer
  | .accept fd answers =>
    if fd ∈ s.descriptors then s else (s.onIncomingConnection fd answers).2
  | .close tcpConnection accepted => s.tcpConnectionClose tcpConnection accepted
  | .destroy httpConnection accepted => s.httpConnectionDestroy httpConnection accepted

/-- The watches that `main` registers before the loop. -/
def start (u : ServerSetup) : SocketServer where
  loop := ELoop.new.perform [.add u.signalFd .read .onSignal (some u.signalRecord) true,
    .add u.listenFd .read .onIncomingConnection (some u.listenRecord) true]
  descriptors := [u.listenFd, u.signalFd]
  tcpConnections := fun _ => none
  httpConnections := fun _ => none
  requestQueues := fun _ => none
  responses := fun _ => none

/-- The server after any events with any answers. -/
def perform (s : SocketServer) (events : List SocketEvent) : SocketServer := events.foldl apply s

/-- The socket belongs to a connection that is told of its end, and the three
watches, which the kernel has, lead to that connection. -/
def Belongs (s : SocketServer) (fd : Nat) : Prop :=
  fd ∈ s.descriptors ∧
  ∃ tcpConnection tcp httpConnection http,
    s.tcpConnections tcpConnection = some tcp ∧ tcp.fd = some fd ∧
    s.httpConnections httpConnection = some http ∧ http.tcpConnection = some tcpConnection ∧
    http.finishCallback = true ∧ tcp.data = some httpConnection ∧
    ∀ type, s.loop.callbackOf fd type = some (.onReady tcpConnection) ∧
      tcp.callbacks type = true ∧
      ∃ interest, s.loop.interest fd = some interest ∧ interest.events.has type = true

/-- The socket is closed and not watched, and nothing is left of what was created for it. -/
structure Released (before after : SocketServer) (fd : Nat) : Prop where
  closed : fd ∉ after.descriptors
  unwatched : after.loop.findCallbackByFd fd = none ∧ after.loop.interest fd = none
  tcpConnections : after.tcpConnections = before.tcpConnections
  httpConnections : after.httpConnections = before.httpConnections
  requestQueues : after.requestQueues = before.requestQueues
  responses : after.responses = before.responses

/-- After an accepted socket was handled it belongs to a connection or is gone. -/
def NotStranded (s : SocketServer) (fd : Nat) (answers : AcceptAnswers) : Prop :=
  (s.onIncomingConnection fd answers).2.Belongs fd ∨
    s.Released (s.onIncomingConnection fd answers).2 fd

/-- Memory for everything, and the kernel takes the three watches. -/
structure AllSucceed (s : SocketServer) (answers : AcceptAnswers) : Prop where
  tcpConnection : s.tcpConnections.Gives answers.tcpConnection
  httpConnection : s.httpConnections.Gives answers.httpConnection
  requestQueue : s.requestQueues.Gives answers.requestQueue
  response : s.responses.Gives answers.response
  record : (s.loop.memoryCreate answers.record).isSome = true
  accepted : ∀ type, answers.accepted type = true

end SocketServer

end Rapp

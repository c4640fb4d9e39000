import Rapp.QueueRun
import Rapp.HttpResponse

/-!
# Connections

`httpconnection.c` with the socket calls of `tcpconnection.c`. The data of the
request queue's callback is the rest of the connection: the response, whether
the socket is open, and how often `finish_callback` was called. Containers are
plugins; what one appends while it serves a request is a parameter. Beside the
state of the program the connection records what was served and appended, what
the socket accepted, and whether the peer closed or a socket call failed.
-/
namespace Rapp

open CallOutcome (Outcome run run_holds)
open ByteBlock

abbrev bufSize : Nat := 80 * 1024

/-- One append of a container with the answer of the allocator. -/
structure Piece where
  data : Bytes
  resized : Bool
  deriving DecidableEq

/-- What `http_router_serve` makes a container append for a request, after the
requests served before it. -/
abbrev Serve := List HTTPRequest → HTTPRequest → List Piece

structure ConnectionState where
  response : HTTPResponse
  tcpOpen : Bool
  finished : Nat
  served : List HTTPRequest
  appended : Bytes
  sent : Bytes
  peerClosed : Bool
  socketFailed : Bool

namespace ConnectionState

def new (serverName : Bytes) : ConnectionState where
  response := HTTPResponse.new serverName
  tcpOpen := true
  finished := 0
  served := []
  appended := []
  sent := []
  peerClosed := false
  socketFailed := false

/-- An append that returns -1 appends nothing. -/
def append (s : ConnectionState) (piece : Piece) : ConnectionState :=
  match s.response.appendData piece.data piece.resized with
  | (some _, response) =>
    { s with response := response, appended := s.appended ++ piece.data }
  | (none, response) => { s with response := response }

def httpRouterServe (serve : Serve) (request : HTTPRequest) (s : ConnectionState) :
    ConnectionState :=
  (serve s.served request).foldl append { s with served := s.served ++ [request] }

def finishCallback (s : ConnectionState) : ConnectionState :=
  { s with finished := s.finished + 1 }

def tcpConnectionClose (s : ConnectionState) : ConnectionState := { s with tcpOpen := false }

end ConnectionState

/-- Results of `recv`. Data comes with what the parser makes of it. -/
inductive ReadResult where
  | got (call : Call)
  | shutdown
  | wouldBlock
  | error

/-- Results of `send`: a count, -1 with `EAGAIN`, or -1 with another error. -/
inductive SendResult where
  | accepted (count : Nat)
  | wouldBlock
  | error
  deriving DecidableEq

/-- The most the socket takes. -/
def SendResult.limit : SendResult → Nat
  | .accepted count => count
  | _ => 0

/-- `tcp_connection_write_data`. -/
def ConnectionState.tcpConnectionWriteData (s : ConnectionState) (data : Bytes)
    (result : SendResult) : ConnectionState :=
  { s with
    sent := s.sent ++ data.take result.limit
    socketFailed := s.socketFailed || result == .error }

abbrev HTTPConnection := Machine ConnectionState

namespace HTTPConnection

def new (serverName : Bytes) : HTTPConnection :=
  ⟨HTTPRequestQueue.new, 0, ConnectionState.new serverName⟩

def update (f : ConnectionState → ConnectionState) (m : HTTPConnection) : HTTPConnection :=
  { m with data := f m.data }

@[simp] theorem update_data (f : ConnectionState → ConnectionState) (m : HTTPConnection) :
    (m.update f).data = f m.data := rfl
@[simp] theorem update_queue (f : ConnectionState → ConnectionState) (m : HTTPConnection) :
    (m.update f).queue = m.queue := rfl

variable (parseUrl : ParseUrl) (serve : Serve)

/-- A NULL request is already used by `http_request_is_last`, before the test for it. -/
def onNewRequest (m : HTTPConnection) : Result HTTPConnection :=
  match m.queue.getNextRequest with
  | .error why => .undefined why
  | .ok (none, _) => .undefined .nullRequest
  | .ok (some request, queue) =>
    let response := m.data.response.setLast request.isLast
    .ok { m with
      queue := queue
      data := ConnectionState.httpRouterServe serve request { m.data with response := response } }

def onRead (result : ReadResult) (m : HTTPConnection) : Result HTTPConnection :=
  match result with
  | .got call =>
    (appendData parseUrl (onNewRequest serve) call m).recover
      (update ConnectionState.finishCallback)
  | .shutdown => .ok (m.update fun s => { s with peerClosed := true })
  | .wouldBlock => .ok m
  | .error => .ok (m.update fun s => { s with socketFailed := true }.finishCallback)

/-- The result -1 of `http_response_read_data` is taken like an empty buffer. -/
def onWrite (shrunk : Bool) (result : SendResult) (m : HTTPConnection) : Result HTTPConnection :=
  match m.data.response.readData bufSize shrunk with
  | .error why => .undefined why
  | .ok (got, response) =>
    let m := m.update fun s => { s with response := response }
    if 0 < (got.getD []).length then
      .ok (m.update fun s => s.tcpConnectionWriteData (got.getD []) result)
    else if response.isLast then
      .ok (m.update fun s => s.tcpConnectionClose.finishCallback)
    else .ok m

def onClose (m : HTTPConnection) : Result HTTPConnection :=
  .ok (m.update fun s => { s with peerClosed := true }.tcpConnectionClose.finishCallback)

end HTTPConnection

/-- What happens to a connection: an event of the loop, or an append of a
container that keeps the response. -/
inductive ConnectionEvent where
  | read (result : ReadResult)
  | write (shrunk : Bool) (result : SendResult)
  | close
  | append (piece : Piece)

namespace HTTPConnection

variable (parseUrl : ParseUrl) (serve : Serve)

def step (e : ConnectionEvent) (m : HTTPConnection) : Result HTTPConnection :=
  match e with
  | .read result => m.onRead parseUrl serve result
  | .write shrunk result => m.onWrite shrunk result
  | .close => m.onClose
  | .append piece => .ok (m.update fun s => s.append piece)

/-! ### What the new-request callback does -/

variable {serve}

theorem onNewRequest_ok {m n : HTTPConnection} (h : onNewRequest serve m = .ok n) :
    ∃ request queue, m.queue.getNextRequest = .ok (some request, queue) ∧
      n = { m with
        queue := queue
        data := ConnectionState.httpRouterServe serve request
          { m.data with response := m.data.response.setLast request.isLast } } := by
  unfold onNewRequest at h
  split at h
  · cases h
  · cases h
  · rename_i request queue hq
    exact ⟨request, queue, hq, (Outcome.ok.inj h).symm⟩

theorem keepsQueue_onNewRequest : KeepsQueue (onNewRequest serve) := by
  intro m n h
  obtain ⟨request, queue, hq, rfl⟩ := onNewRequest_ok h
  obtain ⟨-, -, rfl⟩ := HTTPRequestQueue.getNextRequest_ok hq
  exact ⟨rfl, _, rfl⟩

end HTTPConnection

end Rapp

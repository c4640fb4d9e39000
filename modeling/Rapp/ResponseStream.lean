import Rapp.ResponseDelivery
import Rapp.ResponseMessage

/-!
# Responses on the wire

Answers written one behind the other, by any mixture of the writers and of
reads of the buffer, and the bytes of a connection whose containers answer with
pages: a client that has received a part of them has the first answers and a
front of the next one.
-/
namespace Rapp

open CallOutcome (Outcome run Admitted)
open StreamFraming
open ByteBlock

/-! ### Calls that write pages -/

/-- A container writes its page call by call, or has an error written. -/
inductive Reply where
  | content (page : Page)
  | error (code : Nat) (message : Bytes) (known : statusMessageByCode code = some message)

namespace Reply

def written : Reply → Page
  | .content page => page
  | .error code message known => .error code message known

def calls (date : Bytes) : Reply → List WriterCall
  | .content page => page.calls date
  | .error code _ _ => [.writeErrorByCode code date]

end Reply

/-- An answer with the flag of its request. -/
structure Exchange where
  isLast : Bool
  reply : Reply
  trailer : Trailer

namespace Exchange

def calls (exchange : Exchange) : List ResponseCall :=
  .setLast exchange.isLast :: (exchange.reply.calls exchange.trailer.date).map .write

/-- What is written, and what it is to be read as. -/
def frame (exchange : Exchange) : Bytes × ResponseMessage :=
  (exchange.reply.written.text exchange.trailer exchange.isLast,
    exchange.reply.written.received exchange.trailer exchange.isLast)

end Exchange

def ResponseCall.isRead : ResponseCall → Bool
  | .readData _ _ => true
  | _ => false

/-- The texts of the calls, in order. -/
def writtenBy (response : HTTPResponse) : List ResponseCall → Bytes
  | [] => []
  | .write call :: calls => (call.text response).getD [] ++ writtenBy response calls
  | .setLast last :: calls => writtenBy (response.setLast last) calls
  | .readData _ _ :: calls => writtenBy response calls

theorem text_congr {response response' : HTTPResponse}
    (hserver : response.serverName = response'.serverName)
    (hlast : response.isLast = response'.isLast) (call : WriterCall) :
    call.text response = call.text response' := by
  cases call <;> simp only [WriterCall.text, hserver, hlast]

theorem writtenBy_congr {response response' : HTTPResponse}
    (hserver : response.serverName = response'.serverName)
    (hlast : response.isLast = response'.isLast) (calls : List ResponseCall) :
    writtenBy response calls = writtenBy response' calls := by
  induction calls generalizing response response' with
  | nil => rfl
  | cons call calls ih =>
    cases call with
    | write call => simp only [writtenBy, text_congr hserver hlast, ih hserver hlast]
    | setLast last => exact ih hserver rfl
    | readData length positive => exact ih hserver hlast

theorem writtenBy_filter (response : HTTPResponse) (calls : List ResponseCall) :
    writtenBy response (calls.filter fun call => !call.isRead) = writtenBy response calls := by
  induction calls generalizing response with
  | nil => rfl
  | cons call calls ih =>
    cases call with
    | write call => exact congrArg ((call.text response).getD [] ++ ·) (ih response)
    | setLast last => exact ih (response.setLast last)
    | readData length positive => exact ih response

theorem writtenBy_write (response : HTTPResponse) (calls : List WriterCall)
    (later : List ResponseCall) : writtenBy response (calls.map .write ++ later) =
      (calls.flatMap fun call => (call.text response).getD []) ++ writtenBy response later := by
  induction calls with
  | nil => rfl
  | cons call calls ih => simp only [List.map_cons, List.cons_append, writtenBy, ih,
      List.flatMap_cons, List.append_assoc]

theorem endHeadersText_eq (trailer : Trailer) (isLast : Bool) :
    endHeadersText trailer.server trailer.date isLast =
      (trailer.headers isLast).flatMap CleanHeader.text ++ httpEol := by
  cases isLast <;>
    simp [endHeadersText, Trailer.headers, Trailer.serverHeader, Trailer.dateHeader,
      CleanHeader.text, CleanHeader.connection]

/-- The status line, the headers of its own, the length, the trailer, and the body. -/
theorem Page.text_eq (page : Page) (trailer : Trailer) (isLast : Bool) :
    page.text trailer isLast = statusLineByCodeText page.code page.message ++
      (page.headers.flatMap CleanHeader.text ++
        (headerText (ascii "Content-Length") (decimal page.body.length) ++
          (endHeadersText trailer.server trailer.date isLast ++ page.body))) := by
  have hlength : (CleanHeader.contentLength page.body.length).text =
      headerText (ascii "Content-Length") (decimal page.body.length) := rfl
  have hstatus : page.statusLine ++ httpEol = statusLineByCodeText page.code page.message := rfl
  rw [endHeadersText_eq, Page.text, hstatus, headersSent, List.flatMap_append, List.flatMap_cons,
    hlength]
  simp only [List.append_assoc]

/-- The calls of an answer write the text of its page. -/
theorem Reply.text_calls (reply : Reply) (trailer : Trailer) {response : HTTPResponse}
    (hserver : trailer.server = response.serverName) :
    ((reply.calls trailer.date).flatMap fun call => (call.text response).getD []) =
      reply.written.text trailer response.isLast := by
  cases reply with
  | content page =>
    have hheaders : page.headers.flatMap (fun header =>
        ((WriterCall.writeHeader header.name header.value).text response).getD []) =
        page.headers.flatMap CleanHeader.text := rfl
    have hstatus : (WriterCall.writeStatusLineByCode page.code).text response =
        some (statusLineByCodeText page.code page.message) := by
      rw [WriterCall.text, page.known, Option.map_some]
    rw [calls, Page.calls, List.flatMap_append, List.flatMap_cons, List.flatMap_map, hheaders,
      hstatus, written, Page.text_eq, hserver]
    simp [WriterCall.text]
  | error code message known =>
    have htype : (Page.error code message known).headers.flatMap CleanHeader.text =
        headerText (ascii "Content-Type") (ascii "text/html") := List.append_nil _
    rw [calls, List.flatMap_singleton, WriterCall.text, known, Option.map_some, Option.getD_some,
      written, Page.text_eq, htype, hserver]
    simp only [errorText, Page.error, List.append_assoc]

theorem readData_serverName {response next : HTTPResponse} {length : Nat} {shrunk : Bool}
    {got : Option Bytes} (h : response.readData length shrunk = .ok (got, next)) :
    next.serverName = response.serverName := by
  simp only [HTTPResponse.readData] at h
  split at h
  · cases h
  · split at h
    · cases h
      rfl
    · split at h <;> cases h <;> rfl

/-- One step of a run: what is given grows by the text of the call. -/
theorem LedgeredResponse.Faithful.apply_given {state : LedgeredResponse} (h : state.Faithful)
    (call : ResponseCall) (calls : List ResponseCall) :
    ∃ next, LedgeredResponse.apply call state = .ok next ∧ next.Faithful ∧
      next.ledger.given ++ writtenBy next.response calls =
        state.ledger.given ++ writtenBy state.response (call :: calls) := by
  obtain ⟨next, hnext, hfaithful⟩ := h.apply call
  refine ⟨next, hnext, hfaithful, ?_⟩
  cases call with
  | write call =>
    have hstart := call.writer_start (ready_of_sound h.sound)
    have hsame : (call.writer.start ⟨state.response, []⟩).2.response.serverName =
        state.response.serverName ∧ (call.writer.start ⟨state.response, []⟩).2.response.isLast =
          state.response.isLast := by
      cases htext : call.text state.response with
      | none =>
        simp only [htext] at hstart
        rw [hstart]
        exact ⟨rfl, rfl⟩
      | some text =>
        simp only [htext] at hstart
        obtain ⟨after, hafter, hgrown⟩ := hstart
        rw [hafter]
        exact ⟨hgrown.serverName_eq, hgrown.isLast_eq⟩
    cases hnext
    simp only [writtenBy, List.append_assoc, writtenBy_congr hsame.1 hsame.2]
  | setLast last =>
    cases hnext
    rfl
  | readData length positive =>
    obtain ⟨after, hread, -, -, hlast⟩ := HTTPResponse.readData_shrunk h.sound length
    simp only [LedgeredResponse.apply, hread] at hnext
    cases hnext
    exact congrArg (state.ledger.given ++ ·)
      (writtenBy_congr (readData_serverName hread) hlast calls)

/-- What a run writes is given to the ledger. -/
theorem LedgeredResponse.Faithful.run_given {state : LedgeredResponse} (h : state.Faithful)
    (calls : List ResponseCall) :
    ∃ last, run LedgeredResponse.apply calls state = .ok last ∧ last.Faithful ∧
      last.ledger.given = state.ledger.given ++ writtenBy state.response calls := by
  induction calls generalizing state with
  | nil => exact ⟨state, rfl, h, (List.append_nil _).symm⟩
  | cons call calls ih =>
    obtain ⟨next, hnext, hfaithful, hgiven⟩ := h.apply_given call calls
    obtain ⟨last, hlast, hkept, hwritten⟩ := ih hfaithful
    refine ⟨last, ?_, hkept, hwritten.trans hgiven⟩
    rw [CallOutcome.run_cons, hnext]
    exact hlast

theorem writtenBy_exchanges {response : HTTPResponse} {exchanges : List Exchange}
    (h : ∀ exchange ∈ exchanges, exchange.trailer.server = response.serverName) :
    writtenBy response (exchanges.flatMap Exchange.calls) =
      texts (exchanges.map Exchange.frame) := by
  induction exchanges generalizing response with
  | nil => rfl
  | cons exchange exchanges ih =>
    have hserver : exchange.trailer.server = (response.setLast exchange.isLast).serverName :=
      h exchange (by simp)
    have hlater := @ih (response.setLast exchange.isLast) fun exchange hmem =>
      h exchange (by simp [hmem])
    rw [List.flatMap_cons, Exchange.calls, List.cons_append, writtenBy, writtenBy_write,
      exchange.reply.text_calls exchange.trailer hserver, hlater]
    rfl

theorem frames_exchanges (exchanges : List Exchange) :
    ∀ frame ∈ exchanges.map Exchange.frame, Frames ResponseMessage.read frame.1 frame.2 := by
  intro frame hmem
  obtain ⟨exchange, -, rfl⟩ := List.mem_map.mp hmem
  exact exchange.reply.written.frames_read exchange.trailer exchange.isLast

/-- Answers written one after the other to a response, with reads of any sizes
in between. Out of what has been read the client takes the first answers as
they were written and waits inside the next one; once the buffer is empty it
has all of them. -/
theorem responses_received (serverName : Bytes) (exchanges : List Exchange)
    (calls : List ResponseCall)
    (hserver : ∀ exchange ∈ exchanges, exchange.trailer.server = serverName)
    (hcalls : (calls.filter fun call => !call.isRead) = exchanges.flatMap Exchange.calls) :
    ∃ state, run LedgeredResponse.apply calls (.new serverName) = .ok state ∧
      Received (exchanges.map Exchange.frame) state.ledger.accepted
        (receive ResponseMessage.read state.ledger.accepted) ∧
      (state.response.bytes = [] → receive ResponseMessage.read state.ledger.accepted =
        (exchanges.map fun exchange => exchange.frame.2, [])) := by
  obtain ⟨state, hrun, hfaithful, hgiven⟩ :=
    (LedgeredResponse.faithful_new serverName).run_given calls
  have htexts : state.ledger.accepted ++ state.response.bytes =
      texts (exchanges.map Exchange.frame) := by
    have hbalanced : state.ledger.accepted ++ state.ledger.held = state.ledger.given :=
      hfaithful.balanced
    rw [← hfaithful.held_eq, hbalanced, hgiven, ← writtenBy_filter, hcalls,
      writtenBy_exchanges hserver]
    rfl
  have hreceived : Received (exchanges.map Exchange.frame) state.ledger.accepted
      (receive ResponseMessage.read state.ledger.accepted) :=
    receive_received rfl (frames_exchanges exchanges) ⟨_, htexts⟩
  refine ⟨state, hrun, hreceived, fun hdrained => ?_⟩
  rw [hdrained, List.append_nil] at htexts
  rw [hreceived.all htexts, List.map_map]
  rfl

def epoch : Trailer where
  server := ascii "rapp"
  date := ascii "Thu, 01 Jan 1970 00:00:00 +0000"
  server_clean := by decide
  date_clean := by decide

def helloExchange : Exchange :=
  ⟨false, .content (.hello (ascii "Hello world!") (by decide)), epoch⟩

def notFoundExchange : Exchange := ⟨true, .error 404 (ascii "Not Found") (by decide), epoch⟩

/-- A page and an error, with a short read between the two. -/
theorem responses_received_hello :
    ∃ state, run LedgeredResponse.apply (helloExchange.calls ++
        .readData 30 (by decide) :: notFoundExchange.calls) (.new (ascii "rapp")) = .ok state ∧
      Received ([helloExchange, notFoundExchange].map Exchange.frame) state.ledger.accepted
        (receive ResponseMessage.read state.ledger.accepted) ∧
      (state.response.bytes = [] → receive ResponseMessage.read state.ledger.accepted =
        ([helloExchange, notFoundExchange].map fun exchange => exchange.frame.2, [])) :=
  responses_received (ascii "rapp") [helloExchange, notFoundExchange] _
    (by simp [helloExchange, notFoundExchange, epoch]) rfl

/-! ### Connections whose containers answer with pages -/

/-- What a container answers to a request, after the requests served before. -/
abbrev Replying := List HTTPRequest → HTTPRequest → Option (Reply × Trailer)

/-- The exchange of a request; a container that reports an error writes nothing. -/
def Replying.exchange (replying : Replying) (served : List HTTPRequest) (request : HTTPRequest) :
    Option Exchange :=
  (replying served request).map fun reply => ⟨request.isLast, reply.1, reply.2⟩

/-- What the requests are answered with, one after the other. -/
def Replying.exchanges (replying : Replying) :
    List HTTPRequest → List HTTPRequest → List Exchange
  | _, [] => []
  | served, request :: requests =>
    (replying.exchange served request).toList ++
      replying.exchanges (served ++ [request]) requests

/-- The pieces a container appends, however it cuts them, make up the text of its answer. -/
structure Serve.Replies (serve : Serve) (replying : Replying) : Prop where
  resized : serve.Resized
  texts_eq : ∀ served request, (serve served request).flatMap Piece.data =
    texts ((replying.exchange served request).toList.map Exchange.frame)

/-- The same of the requests that are served from one list of them on up to another. -/
def Serve.Answers (serve : Serve) (replying : Replying) (before after : List HTTPRequest) : Prop :=
  ∀ served request, before <+: served → served ++ [request] <+: after →
    (serve served request).flatMap Piece.data =
      texts ((replying.exchange served request).toList.map Exchange.frame)

theorem Serve.Replies.answers {serve : Serve} {replying : Replying} (h : serve.Replies replying)
    (before after : List HTTPRequest) : serve.Answers replying before after :=
  fun served request _ _ => h.texts_eq served request

theorem Replying.exchanges_concat (replying : Replying) (served requests : List HTTPRequest)
    (request : HTTPRequest) : replying.exchanges served (requests ++ [request]) =
      replying.exchanges served requests ++
        (replying.exchange (served ++ requests) request).toList := by
  induction requests generalizing served with
  | nil => simp [exchanges]
  | cons first requests ih => simp [exchanges, ih]

/-- What was appended are the texts of the answers to the requests served so far. -/
structure ConnectionState.Replied (replying : Replying) (s : ConnectionState) : Prop where
  accounted : s.Accounted
  appended_eq : s.appended = texts ((replying.exchanges [] s.served).map Exchange.frame)

theorem foldl_append_eq (pieces : List Piece) (hp : ∀ piece ∈ pieces, piece.resized = true)
    (s : ConnectionState) : (pieces.foldl ConnectionState.append s).served = s.served ∧
      (pieces.foldl ConnectionState.append s).appended =
        s.appended ++ pieces.flatMap Piece.data := by
  induction pieces generalizing s with
  | nil => exact ⟨rfl, (List.append_nil _).symm⟩
  | cons piece pieces ih =>
    have hone : (s.append piece).served = s.served ∧
        (s.append piece).appended = s.appended ++ piece.data := by
      simp [ConnectionState.append, HTTPResponse.appendData, hp piece (by simp)]
    obtain ⟨hserved, happended⟩ := ih (fun p hmem => hp p (by simp [hmem])) (s.append piece)
    refine ⟨hserved.trans hone.1, ?_⟩
    rw [List.foldl_cons, happended, hone.2, List.flatMap_cons, List.append_assoc]

variable {replying : Replying} {serve : Serve} {parseUrl : ParseUrl}

/-- What was appended since the requests `before` were served is as `replying` says, if the
container answers so. -/
structure ConnectionState.Growing (replying : Replying) (serve : Serve) (before : List HTTPRequest)
    (s : ConnectionState) : Prop where
  front : before <+: s.served
  accounted : s.Accounted
  appended_eq : serve.Answers replying before s.served →
    s.appended = texts ((replying.exchanges [] s.served).map Exchange.frame)

theorem ConnectionState.Replied.growing {s : ConnectionState} (h : s.Replied replying) :
    s.Growing replying serve s.served :=
  ⟨List.prefix_rfl, h.accounted, fun _ => h.appended_eq⟩

theorem onNewRequest_growing (hs : serve.Resized) {before : List HTTPRequest} (m : HTTPConnection)
    (h : m.data.Growing replying serve before) :
    (HTTPConnection.onNewRequest serve m).Holds fun n => n.data.Growing replying serve before := by
  have haccounted := HTTPConnection.onNewRequest_accounted hs m h.accounted
  unfold HTTPConnection.onNewRequest at haccounted ⊢
  split at haccounted
  · trivial
  · trivial
  · rename_i request queue hq
    obtain ⟨hserved, happended⟩ := foldl_append_eq (serve m.data.served request)
      (hs m.data.served request) { m.data with
        response := m.data.response.setLast request.isLast
        served := m.data.served ++ [request] }
    refine ⟨?_, haccounted, fun hanswers => ?_⟩ <;>
      simp only [ConnectionState.httpRouterServe] at *
    · rw [hserved]
      exact h.front.trans (List.prefix_append _ _)
    · rw [hserved] at hanswers
      have hearlier : serve.Answers replying before m.data.served := by
        intro served request hfront hend
        exact hanswers served request hfront (hend.trans (List.prefix_append _ _))
      have htexts := hanswers m.data.served request h.front List.prefix_rfl
      rw [hserved, happended, htexts, replying.exchanges_concat, List.nil_append,
        List.map_append, texts_append, h.appended_eq hearlier]

theorem onRead_growing (hs : serve.Resized) (result : ReadResult) {before : List HTTPRequest}
    {m : HTTPConnection} (h : m.data.Growing replying serve before) :
    (m.onRead parseUrl serve result).Holds fun n => n.data.Growing replying serve before := by
  cases result with
  | got call =>
    exact (appendData_holds (onNewRequest_growing hs) call h).recover (fun n hn => hn)
      fun n hn => ⟨hn.front, ⟨hn.accounted.sound, hn.accounted.balanced⟩, hn.appended_eq⟩
  | shutdown => exact ⟨h.front, ⟨h.accounted.sound, h.accounted.balanced⟩, h.appended_eq⟩
  | wouldBlock => exact h
  | error => exact ⟨h.front, ⟨h.accounted.sound, h.accounted.balanced⟩, h.appended_eq⟩

/-- `on_write` serves nothing and appends nothing. -/
theorem onWrite_kept {m n : HTTPConnection} {shrunk : Bool} {result : SendResult}
    (h : m.onWrite shrunk result = .ok n) :
    n.data.served = m.data.served ∧ n.data.appended = m.data.appended := by
  unfold HTTPConnection.onWrite at h
  split at h
  · cases h
  · simp only at h
    split at h
    · cases h
      exact ⟨rfl, rfl⟩
    · split at h <;> cases h <;> exact ⟨rfl, rfl⟩

/-- Nothing but the requests makes a container append, and every resize succeeds. -/
def ConnectionEvent.Driven : ConnectionEvent → Prop
  | .read _ => True
  | .write shrunk _ => shrunk = true
  | .close => True
  | .append _ => False

theorem step_replied (hs : serve.Resized) {e : ConnectionEvent} (he : e.Driven)
    {m n : HTTPConnection} (h : m.data.Replied replying) (htakes : m.TakesChunk e)
    (hn : m.step parseUrl serve e = .ok n)
    (hanswers : serve.Answers replying m.data.served n.data.served) : n.data.Replied replying := by
  cases e with
  | read result =>
    have hgrowing := (onRead_growing hs result h.growing).ok hn
    exact ⟨hgrowing.accounted, hgrowing.appended_eq hanswers⟩
  | write shrunk result =>
    cases he
    obtain ⟨hsound, hbalanced⟩ := HTTPConnection.step_accounted (e := .write true result)
      hs rfl h.accounted hn
    obtain ⟨hserved, happended⟩ := onWrite_kept hn
    refine ⟨⟨hsound, hbalanced.mpr htakes⟩, ?_⟩
    rw [hserved, happended, h.appended_eq]
  | close =>
    cases hn
    exact ⟨⟨h.accounted.sound, h.accounted.balanced⟩, h.appended_eq⟩
  | append piece => exact absurd he id

/-- What was sent is taken apart as answers to the first requests served. -/
theorem ConnectionState.Replied.received {s : ConnectionState} (h : s.Replied replying) :
    Received ((replying.exchanges [] s.served).map Exchange.frame) s.sent
        (receive ResponseMessage.read s.sent) ∧
      (s.response.bytes = [] → receive ResponseMessage.read s.sent =
        ((replying.exchanges [] s.served).map fun exchange => exchange.frame.2, [])) := by
  have htexts : s.sent ++ s.response.bytes =
      texts ((replying.exchanges [] s.served).map Exchange.frame) := by
    rw [← h.appended_eq]
    exact h.accounted.balanced
  have hreceived := receive_received rfl
    (frames_exchanges (replying.exchanges [] s.served)) ⟨_, htexts⟩
  refine ⟨hreceived, fun hdrained => ?_⟩
  rw [hdrained, List.append_nil] at htexts
  rw [hreceived.all htexts, List.map_map]
  rfl

theorem replied_new (replying : Replying) (serverName : Bytes) :
    (HTTPConnection.new serverName).data.Replied replying :=
  ⟨HTTPConnection.accounted_new serverName, rfl⟩

/-- Pipelined or not, split anyhow into reads and writes: where no `send` leaves
bytes of its chunk, what the socket has accepted is taken apart as the answers
to the first requests served, in order, up to one that is still under way. -/
theorem answers_received (hs : serve.Replies replying) (serverName : Bytes)
    (es : List ConnectionEvent) (he : ∀ e ∈ es, e.Driven) {m : HTTPConnection}
    (htakes : Admitted (HTTPConnection.step parseUrl serve) HTTPConnection.TakesChunk
      (HTTPConnection.new serverName) es)
    (hrun : run (HTTPConnection.step parseUrl serve) es (HTTPConnection.new serverName) = .ok m) :
    Received ((replying.exchanges [] m.data.served).map Exchange.frame) m.data.sent
        (receive ResponseMessage.read m.data.sent) ∧
      (m.data.response.bytes = [] → receive ResponseMessage.read m.data.sent =
        ((replying.exchanges [] m.data.served).map fun exchange => exchange.frame.2, [])) := by
  have hreplied : m.data.Replied replying :=
    CallOutcome.always_of_admitted (I := fun m => m.data.Replied replying)
      (replied_new replying serverName)
      (fun e hmem k n hk ht hn => step_replied hs.resized (he e hmem) hk ht hn
        (hs.answers k.data.served n.data.served)) htakes es [] m
      (List.append_nil es).symm hrun
  exact hreplied.received

/-- Every request is answered with the same page. -/
def helloReplying : Replying := fun _ _ => some (helloExchange.reply, epoch)

def helloServe : Serve := fun _ request =>
  [⟨helloExchange.reply.written.text epoch request.isLast, true⟩]

theorem helloServe_replies : helloServe.Replies helloReplying where
  resized served request piece hmem := by
    rw [List.mem_singleton.mp hmem]
  texts_eq served request := rfl

/-- One last request, and the write that takes its answer. -/
theorem answers_received_lastGet :
    ∃ m, run (HTTPConnection.step parsePath helloServe)
        [.read (.got (wholeGet false)), .write true (.accepted bufSize)]
        (HTTPConnection.new (ascii "rapp")) = .ok m ∧
      Received ((helloReplying.exchanges [] m.data.served).map Exchange.frame) m.data.sent
        (receive ResponseMessage.read m.data.sent) ∧
      (m.data.response.bytes = [] → receive ResponseMessage.read m.data.sent =
        ((helloReplying.exchanges [] m.data.served).map
          fun exchange => exchange.frame.2, [])) := by
  have hrun : ∃ m, run (HTTPConnection.step parsePath helloServe)
      [.read (.got (wholeGet false)), .write true (.accepted bufSize)]
      (HTTPConnection.new (ascii "rapp")) = .ok m ∧ m.data.served.length = 1 :=
    Outcome.exists_of_toOption (by decide +kernel)
  obtain ⟨m, hm, -⟩ := hrun
  refine ⟨m, hm, answers_received helloServe_replies (ascii "rapp") _ ?_ ?_ hm⟩
  · intro e hmem
    simp only [List.mem_cons, List.not_mem_nil, or_false] at hmem
    rcases hmem with rfl | rfl
    · trivial
    · rfl
  · refine CallOutcome.admitted_cons trivial fun k _ => CallOutcome.admitted_cons ?_ fun k _ =>
      CallOutcome.admitted_nil _ k
    exact Nat.min_le_right _ _

end Rapp

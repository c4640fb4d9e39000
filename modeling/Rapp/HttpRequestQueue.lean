import Rapp.HttpParser

/-!
# The request queue

`httprequestqueue.c`: the parser callbacks, the buffer that keeps the bytes of
the header block under way, and `http_request_queue_append_data`. Addresses
are flat: the buffer is a block at an address, and a callback's pointer is the
address of the bytes given to the parser plus a position.
-/
namespace Rapp

open CallOutcome (Outcome run)
open ByteBlock

abbrev maxRequests : Nat := 100

/-- An allocated block and its contents. -/
structure Block where
  address : Nat
  bytes : Bytes
  deriving DecidableEq

structure HTTPRequestQueue where
  currentHeader : Nat
  requests : Vector (Option HTTPRequest) maxRequests
  incomingIndex : Nat
  outgoingIndex : Nat
  buffer : Option Block
  bufferLength : Nat

/-- Pointer difference as a `size_t`. -/
def pointerDifference (pointer base : Nat) : Nat :=
  if base ≤ pointer then pointer - base else pointer + 2 ^ 64 - base

theorem pointerDifference_add (base offset : Nat) :
    pointerDifference (base + offset) base = offset := by
  simp [pointerDifference]

namespace HTTPRequestQueue

def new : HTTPRequestQueue where
  currentHeader := 0
  requests := Vector.replicate maxRequests none
  incomingIndex := 0
  outgoingIndex := 0
  buffer := none
  bufferLength := 0

/-- `queue->buffer` as a number; NULL is zero. -/
def base (queue : HTTPRequestQueue) : Nat := (queue.buffer.map Block.address).getD 0

def bytes (queue : HTTPRequestQueue) : Bytes := (queue.buffer.map Block.bytes).getD []

/-- `request = queue->requests[queue->incoming_index]`. -/
def withIncoming (queue : HTTPRequestQueue)
    (body : Option HTTPRequest → Result HTTPRequestQueue) : Result HTTPRequestQueue :=
  if h : queue.incomingIndex < maxRequests then body queue.requests[queue.incomingIndex]
  else .undefined (.requestIndex queue.incomingIndex)

/-- The record the incoming slot points to is replaced. -/
def store (queue : HTTPRequestQueue) (request : HTTPRequest) : HTTPRequestQueue :=
  { queue with requests := queue.requests.setIfInBounds queue.incomingIndex (some request) }

/-- Use a request pointer. -/
def onRequest (queue : HTTPRequestQueue) (pointer : Option HTTPRequest)
    (use : HTTPRequest → Result HTTPRequest) : Result HTTPRequestQueue :=
  match pointer with
  | none => .undefined .nullRequest
  | some request => (use request).map queue.store

def onMessageBegin (allocated : Bool) (queue : HTTPRequestQueue) : Result HTTPRequestQueue :=
  queue.withIncoming fun _ =>
    if allocated then .ok (queue.store HTTPRequest.new)
    else .failed { queue with requests := queue.requests.setIfInBounds queue.incomingIndex none }

/-- The loop over the URL fields whose bit is set. -/
def setUrlFields (offset : Nat) (fields : HTTPURLField → Option MemoryRange)
    (request : HTTPRequest) : HTTPRequest :=
  HTTPURLField.all.foldl (fun r field => match fields field with
    | some range => r.setUrlFieldRange field (offset + range.offset) range.length
    | none => r) request

/-- Only the field ranges change. -/
theorem setUrlFields_eq (offset : Nat) (fields : HTTPURLField → Option MemoryRange)
    (request : HTTPRequest) : setUrlFields offset fields request = { request with
      urlFieldRanges := (setUrlFields offset fields request).urlFieldRanges } := by
  unfold setUrlFields
  generalize HTTPURLField.all = visited
  induction visited generalizing request with
  | nil => rfl
  | cons field rest ih =>
    simp only [List.foldl_cons]
    rw [ih]
    cases fields field <;> rfl

/-- What the loop leaves in each field. -/
theorem setUrlFields_field (offset : Nat) (fields : HTTPURLField → Option MemoryRange)
    (request : HTTPRequest) (field : HTTPURLField) :
    (setUrlFields offset fields request).urlFieldRanges field = match fields field with
      | some range => ⟨offset + range.offset, range.length⟩
      | none => request.urlFieldRanges field := by
  have hvisited : ∀ (visited : List HTTPURLField) (r : HTTPRequest),
      (visited.foldl (fun r field => match fields field with
        | some range => r.setUrlFieldRange field (offset + range.offset) range.length
        | none => r) r).urlFieldRanges field = match fields field with
          | some range =>
            if field ∈ visited then ⟨offset + range.offset, range.length⟩
            else r.urlFieldRanges field
          | none => r.urlFieldRanges field := by
    intro visited
    induction visited with
    | nil =>
      intro r
      cases fields field <;> rfl
    | cons f visited ih =>
      intro r
      rw [List.foldl_cons, ih]
      by_cases hf : field = f
      · subst hf
        cases fields field with
        | none => rfl
        | some range => simp [HTTPRequest.setUrlFieldRange]
      · cases fields f <;> cases fields field <;> simp [HTTPRequest.setUrlFieldRange, hf]
  rw [setUrlFields, hvisited]
  simp [HTTPURLField.mem_all]

def onUrl (parseUrl : ParseUrl) (pointer : Nat) (data : Bytes) (queue : HTTPRequestQueue) :
    Result HTTPRequestQueue :=
  queue.withIncoming fun request =>
    match parseUrl data with
    | none => .failed queue
    | some fields => queue.onRequest request fun r =>
        let offset := pointerDifference pointer queue.base
        .ok (setUrlFields offset fields (r.setUrlRange offset data.length))

def onHeaderField (pointer : Nat) (data : Bytes) (queue : HTTPRequestQueue) :
    Result HTTPRequestQueue :=
  queue.withIncoming fun request =>
    if httpRequestMaxHeaders ≤ queue.currentHeader then .failed queue
    else queue.onRequest request fun r =>
      r.setHeaderKeyRange queue.currentHeader (pointerDifference pointer queue.base) data.length

def onHeaderValue (pointer : Nat) (data : Bytes) (queue : HTTPRequestQueue) :
    Result HTTPRequestQueue :=
  (queue.withIncoming fun request => queue.onRequest request fun r =>
    r.setHeaderValueRange queue.currentHeader (pointerDifference pointer queue.base)
      data.length).map fun q => { q with currentHeader := q.currentHeader + 1 }

/-- The header block leaves the buffer: the rest is moved to the front and the
block is freed or shrunk. -/
def dropHeaders (nread : Nat) (shrunk : Option Nat) (queue : HTTPRequestQueue) :
    Result HTTPRequestQueue :=
  let length := queue.bufferLength - nread
  if length = 0 then .ok { queue with buffer := none, bufferLength := 0 }
  else match shrunk with
    | none => .failed { queue with buffer := none, bufferLength := length }
    | some address => .ok { queue with
        buffer := some ⟨address, slice nread length queue.bytes⟩
        bufferLength := length }

def onHeadersComplete (head : ParserHead) (memory : HeadersMemory) (queue : HTTPRequestQueue) :
    Result HTTPRequestQueue :=
  (queue.withIncoming fun request => queue.onRequest request fun r =>
    ((r.setMethod head.method).setLast (!head.keepAlive)).setHeadersBuffer memory.headers
      queue.bytes head.nread).bind fun q =>
  (q.dropHeaders head.nread memory.shrunk).bind fun q =>
    -- `(int64_t)parser->content_length > 0`
    if 0 < head.contentLength.toInt then
      q.withIncoming fun request => q.onRequest request fun r =>
        r.setBodyLength memory.body head.contentLength.toNat
    else .ok q

def onBody (data : Bytes) (queue : HTTPRequestQueue) : Result HTTPRequestQueue :=
  queue.withIncoming fun request => queue.onRequest request fun r => r.appendBodyData data

/-- The counters of `on_message_complete`; the new-request callback follows. -/
def onMessageComplete (queue : HTTPRequestQueue) : Result HTTPRequestQueue :=
  let next := { queue with incomingIndex := queue.incomingIndex + 1, currentHeader := 0 }
  if h : queue.incomingIndex + 1 = maxRequests then
    match queue.requests[queue.incomingIndex] with
    | none => .undefined .nullRequest
    | some request =>
      let requests := queue.requests.setIfInBounds queue.incomingIndex (some (request.setLast true))
      .ok { next with requests := requests }
  else .ok next

/-- The pointer at the outgoing index, whatever it is, and the index moves on. -/
def getNextRequest (queue : HTTPRequestQueue) :
    Except Fault (Option HTTPRequest × HTTPRequestQueue) :=
  if h : queue.outgoingIndex < maxRequests then
    .ok (queue.requests[queue.outgoingIndex],
      { queue with outgoingIndex := queue.outgoingIndex + 1 })
  else .error (.requestIndex queue.outgoingIndex)

/-- Resize the buffer and copy the new bytes behind the old ones. A resize of
a NULL buffer brings bytes nobody wrote. -/
def grow (data : Bytes) (resized : Option Nat) (queue : HTTPRequestQueue) :
    Result HTTPRequestQueue :=
  match resized with
  | none => .failed { queue with buffer := none }
  | some address => .ok { queue with
      buffer := some ⟨address, queue.bytes ++
        List.replicate (queue.bufferLength - queue.bytes.length) 0 ++ data⟩
      bufferLength := queue.bufferLength + data.length }

/-- The byte at an address, when it lies in the buffer. -/
def load (queue : HTTPRequestQueue) (address : Nat) : Option UInt8 :=
  queue.buffer.bind fun block =>
    if block.address ≤ address then block.bytes[address - block.address]? else none

/-! ### What a successful callback has done -/

/-- The request the incoming slot points to. -/
def current (queue : HTTPRequestQueue) : Option HTTPRequest :=
  queue.requests[queue.incomingIndex]?.join

theorem current_eq_some {queue : HTTPRequestQueue} {request : HTTPRequest} :
    queue.current = some request ↔ ∃ h : queue.incomingIndex < maxRequests,
      queue.requests[queue.incomingIndex] = some request := by
  simp [current, Option.join_eq_some_iff, Vector.getElem?_eq_some_iff]

theorem current_congr {queue next : HTTPRequestQueue} (hr : next.requests = queue.requests)
    (hi : next.incomingIndex = queue.incomingIndex) : next.current = queue.current := by
  simp [current, hr, hi]

theorem incomingIndex_lt {queue : HTTPRequestQueue} {request : HTTPRequest}
    (h : queue.current = some request) : queue.incomingIndex < maxRequests :=
  (current_eq_some.mp h).1

@[simp] theorem store_currentHeader (queue : HTTPRequestQueue) (request : HTTPRequest) :
    (queue.store request).currentHeader = queue.currentHeader := rfl
@[simp] theorem store_incomingIndex (queue : HTTPRequestQueue) (request : HTTPRequest) :
    (queue.store request).incomingIndex = queue.incomingIndex := rfl
@[simp] theorem store_outgoingIndex (queue : HTTPRequestQueue) (request : HTTPRequest) :
    (queue.store request).outgoingIndex = queue.outgoingIndex := rfl
@[simp] theorem store_buffer (queue : HTTPRequestQueue) (request : HTTPRequest) :
    (queue.store request).buffer = queue.buffer := rfl
@[simp] theorem store_bufferLength (queue : HTTPRequestQueue) (request : HTTPRequest) :
    (queue.store request).bufferLength = queue.bufferLength := rfl
@[simp] theorem store_base (queue : HTTPRequestQueue) (request : HTTPRequest) :
    (queue.store request).base = queue.base := rfl
@[simp] theorem store_bytes (queue : HTTPRequestQueue) (request : HTTPRequest) :
    (queue.store request).bytes = queue.bytes := rfl

@[simp] theorem store_store (queue : HTTPRequestQueue) (r s : HTTPRequest) :
    (queue.store r).store s = queue.store s := by
  simp [store, Vector.setIfInBounds_setIfInBounds]

theorem current_store {queue : HTTPRequestQueue} (request : HTTPRequest)
    (h : queue.incomingIndex < maxRequests) : (queue.store request).current = some request := by
  rw [current_eq_some]
  exact ⟨h, by simp [store]⟩

/-- The record that a callback stores over the current one is the current one then. -/
theorem store_current {queue : HTTPRequestQueue} {request : HTTPRequest}
    (h : queue.current = some request) (next : HTTPRequest) :
    (queue.store next).current = some next :=
  current_store next (incomingIndex_lt h)

theorem withIncoming_eq_ok {queue next : HTTPRequestQueue}
    {body : Option HTTPRequest → Result HTTPRequestQueue} :
    queue.withIncoming body = .ok next ↔ ∃ h : queue.incomingIndex < maxRequests,
      body queue.requests[queue.incomingIndex] = .ok next := by
  by_cases h : queue.incomingIndex < maxRequests <;> simp [withIncoming, h]

theorem onRequest_eq_ok {queue next : HTTPRequestQueue} {pointer : Option HTTPRequest}
    {use : HTTPRequest → Result HTTPRequest} :
    queue.onRequest pointer use = .ok next ↔
      ∃ r s, pointer = some r ∧ use r = .ok s ∧ next = queue.store s := by
  cases pointer with
  | none => simp [onRequest]
  | some r =>
    simp only [onRequest, Outcome.map_eq_ok, Option.some.injEq, exists_and_left, exists_eq_left']
    exact exists_congr fun s => and_congr_right fun _ => eq_comm

/-- Reading a slot and using the request behind it. -/
theorem onIncoming_eq_ok {queue next : HTTPRequestQueue}
    {use : HTTPRequest → Result HTTPRequest} :
    (queue.withIncoming fun pointer => queue.onRequest pointer use) = .ok next ↔
      ∃ r s, queue.current = some r ∧ use r = .ok s ∧ next = queue.store s := by
  simp only [withIncoming_eq_ok, onRequest_eq_ok, current_eq_some]
  constructor
  · rintro ⟨h, r, s, hr, hs, hn⟩
    exact ⟨r, s, ⟨h, hr⟩, hs, hn⟩
  · rintro ⟨r, s, ⟨h, hr⟩, hs, hn⟩
    exact ⟨h, r, s, hr, hs, hn⟩

theorem onMessageBegin_ok {allocated : Bool} {queue next : HTTPRequestQueue}
    (h : queue.onMessageBegin allocated = .ok next) :
    queue.incomingIndex < maxRequests ∧ next = queue.store HTTPRequest.new := by
  obtain ⟨hi, hb⟩ := withIncoming_eq_ok.mp h
  cases allocated with
  | false => cases hb
  | true => exact ⟨hi, (Outcome.ok.inj hb).symm⟩

theorem onUrl_ok {parseUrl : ParseUrl} {pointer : Nat} {data : Bytes}
    {queue next : HTTPRequestQueue} (h : queue.onUrl parseUrl pointer data = .ok next) :
    ∃ r fields, queue.current = some r ∧ parseUrl data = some fields ∧
      next = queue.store (setUrlFields (pointerDifference pointer queue.base) fields
        (r.setUrlRange (pointerDifference pointer queue.base) data.length)) := by
  obtain ⟨hi, hb⟩ := withIncoming_eq_ok.mp h
  cases hp : parseUrl data with
  | none => rw [hp] at hb; cases hb
  | some fields =>
    rw [hp] at hb
    obtain ⟨r, s, hr, hs, hn⟩ := onRequest_eq_ok.mp hb
    exact ⟨r, fields, current_eq_some.mpr ⟨hi, hr⟩, rfl, by rw [hn, ← Outcome.ok.inj hs]⟩

theorem onHeaderField_ok {pointer : Nat} {data : Bytes} {queue next : HTTPRequestQueue}
    (h : queue.onHeaderField pointer data = .ok next) :
    ∃ r s, queue.current = some r ∧ queue.currentHeader < httpRequestMaxHeaders ∧
      r.setHeaderKeyRange queue.currentHeader (pointerDifference pointer queue.base)
        data.length = .ok s ∧ next = queue.store s := by
  obtain ⟨hi, hb⟩ := withIncoming_eq_ok.mp h
  by_cases hc : httpRequestMaxHeaders ≤ queue.currentHeader
  · rw [if_pos hc] at hb; cases hb
  · rw [if_neg hc] at hb
    obtain ⟨r, s, hr, hs, hn⟩ := onRequest_eq_ok.mp hb
    exact ⟨r, s, current_eq_some.mpr ⟨hi, hr⟩, by omega, hs, hn⟩

theorem onHeaderValue_ok {pointer : Nat} {data : Bytes} {queue next : HTTPRequestQueue}
    (h : queue.onHeaderValue pointer data = .ok next) :
    ∃ r s, queue.current = some r ∧
      r.setHeaderValueRange queue.currentHeader (pointerDifference pointer queue.base)
        data.length = .ok s ∧
      next = { queue.store s with currentHeader := queue.currentHeader + 1 } := by
  obtain ⟨q, hq, hn⟩ := Outcome.map_eq_ok.mp h
  obtain ⟨r, s, hr, hs, he⟩ := onIncoming_eq_ok.mp hq
  exact ⟨r, s, hr, hs, by rw [← hn, he]; rfl⟩

/-- The buffer after the header block has left it, the slot untouched. -/
theorem dropHeaders_ok {nread : Nat} {shrunk : Option Nat} {queue next : HTTPRequestQueue}
    (h : queue.dropHeaders nread shrunk = .ok next) :
    ∃ buffer, next = { queue with
        buffer := buffer, bufferLength := queue.bufferLength - nread } ∧
      (queue.bufferLength - nread = 0 → buffer = none) ∧
      (queue.bufferLength - nread ≠ 0 → ∃ address, shrunk = some address ∧ buffer =
        some ⟨address, slice nread (queue.bufferLength - nread) queue.bytes⟩) := by
  simp only [dropHeaders] at h
  by_cases hl : queue.bufferLength - nread = 0
  · rw [if_pos hl] at h
    cases h
    exact ⟨none, by rw [hl], fun _ => rfl, fun hn => absurd hl hn⟩
  · rw [if_neg hl] at h
    cases hs : shrunk with
    | none => rw [hs] at h; cases h
    | some address =>
      rw [hs] at h
      cases h
      exact ⟨_, rfl, fun h0 => absurd h0 hl, fun _ => ⟨address, rfl, rfl⟩⟩

theorem onHeadersComplete_ok {head : ParserHead} {memory : HeadersMemory}
    {queue next : HTTPRequestQueue} (h : queue.onHeadersComplete head memory = .ok next) :
    ∃ r s t q, queue.current = some r ∧
      ((r.setMethod head.method).setLast (!head.keepAlive)).setHeadersBuffer memory.headers
        queue.bytes head.nread = .ok s ∧
      (queue.store s).dropHeaders head.nread memory.shrunk = .ok q ∧
      (if 0 < head.contentLength.toInt then
        s.setBodyLength memory.body head.contentLength.toNat = .ok t else t = s) ∧
      next = q.store t := by
  obtain ⟨q₁, hq₁, h⟩ := Outcome.bind_eq_ok.mp h
  obtain ⟨r, s, hr, hs, rfl⟩ := onIncoming_eq_ok.mp hq₁
  obtain ⟨q, hq, h⟩ := Outcome.bind_eq_ok.mp h
  have hcur : q.current = some s := by
    obtain ⟨buffer, rfl, -⟩ := dropHeaders_ok hq
    exact current_store s (incomingIndex_lt hr)
  by_cases hc : 0 < head.contentLength.toInt
  · rw [if_pos hc] at h
    obtain ⟨s', t, hs', ht, hn⟩ := onIncoming_eq_ok.mp h
    rw [hcur] at hs'
    cases hs'
    exact ⟨r, s, t, q, hr, hs, hq, by rw [if_pos hc]; exact ht, hn⟩
  · rw [if_neg hc] at h
    refine ⟨r, s, s, q, hr, hs, hq, by rw [if_neg hc], ?_⟩
    have hself : q = q.store s := by
      obtain ⟨hi, he⟩ := current_eq_some.mp hcur
      have hset : q.requests.setIfInBounds q.incomingIndex (some s) = q.requests := by
        ext1 j hj
        by_cases hij : q.incomingIndex = j
        · subst hij; simp [he]
        · simp [hij]
      simp only [store, hset]
    rw [← Outcome.ok.inj h]
    exact hself

theorem onBody_ok {data : Bytes} {queue next : HTTPRequestQueue}
    (h : queue.onBody data = .ok next) :
    ∃ r s, queue.current = some r ∧ r.appendBodyData data = .ok s ∧ next = queue.store s :=
  onIncoming_eq_ok.mp h

theorem onMessageComplete_ok {queue next : HTTPRequestQueue}
    (h : queue.onMessageComplete = .ok next) :
    ∃ requests, next = { queue with
        requests := requests, incomingIndex := queue.incomingIndex + 1, currentHeader := 0 } ∧
      (queue.incomingIndex + 1 ≠ maxRequests → requests = queue.requests) ∧
      (queue.incomingIndex + 1 = maxRequests → ∃ r, queue.current = some r ∧
        requests = queue.requests.setIfInBounds queue.incomingIndex
          (some (r.setLast true))) := by
  simp only [onMessageComplete] at h
  by_cases hl : queue.incomingIndex + 1 = maxRequests
  · rw [dif_pos hl] at h
    split at h
    · cases h
    · rename_i r hr
      cases h
      exact ⟨_, rfl, fun hn => absurd hl hn, fun _ => ⟨r, current_eq_some.mpr ⟨by omega, hr⟩, rfl⟩⟩
  · rw [dif_neg hl] at h
    cases h
    exact ⟨_, rfl, fun _ => rfl, fun h0 => absurd h0 hl⟩

theorem getNextRequest_ok {queue next : HTTPRequestQueue} {pointer : Option HTTPRequest}
    (h : queue.getNextRequest = .ok (pointer, next)) :
    ∃ hi : queue.outgoingIndex < maxRequests, queue.requests[queue.outgoingIndex] = pointer ∧
      next = { queue with outgoingIndex := queue.outgoingIndex + 1 } := by
  unfold getNextRequest at h
  split at h
  · rename_i hi
    obtain ⟨hp, hn⟩ := Prod.mk.inj (Except.ok.inj h)
    exact ⟨hi, hp, hn.symm⟩
  · cases h

theorem grow_ok {data : Bytes} {resized : Option Nat} {queue next : HTTPRequestQueue}
    (h : queue.grow data resized = .ok next) :
    ∃ address, resized = some address ∧ next = { queue with
      buffer := some ⟨address, queue.bytes ++
        List.replicate (queue.bufferLength - queue.bytes.length) 0 ++ data⟩
      bufferLength := queue.bufferLength + data.length } := by
  cases resized with
  | none => cases h
  | some address => exact ⟨address, rfl, (Outcome.ok.inj h).symm⟩

end HTTPRequestQueue

/-- The queue with the address given to the parser in the call under way and
the data of the new-request callback. -/
structure Machine (δ : Type) where
  queue : HTTPRequestQueue
  input : Nat
  data : δ

namespace Machine

variable {δ : Type}

def setQueue (m : Machine δ) (queue : HTTPRequestQueue) : Machine δ := { m with queue := queue }

@[simp] theorem setQueue_queue (m : Machine δ) (q : HTTPRequestQueue) :
    (m.setQueue q).queue = q := rfl
@[simp] theorem setQueue_input (m : Machine δ) (q : HTTPRequestQueue) :
    (m.setQueue q).input = m.input := rfl
@[simp] theorem setQueue_data (m : Machine δ) (q : HTTPRequestQueue) :
    (m.setQueue q).data = m.data := rfl

end Machine

inductive Event where
  | append (data : Bytes) (resized : Option Nat)
  | callback (c : Callback)
  deriving DecidableEq

section Dispatch

variable {δ : Type} (parseUrl : ParseUrl) (notify : Machine δ → Result (Machine δ))

/-- The part of a callback that concerns the queue alone. -/
def handle (c : Callback) (input : Nat) (queue : HTTPRequestQueue) : Result HTTPRequestQueue :=
  match c with
  | .messageBegin allocated => queue.onMessageBegin allocated
  | .url pos data => queue.onUrl parseUrl (input + pos) data
  | .headerField pos data => queue.onHeaderField (input + pos) data
  | .headerValue pos data => queue.onHeaderValue (input + pos) data
  | .headersComplete _ head memory => queue.onHeadersComplete head memory
  | .body _ data => queue.onBody data
  | .messageComplete _ => queue.onMessageComplete

/-- One callback of the parser; a completed message invokes the new-request callback. -/
def dispatch (c : Callback) (m : Machine δ) : Result (Machine δ) :=
  let served := (handle parseUrl c m.input m.queue).map m.setQueue
  match c with
  | .messageComplete _ => served.bind notify
  | _ => served

/-- The parser reads from where the new bytes were copied to. -/
def step (e : Event) (m : Machine δ) : Result (Machine δ) :=
  match e with
  | .append data resized => (m.queue.grow data resized).map fun q =>
      { m with queue := q, input := q.base + m.queue.bufferLength }
  | .callback c => dispatch parseUrl notify c m

/-- One call of `http_request_queue_append_data`: the callbacks the parser
makes in it, and whether it parses every byte. -/
structure Call where
  data : Bytes
  resized : Option Nat
  callbacks : List Callback
  accepted : Bool
  deriving DecidableEq

/-- A whole `GET` without headers; HTTP/1.0 does not keep the connection alive. -/
def wholeGet (keepAlive : Bool) : Call where
  data := ascii (if keepAlive then "GET / HTTP/1.1\r\n\r\n" else "GET / HTTP/1.0\r\n\r\n")
  resized := some 4096
  callbacks := [.messageBegin true, .url 4 (ascii "/"),
    .headersComplete 18 ⟨.get, 18, -1, keepAlive⟩ ⟨true, none, true⟩, .messageComplete 18]
  accepted := true

def Call.events (call : Call) : List Event :=
  .append call.data call.resized :: call.callbacks.map .callback

/-- A callback that returns an error ends the parse, so the call returns -1. -/
def appendData (call : Call) (m : Machine δ) : Result (Machine δ) :=
  (run (step parseUrl notify) call.events m).bind fun m =>
    if call.accepted then .ok m else .failed m

/-- When the parser accepts every byte, the calls are exactly that run. -/
theorem run_appendData_accepted {calls : List Call} (haccepted : ∀ call ∈ calls, call.accepted)
    (m : Machine δ) :
    run (appendData parseUrl notify) calls m =
      run (step parseUrl notify) (calls.flatMap Call.events) m := by
  induction calls generalizing m with
  | nil => rfl
  | cons call calls ih =>
    have hcall : appendData parseUrl notify call m =
        run (step parseUrl notify) call.events m := by
      simp only [appendData, haccepted call (by simp), if_true]
      cases run (step parseUrl notify) call.events m <;> rfl
    rw [CallOutcome.run_cons, hcall, List.flatMap_cons, CallOutcome.run_append]
    congr 1
    funext k
    exact ih (fun c hc => haccepted c (by simp [hc])) k

end Dispatch

end Rapp

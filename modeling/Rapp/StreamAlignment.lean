import Rapp.QueueRun

/-!
# Alignment of the buffer with the stream

The queue turns pointers into offsets by subtracting the start of its buffer,
and removes a header block from the front of the buffer while the parser still
reads there. Offsets, ranges and unread bytes are those of the stream in every
run in which each header block ends the call that completes it and no message
before it had anything behind its header block.
-/
namespace Rapp

open CallOutcome (Outcome run Guarded)
open ByteBlock

variable {δ : Type}

/-- The stream so far, where the call under way and the message under way
begin in it, where the last header block ended, and how far callbacks have
reported. -/
structure Cursor where
  stream : Bytes
  callStart : Nat
  msgStart : Nat
  headEnd : Nat
  reached : Nat

def Cursor.next (k : Cursor) : Event → Cursor
  | .append data _ => { k with callStart := k.stream.length, stream := k.stream ++ data }
  | .callback (.url pos data) | .callback (.headerField pos data)
  | .callback (.headerValue pos data) | .callback (.body pos data) =>
    { k with reached := k.callStart + pos + data.length }
  | .callback (.headersComplete pos _ _) =>
    { k with headEnd := k.callStart + pos, reached := k.callStart + pos }
  | .callback (.messageComplete pos) =>
    { k with msgStart := k.callStart + pos, reached := k.callStart + pos }
  | .callback (.messageBegin _) => k

def cursor (es : List Event) : Cursor := es.foldl Cursor.next ⟨[], 0, 0, 0, 0⟩

@[simp] theorem cursor_nil : cursor [] = ⟨[], 0, 0, 0, 0⟩ := rfl

@[simp] theorem cursor_concat (es : List Event) (e : Event) :
    cursor (es ++ [e]) = (cursor es).next e := by
  simp [cursor]

/-- What the parser promises of positions: callbacks report the stream in
order and inside the current call, a message begins with a byte of its own, and
`nread` is the length of the header block, which is not empty. -/
def LocatedAfter (xs : List Event) : Event → Prop
  | .append _ _ => True
  | .callback (.messageBegin _) => (cursor xs).msgStart < (cursor xs).stream.length
  | .callback (.url pos data) | .callback (.headerField pos data)
  | .callback (.headerValue pos data) | .callback (.body pos data) =>
    (cursor xs).reached ≤ (cursor xs).callStart + pos ∧
      (cursor xs).callStart + pos + data.length ≤ (cursor xs).stream.length
  | .callback (.headersComplete pos head _) =>
    (cursor xs).reached ≤ (cursor xs).callStart + pos ∧
      (cursor xs).callStart + pos ≤ (cursor xs).stream.length ∧
      0 < head.nread ∧ head.nread + (cursor xs).msgStart = (cursor xs).callStart + pos
  | .callback (.messageComplete pos) =>
    (cursor xs).reached ≤ (cursor xs).callStart + pos ∧
      (cursor xs).callStart + pos ≤ (cursor xs).stream.length

def Located (es : List Event) : Prop := Guarded LocatedAfter es

/-- Every message before ended with its header block, and a header block ends
the call it is completed in. -/
def HeadersOnlyAfter (xs : List Event) : Event → Prop
  | .callback (.url _ _) | .callback (.headerField _ _) | .callback (.headerValue _ _) =>
    (cursor xs).msgStart = (cursor xs).headEnd
  | .callback (.headersComplete pos _ _) => (cursor xs).msgStart = (cursor xs).headEnd ∧
      (cursor xs).callStart + pos = (cursor xs).stream.length
  | _ => True

def HeadersOnly (es : List Event) : Prop := Guarded HeadersOnlyAfter es

instance (xs : List Event) : (e : Event) → Decidable (LocatedAfter xs e)
  | .append _ _ => inferInstanceAs (Decidable True)
  | .callback (.messageBegin _) => inferInstanceAs (Decidable (_ < _))
  | .callback (.url _ _) | .callback (.headerField _ _) | .callback (.headerValue _ _)
  | .callback (.body _ _) => inferInstanceAs (Decidable (_ ≤ _ ∧ _ ≤ _))
  | .callback (.headersComplete _ _ _) =>
    inferInstanceAs (Decidable (_ ≤ _ ∧ _ ≤ _ ∧ _ < _ ∧ _ = _))
  | .callback (.messageComplete _) => inferInstanceAs (Decidable (_ ≤ _ ∧ _ ≤ _))

instance (xs : List Event) : (e : Event) → Decidable (HeadersOnlyAfter xs e)
  | .callback (.url _ _) | .callback (.headerField _ _) | .callback (.headerValue _ _) =>
    inferInstanceAs (Decidable (_ = _))
  | .callback (.headersComplete _ _ _) => inferInstanceAs (Decidable (_ = _ ∧ _ = _))
  | .append _ _ | .callback (.messageBegin _) | .callback (.body _ _)
  | .callback (.messageComplete _) => inferInstanceAs (Decidable True)

instance (es : List Event) : Decidable (Located es) := inferInstanceAs (Decidable (Guarded _ _))
instance (es : List Event) : Decidable (HeadersOnly es) :=
  inferInstanceAs (Decidable (Guarded _ _))

/-- Where a URL or header callback points to in its call. -/
def Callback.tokenPos : Callback → Option Nat
  | .url pos _ | .headerField pos _ | .headerValue pos _ => some pos
  | _ => none

/-- The ranges a request hands out. -/
inductive HTTPRequest.Recorded (r : HTTPRequest) : MemoryRange → Prop where
  | url : Recorded r r.urlRange
  | field (field : HTTPURLField) : Recorded r (r.urlFieldRanges field)
  | key (header : HeaderMemoryRange) (h : header ∈ r.getHeadersRanges) : Recorded r header.key
  | value (header : HeaderMemoryRange) (h : header ∈ r.getHeadersRanges) : Recorded r header.value

/-- Recorded offsets count from the first byte of the message, the ranges of a
complete header block cut their bytes out of the stream, and what the parser
has still to read of a call is in memory where it will look. -/
structure StreamAligned (step : Event → Machine δ → Result (Machine δ)) (start : Machine δ)
    (es : List Event) : Prop where
  offset : ∀ xs c pos ys m, es = xs ++ .callback c :: ys → run step xs start = .ok m →
    c.tokenPos = some pos →
    pointerDifference (m.input + pos) m.queue.base + (cursor xs).msgStart =
      (cursor xs).callStart + pos
  complete : ∀ xs pos head memory ys n,
    es = xs ++ .callback (.headersComplete pos head memory) :: ys →
    run step (xs ++ [.callback (.headersComplete pos head memory)]) start = .ok n →
    ∃ r, n.queue.current = some r ∧ ∀ range, r.Recorded range →
      range.offset + range.length ≤ head.nread ∧ r.extract range =
        slice ((cursor xs).msgStart + range.offset) range.length (cursor xs).stream
  unread : ∀ xs ys m q, es = xs ++ ys → run step xs start = .ok m →
    (cursor xs).callStart ≤ q → (cursor xs).reached ≤ q → q < (cursor xs).stream.length →
    m.queue.load (m.input + (q - (cursor xs).callStart)) = (cursor xs).stream[q]?

/-! ### Ranges of the request under way -/

/-- Every range a request keeps, counted or not, ends inside the first `bound` bytes. -/
structure HTTPRequest.RangesWithin (bound : Nat) (r : HTTPRequest) : Prop where
  url : r.urlRange.offset + r.urlRange.length ≤ bound
  field : ∀ f, (r.urlFieldRanges f).offset + (r.urlFieldRanges f).length ≤ bound
  key : ∀ header ∈ r.headersRanges, header.key.offset + header.key.length ≤ bound
  value : ∀ header ∈ r.headersRanges, header.value.offset + header.value.length ≤ bound

namespace HTTPRequest

theorem rangesWithin_new (bound : Nat) : HTTPRequest.new.RangesWithin bound where
  url := Nat.zero_le _
  field := fun _ => Nat.zero_le _
  key := fun header h => by
    rw [(Vector.mem_replicate.mp h).2]
    exact Nat.zero_le _
  value := fun header h => by
    rw [(Vector.mem_replicate.mp h).2]
    exact Nat.zero_le _

theorem RangesWithin.mono {bound bound' : Nat} {r : HTTPRequest} (h : r.RangesWithin bound)
    (hle : bound ≤ bound') : r.RangesWithin bound' :=
  ⟨h.url.trans hle, fun f => (h.field f).trans hle, fun e he => (h.key e he).trans hle,
    fun e he => (h.value e he).trans hle⟩

theorem RangesWithin.recorded {bound : Nat} {r : HTTPRequest} (h : r.RangesWithin bound)
    {range : MemoryRange} (hr : r.Recorded range) : range.offset + range.length ≤ bound := by
  have hmem : ∀ header ∈ r.getHeadersRanges, header ∈ r.headersRanges := fun header hh =>
    Vector.mem_toList_iff.mp (List.mem_of_mem_take hh)
  cases hr with
  | url => exact h.url
  | field f => exact h.field f
  | key header hh => exact h.key header (hmem header hh)
  | value header hh => exact h.value header (hmem header hh)

theorem RangesWithin.setHeaderKeyRange {bound : Nat} {r s : HTTPRequest}
    (h : r.RangesWithin bound) {index offset length : Nat} (hle : offset + length ≤ bound)
    (hs : r.setHeaderKeyRange index offset length = .ok s) : s.RangesWithin bound := by
  obtain ⟨hi, rfl⟩ := setHeaderKeyRange_ok hs
  refine ⟨h.url, h.field, fun e he => ?_, fun e he => ?_⟩
  · rcases @Vector.mem_or_eq_of_mem_set _ _ _ _ _ _ hi he with hold | rfl
    · exact h.key e hold
    · exact hle
  · rcases @Vector.mem_or_eq_of_mem_set _ _ _ _ _ _ hi he with hold | rfl
    · exact h.value e hold
    · exact h.value r.headersRanges[index] (Vector.getElem_mem hi)

theorem RangesWithin.setHeaderValueRange {bound : Nat} {r s : HTTPRequest}
    (h : r.RangesWithin bound) {index offset length : Nat} (hle : offset + length ≤ bound)
    (hs : r.setHeaderValueRange index offset length = .ok s) : s.RangesWithin bound := by
  obtain ⟨hi, rfl⟩ := setHeaderValueRange_ok hs
  refine ⟨h.url, h.field, fun e he => ?_, fun e he => ?_⟩
  · rcases @Vector.mem_or_eq_of_mem_set _ _ _ _ _ _ hi he with hold | rfl
    · exact h.key e hold
    · exact h.key r.headersRanges[index] (Vector.getElem_mem hi)
  · rcases @Vector.mem_or_eq_of_mem_set _ _ _ _ _ _ hi he with hold | rfl
    · exact h.value e hold
    · exact hle

theorem RangesWithin.setUrl {bound : Nat} {r : HTTPRequest} (h : r.RangesWithin bound)
    {fields : HTTPURLField → Option MemoryRange} {offset length : Nat}
    (hle : offset + length ≤ bound)
    (hf : ∀ f range, fields f = some range → range.offset + range.length ≤ length) :
    (HTTPRequestQueue.setUrlFields offset fields (r.setUrlRange offset length)).RangesWithin
      bound := by
  have heq := HTTPRequestQueue.setUrlFields_eq offset fields (r.setUrlRange offset length)
  refine ⟨?_, fun f => ?_, ?_, ?_⟩
  · rw [heq]
    exact hle
  · rw [HTTPRequestQueue.setUrlFields_field]
    cases hr : fields f with
    | none => exact h.field f
    | some range =>
      have := hf f range hr
      simp only
      omega
  · rw [heq]
    exact h.key
  · rw [heq]
    exact h.value

end HTTPRequest

/-! ### The invariant -/

/-- The buffer is the stream from the end of the last header block on, and the
parser reads it where the current call's bytes are. -/
structure Tracks (k : Cursor) (phase : Phase) (input : Nat) (queue : HTTPRequestQueue) :
    Prop where
  msgStart : k.msgStart ≤ k.reached
  headEnd : k.headEnd ≤ k.reached
  reached : k.reached ≤ k.stream.length
  callStart : k.callStart ≤ k.stream.length
  bytes : queue.bytes = k.stream.drop k.headEnd
  length : queue.bufferLength = k.stream.length - k.headEnd
  place : k.headEnd < k.stream.length → k.headEnd ≤ k.callStart ∧ queue.buffer.isSome ∧
    input = queue.base + (k.callStart - k.headEnd)
  begun : phase = .head → k.msgStart < k.stream.length
  past : phase = .body → k.msgStart < k.headEnd
  ranges : phase = .head → k.msgStart = k.headEnd →
    ∃ r, queue.current = some r ∧ r.RangesWithin (k.reached - k.msgStart)

/-- The ranges that the current record has so far. -/
theorem Tracks.rangesWithin {k : Cursor} {input : Nat} {queue : HTTPRequestQueue}
    (h : Tracks k .head input queue) (hsame : k.msgStart = k.headEnd) {r : HTTPRequest}
    (hr : queue.current = some r) : r.RangesWithin (k.reached - k.msgStart) := by
  obtain ⟨r', hr', hwithin⟩ := h.ranges rfl hsame
  cases hr.symm.trans hr'
  exact hwithin

theorem tracks_new (input : Nat) : Tracks (cursor []) .idle input HTTPRequestQueue.new where
  msgStart := Nat.le_refl _
  headEnd := Nat.le_refl _
  reached := Nat.le_refl _
  callStart := Nat.le_refl _
  bytes := rfl
  length := rfl
  place := fun h => absurd h (Nat.lt_irrefl 0)
  begun := nofun
  past := nofun
  ranges := nofun

theorem Tracks.congr {k : Cursor} {phase : Phase} {input : Nat} {queue next : HTTPRequestQueue}
    (h : Tracks k phase input queue) (hb : next.buffer = queue.buffer)
    (hl : next.bufferLength = queue.bufferLength) (hr : next.requests = queue.requests)
    (hi : next.incomingIndex = queue.incomingIndex) : Tracks k phase input next := by
  have hbase : next.base = queue.base := by simp only [HTTPRequestQueue.base, hb]
  have hbytes : next.bytes = queue.bytes := by simp only [HTTPRequestQueue.bytes, hb]
  refine ⟨h.msgStart, h.headEnd, h.reached, h.callStart, hbytes.trans h.bytes, hl.trans h.length,
    ?_, h.begun, h.past, ?_⟩
  · rw [hbase, hb]
    exact h.place
  · rw [HTTPRequestQueue.current_congr hr hi]
    exact h.ranges

/-- New bytes are copied behind the old ones. -/
theorem Tracks.append {k : Cursor} {phase : Phase} {input : Nat} {queue q : HTTPRequestQueue}
    (h : Tracks k phase input queue) {data : Bytes} {resized : Option Nat}
    (hq : queue.grow data resized = .ok q) :
    Tracks (k.next (.append data resized)) phase (q.base + queue.bufferLength) q := by
  obtain ⟨address, -, rfl⟩ := HTTPRequestQueue.grow_ok hq
  have hle : k.headEnd ≤ k.stream.length := h.headEnd.trans h.reached
  have hpad : queue.bufferLength - queue.bytes.length = 0 := by
    rw [h.length, h.bytes, List.length_drop, Nat.sub_self]
  have hbytes : queue.bytes ++ List.replicate (queue.bufferLength - queue.bytes.length) 0 ++ data =
      (k.stream ++ data).drop k.headEnd := by
    rw [hpad, List.replicate_zero, List.append_nil, h.bytes, List.drop_append_of_le_length hle]
  refine ⟨h.msgStart, h.headEnd, ?_, ?_, hbytes, ?_, fun _ => ⟨hle, rfl, ?_⟩, fun hp => ?_,
    h.past, h.ranges⟩
  · simp only [Cursor.next, List.length_append]
    have := h.reached
    omega
  · simp only [Cursor.next, List.length_append]
    omega
  · simp only [Cursor.next, List.length_append, h.length]
    omega
  · simp only [Cursor.next, h.length]
  · have := h.begun hp
    simp only [Cursor.next, List.length_append]
    omega

/-- In a header block that follows header blocks only, offsets count from its first byte. -/
theorem Tracks.offset {k : Cursor} {phase : Phase} {input : Nat} {queue : HTTPRequestQueue}
    (h : Tracks k phase input queue) (hphase : phase ≠ .idle) (hsame : k.msgStart = k.headEnd)
    (pos : Nat) :
    pointerDifference (input + pos) queue.base + k.msgStart = k.callStart + pos := by
  have hhead : phase = .head := by
    cases phase with
    | idle => exact absurd rfl hphase
    | head => rfl
    | body => exact absurd (h.past rfl) (by omega)
  have hbegun := h.begun hhead
  obtain ⟨hle, -, hinput⟩ := h.place (by omega)
  rw [hinput, Nat.add_assoc, pointerDifference_add]
  omega

/-- A URL or header callback records a range that ends where the callback does. -/
theorem Tracks.token {k : Cursor} {input : Nat} {queue : HTTPRequestQueue}
    (h : Tracks k .head input queue) {pos : Nat} {data : Bytes} {s : HTTPRequest}
    (hreached : k.reached ≤ k.callStart + pos)
    (hin : k.callStart + pos + data.length ≤ k.stream.length)
    (hi : queue.incomingIndex < maxRequests)
    (hs : k.msgStart = k.headEnd → s.RangesWithin (k.callStart + pos + data.length - k.msgStart)) :
    Tracks { k with reached := k.callStart + pos + data.length } .head input (queue.store s) where
  msgStart := by
    have := h.msgStart
    simp only
    omega
  headEnd := by
    have := h.headEnd
    simp only
    omega
  reached := hin
  callStart := h.callStart
  bytes := h.bytes
  length := h.length
  place := h.place
  begun := h.begun
  past := nofun
  ranges := fun _ hsame => ⟨s, HTTPRequestQueue.current_store s hi, hs hsame⟩

/-- `http_parser_parse_url` finds its fields inside the URL it is given. -/
def FieldsInside (parseUrl : ParseUrl) : Prop :=
  ∀ data fields f range, parseUrl data = some fields → fields f = some range →
    range.offset + range.length ≤ data.length

variable {parseUrl : ParseUrl}

/-- The end of a header block that is all the buffer holds. -/
theorem Tracks.headersComplete {es : List Event} {pos : Nat} {head : ParserHead}
    {memory : HeadersMemory} {input : Nat} {queue q : HTTPRequestQueue}
    (h : Tracks (cursor es) .head input queue)
    (hl : LocatedAfter es (.callback (.headersComplete pos head memory)))
    (ha : HeadersOnlyAfter es (.callback (.headersComplete pos head memory)))
    (hq : handle parseUrl (.headersComplete pos head memory) input queue = .ok q) :
    Tracks ((cursor es).next (.callback (.headersComplete pos head memory))) .body input q := by
  obtain ⟨r, s, t, q', hr, hs, hd, ht, rfl⟩ := HTTPRequestQueue.onHeadersComplete_ok hq
  obtain ⟨hreached, hin, hpos, hnread⟩ := hl
  obtain ⟨hsame, hends⟩ := ha
  have hrest : queue.bufferLength - head.nread = 0 := by
    rw [h.length]
    omega
  obtain ⟨buffer, rfl, hempty, -⟩ := HTTPRequestQueue.dropHeaders_ok hd
  obtain rfl := hempty hrest
  have hle := h.msgStart
  refine ⟨?_, Nat.le_refl _, hin, h.callStart, ?_, ?_, ?_, nofun, fun _ => ?_, nofun⟩
  · simp only [Cursor.next]
    omega
  · simp only [Cursor.next]
    rw [hends, List.drop_length]
    rfl
  · simp only [Cursor.next]
    rw [hends, Nat.sub_self]
    exact hrest
  · intro hlt
    simp only [Cursor.next] at hlt
    omega
  · simp only [Cursor.next]
    omega

/-- The step lemma. -/
theorem tracks_handle (hu : FieldsInside parseUrl) {phase next : Phase} {es : List Event}
    {c : Callback} {input : Nat} {queue q : HTTPRequestQueue}
    (h : Tracks (cursor es) phase input queue) (hl : LocatedAfter es (.callback c))
    (ha : HeadersOnlyAfter es (.callback c)) (hp : phase.next c = some next)
    (hq : handle parseUrl c input queue = .ok q) :
    Tracks ((cursor es).next (.callback c)) next input q := by
  have htrailer : (cursor es).msgStart = (cursor es).headEnd → phase ≠ .idle → phase = .head := by
    intro hsame hne
    cases phase with
    | idle => exact absurd rfl hne
    | head => rfl
    | body => exact absurd (h.past rfl) (by omega)
  cases c with
  | messageBegin allocated =>
    obtain ⟨hi, rfl⟩ := HTTPRequestQueue.onMessageBegin_ok hq
    obtain ⟨rfl, rfl⟩ := Phase.next_messageBegin.mp hp
    exact ⟨h.msgStart, h.headEnd, h.reached, h.callStart, h.bytes, h.length, h.place,
      fun _ => hl, nofun, fun _ _ => ⟨_, HTTPRequestQueue.current_store _ hi,
        HTTPRequest.rangesWithin_new _⟩⟩
  | url pos data =>
    obtain ⟨r, fields, hr, hfields, rfl⟩ := HTTPRequestQueue.onUrl_ok hq
    obtain ⟨rfl, rfl⟩ := Phase.next_url.mp hp
    obtain ⟨hreached, hin⟩ := hl
    refine h.token hreached hin (HTTPRequestQueue.incomingIndex_lt hr) fun hsame => ?_
    have hwithin := h.rangesWithin hsame hr
    have hoffset := h.offset (by simp) hsame pos
    exact (hwithin.mono (by omega)).setUrl (by omega) fun f range => hu data fields f range hfields
  | headerField pos data =>
    obtain ⟨r, s, hr, -, hs, rfl⟩ := HTTPRequestQueue.onHeaderField_ok hq
    obtain ⟨hne, rfl⟩ := Phase.next_headerField.mp hp
    obtain rfl := htrailer ha hne
    obtain ⟨hreached, hin⟩ := hl
    refine h.token hreached hin (HTTPRequestQueue.incomingIndex_lt hr) fun hsame => ?_
    have hwithin := h.rangesWithin hsame hr
    have hoffset := h.offset (by simp) hsame pos
    exact (hwithin.mono (by omega)).setHeaderKeyRange (by omega) hs
  | headerValue pos data =>
    obtain ⟨r, s, hr, hs, rfl⟩ := HTTPRequestQueue.onHeaderValue_ok hq
    obtain ⟨hne, rfl⟩ := Phase.next_headerValue.mp hp
    obtain rfl := htrailer ha hne
    obtain ⟨hreached, hin⟩ := hl
    have htoken := h.token (s := s) hreached hin (HTTPRequestQueue.incomingIndex_lt hr) ?_
    · exact htoken.congr rfl rfl rfl rfl
    · intro hsame
      have hwithin := h.rangesWithin hsame hr
      have hoffset := h.offset (by simp) hsame pos
      exact (hwithin.mono (by omega)).setHeaderValueRange (by omega) hs
  | headersComplete pos head memory =>
    obtain ⟨rfl, rfl⟩ := Phase.next_headersComplete.mp hp
    exact h.headersComplete hl ha hq
  | body pos data =>
    obtain ⟨r, s, hr, hs, rfl⟩ := HTTPRequestQueue.onBody_ok hq
    obtain ⟨rfl, rfl⟩ := Phase.next_body.mp hp
    obtain ⟨hreached, hin⟩ := hl
    have hm := h.msgStart
    have hh := h.headEnd
    refine ⟨?_, ?_, hin, h.callStart, h.bytes, h.length, h.place, nofun, h.past, nofun⟩
    · simp only [Cursor.next]
      omega
    · simp only [Cursor.next]
      omega
  | messageComplete pos =>
    obtain ⟨requests, rfl, -⟩ := HTTPRequestQueue.onMessageComplete_ok hq
    obtain ⟨rfl, rfl⟩ := Phase.next_messageComplete.mp hp
    obtain ⟨hreached, hin⟩ := hl
    have hh := h.headEnd
    refine ⟨Nat.le_refl _, ?_, hin, h.callStart, h.bytes, h.length, h.place, nofun, nofun, nofun⟩
    simp only [Cursor.next]
    omega

/-! ### What the invariant says of a state -/

/-- The bytes still to be read are where the parser looks for them. -/
theorem Tracks.load {k : Cursor} {phase : Phase} {input : Nat} {queue : HTTPRequestQueue}
    (h : Tracks k phase input queue) {q : Nat} (hcall : k.callStart ≤ q) (hq : k.reached ≤ q)
    (hlt : q < k.stream.length) :
    queue.load (input + (q - k.callStart)) = k.stream[q]? := by
  have hh := h.headEnd
  obtain ⟨hle, hsome, hinput⟩ := h.place (by omega)
  obtain ⟨block, hblock⟩ := Option.isSome_iff_exists.mp hsome
  have hbase : queue.base = block.address := by simp [HTTPRequestQueue.base, hblock]
  have hbytes : block.bytes = k.stream.drop k.headEnd := by
    rw [← h.bytes]
    simp [HTTPRequestQueue.bytes, hblock]
  have haddress : input + (q - k.callStart) = block.address + (q - k.headEnd) := by
    rw [hinput, hbase]
    omega
  rw [HTTPRequestQueue.load, hblock, haddress]
  simp only [Option.bind_some, Nat.le_add_right, if_true, Nat.add_sub_cancel_left, hbytes,
    List.getElem?_drop]
  congr 1
  omega

/-- A complete header block has been copied, and its ranges cut the stream. -/
theorem recorded_handle {es : List Event} {pos input : Nat} {head : ParserHead}
    {memory : HeadersMemory} {queue q : HTTPRequestQueue}
    (h : Tracks (cursor es) .head input queue)
    (hl : LocatedAfter es (.callback (.headersComplete pos head memory)))
    (hsame : (cursor es).msgStart = (cursor es).headEnd)
    (hq : handle parseUrl (.headersComplete pos head memory) input queue = .ok q) :
    ∃ r, q.current = some r ∧ ∀ range, r.Recorded range →
      range.offset + range.length ≤ head.nread ∧ r.extract range =
        slice ((cursor es).msgStart + range.offset) range.length (cursor es).stream := by
  obtain ⟨r, s, t, q', hr, hs, hd, ht, rfl⟩ := HTTPRequestQueue.onHeadersComplete_ok hq
  obtain ⟨hnread, rfl⟩ := HTTPRequest.setHeadersBuffer_ok hs
  obtain ⟨buffer, rfl, -⟩ := HTTPRequestQueue.dropHeaders_ok hd
  refine ⟨t, HTTPRequestQueue.current_store t (HTTPRequestQueue.incomingIndex_lt hr :), ?_⟩
  have hwithin := h.rangesWithin hsame hr
  have hcopied : t.RangesWithin ((cursor es).reached - (cursor es).msgStart) ∧
      t.headersBuffer = some (queue.bytes.take head.nread) := by
    split at ht
    · rw [HTTPRequest.setBodyLength_ok ht]
      exact ⟨⟨hwithin.url, hwithin.field, hwithin.key, hwithin.value⟩, rfl⟩
    · rw [ht]
      exact ⟨⟨hwithin.url, hwithin.field, hwithin.key, hwithin.value⟩, rfl⟩
  intro range hrange
  obtain ⟨hreached, -, -, hlength⟩ := hl
  have hle : range.offset + range.length ≤ head.nread := by
    have := hcopied.1.recorded hrange
    omega
  refine ⟨hle, ?_⟩
  calc t.extract range
      = slice range.offset range.length (queue.bytes.take head.nread) := by
        rw [HTTPRequest.extract, hcopied.2, Option.getD_some]
    _ = slice range.offset range.length ((cursor es).stream.drop (cursor es).msgStart) := by
        rw [slice_take _ hle, h.bytes, hsame]
    _ = slice ((cursor es).msgStart + range.offset) range.length (cursor es).stream := by
        simp only [slice, List.drop_drop]

variable {notify : Machine δ → Result (Machine δ)}

/-- The run lemma. -/
theorem tracks_run (hk : KeepsQueue notify) (hu : FieldsInside parseUrl) {input : Nat} {d : δ}
    {es : List Event} {m : Machine δ} (ho : Ordered es) (hl : Located es) (ha : HeadersOnly es)
    (h : run (step parseUrl notify) es ⟨HTTPRequestQueue.new, input, d⟩ = .ok m) :
    ∃ phase, Phase.idle.after (callbacksOf es) = some phase ∧
      Tracks (cursor es) phase m.input m.queue := by
  induction es using List.reverseRecOn generalizing m with
  | nil =>
    cases h
    exact ⟨.idle, rfl, tracks_new input⟩
  | append_singleton es e ih =>
    rw [CallOutcome.run_concat] at h
    obtain ⟨l, hlrun, he⟩ := Outcome.bind_eq_ok.mp h
    obtain ⟨phase, hphase, htracks⟩ := ih (ordered_front ho) (CallOutcome.guarded_front hl)
      (CallOutcome.guarded_front ha) hlrun
    rw [cursor_concat]
    cases e with
    | append data resized =>
      obtain ⟨q, hq, rfl⟩ := Outcome.map_eq_ok.mp he
      refine ⟨phase, ?_, htracks.append hq⟩
      rw [callbacksOf_append, callbacksOf_data, List.append_nil]
      exact hphase
    | callback c =>
      obtain ⟨hi, q, k, hq, hn⟩ := dispatch_ok hk he
      obtain ⟨next, hnext⟩ := next_of_ordered ho hphase
      refine ⟨next, ?_, ?_⟩
      · simp [Phase.after_concat, hphase, hnext]
      · have htracks' := tracks_handle hu htracks (CallOutcome.guarded_last hl)
          (CallOutcome.guarded_last ha) hnext hq
        rw [hi, hn]
        exact htracks'.congr rfl rfl rfl rfl

theorem headersOnly_token {xs : List Event} {c : Callback} {pos : Nat}
    (h : HeadersOnlyAfter xs (.callback c)) (hc : c.tokenPos = some pos) :
    (cursor xs).msgStart = (cursor xs).headEnd := by
  cases c <;> first | exact h | cases hc

/-- In every run whose header blocks end their calls and follow header blocks
only, offsets, ranges and unread bytes are those of the stream. -/
theorem streamAligned_of_headersOnly (hk : KeepsQueue notify) (hu : FieldsInside parseUrl)
    (input : Nat) (d : δ) (calls : List Call) (ho : Ordered (calls.flatMap Call.events))
    (hl : Located (calls.flatMap Call.events)) (ha : HeadersOnly (calls.flatMap Call.events)) :
    StreamAligned (step parseUrl notify) ⟨HTTPRequestQueue.new, input, d⟩
      (calls.flatMap Call.events) := by
  generalize calls.flatMap Call.events = es at ho hl ha
  have htracks : ∀ xs ys m, es = xs ++ ys →
      run (step parseUrl notify) xs ⟨HTTPRequestQueue.new, input, d⟩ = .ok m →
      ∃ phase, Phase.idle.after (callbacksOf xs) = some phase ∧
        Tracks (cursor xs) phase m.input m.queue :=
    fun xs ys m he hm => tracks_run hk hu (ordered_front (he ▸ ho))
      (CallOutcome.guarded_front (he ▸ hl)) (CallOutcome.guarded_front (he ▸ ha)) hm
  refine ⟨?_, ?_, ?_⟩
  · intro xs c pos ys m he hm hc
    obtain ⟨phase, hphase, ht⟩ := htracks xs _ m he hm
    refine ht.offset ?_ (headersOnly_token (ha xs _ ys he) hc) pos
    rintro rfl
    rw [he] at ho
    obtain ⟨next, hnext⟩ := next_of_ordered ho hphase
    cases c <;> simp [Callback.tokenPos, Phase.next] at hc hnext
  · intro xs pos head memory ys n he hn
    rw [CallOutcome.run_concat] at hn
    obtain ⟨m, hm, hstep⟩ := Outcome.bind_eq_ok.mp hn
    have hserved : dispatch parseUrl notify (.headersComplete pos head memory) m = .ok n := hstep
    obtain ⟨phase, hphase, ht⟩ := htracks xs _ m he hm
    rw [he] at ho
    obtain ⟨next, hnext⟩ := next_of_ordered ho hphase
    obtain ⟨rfl, -⟩ := Phase.next_headersComplete.mp hnext
    obtain ⟨-, q, k, hq, hnq⟩ := dispatch_ok hk hserved
    obtain ⟨r, hr, hrecorded⟩ := recorded_handle ht (hl xs _ ys he) (ha xs _ ys he).1 hq
    refine ⟨r, ?_, hrecorded⟩
    rw [hnq]
    exact hr
  · intro xs ys m q he hm hcall hq hlt
    obtain ⟨phase, -, ht⟩ := htracks xs ys m he hm
    exact ht.load hcall hq hlt

theorem fieldsInside_parsePath : FieldsInside parsePath := by
  intro data fields f range hfields hrange
  unfold parsePath at hfields
  split at hfields
  · cases hfields
    dsimp only at hrange
    split at hrange
    · cases hrange
      simp
    · cases hrange
  · cases hfields

/-- Two requests, each in a call of its own. -/
theorem streamAligned_twoGets :
    StreamAligned (step parsePath Outcome.ok) ⟨HTTPRequestQueue.new, 0, ()⟩
      ([wholeGet true, wholeGet true].flatMap Call.events) :=
  streamAligned_of_headersOnly keepsQueue_ok fieldsInside_parsePath 0 ()
    [wholeGet true, wholeGet true] (by decide) (by decide +kernel) (by decide +kernel)

/-- Two pipelined requests in one call, the buffer shrunk in place. -/
def pipelinedGets : Call where
  data := ascii "GET / HTTP/1.1\r\n\r\nGET / HTTP/1.1\r\n\r\n"
  resized := some 4096
  callbacks := [.messageBegin true, .url 4 (ascii "/"),
    .headersComplete 18 ⟨.get, 18, -1, true⟩ ⟨true, some 4096, true⟩, .messageComplete 18,
    .messageBegin true, .url 22 (ascii "/"),
    .headersComplete 36 ⟨.get, 18, -1, true⟩ ⟨true, none, true⟩, .messageComplete 36]
  accepted := true

/-- The URL of the second request is recorded at 22, where its message has only 18 bytes. -/
theorem streamMisaligned_pipelinedGets :
    Ordered pipelinedGets.events ∧ Located pipelinedGets.events ∧
    ¬ StreamAligned (step parsePath Outcome.ok) ⟨HTTPRequestQueue.new, 0, ()⟩
      pipelinedGets.events := by
  refine ⟨by decide, by decide +kernel, fun h => ?_⟩
  have hsplit : pipelinedGets.events = pipelinedGets.events.take 6 ++
      .callback (.url 22 (ascii "/")) :: pipelinedGets.events.drop 7 := by decide +kernel
  have hrun : ∃ m, run (step parsePath Outcome.ok) (pipelinedGets.events.take 6)
      ⟨HTTPRequestQueue.new, 0, ()⟩ = .ok m ∧ (m.input, m.queue.base) = (4096, 4096) :=
    Outcome.exists_of_toOption (by decide +kernel)
  obtain ⟨m, hm, hplace⟩ := hrun
  obtain ⟨hinput, hbase⟩ := Prod.mk.inj hplace
  have hoffset := h.offset _ _ 22 _ m hsplit hm rfl
  rw [hinput, hbase] at hoffset
  exact absurd hoffset (by decide +kernel)

end Rapp

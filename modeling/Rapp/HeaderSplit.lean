import Rapp.StreamAlignment

/-!
# Cutting a header block

A header block can be cut anywhere between two append calls, and the parser
then reports an element in several fragments. The callbacks keep the last
fragment of the URL and of a name, and count a header for every fragment of a
value. Cutting makes no difference exactly as long as it cuts no element.
-/
namespace Rapp

open CallOutcome (Outcome run Guarded)
open ByteBlock

variable {δ : Type}

/-- A header block with the ranges of its elements. -/
structure HeaderBlock where
  bytes : Bytes
  url : MemoryRange
  headers : List HeaderMemoryRange
  head : ParserHead
  fits : headers.length ≤ httpRequestMaxHeaders
  counted : head.nread = bytes.length
  nonempty : 0 < bytes.length

/-- A reported fragment as a range of the stream. -/
inductive Token where
  | url (range : MemoryRange)
  | field (range : MemoryRange)
  | value (range : MemoryRange)
  deriving DecidableEq

def Callback.token (start : Nat) : Callback → Option Token
  | .url pos data => some (.url ⟨start + pos, data.length⟩)
  | .headerField pos data => some (.field ⟨start + pos, data.length⟩)
  | .headerValue pos data => some (.value ⟨start + pos, data.length⟩)
  | _ => none

def Event.token (k : Cursor) : Event → Option Token
  | .append _ _ => none
  | .callback c => c.token k.callStart

/-- The fragments reported so far. -/
def tokensOf (es : List Event) : List Token :=
  (es.foldl (fun s e => (s.1.next e, s.2 ++ (e.token s.1).toList))
    ((⟨[], 0, 0, 0, 0⟩, []) : Cursor × List Token)).2

@[simp] theorem tokensOf_nil : tokensOf [] = [] := rfl

@[simp] theorem tokensOf_concat (es : List Event) (e : Event) :
    tokensOf (es ++ [e]) = tokensOf es ++ (e.token (cursor es)).toList := by
  have hfst : ∀ es : List Event, (es.foldl (fun s e => (s.1.next e, s.2 ++ (e.token s.1).toList))
      ((⟨[], 0, 0, 0, 0⟩, []) : Cursor × List Token)).1 = cursor es := by
    intro es
    induction es using List.reverseRecOn with
    | nil => rfl
    | append_singleton es e ih => simp [List.foldl_append, ih]
  simp only [tokensOf, List.foldl_append, List.foldl_cons, List.foldl_nil, hfst]

theorem tokensOf_front (xs ys : List Event) : ∃ ts, tokensOf (xs ++ ys) = tokensOf xs ++ ts := by
  induction ys using List.reverseRecOn with
  | nil => exact ⟨[], by simp⟩
  | append_singleton ys e ih =>
    obtain ⟨ts, hts⟩ := ih
    exact ⟨ts ++ (e.token (cursor (xs ++ ys))).toList, by
      rw [← List.append_assoc, tokensOf_concat, hts, List.append_assoc]⟩

/-- Consecutive fragments of an element; only the last may be empty. -/
inductive Pieces : MemoryRange → List MemoryRange → Prop where
  | whole (range : MemoryRange) : Pieces range [range]
  | cut (offset first rest : Nat) (pieces : List MemoryRange) (h : 0 < first)
      (tail : Pieces ⟨offset + first, rest⟩ pieces) :
      Pieces ⟨offset, first + rest⟩ (⟨offset, first⟩ :: pieces)

/-- The fragments of the headers, in order. -/
inductive HeaderTokens : List HeaderMemoryRange → List Token → Prop where
  | nil : HeaderTokens [] []
  | cons (header : HeaderMemoryRange) (headers : List HeaderMemoryRange)
      (keys values : List MemoryRange) (tokens : List Token) (key : Pieces header.key keys)
      (value : Pieces header.value values) (tail : HeaderTokens headers tokens) :
      HeaderTokens (header :: headers) (keys.map .field ++ values.map .value ++ tokens)

def headerTokens (headers : List HeaderMemoryRange) : List Token :=
  headers.flatMap fun header => [.field header.key, .value header.value]

/-- The elements of the block, each in one fragment. -/
def HeaderBlock.tokens (block : HeaderBlock) : List Token :=
  .url block.url :: headerTokens block.headers

/-- What holds of each event of a delivery: allocations succeed, a fragment is
the bytes at its place, and the parser makes one header block of them. -/
def DeliversAfter (block : HeaderBlock) (xs : List Event) : Event → Prop
  | .append _ resized => resized.isSome
  | .callback (.messageBegin allocated) => allocated = true ∧ callbacksOf xs = []
  | .callback (.url pos data) | .callback (.headerField pos data)
  | .callback (.headerValue pos data) =>
    data = slice ((cursor xs).callStart + pos) data.length block.bytes ∧ (cursor xs).headEnd = 0
  | .callback (.headersComplete _ head memory) =>
    head = block.head ∧ memory.headers = true ∧ memory.body = true ∧ (cursor xs).headEnd = 0
  | .callback (.body _ _) => False
  | .callback (.messageComplete _) => True

instance (block : HeaderBlock) (xs : List Event) :
    (e : Event) → Decidable (DeliversAfter block xs e)
  | .append _ resized => inferInstanceAs (Decidable (resized.isSome = true))
  | .callback (.messageBegin _) => inferInstanceAs (Decidable (_ = _ ∧ _ = _))
  | .callback (.url _ _) | .callback (.headerField _ _) | .callback (.headerValue _ _) =>
    inferInstanceAs (Decidable (_ = _ ∧ _ = _))
  | .callback (.headersComplete _ _ _) =>
    inferInstanceAs (Decidable (_ = _ ∧ _ = _ ∧ _ = _ ∧ _ = _))
  | .callback (.body _ _) => inferInstanceAs (Decidable False)
  | .callback (.messageComplete _) => inferInstanceAs (Decidable True)

/-- The calls cut the block and the parser reports it as documented. -/
structure Delivers (block : HeaderBlock) (calls : List Call) : Prop where
  data : calls.flatMap Call.data = block.bytes
  accepted : ∀ call ∈ calls, call.accepted = true
  ordered : Ordered (calls.flatMap Call.events)
  located : Located (calls.flatMap Call.events)
  events : Guarded (DeliversAfter block) (calls.flatMap Call.events)
  complete : (cursor (calls.flatMap Call.events)).headEnd ≠ 0
  tokens : ∃ urls headers, Pieces block.url urls ∧ HeaderTokens block.headers headers ∧
    tokensOf (calls.flatMap Call.events) = urls.map .url ++ headers

/-- No element is cut. -/
def Whole (block : HeaderBlock) (calls : List Call) : Prop :=
  tokensOf (calls.flatMap Call.events) = block.tokens

/-! ### What a reader of a request sees -/

def HTTPRequest.urlString (r : HTTPRequest) : Bytes := r.extract r.urlRange

def HTTPRequest.urlFieldString (r : HTTPRequest) (field : HTTPURLField) : Option Bytes :=
  (r.getUrlFieldRange field).map r.extract

def HTTPRequest.headerStrings (r : HTTPRequest) : List (Bytes × Bytes) :=
  r.getHeadersRanges.map fun header => (r.extract header.key, r.extract header.value)

structure SameRequest (r s : HTTPRequest) : Prop where
  method : r.method = s.method
  url : r.urlString = s.urlString
  urlField : ∀ field, r.urlFieldString field = s.urlFieldString field
  headers : r.headerStrings = s.headerStrings
  value : ∀ name, r.getHeaderValueRange name = s.getHeaderValueRange name

/-- The request a fresh queue gets from the calls: every call returns 0. -/
def DeliversRequest (parseUrl : ParseUrl) (notify : Machine δ → Result (Machine δ))
    (start : Machine δ) (calls : List Call) (r : HTTPRequest) : Prop :=
  ∃ m, run (appendData parseUrl notify) calls start = .ok m ∧
    m.queue.requests[0] = some r

/-- Both ways of cutting return 0 throughout and deliver the same request. -/
def Agree (parseUrl : ParseUrl) (notify : Machine δ → Result (Machine δ)) (start : Machine δ)
    (calls calls' : List Call) : Prop :=
  ∃ r s, DeliversRequest parseUrl notify start calls r ∧
    DeliversRequest parseUrl notify start calls' s ∧ SameRequest r s

/-! ### What the fragments leave in the request -/

/-- The ranges recorded from fragments; a value fragment closes an entry. -/
structure Record where
  url : MemoryRange
  fields : HTTPURLField → MemoryRange
  entries : List HeaderMemoryRange
  key : MemoryRange

def Record.empty : Record :=
  ⟨HTTPRequest.zeroRange, fun _ => HTTPRequest.zeroRange, [], HTTPRequest.zeroRange⟩

def Record.next (parseUrl : ParseUrl) (bytes : Bytes) (rec : Record) : Token → Record
  | .url range => { rec with
      url := range
      fields := fun field =>
        match (parseUrl (slice range.offset range.length bytes)).bind
          fun fields => fields field with
        | some part => ⟨range.offset + part.offset, part.length⟩
        | none => rec.fields field }
  | .field range => { rec with key := range }
  | .value range => { rec with
      entries := rec.entries ++ [⟨rec.key, range⟩], key := HTTPRequest.zeroRange }

def record (parseUrl : ParseUrl) (bytes : Bytes) (tokens : List Token) : Record :=
  tokens.foldl (Record.next parseUrl bytes) Record.empty

@[simp] theorem record_concat (parseUrl : ParseUrl) (bytes : Bytes) (tokens : List Token)
    (t : Token) : record parseUrl bytes (tokens ++ [t]) =
      (record parseUrl bytes tokens).next parseUrl bytes t := by
  simp [record]

/-- The header table of a request, `count` entries of it closed. -/
structure Matches (rec : Record) (count : Nat) (r : HTTPRequest) : Prop where
  url : r.urlRange = rec.url
  fields : r.urlFieldRanges = rec.fields
  closed : rec.entries.length = count
  current : r.currentHeader = count
  entries : r.getHeadersRanges = rec.entries
  key : ∀ h : count < httpRequestMaxHeaders, r.headersRanges[count].key = rec.key
  later : ∀ (i : Nat) (h : i < httpRequestMaxHeaders), count < i →
    r.headersRanges[i].key = HTTPRequest.zeroRange

theorem matches_new : Matches Record.empty 0 HTTPRequest.new where
  url := rfl
  fields := rfl
  closed := rfl
  current := rfl
  entries := rfl
  key := fun _ => by simp [HTTPRequest.new, Record.empty]
  later := fun i h _ => by simp [HTTPRequest.new]

variable {parseUrl : ParseUrl} {bytes : Bytes}

theorem Matches.setUrl {rec : Record} {count : Nat} {r : HTTPRequest} (h : Matches rec count r)
    (range : MemoryRange) {fields : HTTPURLField → Option MemoryRange}
    (hf : parseUrl (slice range.offset range.length bytes) = some fields) :
    Matches (rec.next parseUrl bytes (.url range)) count (HTTPRequestQueue.setUrlFields
      range.offset fields (r.setUrlRange range.offset range.length)) := by
  have heq := HTTPRequestQueue.setUrlFields_eq range.offset fields
    (r.setUrlRange range.offset range.length)
  refine ⟨?_, ?_, h.closed, ?_, ?_, ?_, ?_⟩
  · rw [heq]
    rfl
  · funext field
    rw [HTTPRequestQueue.setUrlFields_field]
    simp only [Record.next, hf, Option.bind_some]
    cases fields field with
    | none => exact congrFun h.fields field
    | some part => rfl
  · rw [heq]
    exact h.current
  · rw [heq]
    exact h.entries
  · rw [heq]
    exact h.key
  · rw [heq]
    exact h.later

/-- A name fragment is written to the open entry. -/
theorem Matches.setHeaderKeyRange {rec : Record} {count : Nat} {r s : HTTPRequest}
    (h : Matches rec count r) (parseUrl : ParseUrl) (bytes : Bytes) (range : MemoryRange)
    (hs : r.setHeaderKeyRange count range.offset range.length = .ok s) :
    Matches (rec.next parseUrl bytes (.field range)) count s := by
  obtain ⟨hi, rfl⟩ := HTTPRequest.setHeaderKeyRange_ok hs
  refine ⟨h.url, h.fields, h.closed, h.current, ?_, fun _ => ?_, fun i hlt hgt => ?_⟩
  · have hentry : r.headersRanges.toList.take count = rec.entries := by
      rw [← h.entries, HTTPRequest.getHeadersRanges, h.current]
    simp only [HTTPRequest.getHeadersRanges, h.current, Vector.toList_set, Record.next]
    rw [List.take_set_of_le (Nat.le_refl count), hentry]
  · simp [Record.next]
  · rw [Vector.getElem_set_ne _ _ (by omega)]
    exact h.later i hlt hgt

/-- A value fragment closes the open entry. -/
theorem Matches.setHeaderValueRange {rec : Record} {count : Nat} {r s : HTTPRequest}
    (h : Matches rec count r) (parseUrl : ParseUrl) (bytes : Bytes) (range : MemoryRange)
    (hs : r.setHeaderValueRange count range.offset range.length = .ok s) :
    Matches (rec.next parseUrl bytes (.value range)) (count + 1) s := by
  obtain ⟨hi, rfl⟩ := HTTPRequest.setHeaderValueRange_ok hs
  refine ⟨h.url, h.fields, ?_, ?_, ?_, fun hlt => ?_, fun i hlt hgt => ?_⟩
  · simp [Record.next, h.closed]
  · simp [h.current]
  · have hentry : r.headersRanges.toList.take count = rec.entries := by
      rw [← h.entries, HTTPRequest.getHeadersRanges, h.current]
    simp only [HTTPRequest.getHeadersRanges, h.current, Vector.toList_set, Record.next]
    rw [List.take_succ_eq_append_getElem (by simp [hi]), List.take_set_of_le (Nat.le_refl count),
      hentry]
    simp [h.key hi]
  · rw [Vector.getElem_set_ne _ _ (by omega)]
    exact h.later (count + 1) hlt (by omega)
  · rw [Vector.getElem_set_ne _ _ (by omega)]
    exact h.later i hlt (by omega)

/-! ### What a delivery looks like in the middle -/

variable {block : HeaderBlock}

/-- The events so far of a delivery, the parser in `phase`. -/
structure Delivering (block : HeaderBlock) (xs : List Event) (phase : Phase) : Prop where
  stream : (cursor xs).stream <+: block.bytes
  fresh : callbacksOf xs = [] →
    (cursor xs).msgStart = 0 ∧ (cursor xs).headEnd = 0 ∧ tokensOf xs = []
  inside : phase ≠ .idle →
    (cursor xs).msgStart = 0 ∧ messagesCompleted (callbacksOf xs) = 0
  head : phase = .head → (cursor xs).headEnd = 0

theorem stream_front (xs ys : List Event) :
    (cursor xs).stream <+: (cursor (xs ++ ys)).stream := by
  induction ys using List.reverseRecOn with
  | nil => simp
  | append_singleton ys e ih =>
    rw [← List.append_assoc, cursor_concat]
    refine ih.trans ?_
    cases e with
    | append data resized => exact List.prefix_append _ _
    | callback c => cases c <;> exact List.prefix_refl _

theorem delivering {es : List Event} {phase : Phase} (ho : Ordered es)
    (hd : Guarded (DeliversAfter block) es) (hs : (cursor es).stream <+: block.bytes)
    (h : Phase.idle.after (callbacksOf es) = some phase) : Delivering block es phase := by
  induction es using List.reverseRecOn generalizing phase with
  | nil =>
    cases h
    exact ⟨hs, fun _ => ⟨rfl, rfl, rfl⟩, fun hp => absurd rfl hp, nofun⟩
  | append_singleton es e ih =>
    have ho' := ordered_front ho
    obtain ⟨before, hbefore⟩ := Option.isSome_iff_exists.mp ho'
    have ih' := ih ho' (CallOutcome.guarded_front hd) ((stream_front es [e]).trans hs) hbefore
    have he := CallOutcome.guarded_last hd
    cases e with
    | append data resized =>
      rw [callbacksOf_append, callbacksOf_data, List.append_nil] at h
      cases hbefore.symm.trans h
      refine ⟨hs, fun hnil => ?_, fun hp => ?_, fun hp => ?_⟩
      · rw [callbacksOf_append, callbacksOf_data, List.append_nil] at hnil
        rw [cursor_concat, tokensOf_concat]
        obtain ⟨hm, hh, ht⟩ := ih'.fresh hnil
        exact ⟨hm, hh, by simp [ht, Event.token]⟩
      · rw [callbacksOf_append, callbacksOf_data, List.append_nil, cursor_concat]
        exact ih'.inside hp
      · rw [cursor_concat]
        exact ih'.head hp
    | callback c =>
      obtain ⟨next, hnext⟩ := next_of_ordered ho hbefore
      have hphase : phase = next := by
        rw [callbacksOf_append, callbacksOf_callback, Phase.after_concat, hbefore] at h
        exact Option.some.inj (h.symm.trans hnext)
      subst hphase
      refine ⟨hs, fun hnil => by simp at hnil, ?_, ?_⟩
      · intro hp
        rw [cursor_concat, callbacksOf_append, callbacksOf_callback, messagesCompleted_concat]
        cases c with
        | messageBegin allocated =>
          obtain ⟨-, hnone⟩ := he
          exact ⟨(ih'.fresh hnone).1, by simp [hnone, messagesCompleted]⟩
        | messageComplete pos => exact absurd (Phase.next_messageComplete.mp hnext).2 hp
        | _ =>
          refine ih'.inside fun hidle => ?_
          subst hidle
          simp [Phase.next] at hnext
      · rintro rfl
        rw [cursor_concat]
        cases c with
        | messageBegin allocated => exact (ih'.fresh he.2).2.1
        | url pos data => exact ih'.head (Phase.next_url.mp hnext).1
        | headerField pos data => exact ih'.head (Phase.next_headerField.mp hnext).2.symm
        | headerValue pos data => exact ih'.head (Phase.next_headerValue.mp hnext).2.symm
        | headersComplete pos head memory => simpa using (Phase.next_headersComplete.mp hnext).2
        | body pos data => exact absurd he id
        | messageComplete pos => simpa using (Phase.next_messageComplete.mp hnext).2

theorem cursor_stream (es : List Event) : (cursor es).stream =
    es.flatMap fun e => match e with | .append data _ => data | .callback _ => [] := by
  induction es using List.reverseRecOn with
  | nil => rfl
  | append_singleton es e ih =>
    rw [cursor_concat]
    cases e with
    | append data resized => simp [Cursor.next, ih]
    | callback c => cases c <;> simp [Cursor.next, ih]

theorem Delivers.stream {calls : List Call} (h : Delivers block calls) :
    (cursor (calls.flatMap Call.events)).stream = block.bytes := by
  rw [← h.data, cursor_stream, List.flatMap_assoc]
  refine List.flatMap_congr fun call _ => ?_
  simp [Call.events, List.flatMap_map]

/-- The facts about the events before one of a delivery. -/
theorem Delivers.delivering {calls : List Call} (h : Delivers block calls) {xs ys : List Event}
    (he : calls.flatMap Call.events = xs ++ ys) {phase : Phase}
    (hp : Phase.idle.after (callbacksOf xs) = some phase) : Delivering block xs phase := by
  refine Rapp.delivering (ordered_front (he ▸ h.ordered))
    (CallOutcome.guarded_front (he ▸ h.events)) ?_ hp
  rw [← h.stream, he]
  exact stream_front xs ys

/-- A header block ends with the bytes given so far. -/
theorem Delivering.ends {xs : List Event} {pos : Nat} {head : ParserHead} {memory : HeadersMemory}
    (h : Delivering block xs .head)
    (hl : LocatedAfter xs (.callback (.headersComplete pos head memory)))
    (hd : DeliversAfter block xs (.callback (.headersComplete pos head memory))) :
    (cursor xs).stream = block.bytes ∧ (cursor xs).callStart + pos = block.bytes.length := by
  obtain ⟨-, hin, -, hnread⟩ := hl
  obtain ⟨rfl, -⟩ := hd
  rw [(h.inside (by simp)).1, block.counted, Nat.add_zero] at hnread
  exact ⟨h.stream.eq_of_length_le (by omega), hnread.symm⟩

theorem Delivers.headersOnly {calls : List Call} (h : Delivers block calls) :
    HeadersOnly (calls.flatMap Call.events) := by
  intro xs e ys he
  have ho := h.ordered
  rw [he] at ho
  obtain ⟨phase, hphase⟩ := Option.isSome_iff_exists.mp (ordered_front ho)
  have hdel := h.delivering he hphase
  have hd := h.events xs e ys he
  have hl := h.located xs e ys he
  cases e with
  | append data resized => trivial
  | callback c =>
    obtain ⟨next, hnext⟩ := next_of_ordered ho hphase
    cases c with
    | url pos data =>
      obtain ⟨rfl, -⟩ := Phase.next_url.mp hnext
      exact (hdel.inside (by simp)).1.trans hd.2.symm
    | headerField pos data =>
      exact (hdel.inside (Phase.next_headerField.mp hnext).1).1.trans hd.2.symm
    | headerValue pos data =>
      exact (hdel.inside (Phase.next_headerValue.mp hnext).1).1.trans hd.2.symm
    | headersComplete pos head memory =>
      obtain ⟨rfl, -⟩ := Phase.next_headersComplete.mp hnext
      obtain ⟨hstream, hends⟩ := hdel.ends hl hd
      refine ⟨(hdel.inside (by simp)).1.trans hd.2.2.2.symm, ?_⟩
      rw [hstream, hends]
    | _ => trivial

/-- Before the end of the first header block the parser is in it. -/
theorem Tracks.inHead {k : Cursor} {phase : Phase} {input : Nat} {queue : HTTPRequestQueue}
    (h : Tracks k phase input queue) (h0 : k.headEnd = 0) (hne : phase ≠ .idle) :
    phase = .head := by
  cases phase with
  | idle => exact absurd rfl hne
  | head => rfl
  | body =>
    have := h.past rfl
    omega

/-! ### The request of a delivery -/

/-- The request once the header block is complete. -/
structure Copied (block : HeaderBlock) (rec : Record) (r : HTTPRequest) : Prop where
  url : r.urlRange = rec.url
  fields : r.urlFieldRanges = rec.fields
  entries : r.getHeadersRanges = rec.entries
  buffer : r.headersBuffer = some block.bytes
  method : r.method = block.head.method
  within : r.RangesWithin block.bytes.length

structure Collected (parseUrl : ParseUrl) (block : HeaderBlock) (xs : List Event) (phase : Phase)
    (queue : HTTPRequestQueue) : Prop where
  collecting : phase = .head → ∃ r, queue.current = some r ∧
    Matches (record parseUrl block.bytes (tokensOf xs)) queue.currentHeader r
  copied : (cursor xs).headEnd ≠ 0 → ∃ r, queue.requests[0] = some r ∧
    Copied block (record parseUrl block.bytes (tokensOf xs)) r

theorem collected_new : Collected parseUrl block [] .idle HTTPRequestQueue.new where
  collecting := nofun
  copied := fun h => absurd rfl h

theorem Collected.congr {xs : List Event} {phase : Phase} {queue next : HTTPRequestQueue}
    (h : Collected parseUrl block xs phase queue) (hr : next.requests = queue.requests)
    (hi : next.incomingIndex = queue.incomingIndex)
    (hc : next.currentHeader = queue.currentHeader) : Collected parseUrl block xs phase next := by
  refine ⟨?_, ?_⟩
  · rw [HTTPRequestQueue.current_congr hr hi, hc]
    exact h.collecting
  · rw [hr]
    exact h.copied

theorem matches_zero {block : HeaderBlock} {xs : List Event} {count : Nat} (ht : tokensOf xs = [])
    (hc : count = 0) :
    Matches (record parseUrl block.bytes (tokensOf xs)) count HTTPRequest.new := by
  rw [ht, hc]
  exact matches_new

/-- Inside the first header block the current request is that of the fragments so far. -/
theorem Collected.inHead {phase : Phase} {xs : List Event} {input : Nat}
    {queue : HTTPRequestQueue} (h : Collected parseUrl block xs phase queue)
    (ht : Tracks (cursor xs) phase input queue) (hdel : Delivering block xs phase)
    {r : HTTPRequest} (h0 : (cursor xs).headEnd = 0) (hne : phase ≠ .idle)
    (hr : queue.current = some r) : phase = .head ∧
      Matches (record parseUrl block.bytes (tokensOf xs)) queue.currentHeader r ∧
      ∀ pos, pointerDifference (input + pos) queue.base = (cursor xs).callStart + pos := by
  have hm := (hdel.inside hne).1
  have hphase : phase = .head := ht.inHead h0 hne
  obtain ⟨r', hr', hmatch⟩ := h.collecting hphase
  cases hr.symm.trans hr'
  refine ⟨hphase, hmatch, fun pos => ?_⟩
  have := ht.offset hne (hm.trans h0.symm) pos
  omega

/-- The end of the header block: the bytes of the request are copied. -/
theorem Collected.headersComplete {xs : List Event} {pos : Nat} {head : ParserHead}
    {memory : HeadersMemory} {input : Nat} {queue q : HTTPRequestQueue}
    (h : Collected parseUrl block xs .head queue) (ht : Tracks (cursor xs) .head input queue)
    (hcons : Consistent .head (callbacksOf xs) queue) (hdel : Delivering block xs .head)
    (hl : LocatedAfter xs (.callback (.headersComplete pos head memory)))
    (hd : DeliversAfter block xs (.callback (.headersComplete pos head memory)))
    (hq : handle parseUrl (.headersComplete pos head memory) input queue = .ok q) :
    Collected parseUrl block (xs ++ [.callback (.headersComplete pos head memory)]) .body q := by
  obtain ⟨hstream, hends⟩ := hdel.ends hl hd
  obtain ⟨rfl, -, -, h0⟩ := hd
  obtain ⟨r, s, t, q', hr, hs, hdrop, htbody, rfl⟩ := HTTPRequestQueue.onHeadersComplete_ok hq
  obtain ⟨hnread, rfl⟩ := HTTPRequest.setHeadersBuffer_ok hs
  obtain ⟨buffer, rfl, -⟩ := HTTPRequestQueue.dropHeaders_ok hdrop
  obtain ⟨-, hmatch, -⟩ := h.inHead ht hdel h0 (by simp) hr
  obtain ⟨hm, hcompleted⟩ := hdel.inside (by simp)
  refine ⟨nofun, fun _ => ?_⟩
  have hslot : queue.incomingIndex = 0 := hcons.completed.trans hcompleted
  obtain ⟨r', hr', hwithin⟩ := ht.ranges rfl (hm.trans h0.symm)
  cases hr.symm.trans hr'
  have hbytes : queue.bytes.take block.head.nread = block.bytes := by
    rw [ht.bytes, h0, List.drop_zero, hstream, block.counted, List.take_length]
  have hwithin' : r.RangesWithin block.bytes.length := by
    have hle := ht.reached
    rw [hstream] at hle
    exact hwithin.mono (by omega)
  refine ⟨t, ?_, ?_⟩
  · simp [HTTPRequestQueue.store, hslot]
  · rw [tokensOf_concat]
    simp only [Event.token, Callback.token, Option.toList_none, List.append_nil]
    split at htbody
    · rw [HTTPRequest.setBodyLength_ok htbody]
      exact ⟨hmatch.url, hmatch.fields, hmatch.entries, congrArg some hbytes, rfl,
        ⟨hwithin'.url, hwithin'.field, hwithin'.key, hwithin'.value⟩⟩
    · rw [htbody]
      exact ⟨hmatch.url, hmatch.fields, hmatch.entries, congrArg some hbytes, rfl,
        ⟨hwithin'.url, hwithin'.field, hwithin'.key, hwithin'.value⟩⟩

/-- The step lemma. -/
theorem collected_handle {phase next : Phase} {xs : List Event} {c : Callback} {input : Nat}
    {queue q : HTTPRequestQueue} (h : Collected parseUrl block xs phase queue)
    (ht : Tracks (cursor xs) phase input queue) (hcons : Consistent phase (callbacksOf xs) queue)
    (hdel : Delivering block xs phase) (hl : LocatedAfter xs (.callback c))
    (hd : DeliversAfter block xs (.callback c)) (hp : phase.next c = some next)
    (hq : handle parseUrl c input queue = .ok q) :
    Collected parseUrl block (xs ++ [.callback c]) next q := by
  cases c with
  | messageBegin allocated =>
    obtain ⟨hi, rfl⟩ := HTTPRequestQueue.onMessageBegin_ok hq
    obtain ⟨rfl, rfl⟩ := Phase.next_messageBegin.mp hp
    obtain ⟨-, h0, htokens⟩ := hdel.fresh hd.2
    refine ⟨fun _ => ⟨_, HTTPRequestQueue.current_store _ hi, ?_⟩, fun hne => ?_⟩
    · exact matches_zero (by simp [htokens, Event.token, Callback.token]) (hcons.between rfl)
    · rw [cursor_concat] at hne
      exact absurd h0 hne
  | url pos data =>
    obtain ⟨r, fields, hr, hfields, rfl⟩ := HTTPRequestQueue.onUrl_ok hq
    obtain ⟨hphase, rfl⟩ := Phase.next_url.mp hp
    obtain ⟨-, hmatch, hoffset⟩ := h.inHead ht hdel hd.2 (by simp [hphase]) hr
    refine ⟨fun _ => ⟨_, HTTPRequestQueue.store_current hr _, ?_⟩, fun hne => ?_⟩
    · have hparse : parseUrl (slice ((cursor xs).callStart + pos) data.length block.bytes) =
          some fields := by rw [← hd.1]; exact hfields
      have hset := hmatch.setUrl ⟨(cursor xs).callStart + pos, data.length⟩ hparse
      rw [tokensOf_concat, hoffset]
      simpa [Event.token, Callback.token] using hset
    · rw [cursor_concat] at hne
      exact absurd hd.2 hne
  | headerField pos data =>
    obtain ⟨r, s, hr, -, hs, rfl⟩ := HTTPRequestQueue.onHeaderField_ok hq
    obtain ⟨hne, rfl⟩ := Phase.next_headerField.mp hp
    obtain ⟨rfl, hmatch, hoffset⟩ := h.inHead ht hdel hd.2 hne hr
    refine ⟨fun _ => ⟨s, HTTPRequestQueue.store_current hr s, ?_⟩, fun hne => ?_⟩
    · rw [hoffset] at hs
      have hset := hmatch.setHeaderKeyRange parseUrl block.bytes
        ⟨(cursor xs).callStart + pos, data.length⟩ hs
      rw [tokensOf_concat]
      simpa [Event.token, Callback.token] using hset
    · rw [cursor_concat] at hne
      exact absurd hd.2 hne
  | headerValue pos data =>
    obtain ⟨r, s, hr, hs, rfl⟩ := HTTPRequestQueue.onHeaderValue_ok hq
    obtain ⟨hne, rfl⟩ := Phase.next_headerValue.mp hp
    obtain ⟨rfl, hmatch, hoffset⟩ := h.inHead ht hdel hd.2 hne hr
    refine ⟨fun _ => ⟨s, HTTPRequestQueue.store_current hr s, ?_⟩, fun hne => ?_⟩
    · rw [hoffset] at hs
      have hset := hmatch.setHeaderValueRange parseUrl block.bytes
        ⟨(cursor xs).callStart + pos, data.length⟩ hs
      rw [tokensOf_concat]
      simpa [Event.token, Callback.token] using hset
    · rw [cursor_concat] at hne
      exact absurd hd.2 hne
  | headersComplete pos head memory =>
    obtain ⟨rfl, rfl⟩ := Phase.next_headersComplete.mp hp
    exact h.headersComplete ht hcons hdel hl hd hq
  | body pos data => exact absurd hd id
  | messageComplete pos =>
    obtain ⟨rfl, rfl⟩ := Phase.next_messageComplete.mp hp
    obtain ⟨requests, rfl, hsame, -⟩ := HTTPRequestQueue.onMessageComplete_ok hq
    have hslot : queue.incomingIndex = 0 := hcons.completed.trans (hdel.inside (by simp)).2
    refine ⟨nofun, fun hne => ?_⟩
    rw [cursor_concat] at hne
    obtain ⟨r, hr, hcopied⟩ := h.copied hne
    have hrequests : requests = queue.requests := hsame (by rw [hslot]; decide)
    refine ⟨r, ?_, ?_⟩
    · simpa only [hrequests] using hr
    · rw [tokensOf_concat]
      simpa [Event.token, Callback.token] using hcopied

variable {notify : Machine δ → Result (Machine δ)}

/-- Everything known of a state in the middle of a delivery. -/
structure Delivered (parseUrl : ParseUrl) (block : HeaderBlock) (xs : List Event) (phase : Phase)
    (m : Machine δ) : Prop where
  after : Phase.idle.after (callbacksOf xs) = some phase
  tracks : Tracks (cursor xs) phase m.input m.queue
  consistent : Consistent phase (callbacksOf xs) m.queue
  delivering : Delivering block xs phase
  collected : Collected parseUrl block xs phase m.queue
  outgoing : callbacksOf xs = [] ∨ phase ≠ .idle → m.queue.outgoingIndex = 0

/-- The run lemma. -/
theorem delivered_run (hk : KeepsQueue notify) (hu : FieldsInside parseUrl) {calls : List Call}
    (hdel : Delivers block calls) {input : Nat} {d : δ} {xs ys : List Event} {m : Machine δ}
    (he : calls.flatMap Call.events = xs ++ ys)
    (h : run (step parseUrl notify) xs ⟨HTTPRequestQueue.new, input, d⟩ = .ok m) :
    ∃ phase, Delivered parseUrl block xs phase m := by
  induction xs using List.reverseRecOn generalizing ys m with
  | nil =>
    cases h
    exact ⟨.idle, rfl, tracks_new input, consistent_new, hdel.delivering he rfl, collected_new,
      fun _ => rfl⟩
  | append_singleton xs e ih =>
    have ho : Ordered (xs ++ [e]) := ordered_front (he ▸ hdel.ordered)
    have hl := CallOutcome.guarded_front (he ▸ hdel.located)
    have ha := CallOutcome.guarded_front (he ▸ hdel.headersOnly)
    obtain ⟨phase', hphase', htracks⟩ := tracks_run hk hu ho hl ha h
    obtain ⟨phase'', hphase'', hcons⟩ := consistent_run hk ho h
    cases hphase'.symm.trans hphase''
    suffices hrest : Collected parseUrl block (xs ++ [e]) phase' m.queue ∧
        (callbacksOf (xs ++ [e]) = [] ∨ phase' ≠ .idle → m.queue.outgoingIndex = 0) from
      ⟨phase', hphase', htracks, hcons, hdel.delivering he hphase', hrest.1, hrest.2⟩
    rw [CallOutcome.run_concat] at h
    obtain ⟨l, hlrun, hstep⟩ := Outcome.bind_eq_ok.mp h
    have he' : calls.flatMap Call.events = xs ++ e :: ys := by simp [he]
    obtain ⟨phase, hbefore⟩ := ih he' hlrun
    cases e with
    | append data resized =>
      obtain ⟨q, hq, rfl⟩ := Outcome.map_eq_ok.mp hstep
      obtain ⟨address, -, rfl⟩ := HTTPRequestQueue.grow_ok hq
      rw [callbacksOf_append, callbacksOf_data, List.append_nil] at hphase'
      cases hphase'.symm.trans hbefore.after
      have hsame := hbefore.collected
      have htokens : tokensOf (xs ++ [.append data resized]) = tokensOf xs := by
        rw [tokensOf_concat]
        simp [Event.token]
      have hend : (cursor (xs ++ [.append data resized])).headEnd = (cursor xs).headEnd := by
        rw [cursor_concat]
        rfl
      refine ⟨⟨?_, ?_⟩, ?_⟩
      · rw [htokens]
        exact hsame.collecting
      · rw [htokens, hend]
        exact hsame.copied
      · rw [callbacksOf_append, callbacksOf_data, List.append_nil]
        exact hbefore.outgoing
    | callback c =>
      obtain ⟨-, q, k, hq, hn⟩ := dispatch_ok hk hstep
      obtain ⟨next, hnext⟩ := next_of_ordered ho hbefore.after
      have hphase : phase' = next := by
        rw [callbacksOf_append, callbacksOf_callback, Phase.after_concat, hbefore.after] at hphase'
        exact Option.some.inj (hphase'.symm.trans hnext)
      subst hphase
      have hcollected := collected_handle hbefore.collected hbefore.tracks hbefore.consistent
        hbefore.delivering (CallOutcome.guarded_last hl) (hdel.events xs _ ys he') hnext hq
      refine ⟨?_, fun hout => ?_⟩
      · rw [hn]
        exact hcollected.congr rfl rfl rfl
      · have hnext' : phase' ≠ .idle := hout.resolve_left (by simp)
        have hc : ∀ pos, c ≠ .messageComplete pos := by
          rintro pos rfl
          exact hnext' (Phase.next_messageComplete.mp hnext).2
        rw [dispatch_outgoing hc hstep]
        refine hbefore.outgoing ?_
        by_cases hidle : phase = .idle
        · subst hidle
          cases c with
          | messageBegin allocated => exact .inl (hdel.events xs _ ys he').2
          | _ => simp [Phase.next] at hnext
        · exact .inr hidle

/-- The request a delivery ends with has the ranges of its fragments. -/
theorem copied_of_delivers (hk : KeepsQueue notify) (hu : FieldsInside parseUrl)
    {calls : List Call} (hdel : Delivers block calls) {input : Nat} {d : δ} {r : HTTPRequest}
    (h : DeliversRequest parseUrl notify ⟨HTTPRequestQueue.new, input, d⟩ calls r) :
    Copied block (record parseUrl block.bytes (tokensOf (calls.flatMap Call.events))) r := by
  obtain ⟨m, hm, hr⟩ := h
  rw [run_appendData_accepted _ _ hdel.accepted] at hm
  obtain ⟨phase, hdelivered⟩ := delivered_run hk hu hdel (List.append_nil _).symm hm
  obtain ⟨r', hr', hcopied⟩ := hdelivered.collected.copied hdel.complete
  cases hr.symm.trans hr'
  exact hcopied

end Rapp

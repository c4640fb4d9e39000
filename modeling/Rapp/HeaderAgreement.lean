import Rapp.HeaderSplit

/-!
# Ways of cutting that agree

What the fragments of a header block leave in the request, and when that is
what its elements leave there.
-/
namespace Rapp

open CallOutcome (Outcome run Guarded)
open ByteBlock

variable {δ : Type} {parseUrl : ParseUrl} {bytes : Bytes} {block : HeaderBlock}
variable {notify : Machine δ → Result (Machine δ)}

/-! ### Fragments and records -/

/-- The entries that fragments close, `key` being the name of the open one. -/
def entriesFrom : MemoryRange → List Token → List HeaderMemoryRange
  | _, [] => []
  | key, .url _ :: tokens => entriesFrom key tokens
  | _, .field range :: tokens => entriesFrom range tokens
  | key, .value range :: tokens => ⟨key, range⟩ :: entriesFrom HTTPRequest.zeroRange tokens

theorem entries_foldl (tokens : List Token) (rec : Record) :
    (tokens.foldl (Record.next parseUrl bytes) rec).entries =
      rec.entries ++ entriesFrom rec.key tokens := by
  induction tokens generalizing rec with
  | nil => simp [entriesFrom]
  | cons t tokens ih =>
    rw [List.foldl_cons, ih]
    cases t <;> simp [Record.next, entriesFrom]

theorem entries_record (tokens : List Token) :
    (record parseUrl bytes tokens).entries = entriesFrom HTTPRequest.zeroRange tokens := by
  rw [record, entries_foldl]
  rfl

theorem entriesFrom_urls (key : MemoryRange) (urls : List MemoryRange) (tokens : List Token) :
    entriesFrom key (urls.map .url ++ tokens) = entriesFrom key tokens := by
  induction urls with
  | nil => rfl
  | cons range urls ih => exact ih

theorem entriesFrom_values (values : List MemoryRange) (tokens : List Token) :
    entriesFrom HTTPRequest.zeroRange (values.map .value ++ tokens) =
      values.map (fun range => ⟨HTTPRequest.zeroRange, range⟩) ++
        entriesFrom HTTPRequest.zeroRange tokens := by
  induction values with
  | nil => rfl
  | cons range values ih => simp [entriesFrom, ih]

/-- The last fragment of an element is shorter than the element, or all of it. -/
theorem Pieces.last {range : MemoryRange} {pieces : List MemoryRange} (h : Pieces range pieces) :
    ∃ front last, pieces = front ++ [last] ∧ last.length ≤ range.length ∧
      (last.length = range.length → pieces = [range]) := by
  induction h with
  | whole range => exact ⟨[], range, rfl, Nat.le_refl _, fun _ => rfl⟩
  | cut offset first rest pieces h tail ih =>
    obtain ⟨front, last, rfl, hle, -⟩ := ih
    simp only at hle
    refine ⟨⟨offset, first⟩ :: front, last, rfl, ?_, fun heq => ?_⟩
    · simp only
      omega
    · simp only at heq
      omega

theorem Pieces.singleton {range piece : MemoryRange} (h : Pieces range [piece]) :
    piece = range := by
  cases h with
  | whole => rfl
  | cut offset first rest pieces h tail => cases tail

theorem Pieces.exists_cons {range : MemoryRange} {pieces : List MemoryRange}
    (h : Pieces range pieces) : ∃ first rest, pieces = first :: rest := by
  cases h with
  | whole => exact ⟨_, _, rfl⟩
  | cut offset first rest pieces h tail => exact ⟨_, _, rfl⟩

theorem entriesFrom_fields (key : MemoryRange) (front : List MemoryRange) (last : MemoryRange)
    (tokens : List Token) : entriesFrom key ((front ++ [last]).map .field ++ tokens) =
      entriesFrom last tokens := by
  induction front generalizing key with
  | nil => rfl
  | cons range front ih => exact ih range

/-- Every fragment of a value closes an entry; the first one has the last fragment of the name. -/
theorem entriesFrom_header (key : MemoryRange) (front : List MemoryRange) (last first : MemoryRange)
    (rest : List MemoryRange) (tokens : List Token) :
    entriesFrom key ((front ++ [last]).map .field ++ (first :: rest).map .value ++ tokens) =
      ⟨last, first⟩ :: (rest.map (fun range => ⟨HTTPRequest.zeroRange, range⟩) ++
        entriesFrom HTTPRequest.zeroRange tokens) := by
  rw [List.append_assoc, entriesFrom_fields]
  simp only [List.map_cons, List.cons_append, entriesFrom]
  rw [entriesFrom_values]

theorem headerTokens_pieces (headers : List HeaderMemoryRange) :
    HeaderTokens headers (headerTokens headers) := by
  induction headers with
  | nil => exact .nil
  | cons header headers ih =>
    exact .cons header headers [header.key] [header.value] _ (.whole _) (.whole _) ih

theorem HeaderTokens.length_le {headers : List HeaderMemoryRange} {tokens : List Token}
    (h : HeaderTokens headers tokens) (key : MemoryRange) :
    headers.length ≤ (entriesFrom key tokens).length := by
  induction h generalizing key with
  | nil => exact Nat.zero_le _
  | cons header headers keys values tokens hkey hvalue tail ih =>
    obtain ⟨front, last, rfl, -⟩ := hkey.last
    obtain ⟨first, rest, rfl⟩ := hvalue.exists_cons
    rw [entriesFrom_header]
    have := ih HTTPRequest.zeroRange
    simp only [List.length_cons, List.length_append, List.length_map]
    omega

theorem entriesFrom_headerTokens (key : MemoryRange) (headers : List HeaderMemoryRange) :
    entriesFrom key (headerTokens headers) = headers := by
  induction headers generalizing key with
  | nil => rfl
  | cons header headers ih =>
    simpa [headerTokens, entriesFrom] using ih HTTPRequest.zeroRange

/-- With as many entries as headers and names of full length, nothing was cut. -/
theorem HeaderTokens.eq_of_lengths {headers : List HeaderMemoryRange} {tokens : List Token}
    (h : HeaderTokens headers tokens) {key : MemoryRange}
    (hlengths : (entriesFrom key tokens).map (fun e => e.key.length) =
      headers.map fun header => header.key.length) : tokens = headerTokens headers := by
  induction h generalizing key with
  | nil => rfl
  | cons header headers keys values tokens hkey hvalue tail ih =>
    obtain ⟨front, last, rfl, -, hlast⟩ := hkey.last
    obtain ⟨first, rest, rfl⟩ := hvalue.exists_cons
    rw [entriesFrom_header] at hlengths
    simp only [List.map_cons, List.map_append, List.cons.injEq] at hlengths
    obtain ⟨hfirst, hrest⟩ := hlengths
    have hnil : rest = [] := by
      have hcount := congrArg List.length hrest
      have hle := tail.length_le HTTPRequest.zeroRange
      simp only [List.length_append, List.length_map] at hcount
      exact List.eq_nil_of_length_eq_zero (by omega)
    subst hnil
    rw [hlast hfirst, hvalue.singleton, ih hrest]
    rfl

theorem url_foldl (urls : List MemoryRange) (rec : Record) {front : List MemoryRange}
    {last : MemoryRange} (h : urls = front ++ [last]) :
    ((urls.map .url).foldl (Record.next parseUrl bytes) rec).url = last := by
  subst h
  simp [Record.next]

theorem HeaderTokens.url_foldl {headers : List HeaderMemoryRange} {tokens : List Token}
    (h : HeaderTokens headers tokens) (rec : Record) :
    (tokens.foldl (Record.next parseUrl bytes) rec).url = rec.url := by
  have hkeep : ∀ (f : MemoryRange → Token) (hf : ∀ rec range,
      (Record.next parseUrl bytes rec (f range)).url = rec.url) (ranges : List MemoryRange)
      (rec : Record), ((ranges.map f).foldl (Record.next parseUrl bytes) rec).url = rec.url := by
    intro f hf ranges
    induction ranges with
    | nil => exact fun rec => rfl
    | cons range ranges ih => exact fun rec => (ih _).trans (hf rec range)
  induction h generalizing rec with
  | nil => rfl
  | cons header headers keys values tokens hkey hvalue tail ih =>
    rw [List.foldl_append, List.foldl_append, ih, hkeep _ (fun _ _ => rfl),
      hkeep _ fun _ _ => rfl]

/-! ### Agreement -/

theorem Copied.extract {rec : Record} {r : HTTPRequest} (h : Copied block rec r)
    (range : MemoryRange) :
    r.extract range = slice range.offset range.length block.bytes := by
  rw [HTTPRequest.extract, h.buffer, Option.getD_some]

theorem Copied.length_extract {rec : Record} {r : HTTPRequest} (h : Copied block rec r)
    {range : MemoryRange} (hr : r.Recorded range) : (r.extract range).length = range.length := by
  rw [h.extract, length_slice (h.within.recorded hr)]

/-- Requests with the same record are the same to a reader. -/
theorem same_of_record {rec : Record} {r s : HTTPRequest} (hr : Copied block rec r)
    (hs : Copied block rec s) : SameRequest r s := by
  have hextract : r.extract = s.extract := by
    funext range
    rw [hr.extract, hs.extract]
  have hentries : r.getHeadersRanges = s.getHeadersRanges := hr.entries.trans hs.entries.symm
  have hfields : r.urlFieldRanges = s.urlFieldRanges := hr.fields.trans hs.fields.symm
  refine ⟨hr.method.trans hs.method.symm, ?_, fun field => ?_, ?_, fun name => ?_⟩
  · rw [HTTPRequest.urlString, HTTPRequest.urlString, hextract, hr.url, hs.url]
  · simp only [HTTPRequest.urlFieldString, HTTPRequest.getUrlFieldRange, hextract, hfields]
  · simp only [HTTPRequest.headerStrings, hextract, hentries]
  · simp only [HTTPRequest.getHeaderValueRange, hextract, hentries]

/-- The lengths of the names of a request, as a reader sees them. -/
theorem Copied.key_lengths {rec : Record} {r : HTTPRequest} (h : Copied block rec r) :
    r.headerStrings.map (fun strings => strings.1.length) =
      rec.entries.map fun e => e.key.length := by
  rw [HTTPRequest.headerStrings, List.map_map, ← h.entries]
  refine List.map_congr_left fun header hh => ?_
  exact h.length_extract (.key header hh)

/-- A request that looks like one of uncut elements comes from uncut elements. -/
theorem tokens_eq_of_same {urls : List MemoryRange} {headers : List Token} {r s : HTTPRequest}
    (hu : Pieces block.url urls) (hh : HeaderTokens block.headers headers)
    (hr : Copied block (record parseUrl block.bytes (urls.map .url ++ headers)) r)
    (hs : Copied block (record parseUrl block.bytes block.tokens) s) (hsame : SameRequest r s) :
    urls.map .url ++ headers = block.tokens := by
  obtain ⟨front, last, hurls, -, hlast⟩ := hu.last
  have hwhole : urls = [block.url] := by
    refine hlast ?_
    have hrurl : r.urlRange = last := by
      rw [hr.url, record, List.foldl_append, hh.url_foldl, url_foldl _ _ hurls]
    have hsurl : s.urlRange = block.url := by
      rw [hs.url, record, HeaderBlock.tokens, List.foldl_cons]
      exact (headerTokens_pieces block.headers).url_foldl _
    have hlengths := congrArg List.length hsame.url
    rw [HTTPRequest.urlString, HTTPRequest.urlString, hr.length_extract .url,
      hs.length_extract .url, hrurl, hsurl] at hlengths
    exact hlengths
  have hkeys : (entriesFrom HTTPRequest.zeroRange headers).map (fun e => e.key.length) =
      block.headers.map fun header => header.key.length := by
    have hstrings := congrArg (List.map fun strings => strings.1.length) hsame.headers
    rw [hr.key_lengths, hs.key_lengths, entries_record, entries_record,
      entriesFrom_urls] at hstrings
    rw [hstrings]
    exact congrArg _ (entriesFrom_headerTokens _ block.headers)
  rw [hh.eq_of_lengths hkeys, hwhole]
  rfl

/-! ### Progress of an uncut delivery -/

/-- A header block that is all of the buffer is copied without fail. -/
theorem onHeadersComplete_total {queue : HTTPRequestQueue} {head : ParserHead}
    {memory : HeadersMemory} {r : HTTPRequest} (hr : queue.current = some r)
    (hread : head.nread ≤ queue.bytes.length) (hrest : queue.bufferLength - head.nread = 0)
    (hh : memory.headers = true) (hb : memory.body = true) :
    ∃ q, queue.onHeadersComplete head memory = .ok q := by
  have hcopy : ∃ s, ((r.setMethod head.method).setLast (!head.keepAlive)).setHeadersBuffer
      memory.headers queue.bytes head.nread = .ok s := by
    simp only [HTTPRequest.setHeadersBuffer, hh, Bool.not_true, Bool.false_eq_true, if_false]
    rw [if_neg (by omega)]
    exact ⟨_, rfl⟩
  obtain ⟨s, hs⟩ := hcopy
  have hfirst : (queue.withIncoming fun request => queue.onRequest request fun r =>
      ((r.setMethod head.method).setLast (!head.keepAlive)).setHeadersBuffer memory.headers
        queue.bytes head.nread) = .ok (queue.store s) :=
    HTTPRequestQueue.onIncoming_eq_ok.mpr ⟨r, s, hr, hs, rfl⟩
  have hdrop : (queue.store s).dropHeaders head.nread memory.shrunk =
      .ok { queue.store s with buffer := none, bufferLength := 0 } := by
    exact if_pos hrest
  rw [HTTPRequestQueue.onHeadersComplete, hfirst, Outcome.bind_ok, hdrop, Outcome.bind_ok]
  split
  · have hcur : ({ queue.store s with buffer := none, bufferLength := 0 } :
        HTTPRequestQueue).current = some s :=
      HTTPRequestQueue.current_store s (HTTPRequestQueue.incomingIndex_lt hr)
    have hset : s.setBodyLength memory.body head.contentLength.toNat =
        .ok { s with body := some (List.replicate head.contentLength.toNat 0) } := by
      rw [HTTPRequest.setBodyLength, hb]
      rfl
    exact ⟨_, HTTPRequestQueue.onIncoming_eq_ok.mpr ⟨s, _, hcur, hset, rfl⟩⟩
  · exact ⟨_, rfl⟩

theorem setHeaderKeyRange_total (r : HTTPRequest) {index : Nat} (h : index < httpRequestMaxHeaders)
    (offset length : Nat) : ∃ s, r.setHeaderKeyRange index offset length = .ok s := by
  simp only [HTTPRequest.setHeaderKeyRange, dif_pos h]
  exact ⟨_, rfl⟩

theorem setHeaderValueRange_total (r : HTTPRequest) {index : Nat}
    (h : index < httpRequestMaxHeaders) (offset length : Nat) :
    ∃ s, r.setHeaderValueRange index offset length = .ok s := by
  simp only [HTTPRequest.setHeaderValueRange, dif_pos h]
  exact ⟨_, rfl⟩

/-- A callback of a delivery succeeds when its URL parses and its header has an entry. -/
theorem handle_total {xs : List Event} {phase next : Phase} {c : Callback} {m : Machine δ}
    (h : Delivered parseUrl block xs phase m) (hl : LocatedAfter xs (.callback c))
    (hd : DeliversAfter block xs (.callback c)) (hnext : phase.next c = some next)
    (hurl : ∀ pos data, c = .url pos data → (parseUrl data).isSome)
    (hentry : ∀ pos data, c = .headerField pos data ∨ c = .headerValue pos data →
      m.queue.currentHeader < httpRequestMaxHeaders) :
    ∃ q, handle parseUrl c m.input m.queue = .ok q := by
  have hcurrent : phase ≠ .idle → ∃ r, m.queue.current = some r := fun hne => by
    obtain ⟨r, hr, -⟩ := h.consistent.current hne
    exact ⟨r, hr⟩
  cases c with
  | messageBegin allocated =>
    obtain ⟨rfl, hnone⟩ := hd
    have hindex : m.queue.incomingIndex < maxRequests := by
      rw [h.consistent.completed, hnone]
      decide
    have hbegin : m.queue.onMessageBegin true = .ok (m.queue.store HTTPRequest.new) :=
      HTTPRequestQueue.withIncoming_eq_ok.mpr ⟨hindex, rfl⟩
    exact ⟨_, hbegin⟩
  | url pos data =>
    obtain ⟨rfl, -⟩ := Phase.next_url.mp hnext
    obtain ⟨r, hr⟩ := hcurrent (by simp)
    obtain ⟨fields, hfields⟩ := Option.isSome_iff_exists.mp (hurl pos data rfl)
    have honUrl : m.queue.onUrl parseUrl (m.input + pos) data =
        (m.queue.withIncoming fun request => m.queue.onRequest request fun r =>
          let offset := pointerDifference (m.input + pos) m.queue.base
          .ok (HTTPRequestQueue.setUrlFields offset fields
            (r.setUrlRange offset data.length))) := by
      simp only [HTTPRequestQueue.onUrl, hfields]
    exact ⟨_, honUrl.trans (HTTPRequestQueue.onIncoming_eq_ok.mpr ⟨r, _, hr, rfl, rfl⟩)⟩
  | headerField pos data =>
    obtain ⟨r, hr⟩ := hcurrent (Phase.next_headerField.mp hnext).1
    have hlt := hentry pos data (.inl rfl)
    obtain ⟨s, hs⟩ := setHeaderKeyRange_total r hlt
      (pointerDifference (m.input + pos) m.queue.base) data.length
    have honField : m.queue.onHeaderField (m.input + pos) data =
        (m.queue.withIncoming fun request => m.queue.onRequest request fun r =>
          r.setHeaderKeyRange m.queue.currentHeader
            (pointerDifference (m.input + pos) m.queue.base) data.length) := by
      simp only [HTTPRequestQueue.onHeaderField, if_neg (Nat.not_le_of_lt hlt)]
    exact ⟨_, honField.trans (HTTPRequestQueue.onIncoming_eq_ok.mpr ⟨r, s, hr, hs, rfl⟩)⟩
  | headerValue pos data =>
    obtain ⟨r, hr⟩ := hcurrent (Phase.next_headerValue.mp hnext).1
    obtain ⟨s, hs⟩ := setHeaderValueRange_total r (hentry pos data (.inr rfl))
      (pointerDifference (m.input + pos) m.queue.base) data.length
    have hset : (m.queue.withIncoming fun request => m.queue.onRequest request fun r =>
        r.setHeaderValueRange m.queue.currentHeader
          (pointerDifference (m.input + pos) m.queue.base) data.length) =
        .ok (m.queue.store s) :=
      HTTPRequestQueue.onIncoming_eq_ok.mpr ⟨r, s, hr, hs, rfl⟩
    exact ⟨_, Outcome.map_eq_ok.mpr ⟨_, hset, rfl⟩⟩
  | headersComplete pos head memory =>
    obtain ⟨rfl, -⟩ := Phase.next_headersComplete.mp hnext
    obtain ⟨r, hr⟩ := hcurrent (by simp)
    obtain ⟨hstream, -⟩ := h.delivering.ends hl hd
    obtain ⟨rfl, hh, hb, h0⟩ := hd
    refine onHeadersComplete_total hr ?_ ?_ hh hb
    · rw [h.tracks.bytes, h0, List.drop_zero, hstream, block.counted]
    · rw [h.tracks.length, h0, hstream, block.counted]
      simp
  | body pos data => exact absurd hd id
  | messageComplete pos =>
    obtain ⟨rfl, -⟩ := Phase.next_messageComplete.mp hnext
    have hindex : m.queue.incomingIndex = 0 :=
      h.consistent.completed.trans (h.delivering.inside (by simp)).2
    refine ⟨{ m.queue with incomingIndex := m.queue.incomingIndex + 1, currentHeader := 0 }, ?_⟩
    simp only [handle, HTTPRequestQueue.onMessageComplete]
    rw [dif_neg (by rw [hindex]; decide)]

/-- The new-request callback succeeds when the next request is there. -/
def Answers (notify : Machine δ → Result (Machine δ)) : Prop :=
  ∀ m r, m.queue.requests[m.queue.outgoingIndex]? = some (some r) → ∃ n, notify m = .ok n

theorem answers_ok : Answers (Outcome.ok : Machine δ → Result (Machine δ)) :=
  fun m _ _ => ⟨m, rfl⟩

theorem dispatch_total (ha : Answers notify) {xs : List Event} {phase next : Phase} {c : Callback}
    {m : Machine δ} {q : HTTPRequestQueue} (h : Delivered parseUrl block xs phase m)
    (hnext : phase.next c = some next) (hq : handle parseUrl c m.input m.queue = .ok q) :
    ∃ n, dispatch parseUrl notify c m = .ok n := by
  have hserved : (handle parseUrl c m.input m.queue).map m.setQueue = .ok (m.setQueue q) := by
    rw [hq, Outcome.map_ok]
  cases c with
  | messageComplete pos =>
    obtain ⟨rfl, -⟩ := Phase.next_messageComplete.mp hnext
    have hindex : m.queue.incomingIndex = 0 :=
      h.consistent.completed.trans (h.delivering.inside (by simp)).2
    have hout : m.queue.outgoingIndex = 0 := h.outgoing (.inr (by simp))
    obtain ⟨r, hr, -⟩ := h.consistent.current (by simp)
    obtain ⟨hi, hslot⟩ := HTTPRequestQueue.current_eq_some.mp hr
    obtain ⟨requests, rfl, hsame, -⟩ := HTTPRequestQueue.onMessageComplete_ok hq
    have hrequests : requests = m.queue.requests := hsame (by rw [hindex]; decide)
    have hthere : requests[m.queue.outgoingIndex]? = some (some r) := by
      rw [hrequests, hout, ← hindex, Vector.getElem?_eq_getElem hi, hslot]
    obtain ⟨n, hn⟩ := ha (m.setQueue { m.queue with
      requests := requests, incomingIndex := m.queue.incomingIndex + 1, currentHeader := 0 }) r
      hthere
    exact ⟨n, Outcome.bind_eq_ok.mpr ⟨_, hserved, hn⟩⟩
  | _ => exact ⟨_, hserved⟩

/-- A header is open while its tokens are read. -/
theorem entriesFrom_lt {headers : List HeaderMemoryRange} {front back : List Token} {t : Token}
    (key : MemoryRange) (h : headerTokens headers = front ++ t :: back) :
    (entriesFrom key front).length < headers.length := by
  induction headers generalizing front key with
  | nil => simp [headerTokens] at h
  | cons header headers ih =>
    cases front with
    | nil => simp [entriesFrom]
    | cons t₁ front =>
      simp only [headerTokens, List.flatMap_cons, List.cons_append, List.nil_append,
        List.cons.injEq] at h
      obtain ⟨rfl, h⟩ := h
      cases front with
      | nil => simp [entriesFrom]
      | cons t₂ front =>
        simp only [List.cons_append, List.cons.injEq] at h
        obtain ⟨rfl, h⟩ := h
        have := ih HTTPRequest.zeroRange h
        simp only [entriesFrom, List.length_cons]
        omega

theorem url_notMem_headerTokens (range : MemoryRange) (headers : List HeaderMemoryRange) :
    .url range ∉ headerTokens headers := by
  simp [headerTokens]

/-- What an uncut delivery reports next is the next element. -/
theorem Whole.next {calls : List Call} (hw : Whole block calls) {xs ys : List Event} {c : Callback}
    (he : calls.flatMap Call.events = xs ++ .callback c :: ys) {t : Token}
    (ht : c.token (cursor xs).callStart = some t) :
    ∃ rest, block.tokens = tokensOf xs ++ t :: rest := by
  obtain ⟨rest, hrest⟩ := tokensOf_front (xs ++ [.callback c]) ys
  refine ⟨rest, ?_⟩
  rw [← hw, he, ← List.singleton_append, ← List.append_assoc, hrest, tokensOf_concat]
  simp [Event.token, ht]

theorem Whole.url {calls : List Call} (hw : Whole block calls) {xs ys : List Event} {pos : Nat}
    {data : Bytes} (he : calls.flatMap Call.events = xs ++ .callback (.url pos data) :: ys) :
    block.url = ⟨(cursor xs).callStart + pos, data.length⟩ := by
  obtain ⟨rest, hrest⟩ := hw.next he rfl
  rw [HeaderBlock.tokens] at hrest
  cases hfront : tokensOf xs with
  | nil =>
    rw [hfront] at hrest
    simp only [List.nil_append, List.cons.injEq, Token.url.injEq] at hrest
    exact hrest.1
  | cons t₁ front =>
    rw [hfront] at hrest
    simp only [List.cons_append, List.cons.injEq] at hrest
    refine absurd ?_ (url_notMem_headerTokens ⟨(cursor xs).callStart + pos, data.length⟩
      block.headers)
    simp [hrest.2]

theorem Whole.entries_lt {calls : List Call} (hw : Whole block calls) {xs ys : List Event}
    {c : Callback} (he : calls.flatMap Call.events = xs ++ .callback c :: ys) {t : Token}
    (ht : c.token (cursor xs).callStart = some t) (hurl : ∀ range, t ≠ .url range) :
    (record parseUrl bytes (tokensOf xs)).entries.length < httpRequestMaxHeaders := by
  obtain ⟨rest, hrest⟩ := hw.next he ht
  rw [HeaderBlock.tokens] at hrest
  rw [entries_record]
  cases hfront : tokensOf xs with
  | nil =>
    rw [hfront] at hrest
    simp only [List.nil_append, List.cons.injEq] at hrest
    exact absurd hrest.1.symm (hurl _)
  | cons t₁ front =>
    rw [hfront] at hrest
    simp only [List.cons_append, List.cons.injEq] at hrest
    obtain ⟨rfl, hrest⟩ := hrest
    exact (entriesFrom_lt HTTPRequest.zeroRange hrest).trans_le block.fits

/-- The run lemma of progress: every front of an uncut delivery succeeds. -/
theorem run_total (hk : KeepsQueue notify) (hu : FieldsInside parseUrl) (ha : Answers notify)
    {calls : List Call} (hdel : Delivers block calls) (hw : Whole block calls)
    (hparse : (parseUrl (slice block.url.offset block.url.length block.bytes)).isSome)
    (input : Nat) (d : δ) {xs ys : List Event} (he : calls.flatMap Call.events = xs ++ ys) :
    ∃ m, run (step parseUrl notify) xs ⟨HTTPRequestQueue.new, input, d⟩ = .ok m := by
  induction xs using List.reverseRecOn generalizing ys with
  | nil => exact ⟨_, rfl⟩
  | append_singleton xs e ih =>
    have he' : calls.flatMap Call.events = xs ++ e :: ys := by simp [he]
    obtain ⟨m, hm⟩ := ih he'
    have hd := hdel.events xs e ys he'
    suffices hstep : ∃ n, step parseUrl notify e m = .ok n by
      obtain ⟨n, hn⟩ := hstep
      exact ⟨n, by rw [CallOutcome.run_concat, hm, Outcome.bind_ok, hn]⟩
    cases e with
    | append data resized =>
      obtain ⟨address, rfl⟩ := Option.isSome_iff_exists.mp hd
      exact ⟨_, rfl⟩
    | callback c =>
      obtain ⟨phase, hdelivered⟩ := delivered_run hk hu hdel he' hm
      obtain ⟨next, hnext⟩ := next_of_ordered (he' ▸ hdel.ordered) hdelivered.after
      have hopen : ∀ t, c.token (cursor xs).callStart = some t → (∀ range, t ≠ .url range) →
          (cursor xs).headEnd = 0 → phase ≠ .idle →
          m.queue.currentHeader < httpRequestMaxHeaders := by
        intro t ht hurl h0 hne
        obtain ⟨r, -, hmatch⟩ := hdelivered.collected.collecting (hdelivered.tracks.inHead h0 hne)
        rw [← hmatch.closed]
        exact hw.entries_lt he' ht hurl
      have hfirst : ∀ pos data, c = .url pos data → (parseUrl data).isSome := by
        rintro pos data rfl
        rw [hw.url he'] at hparse
        rw [hd.1]
        exact hparse
      have hentry : ∀ pos data, c = .headerField pos data ∨ c = .headerValue pos data →
          m.queue.currentHeader < httpRequestMaxHeaders := by
        rintro pos data (rfl | rfl)
        · exact hopen _ rfl (by simp) hd.2 (Phase.next_headerField.mp hnext).1
        · exact hopen _ rfl (by simp) hd.2 (Phase.next_headerValue.mp hnext).1
      obtain ⟨q, hq⟩ := handle_total hdelivered (hdel.located xs _ ys he') hd hnext hfirst hentry
      exact dispatch_total ha hdelivered hnext hq

/-- An uncut delivery returns 0 throughout and delivers a request. -/
theorem deliversRequest_of_whole (hk : KeepsQueue notify) (hu : FieldsInside parseUrl)
    (ha : Answers notify) {calls : List Call} (hdel : Delivers block calls)
    (hw : Whole block calls)
    (hparse : (parseUrl (slice block.url.offset block.url.length block.bytes)).isSome)
    (input : Nat) (d : δ) :
    ∃ r, DeliversRequest parseUrl notify ⟨HTTPRequestQueue.new, input, d⟩ calls r := by
  obtain ⟨m, hm⟩ := run_total hk hu ha hdel hw hparse input d (List.append_nil _).symm
  obtain ⟨phase, hdelivered⟩ := delivered_run hk hu hdel (List.append_nil _).symm hm
  obtain ⟨r, hr, -⟩ := hdelivered.collected.copied hdel.complete
  exact ⟨r, m, (run_appendData_accepted _ _ hdel.accepted _).trans hm, hr⟩

/-! ### Split independence -/

theorem SameRequest.symm {r s : HTTPRequest} (h : SameRequest r s) : SameRequest s r where
  method := h.method.symm
  url := h.url.symm
  urlField := fun field => (h.urlField field).symm
  headers := h.headers.symm
  value := fun name => (h.value name).symm

theorem Agree.symm {start : Machine δ} {calls calls' : List Call}
    (h : Agree parseUrl notify start calls calls') : Agree parseUrl notify start calls' calls := by
  obtain ⟨r, s, hr, hs, hsame⟩ := h
  exact ⟨s, r, hs, hr, hsame.symm⟩

/-- A way that agrees with an uncut one is uncut. -/
theorem Agree.whole (hk : KeepsQueue notify) (hu : FieldsInside parseUrl)
    {calls calls' : List Call} (hdel : Delivers block calls) (hdel' : Delivers block calls')
    {input : Nat} {d : δ}
    (h : Agree parseUrl notify ⟨HTTPRequestQueue.new, input, d⟩ calls calls')
    (hw : Whole block calls) : Whole block calls' := by
  obtain ⟨r, s, hr, hs, hsame⟩ := h
  have hcopied := copied_of_delivers hk hu hdel hr
  have hcopied' := copied_of_delivers hk hu hdel' hs
  obtain ⟨urls, headers, hurls, hheaders, htokens⟩ := hdel'.tokens
  rw [hw] at hcopied
  rw [htokens] at hcopied'
  rw [Whole, htokens]
  exact tokens_eq_of_same hurls hheaders hcopied' hcopied hsame.symm

/-- Two ways of cutting a header block, one of which cuts no element, agree
exactly when the other one cuts none either. -/
theorem agree_iff_whole (hk : KeepsQueue notify) (hu : FieldsInside parseUrl)
    (ha : Answers notify) {calls calls' : List Call} (hdel : Delivers block calls)
    (hdel' : Delivers block calls')
    (hparse : (parseUrl (slice block.url.offset block.url.length block.bytes)).isSome)
    (hone : Whole block calls ∨ Whole block calls') (input : Nat) (d : δ) :
    Agree parseUrl notify ⟨HTTPRequestQueue.new, input, d⟩ calls calls' ↔
      Whole block calls ∧ Whole block calls' := by
  constructor
  · intro h
    rcases hone with hw | hw
    · exact ⟨hw, h.whole hk hu hdel hdel' hw⟩
    · exact ⟨h.symm.whole hk hu hdel' hdel hw, hw⟩
  · rintro ⟨hw, hw'⟩
    obtain ⟨r, hr⟩ := deliversRequest_of_whole hk hu ha hdel hw hparse input d
    obtain ⟨s, hs⟩ := deliversRequest_of_whole hk hu ha hdel' hw' hparse input d
    have hcopied := copied_of_delivers hk hu hdel hr
    have hcopied' := copied_of_delivers hk hu hdel' hs
    rw [hw] at hcopied
    rw [hw'] at hcopied'
    exact ⟨r, s, hr, hs, same_of_record hcopied hcopied'⟩

/-- A header block with one header. -/
def hostBlock : HeaderBlock where
  bytes := ascii "GET / HTTP/1.1\r\nHost: abc\r\n\r\n"
  url := ⟨4, 1⟩
  headers := [⟨⟨16, 4⟩, ⟨22, 3⟩⟩]
  head := ⟨.get, 29, -1, true⟩
  fits := by decide
  counted := by decide +kernel
  nonempty := by decide +kernel

def hostInOneCall : Call where
  data := ascii "GET / HTTP/1.1\r\nHost: abc\r\n\r\n"
  resized := some 4096
  callbacks := [.messageBegin true, .url 4 (ascii "/"), .headerField 16 (ascii "Host"),
    .headerValue 22 (ascii "abc"), .headersComplete 29 ⟨.get, 29, -1, true⟩ ⟨true, none, true⟩,
    .messageComplete 29]
  accepted := true

/-- The block cut behind the request line. -/
def hostInOwnCall : List Call :=
  [{ data := ascii "GET / HTTP/1.1\r\n", resized := some 4096, accepted := true,
     callbacks := [.messageBegin true, .url 4 (ascii "/")] },
   { data := ascii "Host: abc\r\n\r\n", resized := some 8192, accepted := true,
     callbacks := [.headerField 0 (ascii "Host"), .headerValue 6 (ascii "abc"),
       .headersComplete 13 ⟨.get, 29, -1, true⟩ ⟨true, none, true⟩, .messageComplete 13] }]

/-- The block cut inside the value. -/
def hostValueInTwoCalls : List Call :=
  [{ data := ascii "GET / HTTP/1.1\r\nHost: ab", resized := some 4096, accepted := true,
     callbacks := [.messageBegin true, .url 4 (ascii "/"), .headerField 16 (ascii "Host"),
       .headerValue 22 (ascii "ab")] },
   { data := ascii "c\r\n\r\n", resized := some 8192, accepted := true,
     callbacks := [.headerValue 0 (ascii "c"),
       .headersComplete 5 ⟨.get, 29, -1, true⟩ ⟨true, none, true⟩, .messageComplete 5] }]

/-- An uncut way, without the tokens to check. -/
theorem delivers_of_whole {calls : List Call} (hw : Whole block calls)
    (hdata : calls.flatMap Call.data = block.bytes) (hacc : ∀ call ∈ calls, call.accepted = true)
    (ho : Ordered (calls.flatMap Call.events)) (hl : Located (calls.flatMap Call.events))
    (he : Guarded (DeliversAfter block) (calls.flatMap Call.events))
    (hc : (cursor (calls.flatMap Call.events)).headEnd ≠ 0) : Delivers block calls :=
  ⟨hdata, hacc, ho, hl, he, hc, [block.url], headerTokens block.headers, .whole _,
    headerTokens_pieces block.headers, hw⟩

theorem delivers_hostInOneCall : Delivers hostBlock [hostInOneCall] :=
  delivers_of_whole (by unfold Whole; decide +kernel) (by decide +kernel) (by decide)
    (by decide +kernel) (by decide +kernel) (by decide +kernel) (by decide +kernel)

theorem agree_hostInOwnCall :
    Agree parsePath Outcome.ok ⟨HTTPRequestQueue.new, 0, ()⟩ [hostInOneCall] hostInOwnCall ↔
      Whole hostBlock [hostInOneCall] ∧ Whole hostBlock hostInOwnCall :=
  agree_iff_whole keepsQueue_ok fieldsInside_parsePath answers_ok delivers_hostInOneCall
    (delivers_of_whole (by unfold Whole; decide +kernel) (by decide +kernel) (by decide)
      (by decide +kernel) (by decide +kernel) (by decide +kernel) (by decide +kernel))
    (by decide +kernel) (.inl (by unfold Whole; decide +kernel)) 0 ()

/-- A value cut in two is two headers, the second one without a name. -/
theorem disagree_hostValueInTwoCalls :
    Delivers hostBlock [hostInOneCall] ∧ Delivers hostBlock hostValueInTwoCalls ∧
    (parsePath (slice hostBlock.url.offset hostBlock.url.length hostBlock.bytes)).isSome ∧
    ¬ Agree parsePath Outcome.ok ⟨HTTPRequestQueue.new, 0, ()⟩ [hostInOneCall]
      hostValueInTwoCalls := by
  refine ⟨delivers_hostInOneCall, ?_, by decide +kernel, ?_⟩
  · refine ⟨by decide +kernel, by decide, by decide +kernel, by decide +kernel, by decide +kernel,
      by decide +kernel, [⟨4, 1⟩], [.field ⟨16, 4⟩, .value ⟨22, 2⟩, .value ⟨24, 1⟩], .whole _, ?_,
      by decide +kernel⟩
    exact .cons _ [] [⟨16, 4⟩] [⟨22, 2⟩, ⟨24, 1⟩] [] (.whole _)
      (.cut 22 2 1 _ (by decide) (.whole _)) .nil
  · rintro ⟨r, s, ⟨m, hm, hr⟩, ⟨n, hn, hs⟩, hsame⟩
    have hone : ∃ m, run (appendData parsePath Outcome.ok) [hostInOneCall]
        (⟨HTTPRequestQueue.new, 0, ()⟩ : Machine Unit) = .ok m ∧
        m.queue.requests[0].map HTTPRequest.headerStrings = some [(ascii "Host", ascii "abc")] :=
      Outcome.exists_of_toOption (by decide +kernel)
    have htwo : ∃ m, run (appendData parsePath Outcome.ok) hostValueInTwoCalls
        (⟨HTTPRequestQueue.new, 0, ()⟩ : Machine Unit) = .ok m ∧
        m.queue.requests[0].map HTTPRequest.headerStrings =
          some [(ascii "Host", ascii "ab"), ([], ascii "c")] :=
      Outcome.exists_of_toOption (by decide +kernel)
    obtain ⟨m', hm', hmh⟩ := hone
    obtain ⟨n', hn', hnh⟩ := htwo
    cases hm.symm.trans hm'
    cases hn.symm.trans hn'
    rw [hr, Option.map_some, Option.some.injEq] at hmh
    rw [hs, Option.map_some, Option.some.injEq, ← hsame.headers, hmh] at hnh
    exact absurd hnh (by decide +kernel)

end Rapp

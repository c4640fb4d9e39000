import Rapp.QueueRun

/-!
# Body reassembly

`on_headers_complete` allocates the body when the announced length is positive
as a signed number, `on_body` copies without a look at the storage. The copies
are safe and the body is whole exactly when every fragment belongs to a
message whose length passes that signed test.
-/
namespace Rapp

open CallOutcome (Outcome run IsRun Guarded)
open ByteBlock

variable {δ : Type}

/-- The announced length of the message under way and the body bytes of it
that `on_body` was given. -/
structure BodyProgress where
  contentLength : BitVec 64
  received : Bytes

def BodyProgress.next (p : BodyProgress) : Callback → BodyProgress
  | .headersComplete _ head _ => ⟨head.contentLength, []⟩
  | .body _ data => ⟨p.contentLength, p.received ++ data⟩
  | _ => p

def bodyProgress (es : List Event) : BodyProgress :=
  (callbacksOf es).foldl BodyProgress.next ⟨0, []⟩

@[simp] theorem bodyProgress_nil : bodyProgress [] = ⟨0, []⟩ := rfl

@[simp] theorem bodyProgress_append (es : List Event) (data : Bytes) (resized : Option Nat) :
    bodyProgress (es ++ [.append data resized]) = bodyProgress es := by
  simp [bodyProgress]

@[simp] theorem bodyProgress_callback (es : List Event) (c : Callback) :
    bodyProgress (es ++ [.callback c]) = (bodyProgress es).next c := by
  simp [bodyProgress]

/-- A fragment keeps to the announced Content-Length and a message ends when
it is reached. Without one (chunked, `ULLONG_MAX`) nothing is promised. -/
def FramedAfter (xs : List Event) : Event → Prop
  | .callback (.body _ data) => (bodyProgress xs).contentLength ≠ -1 →
      (bodyProgress xs).received.length + data.length ≤ (bodyProgress xs).contentLength.toNat
  | .callback (.messageComplete _) => (bodyProgress xs).contentLength ≠ -1 →
      (bodyProgress xs).received.length = (bodyProgress xs).contentLength.toNat
  | _ => True

/-- The body belongs to a message whose length is positive as an `int64_t`. -/
def PositiveAfter (xs : List Event) : Event → Prop
  | .callback (.body _ _) => 0 < (bodyProgress xs).contentLength.toInt
  | _ => True

/-- What the parser promises about the bodies of a run. -/
def Framed (es : List Event) : Prop := Guarded FramedAfter es

/-- Body bytes come only for messages whose length is positive as an `int64_t`. -/
def LengthsPositive (es : List Event) : Prop := Guarded PositiveAfter es

instance (xs : List Event) : (e : Event) → Decidable (FramedAfter xs e)
  | .callback (.body _ _) => inferInstanceAs (Decidable (_ ≠ _ → _ ≤ _))
  | .callback (.messageComplete _) => inferInstanceAs (Decidable (_ ≠ _ → _ = _))
  | .append _ _ | .callback (.messageBegin _) | .callback (.url _ _)
  | .callback (.headerField _ _) | .callback (.headerValue _ _)
  | .callback (.headersComplete _ _ _) => inferInstanceAs (Decidable True)

instance (es : List Event) : Decidable (Framed es) := inferInstanceAs (Decidable (Guarded _ _))

/-- Every copy stays inside the storage of the request, and a completed
message has the concatenation of its fragments as its body. -/
structure BodiesReassembled (step : Event → Machine δ → Result (Machine δ)) (start : Machine δ)
    (es : List Event) : Prop where
  inside : ∀ xs pos data ys m, es = xs ++ .callback (.body pos data) :: ys →
    run step xs start = .ok m → ∃ r storage, m.queue.current = some r ∧
      r.body = some storage ∧ r.bodyLength + data.length ≤ storage.length
  stored : ∀ xs pos ys m, es = xs ++ .callback (.messageComplete pos) :: ys →
    run step xs start = .ok m → ∃ r, m.queue.current = some r ∧
      r.body.getD [] = (bodyProgress xs).received

/-- The storage of a message past its header block. -/
inductive BodyFilled (p : BodyProgress) (r : HTTPRequest) : Prop where
  | allocated (storage : Bytes) (positive : 0 < p.contentLength.toInt)
      (body : r.body = some storage) (capacity : storage.length = p.contentLength.toNat)
      (fill : r.bodyLength = p.received.length)
      (content : storage.take r.bodyLength = p.received)
  | absent (negative : p.contentLength.toInt ≤ 0) (body : r.body = none)
      (fill : r.bodyLength = 0) (content : p.received = [])

variable {parseUrl : ParseUrl} {notify : Machine δ → Result (Machine δ)}

theorem BodyFilled.congr {p : BodyProgress} {r s : HTTPRequest} (h : BodyFilled p r)
    (hb : s.body = r.body) (hl : s.bodyLength = r.bodyLength) : BodyFilled p s := by
  cases h with
  | allocated storage positive body capacity fill content =>
    exact .allocated storage positive (hb.trans body) capacity (hl.trans fill) (hl ▸ content)
  | absent negative body fill content =>
    exact .absent negative (hb.trans body) (hl.trans fill) content

/-- One fragment that is copied extends the filled part. -/
theorem BodyFilled.append {p : BodyProgress} {r s : HTTPRequest} {pos : Nat} {data : Bytes}
    (h : BodyFilled p r) (hs : r.appendBodyData data = .ok s) :
    BodyFilled (p.next (.body pos data)) s := by
  obtain ⟨storage, hbody, hle, rfl⟩ := HTTPRequest.appendBodyData_ok hs
  cases h with
  | allocated storage' positive body capacity fill content =>
    cases hbody.symm.trans body
    refine .allocated (overwrite r.bodyLength data storage) positive rfl ?_ ?_ ?_
    · rw [length_overwrite hle, capacity, BodyProgress.next]
    · simp [BodyProgress.next, fill]
    · simp only [BodyProgress.next, take_overwrite hle, content]
  | absent negative body fill content => cases hbody.symm.trans body

/-- The step lemma. -/
theorem bodyFilled_handle {phase next : Phase} {es : List Event} {c : Callback} {input : Nat}
    {queue q : HTTPRequestQueue} (hcons : Consistent phase (callbacksOf es) queue)
    (hfill : phase = .body → ∃ r, queue.current = some r ∧ BodyFilled (bodyProgress es) r)
    (hp : phase.next c = some next) (hq : handle parseUrl c input queue = .ok q)
    (hnext : next = .body) :
    ∃ r, q.current = some r ∧ BodyFilled ((bodyProgress es).next c) r := by
  subst hnext
  cases c with
  | messageBegin allocated => simpa using Phase.next_messageBegin.mp hp
  | url pos data => simpa using Phase.next_url.mp hp
  | headerField pos data =>
    obtain ⟨r, s, hr, -, hs, rfl⟩ := HTTPRequestQueue.onHeaderField_ok hq
    obtain ⟨-, rfl⟩ := HTTPRequest.setHeaderKeyRange_ok hs
    obtain ⟨-, rfl⟩ := Phase.next_headerField.mp hp
    obtain ⟨r', hr', hf⟩ := hfill rfl
    cases hr.symm.trans hr'
    exact ⟨_, HTTPRequestQueue.store_current hr _, hf.congr rfl rfl⟩
  | headerValue pos data =>
    obtain ⟨r, s, hr, hs, rfl⟩ := HTTPRequestQueue.onHeaderValue_ok hq
    obtain ⟨-, rfl⟩ := HTTPRequest.setHeaderValueRange_ok hs
    obtain ⟨-, rfl⟩ := Phase.next_headerValue.mp hp
    obtain ⟨r', hr', hf⟩ := hfill rfl
    cases hr.symm.trans hr'
    exact ⟨_, HTTPRequestQueue.store_current hr _, hf.congr rfl rfl⟩
  | headersComplete pos head memory =>
    obtain ⟨r, s, t, q', hr, hs, hd, ht, rfl⟩ := HTTPRequestQueue.onHeadersComplete_ok hq
    obtain ⟨-, rfl⟩ := HTTPRequest.setHeadersBuffer_ok hs
    obtain ⟨buffer, rfl, -⟩ := HTTPRequestQueue.dropHeaders_ok hd
    obtain ⟨rfl, -⟩ := Phase.next_headersComplete.mp hp
    obtain ⟨r', hr', hbody, hlength⟩ := hcons.unfilled rfl
    cases hr.symm.trans hr'
    refine ⟨t, ?_, ?_⟩
    · exact HTTPRequestQueue.current_store t (HTTPRequestQueue.incomingIndex_lt hr :)
    · by_cases hpos : 0 < head.contentLength.toInt
      · rw [if_pos hpos] at ht
        rw [HTTPRequest.setBodyLength_ok ht]
        refine .allocated _ hpos rfl ?_ hlength ?_
        · simp [BodyProgress.next]
        · simp only [BodyProgress.next]
          exact hlength ▸ List.take_zero
      · rw [if_neg hpos] at ht
        rw [ht]
        exact .absent (by simpa [BodyProgress.next] using hpos) hbody hlength rfl
  | body pos data =>
    obtain ⟨r, s, hr, hs, rfl⟩ := HTTPRequestQueue.onBody_ok hq
    obtain ⟨rfl, -⟩ := Phase.next_body.mp hp
    obtain ⟨r', hr', hf⟩ := hfill rfl
    cases hr.symm.trans hr'
    exact ⟨s, HTTPRequestQueue.store_current hr s, hf.append hs⟩
  | messageComplete pos => simpa using Phase.next_messageComplete.mp hp

/-- The run lemma: past its header block every message has its storage filled
with what was received. -/
theorem bodyFilled_run (hk : KeepsQueue notify) {input : Nat} {d : δ} {es : List Event}
    {m : Machine δ} (ho : Ordered es)
    (h : run (step parseUrl notify) es ⟨HTTPRequestQueue.new, input, d⟩ = .ok m)
    (hphase : Phase.idle.after (callbacksOf es) = some .body) :
    ∃ r, m.queue.current = some r ∧ BodyFilled (bodyProgress es) r := by
  induction es using List.reverseRecOn generalizing m with
  | nil => cases hphase
  | append_singleton es e ih =>
    rw [CallOutcome.run_concat] at h
    obtain ⟨l, hl, he⟩ := Outcome.bind_eq_ok.mp h
    cases e with
    | append data resized =>
      obtain ⟨q, hq, rfl⟩ := Outcome.map_eq_ok.mp he
      obtain ⟨address, -, rfl⟩ := HTTPRequestQueue.grow_ok hq
      obtain ⟨r, hr, hfill⟩ := ih (ordered_front ho) hl (by simpa using hphase)
      rw [bodyProgress_append]
      exact ⟨r, hr, hfill⟩
    | callback c =>
      obtain ⟨phase, hphase', hcons⟩ := consistent_run hk (ordered_front ho) hl
      obtain ⟨-, q, k, hq, hn⟩ := dispatch_ok hk he
      have hnext : phase.next c = some .body := by
        simpa [Phase.after_concat, hphase'] using hphase
      have hfill : phase = .body → ∃ r, l.queue.current = some r ∧
          BodyFilled (bodyProgress es) r := by
        rintro rfl
        exact ih (ordered_front ho) hl hphase'
      obtain ⟨r, hr, hfill'⟩ := bodyFilled_handle hcons hfill hnext hq rfl
      rw [bodyProgress_callback, hn]
      exact ⟨r, hr, hfill'⟩

/-- The phase in which a body fragment or the end of a message arrives. -/
theorem after_of_ordered {xs ys : List Event} {c : Callback}
    (ho : Ordered (xs ++ .callback c :: ys)) (hc : ∀ phase next : Phase, phase.next c = some next →
      phase = .body) : Phase.idle.after (callbacksOf xs) = some .body := by
  obtain ⟨phase, hphase⟩ := Option.isSome_iff_exists.mp (ordered_front ho)
  obtain ⟨next, hnext⟩ := next_of_ordered ho hphase
  rw [hphase, hc phase next hnext]

theorem body_phase {pos : Nat} {data : Bytes} (phase next : Phase)
    (h : phase.next (.body pos data) = some next) : phase = .body :=
  (Phase.next_body.mp h).1

theorem messageComplete_phase {pos : Nat} (phase next : Phase)
    (h : phase.next (.messageComplete pos) = some next) : phase = .body :=
  (Phase.next_messageComplete.mp h).1

/-- In a run whose fragments are framed as the parser promises, every body is
copied inside its storage and stored whole if and only if no fragment belongs
to a message whose length is zero or negative as an `int64_t`. -/
theorem bodies_reassembled_iff (hk : KeepsQueue notify) (input : Nat) (d : δ) (calls : List Call)
    (ho : Ordered (calls.flatMap Call.events)) (hf : Framed (calls.flatMap Call.events))
    (hrun : IsRun (step parseUrl notify) ⟨HTTPRequestQueue.new, input, d⟩
      (calls.flatMap Call.events)) :
    BodiesReassembled (step parseUrl notify) ⟨HTTPRequestQueue.new, input, d⟩
      (calls.flatMap Call.events) ↔ LengthsPositive (calls.flatMap Call.events) := by
  generalize calls.flatMap Call.events = es at ho hf hrun
  have hfilled : ∀ xs c ys m, es = xs ++ .callback c :: ys →
      (∀ phase next : Phase, phase.next c = some next → phase = .body) →
      run (step parseUrl notify) xs ⟨HTTPRequestQueue.new, input, d⟩ = .ok m →
      ∃ r, m.queue.current = some r ∧ BodyFilled (bodyProgress xs) r :=
    fun xs c ys m he hc hm => bodyFilled_run hk (ordered_front (he ▸ ho)) hm
      (after_of_ordered (he ▸ ho) hc)
  constructor
  · intro hb xs e ys he
    match e with
    | .callback (.body pos data) =>
      obtain ⟨m, hm⟩ := hrun xs _ ys he
      obtain ⟨r, hr, hfill⟩ := hfilled xs _ ys m he body_phase hm
      obtain ⟨r', storage, hr', hbody, -⟩ := hb.inside xs pos data ys m he hm
      cases hr.symm.trans hr'
      cases hfill with
      | allocated storage' positive body capacity fill content => exact positive
      | absent negative body fill content => cases hbody.symm.trans body
    | .append _ _ => trivial
    | .callback (.messageBegin _) | .callback (.url _ _) | .callback (.headerField _ _)
    | .callback (.headerValue _ _) | .callback (.headersComplete _ _ _)
    | .callback (.messageComplete _) => trivial
  · intro hpos
    refine ⟨fun xs pos data ys m he hm => ?_, fun xs pos ys m he hm => ?_⟩
    · obtain ⟨r, hr, hfill⟩ := hfilled xs _ ys m he body_phase hm
      have hlt : 0 < (bodyProgress xs).contentLength.toInt := hpos xs _ ys he
      cases hfill with
      | absent negative body fill content => omega
      | allocated storage positive body capacity fill content =>
        have hne : (bodyProgress xs).contentLength ≠ -1 := fun h => by
          rw [h] at hlt
          exact absurd hlt (by decide)
        have hle := hf xs _ ys he hne
        exact ⟨r, storage, hr, body, by omega⟩
    · obtain ⟨r, hr, hfill⟩ := hfilled xs _ ys m he messageComplete_phase hm
      refine ⟨r, hr, ?_⟩
      cases hfill with
      | absent negative body fill content => rw [body, content]; rfl
      | allocated storage positive body capacity fill content =>
        have hne : (bodyProgress xs).contentLength ≠ -1 := fun h => by
          rw [h] at positive
          exact absurd positive (by decide)
        have hwhole := hf xs _ ys he hne
        rw [body, Option.getD_some, ← content, List.take_of_length_le (by omega)]

/-- A POST with a Content-Length whose body is cut in two. -/
def postInTwoCalls : List Call :=
  [{ data := ascii "POST / HTTP/1.1\r\nContent-Length: 3\r\n\r\nab", resized := some 4096
     callbacks := [.messageBegin true, .url 5 (ascii "/"), .headerField 17 (ascii "Content-Length"),
      .headerValue 33 (ascii "3"), .headersComplete 38 ⟨.post, 38, 3, true⟩ ⟨true, some 4096, true⟩,
      .body 38 (ascii "ab")]
     accepted := true },
   { data := ascii "c", resized := some 4096
     callbacks := [.body 0 (ascii "c"), .messageComplete 1], accepted := true }]

theorem bodies_reassembled_postInTwoCalls :
    BodiesReassembled (step parsePath Outcome.ok) ⟨HTTPRequestQueue.new, 0, ()⟩
      (postInTwoCalls.flatMap Call.events) ↔
        LengthsPositive (postInTwoCalls.flatMap Call.events) := by
  have hrun : ∃ m, run (step parsePath Outcome.ok) (postInTwoCalls.flatMap Call.events)
      ⟨HTTPRequestQueue.new, 0, ()⟩ = .ok m ∧ m.queue.incomingIndex = 1 :=
    Outcome.exists_of_toOption (by decide +kernel)
  obtain ⟨m, hm, -⟩ := hrun
  exact bodies_reassembled_iff keepsQueue_ok 0 () postInTwoCalls (by decide) (by decide +kernel)
    (CallOutcome.isRun_of_ok _ hm)

/-- A chunked POST, its header block in one call and its first chunk in another. -/
def chunkedPost : List Call :=
  [{ data := ascii "POST / HTTP/1.1\r\nTransfer-Encoding: chunked\r\n\r\n", resized := some 4096
     callbacks := [.messageBegin true, .url 5 (ascii "/"),
      .headerField 17 (ascii "Transfer-Encoding"), .headerValue 36 (ascii "chunked"),
      .headersComplete 47 ⟨.post, 47, -1, true⟩ ⟨true, none, true⟩]
     accepted := true },
   { data := ascii "2\r\nab\r\n", resized := some 4096
     callbacks := [.body 3 (ascii "ab")], accepted := true }]

/-- The chunk is copied to a NULL body. -/
theorem bodies_lost_chunkedPost :
    Ordered (chunkedPost.flatMap Call.events) ∧ Framed (chunkedPost.flatMap Call.events) ∧
    IsRun (step parsePath Outcome.ok) ⟨HTTPRequestQueue.new, 0, ()⟩
      (chunkedPost.flatMap Call.events) ∧
    ¬ BodiesReassembled (step parsePath Outcome.ok) ⟨HTTPRequestQueue.new, 0, ()⟩
      (chunkedPost.flatMap Call.events) := by
  have hsplit : chunkedPost.flatMap Call.events =
      (chunkedPost.flatMap Call.events).take 7 ++ [.callback (.body 3 (ascii "ab"))] := by
    decide +kernel
  have hrun : ∃ m, run (step parsePath Outcome.ok) ((chunkedPost.flatMap Call.events).take 7)
      ⟨HTTPRequestQueue.new, 0, ()⟩ = .ok m ∧ m.queue.current.map (·.body) = some none :=
    Outcome.exists_of_toOption (by decide +kernel)
  obtain ⟨m, hm, hbody⟩ := hrun
  refine ⟨by decide, by decide +kernel, ?_, fun hsafe => ?_⟩
  · rw [hsplit]
    exact CallOutcome.isRun_concat _ hm _
  · obtain ⟨r, storage, hr, hs, -⟩ := hsafe.inside _ _ _ [] m hsplit hm
    rw [hr, Option.map_some, hs] at hbody
    cases hbody

end Rapp

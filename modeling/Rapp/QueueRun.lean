import Rapp.HttpRequestQueue

/-!
# Runs of the request queue

What every run keeps, whatever the stream and however it is cut: the slot of
the message under way holds a request, and both header counters count the
header values reported for it. The new-request callback is a parameter; the
queue is opaque to it but for `http_request_queue_get_next_request`.
-/
namespace Rapp

open CallOutcome (Outcome run run_guarded Guarded)
open ByteBlock

variable {δ : Type}

/-- The new-request callback moves the outgoing index of the queue at most. -/
def KeepsQueue (notify : Machine δ → Result (Machine δ)) : Prop :=
  ∀ m n, notify m = .ok n →
    n.input = m.input ∧ ∃ k, n.queue = { m.queue with outgoingIndex := k }

/-- Without a new-request callback nothing is invoked. -/
theorem keepsQueue_ok : KeepsQueue (Outcome.ok : Machine δ → Result (Machine δ)) := by
  rintro m n ⟨⟩
  exact ⟨rfl, _, rfl⟩

def callbacksOf (es : List Event) : List Callback :=
  es.filterMap fun e => match e with | .callback c => some c | .append _ _ => none

@[simp] theorem callbacksOf_nil : callbacksOf [] = [] := rfl
@[simp] theorem callbacksOf_append (xs ys : List Event) :
    callbacksOf (xs ++ ys) = callbacksOf xs ++ callbacksOf ys := by simp [callbacksOf]
@[simp] theorem callbacksOf_data (data : Bytes) (resized : Option Nat) :
    callbacksOf [.append data resized] = [] := rfl
@[simp] theorem callbacksOf_callback (c : Callback) : callbacksOf [.callback c] = [c] := rfl

/-- The callbacks come in the documented order. -/
def Ordered (es : List Event) : Prop := (Phase.idle.after (callbacksOf es)).isSome

instance (es : List Event) : Decidable (Ordered es) :=
  inferInstanceAs (Decidable ((Phase.idle.after (callbacksOf es)).isSome = true))

theorem ordered_front {xs ys : List Event} (h : Ordered (xs ++ ys)) : Ordered xs := by
  rw [Ordered, callbacksOf_append] at h
  exact Phase.after_front h

theorem next_of_ordered {xs ys : List Event} {c : Callback} {phase : Phase}
    (ho : Ordered (xs ++ .callback c :: ys))
    (h : Phase.idle.after (callbacksOf xs) = some phase) : ∃ next, phase.next c = some next := by
  rw [Ordered, callbacksOf_append] at ho
  exact Phase.next_of_after ho h

/-- What the queue looks like after the callbacks `cs`, the parser in `phase`. -/
structure Consistent (phase : Phase) (cs : List Callback) (queue : HTTPRequestQueue) : Prop where
  completed : queue.incomingIndex = messagesCompleted cs
  values : queue.currentHeader = valuesInMessage cs
  between : phase = .idle → queue.currentHeader = 0
  current : phase ≠ .idle → ∃ r, queue.current = some r ∧ r.currentHeader = queue.currentHeader
  unfilled : phase = .head → ∃ r, queue.current = some r ∧ r.body = none ∧ r.bodyLength = 0

@[simp] theorem valuesInMessage_nil : valuesInMessage [] = 0 := rfl

@[simp] theorem valuesInMessage_concat (cs : List Callback) (c : Callback) :
    valuesInMessage (cs ++ [c]) = match c with
      | .headerValue _ _ => valuesInMessage cs + 1
      | .messageComplete _ => 0
      | _ => valuesInMessage cs := by
  cases c <;> simp [valuesInMessage]

@[simp] theorem messagesCompleted_concat (cs : List Callback) (c : Callback) :
    messagesCompleted (cs ++ [c]) = match c with
      | .messageComplete _ => messagesCompleted cs + 1
      | _ => messagesCompleted cs := by
  cases c <;> simp [messagesCompleted, List.countP_append]

theorem consistent_new : Consistent .idle [] HTTPRequestQueue.new where
  completed := rfl
  values := rfl
  between := fun _ => rfl
  current := fun h => absurd rfl h
  unfilled := fun h => by cases h

/-- Nothing of it depends on the outgoing index, the buffer or its length. -/
theorem Consistent.congr {phase : Phase} {cs : List Callback} {queue next : HTTPRequestQueue}
    (h : Consistent phase cs queue) (hr : next.requests = queue.requests)
    (hi : next.incomingIndex = queue.incomingIndex)
    (hc : next.currentHeader = queue.currentHeader) : Consistent phase cs next := by
  have hcur := HTTPRequestQueue.current_congr hr hi
  exact ⟨hi.trans h.completed, hc.trans h.values, fun hp => hc.trans (h.between hp),
    fun hp => by rw [hcur, hc]; exact h.current hp, fun hp => by rw [hcur]; exact h.unfilled hp⟩

variable {parseUrl : ParseUrl}

/-- One lemma for the callbacks that change only the record of the message under way. -/
theorem Consistent.store {phase next : Phase} {cs : List Callback} {c : Callback}
    {queue : HTTPRequestQueue} (h : Consistent phase cs queue) {r s : HTTPRequest}
    (hr : queue.current = some r) (hs : s.currentHeader = queue.currentHeader)
    (hbody : next = .head → s.body = none ∧ s.bodyLength = 0) (hn : next ≠ .idle)
    (hv : valuesInMessage (cs ++ [c]) = valuesInMessage cs)
    (hm : messagesCompleted (cs ++ [c]) = messagesCompleted cs) :
    Consistent next (cs ++ [c]) (queue.store s) where
  completed := by rw [hm]; exact h.completed
  values := by rw [hv]; exact h.values
  between := fun hp => absurd hp hn
  current := fun _ => ⟨s, HTTPRequestQueue.store_current hr s, hs⟩
  unfilled := fun hp => ⟨s, HTTPRequestQueue.store_current hr s, hbody hp⟩

/-- The step lemma: every callback in the documented order keeps the queue consistent. -/
theorem consistent_handle {phase next : Phase} {cs : List Callback} {c : Callback} {input : Nat}
    {queue q : HTTPRequestQueue} (h : Consistent phase cs queue) (hp : phase.next c = some next)
    (hq : handle parseUrl c input queue = .ok q) : Consistent next (cs ++ [c]) q := by
  cases c with
  | messageBegin allocated =>
    obtain ⟨hi, rfl⟩ := HTTPRequestQueue.onMessageBegin_ok hq
    obtain ⟨rfl, rfl⟩ := Phase.next_messageBegin.mp hp
    have hcur := HTTPRequestQueue.current_store HTTPRequest.new hi
    refine ⟨?_, ?_, by simp, fun _ => ⟨_, hcur, ?_⟩, fun _ => ⟨_, hcur, rfl, rfl⟩⟩
    · simpa using h.completed
    · simpa using h.values
    · exact (h.between rfl).symm
  | url pos data =>
    obtain ⟨r, fields, hr, -, rfl⟩ := HTTPRequestQueue.onUrl_ok hq
    obtain ⟨rfl, rfl⟩ := Phase.next_url.mp hp
    obtain ⟨r', hr', hc⟩ := h.current (by simp)
    obtain ⟨r'', hr'', hb⟩ := h.unfilled rfl
    cases hr.symm.trans hr'
    cases hr.symm.trans hr''
    refine h.store hr ?_ (fun _ => ?_) (by simp) (by simp) (by simp)
    · rw [HTTPRequestQueue.setUrlFields_eq]; exact hc
    · rw [HTTPRequestQueue.setUrlFields_eq]; exact hb
  | headerField pos data =>
    obtain ⟨r, s, hr, -, hs, rfl⟩ := HTTPRequestQueue.onHeaderField_ok hq
    obtain ⟨-, rfl⟩ := HTTPRequest.setHeaderKeyRange_ok hs
    obtain ⟨hne, rfl⟩ := Phase.next_headerField.mp hp
    obtain ⟨r', hr', hc⟩ := h.current hne
    cases hr.symm.trans hr'
    refine h.store hr hc (fun hn => ?_) hne (by simp) (by simp)
    obtain ⟨r'', hr'', hb⟩ := h.unfilled hn
    cases hr.symm.trans hr''
    exact hb
  | headerValue pos data =>
    obtain ⟨r, s, hr, hs, rfl⟩ := HTTPRequestQueue.onHeaderValue_ok hq
    obtain ⟨-, rfl⟩ := HTTPRequest.setHeaderValueRange_ok hs
    obtain ⟨hne, rfl⟩ := Phase.next_headerValue.mp hp
    obtain ⟨r', hr', hc⟩ := h.current hne
    cases hr.symm.trans hr'
    have hcur := HTTPRequestQueue.store_current hr
    refine ⟨by simpa using h.completed, by simpa using h.values, fun hn => absurd hn hne,
      fun _ => ⟨_, hcur _, by simpa using hc⟩, fun hn => ?_⟩
    obtain ⟨r'', hr'', hb⟩ := h.unfilled hn
    cases hr.symm.trans hr''
    exact ⟨_, hcur _, hb⟩
  | headersComplete pos head memory =>
    obtain ⟨r, s, t, q', hr, hs, hd, ht, rfl⟩ := HTTPRequestQueue.onHeadersComplete_ok hq
    obtain ⟨-, rfl⟩ := HTTPRequest.setHeadersBuffer_ok hs
    obtain ⟨rfl, rfl⟩ := Phase.next_headersComplete.mp hp
    obtain ⟨r', hr', hc⟩ := h.current (by simp)
    cases hr.symm.trans hr'
    have htc : t.currentHeader = queue.currentHeader := by
      split at ht
      · rw [HTTPRequest.setBodyLength_ok ht]; exact hc
      · rw [ht]; exact hc
    have hstored : Consistent .body (cs ++ [.headersComplete pos head memory]) (queue.store t) :=
      h.store hr htc (by simp) (by simp) (by simp) (by simp)
    obtain ⟨buffer, rfl, -⟩ := HTTPRequestQueue.dropHeaders_ok hd
    refine hstored.congr ?_ rfl rfl
    simp [HTTPRequestQueue.store, Vector.setIfInBounds_setIfInBounds]
  | body pos data =>
    obtain ⟨r, s, hr, hs, rfl⟩ := HTTPRequestQueue.onBody_ok hq
    obtain ⟨storage, -, -, rfl⟩ := HTTPRequest.appendBodyData_ok hs
    obtain ⟨rfl, rfl⟩ := Phase.next_body.mp hp
    obtain ⟨r', hr', hc⟩ := h.current (by simp)
    cases hr.symm.trans hr'
    exact h.store hr hc (by simp) (by simp) (by simp) (by simp)
  | messageComplete pos =>
    obtain ⟨requests, rfl, -, -⟩ := HTTPRequestQueue.onMessageComplete_ok hq
    obtain ⟨rfl, rfl⟩ := Phase.next_messageComplete.mp hp
    exact ⟨by simpa using h.completed, by simp, fun _ => rfl, fun hi => absurd rfl hi, by simp⟩

/-- Header values counted by one callback. -/
def Callback.countsValue : Callback → Nat
  | .headerValue _ _ => 1
  | _ => 0

theorem valuesInMessage_le (cs : List Callback) (c : Callback) :
    valuesInMessage (cs ++ [c]) ≤ valuesInMessage cs + c.countsValue := by
  cases c <;> simp [Callback.countsValue]

/-- A callback writes at most the incoming slot, with a fresh record or with
the one that was there and one more header when it reports a value. -/
theorem handle_requests {c : Callback} {input : Nat} {queue q : HTTPRequestQueue}
    (h : handle parseUrl c input queue = .ok q) :
    q.requests = queue.requests ∨ ∃ s,
      q.requests = queue.requests.setIfInBounds queue.incomingIndex (some s) ∧
      (s = HTTPRequest.new ∨ ∃ r, queue.current = some r ∧
        s.currentHeader = r.currentHeader + c.countsValue) := by
  cases c with
  | messageBegin allocated =>
    obtain ⟨-, rfl⟩ := HTTPRequestQueue.onMessageBegin_ok h
    exact .inr ⟨_, rfl, .inl rfl⟩
  | url pos data =>
    obtain ⟨r, fields, hr, -, rfl⟩ := HTTPRequestQueue.onUrl_ok h
    exact .inr ⟨_, rfl, .inr ⟨r, hr, by rw [HTTPRequestQueue.setUrlFields_eq]; rfl⟩⟩
  | headerField pos data =>
    obtain ⟨r, s, hr, -, hs, rfl⟩ := HTTPRequestQueue.onHeaderField_ok h
    obtain ⟨-, rfl⟩ := HTTPRequest.setHeaderKeyRange_ok hs
    exact .inr ⟨_, rfl, .inr ⟨r, hr, rfl⟩⟩
  | headerValue pos data =>
    obtain ⟨r, s, hr, hs, rfl⟩ := HTTPRequestQueue.onHeaderValue_ok h
    obtain ⟨-, rfl⟩ := HTTPRequest.setHeaderValueRange_ok hs
    exact .inr ⟨_, rfl, .inr ⟨r, hr, rfl⟩⟩
  | headersComplete pos head memory =>
    obtain ⟨r, s, t, q', hr, hs, hd, ht, rfl⟩ := HTTPRequestQueue.onHeadersComplete_ok h
    obtain ⟨-, rfl⟩ := HTTPRequest.setHeadersBuffer_ok hs
    obtain ⟨buffer, rfl, -⟩ := HTTPRequestQueue.dropHeaders_ok hd
    have htc : t.currentHeader = r.currentHeader := by
      split at ht
      · rw [HTTPRequest.setBodyLength_ok ht]; rfl
      · rw [ht]; rfl
    refine .inr ⟨t, ?_, .inr ⟨r, hr, htc⟩⟩
    simp [HTTPRequestQueue.store, Vector.setIfInBounds_setIfInBounds]
  | body pos data =>
    obtain ⟨r, s, hr, hs, rfl⟩ := HTTPRequestQueue.onBody_ok h
    obtain ⟨storage, -, -, rfl⟩ := HTTPRequest.appendBodyData_ok hs
    exact .inr ⟨_, rfl, .inr ⟨r, hr, rfl⟩⟩
  | messageComplete pos =>
    obtain ⟨requests, rfl, hsame, hlast⟩ := HTTPRequestQueue.onMessageComplete_ok h
    by_cases hl : queue.incomingIndex + 1 = maxRequests
    · obtain ⟨r, hr, he⟩ := hlast hl
      exact .inr ⟨_, he, .inr ⟨r, hr, rfl⟩⟩
    · exact .inl (hsame hl)

theorem handle_outgoing {c : Callback} {input : Nat} {queue q : HTTPRequestQueue}
    (h : handle parseUrl c input queue = .ok q) : q.outgoingIndex = queue.outgoingIndex := by
  cases c with
  | messageBegin allocated =>
    obtain ⟨-, rfl⟩ := HTTPRequestQueue.onMessageBegin_ok h
    rfl
  | url pos data =>
    obtain ⟨r, fields, -, -, rfl⟩ := HTTPRequestQueue.onUrl_ok h
    rfl
  | headerField pos data =>
    obtain ⟨r, s, -, -, -, rfl⟩ := HTTPRequestQueue.onHeaderField_ok h
    rfl
  | headerValue pos data =>
    obtain ⟨r, s, -, -, rfl⟩ := HTTPRequestQueue.onHeaderValue_ok h
    rfl
  | headersComplete pos head memory =>
    obtain ⟨r, s, t, q', -, -, hd, -, rfl⟩ := HTTPRequestQueue.onHeadersComplete_ok h
    obtain ⟨buffer, rfl, -⟩ := HTTPRequestQueue.dropHeaders_ok hd
    rfl
  | body pos data =>
    obtain ⟨r, s, -, -, rfl⟩ := HTTPRequestQueue.onBody_ok h
    rfl
  | messageComplete pos =>
    obtain ⟨requests, rfl, -⟩ := HTTPRequestQueue.onMessageComplete_ok h
    rfl

variable {notify : Machine δ → Result (Machine δ)}

/-- What a served callback did to the queue, whatever the new-request callback is. -/
theorem dispatch_ok (hk : KeepsQueue notify) {c : Callback} {m n : Machine δ}
    (h : dispatch parseUrl notify c m = .ok n) :
    n.input = m.input ∧ ∃ q k, handle parseUrl c m.input m.queue = .ok q ∧
      n.queue = { q with outgoingIndex := k } := by
  have hserved : ∀ {l}, (handle parseUrl c m.input m.queue).map m.setQueue = .ok l →
      l.input = m.input ∧ ∃ q, handle parseUrl c m.input m.queue = .ok q ∧ l.queue = q := by
    intro l hl
    obtain ⟨q, hq, rfl⟩ := Outcome.map_eq_ok.mp hl
    exact ⟨rfl, q, hq, rfl⟩
  cases c with
  | messageComplete pos =>
    obtain ⟨l, hl, hn⟩ := Outcome.bind_eq_ok.mp h
    obtain ⟨hi, q, hq, rfl⟩ := hserved hl
    obtain ⟨hi', k, hnq⟩ := hk l n hn
    exact ⟨hi'.trans hi, l.queue, k, hq, hnq⟩
  | _ =>
    obtain ⟨hi, q, hq, rfl⟩ := hserved h
    exact ⟨hi, _, _, hq, rfl⟩

/-- Only the new-request callback moves the outgoing index. -/
theorem dispatch_outgoing {c : Callback} {m n : Machine δ} (hc : ∀ pos, c ≠ .messageComplete pos)
    (h : dispatch parseUrl notify c m = .ok n) :
    n.queue.outgoingIndex = m.queue.outgoingIndex := by
  cases c with
  | messageComplete pos => exact absurd rfl (hc pos)
  | _ =>
    obtain ⟨q, hq, rfl⟩ := Outcome.map_eq_ok.mp h
    exact handle_outgoing hq

theorem consistent_dispatch (hk : KeepsQueue notify) {phase next : Phase} {cs : List Callback}
    {c : Callback} {m n : Machine δ} (h : Consistent phase cs m.queue)
    (hp : phase.next c = some next) (hn : dispatch parseUrl notify c m = .ok n) :
    Consistent next (cs ++ [c]) n.queue := by
  obtain ⟨-, q, k, hq, he⟩ := dispatch_ok hk hn
  exact he ▸ (consistent_handle h hp hq).congr rfl rfl rfl

/-- The run lemma: after every run whose callbacks come in the documented
order the parser is in some phase and the queue is consistent with it. -/
theorem consistent_run (hk : KeepsQueue notify) {d : δ} {input : Nat} {es : List Event}
    {m : Machine δ} (ho : Ordered es)
    (h : run (step parseUrl notify) es ⟨HTTPRequestQueue.new, input, d⟩ = .ok m) :
    ∃ phase, Phase.idle.after (callbacksOf es) = some phase ∧
      Consistent phase (callbacksOf es) m.queue := by
  induction es using List.reverseRecOn generalizing m with
  | nil =>
    cases h
    exact ⟨.idle, rfl, consistent_new⟩
  | append_singleton es e ih =>
    rw [CallOutcome.run_concat] at h
    obtain ⟨l, hl, he⟩ := Outcome.bind_eq_ok.mp h
    obtain ⟨phase, hphase, hcons⟩ := ih (ordered_front ho) hl
    cases e with
    | append data resized =>
      obtain ⟨q, hq, rfl⟩ := Outcome.map_eq_ok.mp he
      obtain ⟨address, -, rfl⟩ := HTTPRequestQueue.grow_ok hq
      have hdata : callbacksOf (es ++ [.append data resized]) = callbacksOf es := by simp
      rw [hdata]
      exact ⟨phase, hphase, hcons.congr rfl rfl rfl⟩
    | callback c =>
      obtain ⟨next, hnext⟩ := next_of_ordered ho hphase
      rw [callbacksOf_append, callbacksOf_callback]
      exact ⟨next, by simp [Phase.after_concat, hphase, hnext],
        consistent_dispatch hk hcons hnext he⟩

end Rapp

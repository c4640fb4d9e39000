import Rapp.QueueRun

/-!
# The header table

`on_header_field` guards the index, `on_header_value` does not and advances
both counters. The table is safe in a run exactly when no message is given
more header values than the table has entries.
-/
namespace Rapp

open CallOutcome (Outcome run IsRun)
open ByteBlock

variable {δ : Type}

/-- The index a callback uses to write `headers_ranges`. -/
def headerIndex (queue : HTTPRequestQueue) : Callback → Option Nat
  | .headerField _ _ =>
    if httpRequestMaxHeaders ≤ queue.currentHeader then none else some queue.currentHeader
  | .headerValue _ _ => some queue.currentHeader
  | _ => none

/-- In every state the events reach, no request counts more headers than the
table holds, the request under way and the queue agree, and the next callback
writes inside the table. -/
structure HeaderTableSafe (step : Event → Machine δ → Result (Machine δ)) (start : Machine δ)
    (es : List Event) : Prop where
  index : ∀ xs c ys m, es = xs ++ .callback c :: ys → run step xs start = .ok m →
    ∀ i, headerIndex m.queue c = some i → i < httpRequestMaxHeaders
  counted : ∀ xs ys m, es = xs ++ ys → run step xs start = .ok m →
    ∀ (i : Nat) (r : HTTPRequest), m.queue.requests[i]? = some (some r) →
      r.currentHeader ≤ httpRequestMaxHeaders
  agree : ∀ xs ys m phase, es = xs ++ ys → run step xs start = .ok m →
    Phase.idle.after (callbacksOf xs) = some phase → phase ≠ .idle →
    ∃ r, m.queue.current = some r ∧ r.currentHeader = m.queue.currentHeader

/-- No message is given more header values than the table has entries. -/
def ValuesFit (es : List Event) : Prop :=
  ∀ xs ys, es = xs ++ ys → valuesInMessage (callbacksOf xs) ≤ httpRequestMaxHeaders

variable {parseUrl : ParseUrl} {notify : Machine δ → Result (Machine δ)}

/-- No request of the queue counts more headers than the table holds. -/
def Counted (queue : HTTPRequestQueue) : Prop :=
  ∀ (i : Nat) (r : HTTPRequest), queue.requests[i]? = some (some r) →
    r.currentHeader ≤ httpRequestMaxHeaders

theorem counted_new : Counted HTTPRequestQueue.new := by
  intro i r h
  simp [HTTPRequestQueue.new, Vector.getElem?_replicate] at h

theorem counted_handle {phase next : Phase} {cs : List Callback} {c : Callback} {input : Nat}
    {queue q : HTTPRequestQueue} (hc : Counted queue) (hcons : Consistent phase cs queue)
    (hp : phase.next c = some next)
    (hfit : valuesInMessage cs + c.countsValue ≤ httpRequestMaxHeaders)
    (hq : handle parseUrl c input queue = .ok q) : Counted q := by
  intro i r hr
  rcases handle_requests hq with he | ⟨s, he, hs⟩
  · exact hc i r (he ▸ hr)
  · rw [he, Vector.getElem?_setIfInBounds] at hr
    split at hr
    · split at hr
      · cases hr
        rcases hs with rfl | ⟨r', hr', hs⟩
        · exact Nat.zero_le _
        · rw [hs]
          by_cases hv : c.countsValue = 0
          · obtain ⟨hi, hcur⟩ := HTTPRequestQueue.current_eq_some.mp hr'
            have := hc queue.incomingIndex r' (by simp [hi, hcur])
            omega
          · have hne : phase ≠ .idle := by
              rintro rfl
              cases c <;> simp [Callback.countsValue, Phase.next] at hv hp
            obtain ⟨r'', hr'', hcount⟩ := hcons.current hne
            cases hr'.symm.trans hr''
            rw [hcount, hcons.values]
            exact hfit
      · cases hr
    · exact hc i r hr

/-- In a consistent queue the index used is the number of values reported. -/
theorem headerIndex_lt_iff {phase : Phase} {cs : List Callback} {queue : HTTPRequestQueue}
    (h : Consistent phase cs queue) (c : Callback) :
    (∀ i, headerIndex queue c = some i → i < httpRequestMaxHeaders) ↔
      (c.countsValue = 0 ∨ valuesInMessage cs + c.countsValue ≤ httpRequestMaxHeaders) := by
  cases c with
  | headerValue pos data =>
    simp only [headerIndex, Option.some.injEq, forall_eq', Callback.countsValue, h.values]
    omega
  | headerField pos data =>
    simp only [headerIndex, Callback.countsValue, true_or, iff_true]
    intro i hi
    split at hi
    · cases hi
    · cases hi; omega
  | _ => simp [headerIndex, Callback.countsValue]

theorem valuesFit_front {xs ys : List Event} (h : ValuesFit (xs ++ ys)) : ValuesFit xs :=
  fun us vs he => h us (vs ++ ys) (by simp [he])

/-- A value that is reported next finds room. -/
theorem ValuesFit.callback {xs ys : List Event} {c : Callback}
    (h : ValuesFit (xs ++ .callback c :: ys)) :
    valuesInMessage (callbacksOf xs) + c.countsValue ≤ httpRequestMaxHeaders := by
  have hbefore := h xs _ rfl
  have hafter := h (xs ++ [.callback c]) ys (by simp)
  rw [callbacksOf_append, callbacksOf_callback, valuesInMessage_concat] at hafter
  cases c with
  | headerValue pos data => exact hafter
  | _ => exact hbefore

/-- The run lemma for the counters of all requests. -/
theorem counted_run (hk : KeepsQueue notify) {input : Nat} {d : δ} {es : List Event}
    {m : Machine δ} (ho : Ordered es) (hfit : ValuesFit es)
    (h : run (step parseUrl notify) es ⟨HTTPRequestQueue.new, input, d⟩ = .ok m) :
    Counted m.queue := by
  induction es using List.reverseRecOn generalizing m with
  | nil =>
    cases h
    exact counted_new
  | append_singleton es e ih =>
    rw [CallOutcome.run_concat] at h
    obtain ⟨l, hl, he⟩ := Outcome.bind_eq_ok.mp h
    have hcounted := ih (ordered_front ho) (valuesFit_front hfit) hl
    cases e with
    | append data resized =>
      obtain ⟨q, hq, rfl⟩ := Outcome.map_eq_ok.mp he
      obtain ⟨address, -, rfl⟩ := HTTPRequestQueue.grow_ok hq
      exact hcounted
    | callback c =>
      obtain ⟨phase, hphase, hcons⟩ := consistent_run hk (ordered_front ho) hl
      obtain ⟨-, q, k, hq, hn⟩ := dispatch_ok hk he
      obtain ⟨next, hnext⟩ := next_of_ordered ho hphase
      have hq' : Counted q := counted_handle hcounted hcons hnext hfit.callback hq
      rw [hn]
      exact hq'

/-- The header table is safe in a run of append calls if and only if every
message of the run gets at most `HTTP_REQUEST_MAX_HEADERS` header values. -/
theorem headerTable_safe_iff (hk : KeepsQueue notify) (input : Nat) (d : δ) (calls : List Call)
    (ho : Ordered (calls.flatMap Call.events))
    (hrun : IsRun (step parseUrl notify) ⟨HTTPRequestQueue.new, input, d⟩
      (calls.flatMap Call.events)) :
    HeaderTableSafe (step parseUrl notify) ⟨HTTPRequestQueue.new, input, d⟩
      (calls.flatMap Call.events) ↔ ValuesFit (calls.flatMap Call.events) := by
  generalize calls.flatMap Call.events = es at ho hrun
  have hcons : ∀ xs ys m, es = xs ++ ys →
      run (step parseUrl notify) xs ⟨HTTPRequestQueue.new, input, d⟩ = .ok m →
      ∃ phase, Phase.idle.after (callbacksOf xs) = some phase ∧
        Consistent phase (callbacksOf xs) m.queue :=
    fun xs ys m he h => consistent_run hk (ordered_front (he ▸ ho)) h
  constructor
  · intro hsafe xs
    induction xs using List.reverseRecOn with
    | nil => intro ys he; simp
    | append_singleton xs e ih =>
      intro ys he
      have he' : es = xs ++ e :: ys := by simp [he]
      have hle := ih (e :: ys) he'
      obtain ⟨m, hm⟩ := hrun xs e ys he'
      obtain ⟨phase, -, hm'⟩ := hcons xs (e :: ys) m he' hm
      cases e with
      | append data resized => simpa using hle
      | callback c =>
        rw [callbacksOf_append, callbacksOf_callback]
        have hlt := (headerIndex_lt_iff hm' c).mp (hsafe.index xs c ys m he' hm)
        have := valuesInMessage_le (callbacksOf xs) c
        rcases hlt with h0 | hlt <;> omega
  · intro hfit
    refine ⟨?_, ?_, ?_⟩
    · intro xs c ys m he hm
      obtain ⟨phase, -, hm'⟩ := hcons xs _ m he hm
      rw [he] at hfit
      exact (headerIndex_lt_iff hm' c).mpr (.inr hfit.callback)
    · intro xs ys m he hm
      subst he
      exact counted_run hk (ordered_front ho) (valuesFit_front hfit) hm
    · intro xs ys m phase he hm hphase hne
      obtain ⟨phase', hphase', hm'⟩ := hcons xs ys m he hm
      cases hphase.symm.trans hphase'
      exact hm'.current hne

/-- `GET / HTTP/1.1` with one header, in one call. -/
def getWithHeader : Call where
  data := ascii "GET / HTTP/1.1\r\nA: b\r\n\r\n"
  resized := some 4096
  callbacks := [.messageBegin true, .url 4 (ascii "/"), .headerField 16 (ascii "A"),
    .headerValue 19 (ascii "b"),
    .headersComplete 24 ⟨.get, 24, -1, true⟩ ⟨true, none, true⟩, .messageComplete 24]
  accepted := true

theorem headerTable_safe_getWithHeader :
    HeaderTableSafe (step parsePath Outcome.ok) ⟨HTTPRequestQueue.new, 0, ()⟩
        ([getWithHeader].flatMap Call.events) ↔
      ValuesFit ([getWithHeader].flatMap Call.events) := by
  have hrun : ∃ m, run (step parsePath Outcome.ok) ([getWithHeader].flatMap Call.events)
      ⟨HTTPRequestQueue.new, 0, ()⟩ = .ok m ∧ m.queue.incomingIndex = 1 :=
    Outcome.exists_of_toOption (by decide +kernel)
  obtain ⟨m, hm, -⟩ := hrun
  exact headerTable_safe_iff keepsQueue_ok 0 () [getWithHeader] (by decide)
    (CallOutcome.isRun_of_ok _ hm)

/-- One header value that arrives byte by byte: the first call ends behind
its first byte, each further call is one byte of it. -/
def valueByteByByte (calls : Nat) : List Call :=
  { data := ascii "GET / HTTP/1.1\r\nA: b", resized := some 4096, accepted := true,
    callbacks := [.messageBegin true, .url 4 (ascii "/"), .headerField 16 (ascii "A"),
      .headerValue 19 (ascii "b")] } ::
  List.replicate calls
    { data := ascii "b", resized := some 4096, accepted := true,
      callbacks := [.headerValue 0 (ascii "b")] }

/-- The 101st fragment of a single header is written behind the table. -/
theorem headerTable_unsafe_valueByteByByte :
    Ordered ((valueByteByByte 100).flatMap Call.events) ∧
    IsRun (step parsePath Outcome.ok) ⟨HTTPRequestQueue.new, 0, ()⟩
      ((valueByteByByte 100).flatMap Call.events) ∧
    ¬ HeaderTableSafe (step parsePath Outcome.ok) ⟨HTTPRequestQueue.new, 0, ()⟩
      ((valueByteByByte 100).flatMap Call.events) := by
  have hsplit : (valueByteByByte 100).flatMap Call.events =
      ((valueByteByByte 99).flatMap Call.events ++ [.append (ascii "b") (some 4096)]) ++
        [.callback (.headerValue 0 (ascii "b"))] := by decide +kernel
  have hrun : ∃ m, run (step parsePath Outcome.ok)
      ((valueByteByByte 99).flatMap Call.events ++ [.append (ascii "b") (some 4096)])
      ⟨HTTPRequestQueue.new, 0, ()⟩ = .ok m ∧ m.queue.currentHeader = 100 :=
    Outcome.exists_of_toOption (by decide +kernel)
  obtain ⟨m, hm, hcount⟩ := hrun
  refine ⟨by decide +kernel, ?_, fun hsafe => ?_⟩
  · rw [hsplit]
    exact CallOutcome.isRun_concat _ hm _
  · exact absurd (hsafe.index _ _ [] m hsplit hm 100 (by simp [headerIndex, hcount]))
      (by decide)

end Rapp

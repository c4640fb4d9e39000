import Rapp.HttpConnection

/-!
# The request cap

The 100th request and every request of a client that wants no other are marked
last. Nothing stops the parser after one: the cap holds exactly when no
message begins after a last one has completed.
-/
namespace Rapp

open CallOutcome (Outcome run)
open ByteBlock

/-- The `last` marks of the messages completed, in order, and whether the
message under way keeps the connection alive. -/
structure LastMarks where
  marks : List Bool
  keepAlive : Bool

def LastMarks.next (l : LastMarks) : Callback → LastMarks
  | .headersComplete _ head _ => { l with keepAlive := head.keepAlive }
  | .messageComplete _ =>
    { l with marks := l.marks ++ [!l.keepAlive || l.marks.length + 1 == maxRequests] }
  | _ => l

def lastMarks (cs : List Callback) : LastMarks := cs.foldl LastMarks.next ⟨[], true⟩

@[simp] theorem lastMarks_nil : lastMarks [] = ⟨[], true⟩ := rfl

@[simp] theorem lastMarks_concat (cs : List Callback) (c : Callback) :
    lastMarks (cs ++ [c]) = (lastMarks cs).next c := by
  simp [lastMarks]

/-- The messages begun so far. -/
def messagesBegun (cs : List Callback) : Nat :=
  cs.countP fun c => match c with | .messageBegin _ => true | _ => false

@[simp] theorem messagesBegun_concat (cs : List Callback) (c : Callback) :
    messagesBegun (cs ++ [c]) = match c with
      | .messageBegin _ => messagesBegun cs + 1
      | _ => messagesBegun cs := by
  cases c <;> simp [messagesBegun, List.countP_append]

/-- The indices into `queue->requests` that a callback uses, the new-request
callback included. -/
def requestIndices (queue : HTTPRequestQueue) : Callback → List Nat
  | .messageComplete _ =>
    (if queue.incomingIndex + 1 = maxRequests then [queue.incomingIndex] else []) ++
      [queue.outgoingIndex]
  | _ => [queue.incomingIndex]

/-- A request marked last has completed. -/
def LastCompleted (queue : HTTPRequestQueue) : Prop :=
  ∃ i r, i < queue.incomingIndex ∧ queue.requests[i]? = some (some r) ∧ r.isLast = true

namespace HTTPConnection

/-- The callbacks of all input a connection reads. -/
def callbacks (es : List ConnectionEvent) : List Callback :=
  es.flatMap fun e => match e with | .read (.got call) => call.callbacks | _ => []

section Run

variable (parseUrl : ParseUrl) (serve : Serve)

/-- In a run from `start` the callback is served in state `n`, behind the
callbacks `before`. -/
def Serves (start : HTTPConnection) (es : List ConnectionEvent) (before : List Callback)
    (c : Callback) (n : HTTPConnection) : Prop :=
  ∃ xs call ys m cs ds, es = xs ++ .read (.got call) :: ys ∧
    run (step parseUrl serve) xs start = .ok m ∧ call.callbacks = cs ++ c :: ds ∧
    run (Rapp.step parseUrl (onNewRequest serve))
      (.append call.data call.resized :: cs.map .callback) m = .ok n ∧
    before = callbacks xs ++ cs

/-- At most `MAX_REQUESTS` requests are begun, once a last one has completed
nothing is stored, parsed or served any more, and every index is in range. -/
structure RequestCap (start : HTTPConnection) (es : List ConnectionEvent) : Prop where
  begun : ∀ before c n, Serves parseUrl serve start es before c n →
    messagesBegun (before ++ [c]) ≤ maxRequests
  stop : ∀ before c n, Serves parseUrl serve start es before c n → ¬ LastCompleted n.queue
  index : ∀ before c n, Serves parseUrl serve start es before c n →
    ∀ i ∈ requestIndices n.queue c, i < maxRequests

/-- What the parser promises: callbacks come in the documented order, each is
served, and none comes after a call that failed. -/
structure WellDriven (start : HTTPConnection) (es : List ConnectionEvent) : Prop where
  ordered : (Phase.idle.after (callbacks es)).isSome
  served : ∀ before c after, callbacks es = before ++ c :: after →
    ∃ n, Serves parseUrl serve start es before c n
  stopped : ∀ xs call ys m n, es = xs ++ .read (.got call) :: ys →
    run (step parseUrl serve) xs start = .ok m →
    appendData parseUrl (onNewRequest serve) call m = .failed n → callbacks ys = []

end Run

/-- No message begins after one that was not kept alive, or after the 100th. -/
def NoneBegunAfterLast (es : List ConnectionEvent) : Prop :=
  ∀ before allocated after, callbacks es = before ++ .messageBegin allocated :: after →
    true ∉ (lastMarks before).marks

end HTTPConnection

/-! ### The marks -/

theorem length_marks (cs : List Callback) : (lastMarks cs).marks.length = messagesCompleted cs := by
  induction cs using List.reverseRecOn with
  | nil => rfl
  | append_singleton cs c ih =>
    cases c <;> simp [LastMarks.next, ih]

/-- Without a last mark the cap has not been reached. -/
theorem completed_lt_of_no_last {cs : List Callback} (h : true ∉ (lastMarks cs).marks) :
    messagesCompleted cs < maxRequests := by
  induction cs using List.reverseRecOn with
  | nil => decide
  | append_singleton cs c ih =>
    cases c with
    | messageComplete pos =>
      simp only [lastMarks_concat, LastMarks.next, List.mem_append, List.mem_singleton,
        not_or] at h
      have hlt := ih h.1
      have hne : (lastMarks cs).marks.length + 1 ≠ maxRequests := fun he => by
        simp [he] at h
      rw [length_marks] at hne
      simp only [messagesCompleted_concat]
      omega
    | _ => simpa using ih (by simpa [LastMarks.next] using h)

/-- Between two messages as many have begun as have completed, inside one there is one more. -/
theorem messagesBegun_eq {cs : List Callback} {phase : Phase}
    (h : Phase.idle.after cs = some phase) :
    messagesBegun cs = messagesCompleted cs + if phase = .idle then 0 else 1 := by
  induction cs using List.reverseRecOn generalizing phase with
  | nil => cases h; rfl
  | append_singleton cs c ih =>
    rw [Phase.after_concat] at h
    obtain ⟨p, hp, hnext⟩ := Option.bind_eq_some_iff.mp h
    have hbefore := ih hp
    cases c <;> cases p <;> cases hnext <;> simp_all

/-- Inside a message no last one has completed, if none begins after one. -/
theorem no_last_of_noneBegun {cs : List Callback} {phase : Phase}
    (hnone : ∀ before allocated after, cs = before ++ .messageBegin allocated :: after →
      true ∉ (lastMarks before).marks)
    (h : Phase.idle.after cs = some phase) (hne : phase ≠ .idle) :
    true ∉ (lastMarks cs).marks := by
  induction cs using List.reverseRecOn generalizing phase with
  | nil => simp
  | append_singleton cs c ih =>
    rw [Phase.after_concat] at h
    obtain ⟨p, hp, hnext⟩ := Option.bind_eq_some_iff.mp h
    have ih' := ih (fun before allocated after he =>
      hnone before allocated (after ++ [c]) (by simp [he])) hp
    rw [lastMarks_concat]
    cases c with
    | messageBegin allocated => exact hnone cs allocated [] rfl
    | messageComplete pos => exact absurd (Phase.next_messageComplete.mp hnext).2 hne
    | _ =>
      refine ih' fun hidle => ?_
      subst hidle
      simp [Phase.next] at hnext

/-! ### The queue of a connection -/

/-- The queue after the callbacks `before`: every completed request is in its
slot with its mark, and every completed request has been handed out. -/
structure Capped (before : List Callback) (queue : HTTPRequestQueue) : Prop where
  consistent : ∃ phase, Phase.idle.after before = some phase ∧ Consistent phase before queue ∧
    (phase = .body → ∃ r, queue.current = some r ∧ r.isLast = !(lastMarks before).keepAlive)
  slots : ∀ (i : Nat) (mark : Bool), (lastMarks before).marks[i]? = some mark →
    ∃ r : HTTPRequest, queue.requests[i]? = some (some r) ∧ r.isLast = mark
  outgoing : queue.outgoingIndex = queue.incomingIndex

theorem capped_new : Capped [] HTTPRequestQueue.new where
  consistent := ⟨.idle, rfl, consistent_new, nofun⟩
  slots := by simp
  outgoing := rfl

variable {parseUrl : ParseUrl} {serve : Serve}

/-- Past its header block the record under way says whether it is the client's last. -/
theorem handle_last {phase : Phase} {before : List Callback} {c : Callback} {input : Nat}
    {queue q : HTTPRequestQueue}
    (hlast : phase = .body →
      ∃ r, queue.current = some r ∧ r.isLast = !(lastMarks before).keepAlive)
    (hp : phase.next c = some .body) (h : handle parseUrl c input queue = .ok q) :
    ∃ r, q.current = some r ∧ r.isLast = !((lastMarks before).next c).keepAlive := by
  cases c with
  | messageBegin allocated => simpa using Phase.next_messageBegin.mp hp
  | url pos data => simpa using Phase.next_url.mp hp
  | headerField pos data =>
    obtain ⟨r, s, hr, -, hs, rfl⟩ := HTTPRequestQueue.onHeaderField_ok h
    obtain ⟨-, rfl⟩ := HTTPRequest.setHeaderKeyRange_ok hs
    obtain ⟨-, rfl⟩ := Phase.next_headerField.mp hp
    obtain ⟨r', hr', hl⟩ := hlast rfl
    cases hr.symm.trans hr'
    exact ⟨_, HTTPRequestQueue.store_current hr _, hl⟩
  | headerValue pos data =>
    obtain ⟨r, s, hr, hs, rfl⟩ := HTTPRequestQueue.onHeaderValue_ok h
    obtain ⟨-, rfl⟩ := HTTPRequest.setHeaderValueRange_ok hs
    obtain ⟨-, rfl⟩ := Phase.next_headerValue.mp hp
    obtain ⟨r', hr', hl⟩ := hlast rfl
    cases hr.symm.trans hr'
    exact ⟨_, HTTPRequestQueue.store_current hr _, hl⟩
  | headersComplete pos head memory =>
    obtain ⟨r, s, t, q', hr, hs, hd, ht, rfl⟩ := HTTPRequestQueue.onHeadersComplete_ok h
    obtain ⟨-, rfl⟩ := HTTPRequest.setHeadersBuffer_ok hs
    obtain ⟨buffer, rfl, -⟩ := HTTPRequestQueue.dropHeaders_ok hd
    refine ⟨t, HTTPRequestQueue.current_store t (HTTPRequestQueue.incomingIndex_lt hr :), ?_⟩
    split at ht
    · rw [HTTPRequest.setBodyLength_ok ht]
      rfl
    · rw [ht]
      rfl
  | body pos data =>
    obtain ⟨r, s, hr, hs, rfl⟩ := HTTPRequestQueue.onBody_ok h
    obtain ⟨storage, -, -, rfl⟩ := HTTPRequest.appendBodyData_ok hs
    obtain ⟨rfl, -⟩ := Phase.next_body.mp hp
    obtain ⟨r', hr', hl⟩ := hlast rfl
    cases hr.symm.trans hr'
    exact ⟨_, HTTPRequestQueue.store_current hr _, hl⟩
  | messageComplete pos => simpa using Phase.next_messageComplete.mp hp

/-- A completed message leaves its mark in its slot. -/
theorem slots_handle {before : List Callback} {c : Callback} {input : Nat}
    {queue q : HTTPRequestQueue} (hc : Capped before queue)
    (ho : (Phase.idle.after (before ++ [c])).isSome)
    (h : handle parseUrl c input queue = .ok q) (i : Nat) (mark : Bool)
    (hmark : ((lastMarks before).next c).marks[i]? = some mark) :
    ∃ r : HTTPRequest, q.requests[i]? = some (some r) ∧ r.isLast = mark := by
  obtain ⟨phase, hphase, hcons, hlast⟩ := hc.consistent
  have hincoming : queue.incomingIndex = (lastMarks before).marks.length := by
    rw [hcons.completed, length_marks]
  -- the slots of completed requests are not written
  have hold : ∀ mark, (lastMarks before).marks[i]? = some mark →
      ∃ r : HTTPRequest, q.requests[i]? = some (some r) ∧ r.isLast = mark := by
    intro mark hm
    obtain ⟨r, hr, hl⟩ := hc.slots i mark hm
    have hne : queue.incomingIndex ≠ i := by
      have := (List.getElem?_eq_some_iff.mp hm).1
      omega
    rcases handle_requests h with he | ⟨s, he, -⟩
    · exact ⟨r, he ▸ hr, hl⟩
    · exact ⟨r, by rw [he, Vector.getElem?_setIfInBounds_ne hne]; exact hr, hl⟩
  cases c with
  | messageComplete pos =>
    simp only [LastMarks.next, List.getElem?_append] at hmark
    split at hmark
    · exact hold mark hmark
    · rename_i hge
      obtain ⟨hi, hm⟩ := List.getElem?_eq_some_iff.mp hmark
      have hi' : i = queue.incomingIndex := by
        simp only [List.length_singleton] at hi
        omega
      subst hi'
      have hbody : phase = .body := by
        obtain ⟨next, hnext⟩ := Phase.next_of_after ho hphase
        exact (Phase.next_messageComplete.mp hnext).1
      obtain ⟨r, hr, hl⟩ := hlast hbody
      obtain ⟨hlt, hslot⟩ := HTTPRequestQueue.current_eq_some.mp hr
      obtain ⟨requests, rfl, hsame, hfull⟩ := HTTPRequestQueue.onMessageComplete_ok h
      have hmark' : mark = (!(lastMarks before).keepAlive ||
          (lastMarks before).marks.length + 1 == maxRequests) := by
        rw [← hm]
        simp [← hincoming]
      by_cases hcap : queue.incomingIndex + 1 = maxRequests
      · obtain ⟨r', hr', he⟩ := hfull hcap
        refine ⟨r'.setLast true, ?_, ?_⟩
        · simp [he, hlt]
        · rw [hmark', ← hincoming, hcap]
          simp [HTTPRequest.setLast]
      · refine ⟨r, ?_, ?_⟩
        · simp [hsame hcap, hlt, hslot]
        · rw [hmark', ← hincoming, hl]
          simp [hcap]
  | _ => exact hold mark hmark

namespace HTTPConnection

/-- The step lemma: one callback of a connection. -/
theorem capped_dispatch {before : List Callback} {c : Callback} {m n : HTTPConnection}
    (hc : Capped before m.queue) (ho : (Phase.idle.after (before ++ [c])).isSome)
    (h : dispatch parseUrl (onNewRequest serve) c m = .ok n) :
    Capped (before ++ [c]) n.queue := by
  obtain ⟨phase, hphase, hcons, hlast⟩ := hc.consistent
  obtain ⟨next, hnext⟩ := Phase.next_of_after ho hphase
  obtain ⟨-, q, k, hq, hn⟩ := dispatch_ok keepsQueue_onNewRequest h
  refine ⟨⟨next, ?_, consistent_dispatch keepsQueue_onNewRequest hcons hnext h, ?_⟩, ?_, ?_⟩
  · simp [Phase.after_concat, hphase, hnext]
  · rintro rfl
    obtain ⟨r, hr, hl⟩ := handle_last hlast hnext hq
    rw [lastMarks_concat, hn]
    exact ⟨r, hr, hl⟩
  · intro i mark hmark
    rw [lastMarks_concat] at hmark
    rw [hn]
    exact slots_handle hc ho hq i mark hmark
  · cases c with
    | messageComplete pos =>
      obtain ⟨l, hl, hserved⟩ := Outcome.bind_eq_ok.mp h
      obtain ⟨q', hq', rfl⟩ := Outcome.map_eq_ok.mp hl
      obtain ⟨request, queue, hget, rfl⟩ := onNewRequest_ok hserved
      obtain ⟨-, -, rfl⟩ := HTTPRequestQueue.getNextRequest_ok hget
      obtain ⟨requests, rfl, -⟩ := HTTPRequestQueue.onMessageComplete_ok hq'
      exact congrArg (· + 1) hc.outgoing
    | _ =>
      obtain ⟨q', hq', rfl⟩ := Outcome.map_eq_ok.mp h
      have hout := handle_outgoing hq'
      have hin : q'.incomingIndex = m.queue.incomingIndex := by
        have hafter := (consistent_handle hcons hnext hq').completed
        rw [hafter, hcons.completed]
        simp
      exact hout.trans (hc.outgoing.trans hin.symm)

theorem Capped.congr {before : List Callback} {queue next : HTTPRequestQueue}
    (h : Capped before queue) (hr : next.requests = queue.requests)
    (hi : next.incomingIndex = queue.incomingIndex)
    (ho : next.outgoingIndex = queue.outgoingIndex)
    (hc : next.currentHeader = queue.currentHeader) : Capped before next := by
  obtain ⟨phase, hphase, hcons, hlast⟩ := h.consistent
  refine ⟨⟨phase, hphase, hcons.congr hr hi hc, ?_⟩, ?_, ?_⟩
  · rw [HTTPRequestQueue.current_congr hr hi]
    exact hlast
  · rw [hr]
    exact h.slots
  · rw [ho, hi]
    exact h.outgoing

/-- Callbacks of one call, one by one. -/
theorem capped_callbacks {before cs : List Callback} {data : Bytes} {resized : Option Nat}
    {m n : HTTPConnection} (hc : Capped before m.queue)
    (ho : (Phase.idle.after (before ++ cs)).isSome)
    (h : run (Rapp.step parseUrl (onNewRequest serve))
      (.append data resized :: cs.map .callback) m = .ok n) :
    Capped (before ++ cs) n.queue := by
  induction cs using List.reverseRecOn generalizing n with
  | nil =>
    obtain ⟨l, hl, hln⟩ := Outcome.bind_eq_ok.mp h
    cases hln
    obtain ⟨q, hq, rfl⟩ := Outcome.map_eq_ok.mp hl
    obtain ⟨address, -, rfl⟩ := HTTPRequestQueue.grow_ok hq
    rw [List.append_nil]
    exact Capped.congr hc rfl rfl rfl rfl
  | append_singleton cs c ih =>
    rw [List.map_append, ← List.cons_append] at h
    rw [List.map_singleton, CallOutcome.run_concat] at h
    obtain ⟨l, hl, hln⟩ := Outcome.bind_eq_ok.mp h
    rw [← List.append_assoc] at ho ⊢
    exact capped_dispatch (ih (Phase.after_front ho) hl) ho hln

@[simp] theorem callbacks_append (xs ys : List ConnectionEvent) :
    callbacks (xs ++ ys) = callbacks xs ++ callbacks ys := by
  simp [callbacks]

theorem callbacks_cons (e : ConnectionEvent) (es : List ConnectionEvent) :
    callbacks (e :: es) = callbacks [e] ++ callbacks es := by
  simp [callbacks]

@[simp] theorem callbacks_got (call : Call) :
    callbacks [.read (.got call)] = call.callbacks := by
  simp [callbacks]

/-- Only input changes the request queue. -/
theorem step_queue {e : ConnectionEvent} {m n : HTTPConnection}
    (h : m.step parseUrl serve e = .ok n) :
    (∃ call, e = .read (.got call)) ∨ callbacks [e] = [] ∧ n.queue = m.queue := by
  cases e with
  | read result =>
    cases result with
    | got call => exact .inl ⟨call, rfl⟩
    | _ => cases h; exact .inr ⟨rfl, rfl⟩
  | write shrunk result =>
    refine .inr ⟨rfl, ?_⟩
    simp only [step, onWrite] at h
    split at h
    · cases h
    · split at h
      · cases h; rfl
      · split at h <;> (cases h; rfl)
  | close => cases h; exact .inr ⟨rfl, rfl⟩
  | append piece => cases h; exact .inr ⟨rfl, rfl⟩

/-- The run lemma: as long as more callbacks are to come, no call has failed
and the queue is as the callbacks so far have made it. -/
theorem capped_run {serverName : Bytes} {es xs ys : List ConnectionEvent} {m : HTTPConnection}
    (h : WellDriven parseUrl serve (new serverName) es) (he : es = xs ++ ys)
    (hmore : callbacks ys ≠ [])
    (hm : run (step parseUrl serve) xs (new serverName) = .ok m) :
    Capped (callbacks xs) m.queue := by
  induction xs using List.reverseRecOn generalizing ys m with
  | nil =>
    cases hm
    exact capped_new
  | append_singleton xs e ih =>
    have he' : es = xs ++ e :: ys := by simp [he]
    rw [CallOutcome.run_concat] at hm
    obtain ⟨l, hl, hlm⟩ := Outcome.bind_eq_ok.mp hm
    have hcapped := ih he' (by simp [callbacks_cons e ys, hmore]) hl
    rw [callbacks_append]
    rcases step_queue hlm with ⟨call, rfl⟩ | ⟨hnone, hqueue⟩
    · rw [callbacks_got]
      rcases Outcome.recover_eq_ok.mp hlm with hok | ⟨k, hk, -⟩
      · obtain ⟨k, hk, hkm⟩ := Outcome.bind_eq_ok.mp hok
        have ho : (Phase.idle.after (callbacks xs ++ call.callbacks)).isSome := by
          have := h.ordered
          rw [he', callbacks_append, callbacks_cons, callbacks_got, ← List.append_assoc] at this
          exact Phase.after_front this
        have hkm' : k = m := by
          split at hkm
          · exact Outcome.ok.inj hkm
          · cases hkm
        rw [← hkm']
        exact capped_callbacks hcapped ho hk
      · exact absurd (h.stopped xs call ys l k he' hl hk) hmore
    · rw [hnone, List.append_nil, hqueue]
      exact hcapped

/-- The queue in which a callback is served. -/
theorem capped_serves {serverName : Bytes} {es : List ConnectionEvent} {before : List Callback}
    {c : Callback} {n : HTTPConnection} (h : WellDriven parseUrl serve (new serverName) es)
    (hs : Serves parseUrl serve (new serverName) es before c n) :
    Capped before n.queue ∧ ∃ after, callbacks es = before ++ c :: after := by
  obtain ⟨xs, call, ys, m, cs, ds, he, hm, hcall, hn, rfl⟩ := hs
  have hall : callbacks es = callbacks xs ++ cs ++ c :: (ds ++ callbacks ys) := by
    rw [he, callbacks_append, callbacks_cons, callbacks_got, hcall]
    simp
  refine ⟨capped_callbacks (capped_run h he ?_ hm) ?_ hn, _, hall⟩
  · rw [callbacks_cons, callbacks_got, hcall]
    simp
  · have := h.ordered
    rw [hall] at this
    exact Phase.after_front this

/-- The callback that is served is one that may come in the phase before it. -/
theorem next_of_serves {serverName : Bytes} {es : List ConnectionEvent}
    (h : WellDriven parseUrl serve (new serverName) es) {before after : List Callback}
    {c : Callback} (hafter : callbacks es = before ++ c :: after) {phase : Phase}
    (hphase : Phase.idle.after before = some phase) : ∃ next, phase.next c = some next := by
  have hsome := h.ordered
  rw [hafter] at hsome
  exact Phase.next_of_after hsome hphase

/-- Where no message begins after a last one, every callback is served before the
completion of a last one, and its message is within the table. -/
theorem capped_of_noneBegun {serverName : Bytes} {es : List ConnectionEvent}
    (h : WellDriven parseUrl serve (new serverName) es) (hnone : NoneBegunAfterLast es)
    {before : List Callback} {c : Callback} {n : HTTPConnection}
    (hs : Serves parseUrl serve (new serverName) es before c n) :
    true ∉ (lastMarks before).marks ∧ messagesBegun (before ++ [c]) ≤ maxRequests ∧
      Capped before n.queue := by
  obtain ⟨hcapped, after, hafter⟩ := capped_serves h hs
  obtain ⟨phase, hphase, hcons, -⟩ := hcapped.consistent
  obtain ⟨next, hnext⟩ := next_of_serves h hafter hphase
  have hearlier : ∀ bs allocated as, before = bs ++ .messageBegin allocated :: as →
      true ∉ (lastMarks bs).marks := fun bs allocated as he =>
    hnone bs allocated (as ++ c :: after) (by simp [hafter, he])
  have hlast : true ∉ (lastMarks before).marks := by
    by_cases hidle : phase = .idle
    · subst hidle
      cases c with
      | messageBegin allocated => exact hnone before allocated after hafter
      | _ => simp [Phase.next] at hnext
    · exact no_last_of_noneBegun hearlier hphase hidle
  have hlt := completed_lt_of_no_last hlast
  have hbegun := messagesBegun_eq hphase
  refine ⟨hlast, ?_, hcapped⟩
  rw [messagesBegun_concat]
  cases c with
  | messageBegin allocated =>
    obtain ⟨rfl, -⟩ := Phase.next_messageBegin.mp hnext
    simp only [if_true] at hbegun ⊢
    omega
  | _ =>
    simp only
    split at hbegun <;> omega

/-- On every connection at most `MAX_REQUESTS` requests are begun, nothing is
stored, parsed or served after a last one and every index is in range, if and
only if no message begins after the completion of one that was not kept alive
or was the 100th. -/
theorem requestCap_iff_noneBegunAfterLast (serverName : Bytes) (es : List ConnectionEvent)
    (h : WellDriven parseUrl serve (new serverName) es) :
    RequestCap parseUrl serve (new serverName) es ↔ NoneBegunAfterLast es := by
  constructor
  · intro hcap before allocated after he hmem
    obtain ⟨n, hn⟩ := h.served before _ after he
    obtain ⟨hcapped, -⟩ := capped_serves h hn
    obtain ⟨i, hi⟩ := List.getElem?_of_mem hmem
    obtain ⟨r, hr, hlast⟩ := hcapped.slots i true hi
    obtain ⟨phase, -, hcons, -⟩ := hcapped.consistent
    refine hcap.stop before _ n hn ⟨i, r, ?_, hr, hlast⟩
    have := (List.getElem?_eq_some_iff.mp hi).1
    rw [length_marks] at this
    rw [hcons.completed]
    exact this
  · intro hnone
    refine ⟨fun before c n hs => (capped_of_noneBegun h hnone hs).2.1, ?_, ?_⟩
    · rintro before c n hs ⟨i, r, hi, hr, hlast⟩
      obtain ⟨hno, -, hcapped⟩ := capped_of_noneBegun h hnone hs
      obtain ⟨phase, -, hcons, -⟩ := hcapped.consistent
      rw [hcons.completed, ← length_marks] at hi
      obtain ⟨r', hr', hlast'⟩ := hcapped.slots i _ (List.getElem?_eq_getElem hi)
      cases Option.some.inj (Option.some.inj (hr.symm.trans hr'))
      exact hno ((hlast'.symm.trans hlast) ▸ List.getElem_mem hi)
    · intro before c n hs i hi
      obtain ⟨hno, -, hcapped⟩ := capped_of_noneBegun h hnone hs
      obtain ⟨phase, -, hcons, -⟩ := hcapped.consistent
      have hlt : n.queue.incomingIndex < maxRequests := by
        rw [hcons.completed]
        exact completed_lt_of_no_last hno
      have hout := hcapped.outgoing
      cases c with
      | messageComplete pos =>
        simp only [requestIndices, List.mem_append, List.mem_singleton] at hi
        rcases hi with hi | rfl
        · split at hi
          · rw [List.mem_singleton.mp hi]
            exact hlt
          · cases hi
        · omega
      | _ =>
        rw [List.mem_singleton.mp hi]
        exact hlt

/-! ### Runs of accepted calls -/

theorem serves_head {call : Call} {cs ds : List Callback} {c : Callback}
    {start n : HTTPConnection} (es : List ConnectionEvent) (hcall : call.callbacks = cs ++ c :: ds)
    (hn : run (Rapp.step parseUrl (onNewRequest serve))
      (.append call.data call.resized :: cs.map .callback) start = .ok n) :
    Serves parseUrl serve start (.read (.got call) :: es) cs c n :=
  ⟨[], call, es, start, cs, ds, rfl, rfl, hcall, hn, rfl⟩

theorem serves_tail {e : ConnectionEvent} {es : List ConnectionEvent} {before : List Callback}
    {c : Callback} {start next n : HTTPConnection} (he : start.step parseUrl serve e = .ok next)
    (h : Serves parseUrl serve next es before c n) :
    Serves parseUrl serve start (e :: es) (callbacks [e] ++ before) c n := by
  obtain ⟨xs, call, ys, m, cs, ds, rfl, hm, hcall, hn, rfl⟩ := h
  refine ⟨e :: xs, call, ys, m, cs, ds, rfl, ?_, hcall, hn, ?_⟩
  · rw [CallOutcome.run_cons, he]
    exact hm
  · rw [callbacks_cons e xs, List.append_assoc]

/-- The states inside a call: every proper prefix of its callbacks has been served. -/
theorem run_callbacks_front {call : Call} {cs ds : List Callback} {c : Callback}
    {m n : HTTPConnection} (hcall : call.callbacks = cs ++ c :: ds)
    (h : run (Rapp.step parseUrl (onNewRequest serve))
      (.append call.data call.resized :: call.callbacks.dropLast.map .callback) m = .ok n) :
    ∃ k, run (Rapp.step parseUrl (onNewRequest serve))
      (.append call.data call.resized :: cs.map .callback) m = .ok k := by
  rw [hcall, List.dropLast_append_cons, List.map_append, ← List.cons_append] at h
  obtain ⟨k, hk, -⟩ := CallOutcome.run_front _ h
  exact ⟨k, hk⟩

theorem run_step_of_calls {start m : HTTPConnection} {calls : List Call}
    (h : run (appendData parseUrl (onNewRequest serve)) calls start = .ok m) :
    run (step parseUrl serve) (calls.map fun call => .read (.got call)) start = .ok m := by
  induction calls generalizing start with
  | nil => exact h
  | cons call calls ih =>
    obtain ⟨k, hk, hrest⟩ := Outcome.bind_eq_ok.mp h
    exact Outcome.bind_eq_ok.mpr ⟨k, Outcome.recover_eq_ok.mpr (.inl hk), ih hrest⟩

/-- The connection events of calls, the last one apart. -/
def gotCalls (calls : List Call) (last : Call) : List ConnectionEvent :=
  calls.map (fun call => .read (.got call)) ++ [.read (.got last)]

theorem callbacks_gotCalls (calls : List Call) (last : Call) :
    callbacks (gotCalls calls last) = calls.flatMap Call.callbacks ++ last.callbacks := by
  simp [gotCalls, callbacks, List.flatMap_map]

/-- Every callback of accepted calls is served, and those of a last call but its last one. -/
theorem serves_of_calls {start m n : HTTPConnection} {calls : List Call} {last : Call}
    (hm : run (appendData parseUrl (onNewRequest serve)) calls start = .ok m)
    (hn : run (Rapp.step parseUrl (onNewRequest serve))
      (.append last.data last.resized :: last.callbacks.dropLast.map .callback) m = .ok n)
    {before after : List Callback} {c : Callback}
    (he : callbacks (gotCalls calls last) = before ++ c :: after) :
    ∃ k, Serves parseUrl serve start (gotCalls calls last) before c k := by
  induction calls generalizing start before with
  | nil =>
    cases hm
    rw [callbacks_gotCalls, List.flatMap_nil, List.nil_append] at he
    obtain ⟨k, hk⟩ := run_callbacks_front he hn
    exact ⟨k, serves_head [] he hk⟩
  | cons call calls ih =>
    obtain ⟨k, hk, hrest⟩ := Outcome.bind_eq_ok.mp hm
    obtain ⟨l, hl, -⟩ := Outcome.bind_eq_ok.mp hk
    have hall : call.callbacks ++ callbacks (gotCalls calls last) = before ++ c :: after := by
      rw [← he, callbacks_gotCalls, callbacks_gotCalls]
      simp
    have hstep : start.step parseUrl serve (.read (.got call)) = .ok k :=
      Outcome.recover_eq_ok.mpr (.inl hk)
    have htail : ∀ bs, callbacks (gotCalls calls last) = bs ++ c :: after →
        ∃ n, Serves parseUrl serve start (gotCalls (call :: calls) last) (call.callbacks ++ bs)
          c n := by
      intro bs hbs
      obtain ⟨n', hn'⟩ := ih hrest hbs
      have hserves := serves_tail hstep hn'
      rw [callbacks_got] at hserves
      exact ⟨n', hserves⟩
    rcases List.append_eq_append_iff.mp hall with ⟨bs, rfl, hb⟩ | ⟨cs, hcs, hb⟩
    · exact htail bs hb
    · cases cs with
      | nil =>
        rw [List.append_nil] at hcs
        have hlater := htail [] hb.symm
        rw [List.append_nil, hcs] at hlater
        exact hlater
      | cons c' ds =>
        obtain ⟨rfl, -⟩ := List.cons.inj hb
        rw [Call.events, hcs, List.map_append, ← List.cons_append] at hl
        obtain ⟨k', hk', -⟩ := CallOutcome.run_front _ hl
        exact ⟨k', serves_head _ hcs hk'⟩

/-- Of accepted calls and a last one, only the last one can fail. -/
theorem failed_of_calls {start m k l : HTTPConnection} {calls : List Call} {last call : Call}
    (hm : run (appendData parseUrl (onNewRequest serve)) calls start = .ok m)
    {xs ys : List ConnectionEvent} (he : gotCalls calls last = xs ++ .read (.got call) :: ys)
    (hk : run (step parseUrl serve) xs start = .ok k)
    (hfail : appendData parseUrl (onNewRequest serve) call k = .failed l) : ys = [] := by
  induction calls generalizing start xs with
  | nil =>
    cases xs with
    | nil =>
      obtain ⟨-, rfl⟩ := List.cons.inj he
      rfl
    | cons x xs => simp [gotCalls] at he
  | cons other calls ih =>
    obtain ⟨j, hj, hrest⟩ := Outcome.bind_eq_ok.mp hm
    cases xs with
    | nil =>
      obtain ⟨hcall, -⟩ := List.cons.inj he
      cases hcall
      cases hk
      cases hj.symm.trans hfail
    | cons x xs =>
      obtain ⟨rfl, he'⟩ := List.cons.inj he
      obtain ⟨i, hi, hxs⟩ := Outcome.bind_eq_ok.mp hk
      have hstep : start.step parseUrl serve (.read (.got other)) = .ok j :=
        Outcome.recover_eq_ok.mpr (.inl hj)
      cases hstep.symm.trans hi
      exact ih hrest he' hxs

/-- Accepted calls, and a last one whose callbacks but the last are served. -/
theorem wellDriven_of_calls {start m n : HTTPConnection} {calls : List Call} {last : Call}
    (ho : (Phase.idle.after (calls.flatMap Call.callbacks ++ last.callbacks)).isSome)
    (hm : run (appendData parseUrl (onNewRequest serve)) calls start = .ok m)
    (hn : run (Rapp.step parseUrl (onNewRequest serve))
      (.append last.data last.resized :: last.callbacks.dropLast.map .callback) m = .ok n) :
    WellDriven parseUrl serve start
      (calls.map (fun call => .read (.got call)) ++ [.read (.got last)]) := by
  refine ⟨?_, fun before c after he => serves_of_calls hm hn he,
    fun xs call ys k l he hk hfail => ?_⟩
  · rw [← callbacks_gotCalls] at ho
    exact ho
  · rw [failed_of_calls hm he hk hfail]
    rfl

/-- One request that keeps the connection alive and one that does not. -/
theorem requestCap_twoGets :
    RequestCap parsePath (fun _ _ => []) (new (ascii "rapp"))
        [.read (.got (wholeGet true)), .read (.got (wholeGet false))] ↔
      NoneBegunAfterLast [.read (.got (wholeGet true)), .read (.got (wholeGet false))] := by
  have hrun : ∃ n, (run (appendData parsePath (onNewRequest fun _ _ => [])) [wholeGet true]
      (new (ascii "rapp"))).bind (run (Rapp.step parsePath (onNewRequest fun _ _ => []))
        (.append (wholeGet false).data (wholeGet false).resized ::
          (wholeGet false).callbacks.dropLast.map .callback)) = .ok n ∧
      n.queue.incomingIndex = 1 :=
    Outcome.exists_of_toOption (by decide +kernel)
  obtain ⟨n, hn, -⟩ := hrun
  obtain ⟨m, hm, hlast⟩ := Outcome.bind_eq_ok.mp hn
  have hdriven := wellDriven_of_calls (by decide) hm hlast
  exact requestCap_iff_noneBegunAfterLast _ _ hdriven

/-- The call that begins the request after the hundredth. -/
def beginGet : Call := { wholeGet true with callbacks := [.messageBegin true] }

/-- After a hundred requests the next one is written behind the table. -/
theorem requestCap_exceeded :
    WellDriven parsePath (fun _ _ => []) (new (ascii "rapp"))
      ((List.replicate 100 (wholeGet true)).map (fun call => .read (.got call)) ++
        [.read (.got beginGet)]) ∧
    ¬ RequestCap parsePath (fun _ _ => []) (new (ascii "rapp"))
      ((List.replicate 100 (wholeGet true)).map (fun call => .read (.got call)) ++
        [.read (.got beginGet)]) := by
  have hrun : ∃ n, (run (appendData parsePath (onNewRequest fun _ _ => []))
      (List.replicate 100 (wholeGet true)) (new (ascii "rapp"))).bind
        (run (Rapp.step parsePath (onNewRequest fun _ _ => []))
          (.append beginGet.data beginGet.resized ::
            beginGet.callbacks.dropLast.map .callback)) = .ok n ∧
      n.queue.incomingIndex = 100 :=
    Outcome.exists_of_toOption (by decide +kernel)
  obtain ⟨n, hn, hindex⟩ := hrun
  obtain ⟨m, hm, hlast⟩ := Outcome.bind_eq_ok.mp hn
  have hdriven := wellDriven_of_calls (by decide +kernel) hm hlast
  refine ⟨hdriven, fun hcap => ?_⟩
  have hlt := hcap.index _ (.messageBegin true) n
    ⟨_, beginGet, [], m, [], [], rfl, run_step_of_calls hm, rfl, hlast, rfl⟩
    100 (by simp [requestIndices, hindex])
  exact absurd hlt (by decide)

end HTTPConnection

end Rapp

import Mathlib.Data.List.ReduceOption
import Rapp.QueueRun

/-!
# The order of the queue

`http_request_queue_get_next_request` beside a first-in first-out queue of the
completed requests. A request is known by the slot that its pointer is stored
in; calls and callbacks come in any order, and a failed callback does not end
the run. What was completed and what was returned is recorded beside the queue.
-/
namespace Rapp

open CallOutcome (Outcome run Always Admitted)

/-- A request and the slot `on_message_begin` stored it in. -/
abbrev SlotRequest := Nat × HTTPRequest

structure QueueLog where
  completed : List SlotRequest
  returned : List (Option SlotRequest)

/-- A call may come between any two callbacks, as one from the new-request callback does. -/
inductive QueueInput where
  | event (e : Event)
  | getNext
  deriving DecidableEq

abbrev LoggedQueue := Machine QueueLog

namespace LoggedQueue

def new : LoggedQueue := ⟨HTTPRequestQueue.new, 0, ⟨[], []⟩⟩

/-- The new-request callback sees the request that was counted. -/
def noteCompleted (m : LoggedQueue) : Result LoggedQueue :=
  let slot := m.queue.incomingIndex - 1
  let counted := m.queue.requests[slot]?.join.map fun request => (slot, request)
  .ok { m with data := { m.data with completed := m.data.completed ++ counted.toList } }

def getNext (m : LoggedQueue) : Result LoggedQueue :=
  match m.queue.getNextRequest with
  | .error why => .undefined why
  | .ok (pointer, queue) =>
    let result := pointer.map fun request => (m.queue.outgoingIndex, request)
    .ok { m with
      queue := queue
      data := { m.data with returned := m.data.returned ++ [result] } }

def step (parseUrl : ParseUrl) (i : QueueInput) (m : LoggedQueue) : Result LoggedQueue :=
  match i with
  | .event e => (Rapp.step parseUrl noteCompleted e m).recover id
  | .getNext => m.getNext

/-- The requests that were handed out. -/
def served (m : LoggedQueue) : List SlotRequest := m.data.returned.reduceOption

/-- The completed requests that were not. -/
def pending (m : LoggedQueue) : List SlotRequest := m.data.completed.drop m.served.length

/-- A call returns the oldest pending request, and without one NULL, the queue unchanged. -/
def AnswersPending (m : LoggedQueue) : Prop :=
  ∃ pointer queue, m.queue.getNextRequest = .ok (pointer, queue) ∧
    pointer.map (fun request => (m.queue.outgoingIndex, request)) = m.pending.head? ∧
    (m.pending = [] → queue = m.queue)

/-- What is handed out is what was completed, in that order. -/
structure KeepsOrder (parseUrl : ParseUrl) (is : List QueueInput) : Prop where
  order : Always (step parseUrl) (fun m => m.served <+: m.data.completed) new is
  answers : Admitted (step parseUrl) (fun m i => i = .getNext → m.AnswersPending) new is

/-- More requests have been completed than calls were made. -/
def HasPending (m : LoggedQueue) : Prop := m.data.returned.length < m.data.completed.length

end LoggedQueue

def QueueInput.event? : QueueInput → Option Event
  | .event e => some e
  | .getNext => none

def callbacksOfInputs (is : List QueueInput) : List Callback :=
  callbacksOf (is.filterMap QueueInput.event?)

@[simp] theorem callbacksOfInputs_append (xs ys : List QueueInput) :
    callbacksOfInputs (xs ++ ys) = callbacksOfInputs xs ++ callbacksOfInputs ys := by
  simp [callbacksOfInputs]
@[simp] theorem callbacksOfInputs_getNext : callbacksOfInputs [.getNext] = [] := rfl
@[simp] theorem callbacksOfInputs_data (data : ByteBlock.Bytes) (resized : Option Nat) :
    callbacksOfInputs [.event (.append data resized)] = [] := rfl
@[simp] theorem callbacksOfInputs_callback (c : Callback) :
    callbacksOfInputs [.event (.callback c)] = [c] := rfl

/-! ### What a callback writes -/

namespace HTTPRequestQueue

/-- Only the incoming slot differs. -/
structure SlotOnly (queue next : HTTPRequestQueue) : Prop where
  incoming : next.incomingIndex = queue.incomingIndex
  outgoing : next.outgoingIndex = queue.outgoingIndex
  others : ∀ j, j ≠ queue.incomingIndex → next.requests[j]? = queue.requests[j]?

theorem SlotOnly.refl (queue : HTTPRequestQueue) : SlotOnly queue queue :=
  ⟨rfl, rfl, fun _ _ => rfl⟩

theorem SlotOnly.trans {queue q next : HTTPRequestQueue} (h : SlotOnly queue q)
    (h' : SlotOnly q next) : SlotOnly queue next where
  incoming := h'.incoming.trans h.incoming
  outgoing := h'.outgoing.trans h.outgoing
  others := fun j hj => (h'.others j (by rw [h.incoming]; exact hj)).trans (h.others j hj)

theorem slotOnly_set (queue : HTTPRequestQueue) (pointer : Option HTTPRequest) :
    SlotOnly queue
      { queue with requests := queue.requests.setIfInBounds queue.incomingIndex pointer } where
  incoming := rfl
  outgoing := rfl
  others := fun j hj => by simp [Ne.symm hj]

/-- Only the incoming slot differs, and it holds a request. -/
structure Filled (queue next : HTTPRequestQueue) : Prop where
  slot : SlotOnly queue next
  filled : ∃ r, next.current = some r

theorem filled_store {queue : HTTPRequestQueue} (h : queue.incomingIndex < maxRequests)
    (r : HTTPRequest) : Filled queue (queue.store r) :=
  ⟨slotOnly_set queue (some r), r, current_store r h⟩

/-- The buffer and the header counter are no part of it. -/
theorem Filled.congr {queue q next : HTTPRequestQueue} (h : Filled queue q)
    (hr : next.requests = q.requests) (hi : next.incomingIndex = q.incomingIndex)
    (ho : next.outgoingIndex = q.outgoingIndex) : Filled queue next where
  slot := ⟨hi.trans h.slot.incoming, ho.trans h.slot.outgoing, fun j hj => by
    rw [hr]; exact h.slot.others j hj⟩
  filled := by rw [current_congr hr hi]; exact h.filled

theorem withIncoming_holds {P : HTTPRequestQueue → Prop} {queue : HTTPRequestQueue}
    {body : Option HTTPRequest → Result HTTPRequestQueue}
    (h : ∀ hi : queue.incomingIndex < maxRequests,
      (body queue.requests[queue.incomingIndex]).Holds P) : (queue.withIncoming body).Holds P := by
  unfold withIncoming
  split
  · rename_i hi
    exact h hi
  · trivial

/-- Using the request of the incoming slot, whatever the use returns. -/
theorem onIncoming_holds (queue : HTTPRequestQueue) (use : HTTPRequest → Result HTTPRequest) :
    (queue.withIncoming fun pointer => queue.onRequest pointer use).Holds (Filled queue) := by
  apply withIncoming_holds
  intro hi
  cases queue.requests[queue.incomingIndex] with
  | none => trivial
  | some r =>
    simp only [onRequest]
    cases use r with
    | ok s => exact filled_store hi s
    | failed s => exact filled_store hi s
    | undefined why => trivial

theorem dropHeaders_holds (nread : Nat) (shrunk : Option Nat) {queue q : HTTPRequestQueue}
    (h : Filled queue q) : (q.dropHeaders nread shrunk).Holds (Filled queue) := by
  simp only [dropHeaders]
  split
  · exact h.congr rfl rfl rfl
  · cases shrunk with
    | none => exact h.congr rfl rfl rfl
    | some address => exact h.congr rfl rfl rfl

theorem Filled.trans {queue q next : HTTPRequestQueue} (h : Filled queue q)
    (h' : Filled q next) : Filled queue next := ⟨h.slot.trans h'.slot, h'.filled⟩

theorem onHeadersComplete_holds (head : ParserHead) (memory : HeadersMemory)
    (queue : HTTPRequestQueue) :
    (queue.onHeadersComplete head memory).Holds (Filled queue) := by
  refine Outcome.Holds.bind (P := Filled queue) (onIncoming_holds queue _) (fun q hq => ?_)
    fun q hq => hq
  refine Outcome.Holds.bind (P := Filled queue) (dropHeaders_holds _ _ hq) (fun q hq => ?_)
    fun q hq => hq
  split
  · exact (onIncoming_holds q _).mono fun next hnext => hq.trans hnext
  · exact hq

/-- A request in the incoming slot stays there. -/
structure Keeps (queue next : HTTPRequestQueue) : Prop where
  slot : SlotOnly queue next
  filled : (∃ r, queue.current = some r) → ∃ r, next.current = some r

theorem Keeps.refl (queue : HTTPRequestQueue) : Keeps queue queue := ⟨.refl queue, id⟩

theorem Filled.keeps {queue next : HTTPRequestQueue} (h : Filled queue next) : Keeps queue next :=
  ⟨h.slot, fun _ => h.filled⟩

end HTTPRequestQueue

open HTTPRequestQueue

theorem grow_slotOnly (data : ByteBlock.Bytes) (resized : Option Nat) (queue : HTTPRequestQueue) :
    (queue.grow data resized).Holds fun q => q.requests = queue.requests ∧
      q.incomingIndex = queue.incomingIndex ∧ q.outgoingIndex = queue.outgoingIndex := by
  cases resized with
  | none => exact ⟨rfl, rfl, rfl⟩
  | some address => exact ⟨rfl, rfl, rfl⟩

variable {parseUrl : ParseUrl}

/-- The start of a message fills the slot or empties it. -/
theorem messageBegin_holds (allocated : Bool) (queue : HTTPRequestQueue) :
    (queue.onMessageBegin allocated).Holds (SlotOnly queue) := by
  apply withIncoming_holds
  intro hi
  cases allocated with
  | true => exact slotOnly_set queue _
  | false => exact slotOnly_set queue _

theorem onMessageComplete_ne_failed {queue : HTTPRequestQueue} (next : HTTPRequestQueue) :
    queue.onMessageComplete ≠ .failed next := by
  simp only [onMessageComplete]
  split
  · split <;> simp
  · simp

/-- The callbacks inside a message. -/
theorem handle_keeps {c : Callback} (hb : ∀ allocated, c ≠ .messageBegin allocated)
    (hc : ∀ pos, c ≠ .messageComplete pos) (input : Nat) (queue : HTTPRequestQueue) :
    (handle parseUrl c input queue).Holds (Keeps queue) := by
  cases c with
  | messageBegin allocated => exact absurd rfl (hb allocated)
  | url pos data =>
    simp only [handle, onUrl]
    apply withIncoming_holds
    intro hi
    cases hp : parseUrl data with
    | none => exact .refl queue
    | some fields =>
      have := onIncoming_holds queue fun r =>
        let offset := pointerDifference (input + pos) queue.base
        .ok (setUrlFields offset fields (r.setUrlRange offset data.length))
      rw [withIncoming, dif_pos hi] at this
      exact this.mono fun q hq => hq.keeps
  | headerField pos data =>
    simp only [handle, onHeaderField]
    apply withIncoming_holds
    intro hi
    split
    · exact .refl queue
    · have := onIncoming_holds queue fun r =>
        r.setHeaderKeyRange queue.currentHeader (pointerDifference (input + pos) queue.base)
          data.length
      rw [withIncoming, dif_pos hi] at this
      exact this.mono fun q hq => hq.keeps
  | headerValue pos data =>
    refine (onIncoming_holds queue _).map fun q hq => Filled.keeps ?_
    exact hq.congr rfl rfl rfl
  | headersComplete pos head memory =>
    exact (onHeadersComplete_holds head memory queue).mono fun q hq => hq.keeps
  | body pos data => exact (onIncoming_holds queue _).mono fun q hq => hq.keeps
  | messageComplete pos => exact absurd rfl (hc pos)

namespace LoggedQueue

/-- What is kept while every call is made with a request pending: the slots
below the incoming index hold what was completed, the calls have returned the
first of it, and behind a header block the slot under way is filled. -/
structure Kept (phase : Phase) (m : LoggedQueue) : Prop where
  length : m.data.completed.length = m.queue.incomingIndex
  slots : ∀ j, j < m.queue.incomingIndex → ∃ r, m.queue.requests[j]? = some (some r) ∧
    m.data.completed[j]? = some (j, r)
  current : phase = .body → ∃ r, m.queue.current = some r
  calls : m.queue.outgoingIndex = m.data.returned.length
  returned : m.data.returned = (m.data.completed.take m.data.returned.length).map some

theorem kept_new : Kept .idle new := ⟨rfl, nofun, nofun, rfl, rfl⟩

/-- Another queue with the completed slots, the record as it was. -/
theorem Kept.setQueue {phase next : Phase} {m : LoggedQueue} (h : Kept phase m)
    {queue : HTTPRequestQueue} (hs : SlotOnly m.queue queue)
    (hc : next = .body → ∃ r, queue.current = some r) : Kept next (m.setQueue queue) where
  length := h.length.trans hs.incoming.symm
  slots := fun j hj => by
    rw [Machine.setQueue_queue, hs.incoming] at hj
    rw [Machine.setQueue_queue, hs.others j (by omega)]
    exact h.slots j hj
  current := hc
  calls := hs.outgoing.trans h.calls
  returned := h.returned

/-- The counters and the new-request callback at the end of a message. -/
theorem kept_messageComplete {m : LoggedQueue} (h : Kept .body m) {queue : HTTPRequestQueue}
    (hq : m.queue.onMessageComplete = .ok queue) {n : LoggedQueue}
    (hn : noteCompleted (m.setQueue queue) = .ok n) : Kept .idle n := by
  obtain ⟨r, hr⟩ := h.current rfl
  obtain ⟨hi, hget⟩ := HTTPRequestQueue.current_eq_some.mp hr
  obtain ⟨requests, rfl, hsame, hlast⟩ := HTTPRequestQueue.onMessageComplete_ok hq
  have hslots : ∃ s, requests[m.queue.incomingIndex]? = some (some s) ∧
      ∀ j, j ≠ m.queue.incomingIndex → requests[j]? = m.queue.requests[j]? := by
    by_cases hl : m.queue.incomingIndex + 1 = maxRequests
    · obtain ⟨s, -, rfl⟩ := hlast hl
      exact ⟨s.setLast true, by simp [hi], fun j hj => by simp [Ne.symm hj]⟩
    · rw [hsame hl]
      exact ⟨r, by simp [hi, hget], fun j _ => rfl⟩
  obtain ⟨s, hs, hothers⟩ := hslots
  have hcounted : n = { m with
      queue := { m.queue with
        requests := requests, incomingIndex := m.queue.incomingIndex + 1, currentHeader := 0 }
      data := { m.data with
        completed := m.data.completed ++ [(m.queue.incomingIndex, s)] } } := by
    rw [← Outcome.ok.inj hn]
    simp [Machine.setQueue, hs]
  subst hcounted
  have hlen := h.length
  refine ⟨by simp [hlen], fun j hj => ?_, nofun, h.calls, ?_⟩
  · by_cases hjm : j = m.queue.incomingIndex
    · subst hjm
      exact ⟨s, hs, by simp [← hlen]⟩
    · have hlt : j < m.queue.incomingIndex := by
        simp only at hj
        omega
      obtain ⟨r, hr, hc⟩ := h.slots j hlt
      exact ⟨r, (hothers j hjm).trans hr, by
        simp only
        rw [List.getElem?_append_left (by omega)]
        exact hc⟩
  · have hle : m.data.returned.length ≤ m.data.completed.length := by
      have := congrArg List.length h.returned
      simp only [List.length_map, List.length_take] at this
      omega
    simp only
    rw [List.take_append_of_le_length hle]
    exact h.returned

/-- A callback that changes the slot under way, whether it succeeds or fails. -/
theorem Kept.map {phase next : Phase} {m n : LoggedQueue} (h : Kept phase m)
    {x : Result HTTPRequestQueue} (hx : x.Holds fun queue => SlotOnly m.queue queue ∧
      (next = .body → ∃ r, queue.current = some r))
    (hn : (x.map m.setQueue).recover id = .ok n) : Kept next n := by
  have hkept : (x.map m.setQueue).Holds (Kept next) :=
    hx.map fun queue hqueue => h.setQueue hqueue.1 hqueue.2
  exact (hkept.recover (fun _ hs => hs) fun _ hs => hs).ok hn

/-- The step lemma for the callbacks, one case for each part of a message. -/
theorem Kept.callback {phase next : Phase} {m n : LoggedQueue} (h : Kept phase m) {c : Callback}
    (hp : phase.next c = some next) (hn : step parseUrl (.event (.callback c)) m = .ok n) :
    Kept next n := by
  have hinside : (∀ allocated, c ≠ .messageBegin allocated) → (∀ pos, c ≠ .messageComplete pos) →
      (next = .body → phase = .body) →
      ((handle parseUrl c m.input m.queue).map m.setQueue).recover id = .ok n → Kept next n := by
    intro hb hc hbody hn
    refine h.map ((handle_keeps hb hc m.input m.queue).mono fun queue hqueue => ?_) hn
    exact ⟨hqueue.slot, fun hnext => hqueue.filled (h.current (hbody hnext))⟩
  cases c with
  | messageBegin allocated =>
    obtain ⟨-, rfl⟩ := Phase.next_messageBegin.mp hp
    refine h.map ((messageBegin_holds allocated m.queue).mono fun queue hqueue => ?_) hn
    exact ⟨hqueue, nofun⟩
  | url pos data =>
    obtain ⟨rfl, rfl⟩ := Phase.next_url.mp hp
    exact hinside nofun nofun nofun hn
  | headerField pos data =>
    obtain ⟨-, rfl⟩ := Phase.next_headerField.mp hp
    exact hinside nofun nofun id hn
  | headerValue pos data =>
    obtain ⟨-, rfl⟩ := Phase.next_headerValue.mp hp
    exact hinside nofun nofun id hn
  | headersComplete pos head memory =>
    refine h.map ((onHeadersComplete_holds head memory m.queue).mono fun queue hqueue => ?_) hn
    exact ⟨hqueue.slot, fun _ => hqueue.filled⟩
  | body pos data =>
    obtain ⟨rfl, rfl⟩ := Phase.next_body.mp hp
    exact hinside nofun nofun id hn
  | messageComplete pos =>
    obtain ⟨rfl, rfl⟩ := Phase.next_messageComplete.mp hp
    have hcounted : ∃ queue, m.queue.onMessageComplete = .ok queue ∧
        noteCompleted (m.setQueue queue) = .ok n := by
      simp only [step, Rapp.step, dispatch, handle] at hn
      cases hq : m.queue.onMessageComplete with
      | ok queue =>
        rw [hq] at hn
        exact ⟨queue, rfl, hn⟩
      | failed queue => exact absurd hq (onMessageComplete_ne_failed queue)
      | undefined why =>
        rw [hq] at hn
        cases hn
    obtain ⟨queue, hq, hnote⟩ := hcounted
    exact kept_messageComplete h hq hnote

theorem Kept.append {phase : Phase} {m n : LoggedQueue} (h : Kept phase m)
    {data : ByteBlock.Bytes} {resized : Option Nat}
    (hn : step parseUrl (.event (.append data resized)) m = .ok n) : Kept phase n := by
  have hkept : ((m.queue.grow data resized).map fun q =>
      { m with queue := q, input := q.base + m.queue.bufferLength }).Holds (Kept phase) := by
    refine (grow_slotOnly data resized m.queue).map ?_
    rintro queue ⟨hr, hi, ho⟩
    have hslot : SlotOnly m.queue queue := ⟨hi, ho, fun j _ => by rw [hr]⟩
    have hset := h.setQueue hslot fun hp => by
      rw [HTTPRequestQueue.current_congr hr hi]
      exact h.current hp
    exact ⟨hset.length, hset.slots, hset.current, hset.calls, hset.returned⟩
  exact (hkept.recover (fun _ hs => hs) fun _ hs => hs).ok hn

/-! ### What a call returns -/

theorem Kept.served_eq {phase : Phase} {m : LoggedQueue} (h : Kept phase m) :
    m.served = m.data.completed.take m.data.returned.length := by
  rw [served, h.returned]
  simp [List.reduceOption, List.filterMap_map]

theorem Kept.pending_eq {phase : Phase} {m : LoggedQueue} (h : Kept phase m) :
    m.pending = m.data.completed.drop m.data.returned.length := by
  have hle : m.data.returned.length ≤ m.data.completed.length := by
    have := congrArg List.length h.returned
    simp only [List.length_map, List.length_take] at this
    omega
  rw [pending, h.served_eq, List.length_take, Nat.min_eq_left hle]

/-- With a request pending the call returns it, without one the index moves on all the same. -/
theorem Kept.answersPending_iff {phase : Phase} {m : LoggedQueue} (h : Kept phase m) :
    m.AnswersPending ↔ m.HasPending := by
  rw [AnswersPending, HasPending, h.pending_eq]
  constructor
  · rintro ⟨pointer, queue, hget, -, hsame⟩
    by_contra hnone
    obtain ⟨-, -, rfl⟩ := HTTPRequestQueue.getNextRequest_ok hget
    have := congrArg HTTPRequestQueue.outgoingIndex
      (hsame (List.drop_eq_nil_of_le (by omega)))
    simp at this
  · intro hlt
    obtain ⟨r, hr, hc⟩ := h.slots m.data.returned.length (h.length ▸ hlt)
    obtain ⟨hi, hget⟩ := Vector.getElem?_eq_some_iff.mp hr
    refine ⟨some r, { m.queue with outgoingIndex := m.queue.outgoingIndex + 1 }, ?_, ?_, ?_⟩
    · simp only [HTTPRequestQueue.getNextRequest, h.calls, hi, dite_true, hget]
    · rw [List.head?_drop, hc, h.calls]
      rfl
    · intro hnil
      have := congrArg List.length hnil
      simp only [List.length_drop, List.length_nil] at this
      omega

/-- The call keeps the invariant when a request was pending. -/
theorem Kept.getNext {phase : Phase} {m n : LoggedQueue} (h : Kept phase m) (hlt : m.HasPending)
    (hn : m.getNext = .ok n) : Kept phase n := by
  obtain ⟨r, hr, hc⟩ := h.slots m.data.returned.length (h.length ▸ hlt)
  obtain ⟨hi, hget⟩ := Vector.getElem?_eq_some_iff.mp hr
  have hnext : m.queue.getNextRequest = .ok (some r,
      { m.queue with outgoingIndex := m.queue.outgoingIndex + 1 }) := by
    simp only [HTTPRequestQueue.getNextRequest, h.calls, hi, dite_true, hget]
  simp only [LoggedQueue.getNext, hnext] at hn
  cases hn
  refine ⟨h.length, h.slots, h.current, by simp [h.calls], ?_⟩
  simp only [Option.map_some, List.length_append, List.length_singleton, h.calls]
  rw [List.take_add_one, hc, List.map_append, ← h.returned]
  rfl

/-! ### Runs -/

/-- What is kept along a run whose callbacks come in the documented order. -/
def KeptAfter (is : List QueueInput) (m : LoggedQueue) : Prop :=
  ∃ phase, Phase.idle.after (callbacksOfInputs is) = some phase ∧ Kept phase m

theorem keptAfter_step {is : List QueueInput}
    (ho : (Phase.idle.after (callbacksOfInputs is)).isSome) {xs : List QueueInput}
    {i : QueueInput} {ys : List QueueInput} {m n : LoggedQueue} (he : is = xs ++ i :: ys)
    (h : KeptAfter xs m) (hc : i = .getNext → m.HasPending)
    (hn : step parseUrl i m = .ok n) : KeptAfter (xs ++ [i]) n := by
  obtain ⟨phase, hphase, hkept⟩ := h
  cases i with
  | getNext =>
    exact ⟨phase, by simpa using hphase, hkept.getNext (hc rfl) hn⟩
  | event e =>
    cases e with
    | append data resized => exact ⟨phase, by simpa using hphase, hkept.append hn⟩
    | callback c =>
      have hcut : callbacksOfInputs is = callbacksOfInputs xs ++ c :: callbacksOfInputs ys := by
        rw [he, List.append_cons, callbacksOfInputs_append, callbacksOfInputs_append]
        simp
      rw [hcut] at ho
      obtain ⟨next, hnext⟩ := Phase.next_of_after ho hphase
      refine ⟨next, ?_, hkept.callback hnext hn⟩
      rw [callbacksOfInputs_append, callbacksOfInputs_callback, Phase.after_concat, hphase]
      exact hnext

/-- The queue keeps the order exactly as long as it is never asked without a request pending. -/
theorem keepsOrder_iff {is : List QueueInput}
    (ho : (Phase.idle.after (callbacksOfInputs is)).isSome) :
    KeepsOrder parseUrl is ↔
      Admitted (step parseUrl) (fun m i => i = .getNext → m.HasPending) new is := by
  have hstart : KeptAfter [] new := ⟨.idle, rfl, kept_new⟩
  have hanswers : Admitted (step parseUrl) (fun m i => i = .getNext → m.AnswersPending) new is ↔
      Admitted (step parseUrl) (fun m i => i = .getNext → m.HasPending) new is := by
    refine CallOutcome.admitted_iff_of_history hstart ?_ ?_
    · rintro xs i ys m - ⟨phase, -, hkept⟩
      exact imp_congr_right fun _ => hkept.answersPending_iff
    · exact fun xs i ys m n he h hc hn => keptAfter_step ho he h hc hn
  constructor
  · exact fun h => hanswers.mp h.answers
  · intro h
    refine ⟨fun xs ys m he hm => ?_, hanswers.mpr h⟩
    obtain ⟨phase, -, hkept⟩ := CallOutcome.history_of_admitted hstart
      (fun xs i ys m n he h hc hn => keptAfter_step ho he h hc hn) h he hm
    rw [hkept.served_eq]
    exact List.take_prefix _ _

/-- A whole `GET` and the call that takes it. -/
def getThenTake : List QueueInput := (wholeGet true).events.map .event ++ [.getNext]

theorem keepsOrder_getThenTake : KeepsOrder parsePath getThenTake ↔
    Admitted (step parsePath) (fun m i => i = .getNext → m.HasPending) new getThenTake :=
  keepsOrder_iff (by decide)

/-- A call on the empty queue, and the request that is completed later is not returned. -/
theorem not_keepsOrder_early : ¬ KeepsOrder parsePath (.getNext :: getThenTake) := by
  intro h
  have hrun : ∃ m, run (step parsePath)
      (.getNext :: (wholeGet true).events.map .event) new = .ok m ∧
      (m.queue.outgoingIndex, (m.queue.requests[1]).isNone, m.data.returned.length,
        m.data.completed.length, m.served.length) = (1, true, 1, 1, 0) :=
    Outcome.exists_of_toOption (by decide +kernel)
  obtain ⟨m, hm, hafter⟩ := hrun
  simp only [Prod.mk.injEq, Option.isNone_iff_eq_none] at hafter
  obtain ⟨houtgoing, hslot, -, hcompleted, hserved⟩ := hafter
  obtain ⟨pointer, queue, hget, hfirst, -⟩ := h.answers _ _ [] m rfl hm rfl
  obtain ⟨hi, hpointer, -⟩ := HTTPRequestQueue.getNextRequest_ok hget
  have hnull : pointer = none := by
    rw [← hpointer]
    simpa only [houtgoing] using hslot
  rw [hnull, pending, hserved, List.drop_zero, Option.map_none, eq_comm,
    List.head?_eq_none_iff] at hfirst
  rw [hfirst] at hcompleted
  cases hcompleted

end LoggedQueue

end Rapp
